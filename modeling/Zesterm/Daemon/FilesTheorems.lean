/-
Zesterm.Daemon.FilesTheorems — when saves form a chain.

A save looks at the file, then writes a sibling, then renames it over the
file, and nothing keeps another save out in between. `Lawful` is what saves
promise over a run: each replaces the bytes its base is the hash of, its
answer is the hash of what now stands, a conflict names what stands, nothing
else changes the file, and what was only partly read is not saved over.
`Calm` is said of one call: a rename finds the file as the save saw it, and
a stat that fails is not of a file that is there. `lawful_iff` says that a
run is lawful exactly when all its calls are calm.
-/
import Zesterm.Daemon.Files

namespace Zesterm.Files

variable {sha256 : Sha256}

/-! ## What is promised -/

/-- A call, what it found and what it was answered with. -/
abbrev Called := Trace.Entry OneFile FileEvent (Option FileReply)

/-- The task whose call this was. -/
def taskOf (e : Called) : Option Task :=
  match e.call with
  | .call conn _ => e.state.tasks.lookup conn
  | _ => none

/-- What a call saved, if it was the rename of a save that succeeded. -/
def savedBy (e : Called) : Option Save :=
  match taskOf e, e.reply with
  | some (.writeRename save _ _), some (.written _ _ false []) => some save
  | _, _ => none

/-- The base a save has to give for what stands: the hash of a file, empty
for none. Nothing can be saved over what is no file. -/
def baseOf (sha256 : Sha256) : Option Node → Option Str
  | none => some []
  | some (.regular bytes _) => some (hashHex sha256 bytes)
  | some _ => none

/-- Each save replaced what its base is the hash of. -/
def Chained (sha256 : Sha256) : Option Str → List Save → Prop
  | _, [] => True
  | base, save :: rest =>
    base = some save.baseHash ∧ Chained sha256 (some (hashHex sha256 save.data)) rest

/-- What stands after a call. -/
def nodeAfter (sha256 : Sha256) (e : Called) : Option Node := (e.state.step sha256 e.call).1.node

/-- A history of the calls on a file, of which at first there stood `start`,
in which the saves form a chain. -/
structure Lawful (sha256 : Sha256) (start : Option Node) (h : List Called) : Prop where
  chain : Chained sha256 (baseOf sha256 start) (h.filterMap savedBy)
  saved : ∀ e ∈ h, ∀ save, savedBy e = some save →
    (∃ path, e.reply = some (.written path (hashHex sha256 save.data) false [])) ∧
      ∃ readonly, nodeAfter sha256 e = some (.regular save.data readonly)
  conflict : ∀ e ∈ h, ∀ path hash error, e.reply = some (.written path hash true error) →
    baseOf sha256 e.state.node = some hash
  kept : ∀ e ∈ h, savedBy e = none → nodeAfter sha256 e = e.state.node
  truncated : Trace.Each (fun before w => ∀ r ∈ before, ∀ path data binary hash size readonly error,
    r.reply = some (.contents path data true binary hash size readonly error) →
      ∀ save, savedBy w = some save → save.baseHash ≠ hash) h

/-- What a look at the file finds: that there is none, or a file of some
hash. -/
def lookOf (sha256 : Sha256) : Option Node → Option (Option Str)
  | none => some none
  | some (.regular bytes _) => some (some (hashHex sha256 bytes))
  | some _ => none

/-- A rename finds what the save saw, and a stat that fails is not of a file
that is there. -/
def Calm (sha256 : Sha256) (e : Called) : Prop :=
  (∀ conn save readonly seen, e.call = .call conn none →
    e.state.tasks.lookup conn = some (.writeRename save readonly seen) →
    e.state.node ≠ some .directory → lookOf sha256 e.state.node = some seen) ∧
  ∀ conn fault save, e.call = .call conn (some fault) →
    e.state.tasks.lookup conn = some (.writeStat save) → save.baseHash ≠ [] → e.state.node = none

/-! ## What a call does -/

/-- A save that looked found its base. -/
def Task.Checked : Task → Prop
  | .writeTmp save _ seen | .writeMode save _ seen | .writeRename save _ seen =>
    seen = none ∧ save.baseHash = [] ∨ seen = some save.baseHash ∧ save.baseHash ≠ []
  | _ => True

/-- What comes next has. -/
def Next.Checked : Next → Prop
  | .call task => task.Checked
  | .reply _ => True

namespace OneFile

variable {s : OneFile} {task : Task} {conn : Nat} {fault : Option Fault} {event : FileEvent}

/-- The file and the requests before any. -/
def new (shown : Str) (node : Option Node) : OneFile := { shown, node }

theorem hashHex_ne_nil (bytes : List UInt8) : hashHex sha256 bytes ≠ [] := by
  intro h
  have hlen := congrArg List.length h
  simp [hashHex, hexEncode] at hlen

@[simp] theorem node_begin (s : OneFile) (conn : Nat) (task : Task) : (s.begin conn task).node = s.node := by
  unfold begin
  split <;> rfl

@[simp] theorem node_advance (s : OneFile) (conn : Nat) (next : Next) :
    (s.advance conn next).1.node = s.node := by
  cases next <;> rfl

/-- Every task has. -/
def Checked (s : OneFile) : Prop := ∀ conn task, s.tasks.lookup conn = some task → task.Checked

theorem checked_insert (h : s.Checked) (conn : Nat) (ht : task.Checked) :
    ({ s with tasks := s.tasks.insert conn task } : OneFile).Checked := by
  intro conn' task' hlookup
  rw [Table.lookup_insert_eq] at hlookup
  split at hlookup
  · obtain rfl := Option.some.inj hlookup
    exact ht
  · exact h conn' task' hlookup

theorem checked_begin (h : s.Checked) (conn : Nat) (ht : task.Checked) :
    (s.begin conn task).Checked := by
  unfold begin
  split
  · exact h
  · exact checked_insert h conn ht

theorem checked_advance (h : s.Checked) (conn : Nat) {next : Next} (hn : next.Checked) :
    (s.advance conn next).1.Checked := by
  cases next with
  | call task => exact checked_insert h conn hn
  | reply r =>
    intro conn' task' hlookup
    rw [advance, Table.lookup_erase_eq] at hlookup
    split at hlookup
    · cases hlookup
    · exact h conn' task' hlookup

theorem checked_perform (h : s.Checked) (conn : Nat) (fault : Option Fault) (ht : task.Checked) :
    (s.perform sha256 conn fault task).1.Checked := by
  cases task with
  | readResolve route =>
    refine checked_advance h conn ?_
    unfold readResolve
    split
    · trivial
    · split <;> trivial
  | readStat =>
    refine checked_advance h conn ?_
    unfold readStat
    split <;> trivial
  | readOpen size readonly =>
    refine checked_advance h conn ?_
    unfold readOpen
    split <;> trivial
  | writeResolve route save =>
    refine checked_advance h conn ?_
    unfold writeResolve
    split
    · trivial
    · split
      · trivial
      · trivial
      · split <;> trivial
  | writeParent route save =>
    refine checked_advance h conn ?_
    unfold writeParent
    split <;> trivial
  | writeStat save =>
    refine checked_advance h conn ?_
    unfold writeStat
    split
    · trivial
    · trivial
    · trivial
    · split
      · next hbase => exact .inl ⟨rfl, hbase⟩
      · trivial
  | writeHash save readonly =>
    refine checked_advance h conn ?_
    unfold writeHash
    split
    · trivial
    · split
      · trivial
      · next hbase =>
        split
        · trivial
        · next hsame => exact .inr ⟨congrArg some (not_not.mp hsame), hbase⟩
  | writeTmp save existing seen =>
    refine checked_advance h conn ?_
    unfold writeTmp
    split
    · trivial
    · split
      · exact ht
      · exact ht
  | writeMode save readonly seen => exact checked_advance h conn ht
  | writeRename save readonly seen =>
    exact checked_advance (s := { s with node := (writeRename sha256 s.shown save readonly s.node
      fault).1 }) h conn (show Next.Checked (.reply _) from trivial)

theorem checked_step (h : s.Checked) (event : FileEvent) : (s.step sha256 event).1.Checked := by
  cases event with
  | readFile conn route => exact checked_begin h conn trivial
  | writeFile conn route save => exact checked_begin h conn trivial
  | call conn fault =>
    simp only [step]
    split
    · exact h
    · next task hlookup => exact checked_perform h conn fault (h conn task hlookup)

/-! ## What a call answers and changes -/

theorem advance_reply {next : Next} {r : FileReply} (h : (s.advance conn next).2 = some r) :
    next = .reply r := by
  cases next with
  | call task => cases h
  | reply r' => exact congrArg Next.reply (Option.some.inj h)

/-- A conflict is the answer of a look: a stat that found no file, or a
hash. -/
theorem perform_conflict {path hash error : Str}
    (h : (s.perform sha256 conn fault task).2 = some (.written path hash true error)) :
    (∃ save, task = .writeStat save ∧ save.baseHash ≠ [] ∧ hash = [] ∧
      (fault ≠ none ∨ s.node = none)) ∨ baseOf sha256 s.node = some hash := by
  cases task with
  | writeStat save =>
    have hnext := advance_reply h
    unfold writeStat writeRefusal at hnext
    split at hnext
    · cases hnext
    · cases hnext
    · cases hnext
    · next hnone =>
      split at hnext
      · cases hnext
      · next hbase =>
        cases hnext
        refine .inl ⟨save, rfl, hbase, rfl, ?_⟩
        split at hnone
        · exact .inr hnone
        · next hfault => exact .inl hfault
  | writeHash save readonly =>
    have hnext := advance_reply h
    -- The hash is of what stands.
    have hdisk : ∀ disk, diskHash sha256 s.node fault = .ok disk →
        baseOf sha256 s.node = some disk := by
      intro disk hdisk
      unfold diskHash at hdisk
      split at hdisk
      · cases hdisk
      · cases hdisk
      · cases hdisk
      · cases hdisk
      · next bytes readonly hnode =>
        split at hdisk
        · cases hdisk
        · next hlen =>
          have htake : bytes.take (readCap + 1) = bytes := by
            refine List.take_of_length_le ?_
            rw [List.length_take] at hlen
            omega
          rw [htake] at hdisk
          rw [hnode]
          exact congrArg some (Except.ok.inj hdisk)
    unfold writeHash writeRefusal at hnext
    split at hnext
    · cases hnext
    · next disk hok =>
      split at hnext
      · cases hnext
        exact .inr (hdisk _ hok)
      · split at hnext
        · cases hnext
          exact .inr (hdisk _ hok)
        · cases hnext
  | writeMode save readonly seen => cases advance_reply h
  | writeRename save readonly seen =>
    have hnext := advance_reply (show (OneFile.advance _ conn (.reply _)).2 = _ from h)
    unfold writeRename writeRefusal at hnext
    split at hnext <;> cases hnext
  | readResolve | readStat | readOpen | writeResolve | writeParent | writeTmp =>
    have hnext := advance_reply h
    simp only [readResolve, readStat, readOpen, writeResolve, writeParent, writeTmp, readRefusal,
      writeRefusal, fileContents] at hnext
    repeat' split at hnext
    all_goals cases hnext

/-- Contents are the answer of a read; cut short, of a file that is there
and with no hash of it. -/
theorem perform_truncated {path : Str} {data : List UInt8} {binary : Bool} {hash : Str} {size : Nat}
    {readonly : Bool} {error : Str}
    (h : (s.perform sha256 conn fault task).2 =
      some (.contents path data true binary hash size readonly error)) :
    s.node ≠ none ∧ hash = [] := by
  cases task with
  | readOpen size' readonly' =>
    have hnext := advance_reply h
    unfold readOpen readRefusal at hnext
    split at hnext
    · cases hnext
    · next bytes _ hnode =>
      simp only [fileContents, Next.reply.injEq, FileReply.contents.injEq, decide_eq_true_eq] at hnext
      obtain ⟨-, -, hlong, -, hhash, -⟩ := hnext
      refine ⟨by rw [hnode]; simp, ?_⟩
      rw [← hhash, if_pos hlong]
    · cases hnext
    · cases hnext
    · cases hnext
  | writeMode save readonly' seen => cases advance_reply h
  | writeRename save readonly' seen =>
    have hnext := advance_reply (show (OneFile.advance _ conn (.reply _)).2 = _ from h)
    unfold writeRename writeRefusal at hnext
    split at hnext <;> cases hnext
  | readResolve | readStat | writeResolve | writeParent | writeStat | writeHash | writeTmp =>
    have hnext := advance_reply h
    simp only [readResolve, readStat, writeResolve, writeParent, writeStat, writeHash, writeTmp,
      readRefusal, writeRefusal] at hnext
    repeat' split at hnext
    all_goals cases hnext

/-- Only a rename changes what stands. -/
theorem node_perform (sha256 : Sha256) (s : OneFile) (conn : Nat) (fault : Option Fault) (task : Task) :
    (s.perform sha256 conn fault task).1.node = s.node ∨
      ∃ save readonly seen, task = .writeRename save readonly seen := by
  cases task with
  | writeRename save readonly seen => exact .inr ⟨save, readonly, seen, rfl⟩
  | _ => exact .inl (node_advance _ _ _)

/-- A rename either fails or puts the data in place. -/
theorem perform_rename (sha256 : Sha256) (s : OneFile) (conn : Nat) (fault : Option Fault) (save : Save)
    (readonly : Bool) (seen : Option Str) :
    (fault = none ∧ s.node ≠ some .directory ∧
      (s.perform sha256 conn fault (.writeRename save readonly seen)).2 =
        some (.written s.shown (hashHex sha256 save.data) false []) ∧
      (s.perform sha256 conn fault (.writeRename save readonly seen)).1.node =
        some (.regular save.data readonly)) ∨
    (¬(fault = none ∧ s.node ≠ some .directory) ∧
      (∃ why, why ≠ [] ∧ (s.perform sha256 conn fault (.writeRename save readonly seen)).2 =
        some (.written s.shown [] false why)) ∧
      (s.perform sha256 conn fault (.writeRename save readonly seen)).1.node = s.node) := by
  cases fault with
  | some e => exact .inr ⟨by simp, ⟨e.val, e.property, rfl⟩, rfl⟩
  | none =>
    cases hnode : s.node with
    | none =>
      refine .inl ⟨rfl, by simp, ?_, ?_⟩ <;> simp [perform, hnode, writeRename, advance]
    | some node =>
      cases node with
      | directory =>
        refine .inr ⟨by simp, ⟨"Is a directory (os error 21)".toList, by decide, ?_⟩, ?_⟩ <;>
          simp [perform, hnode, writeRename, writeRefusal, advance]
      | regular | special =>
        refine .inl ⟨rfl, by simp, ?_, ?_⟩ <;> simp [perform, hnode, writeRename, advance]

/-! ## Single calls -/

/-- An entry of a history, as a call makes it. -/
def entry (sha256 : Sha256) (s : OneFile) (event : FileEvent) : Called :=
  ⟨s, event, (s.step sha256 event).2⟩

/-- What a rename does, of a task found in the table. -/
theorem step_rename (hlookup : s.tasks.lookup conn = some task) :
    s.step sha256 (.call conn fault) = s.perform sha256 conn fault task := by
  simp only [step, hlookup]

/-- A save has just been made: the rename of a task, of no directory, that
did not fail. -/
theorem savedBy_eq_some {save : Save} :
    savedBy (entry sha256 s event) = some save ↔
      ∃ conn readonly seen, event = .call conn none ∧
        s.tasks.lookup conn = some (.writeRename save readonly seen) ∧
        s.node ≠ some .directory := by
  constructor
  · intro h
    cases event with
    | readFile | writeFile => cases h
    | call conn fault =>
      simp only [savedBy, taskOf, entry] at h
      split at h
      · next saved readonly seen path hash hlookup hreply =>
        obtain rfl := Option.some.inj h
        rw [step_rename hlookup] at hreply
        rcases perform_rename sha256 s conn fault saved readonly seen with
          ⟨rfl, hnode, -⟩ | ⟨-, ⟨why, hwhy, hfail⟩, -⟩
        · exact ⟨conn, readonly, seen, rfl, hlookup, hnode⟩
        · rw [hfail] at hreply
          cases hreply
          exact absurd rfl hwhy
      · cases h
  · rintro ⟨conn, readonly, seen, rfl, hlookup, hnode⟩
    rcases perform_rename sha256 s conn none save readonly seen with
      ⟨-, -, hreply, -⟩ | ⟨hno, -⟩
    · simp only [savedBy, taskOf, entry, step_rename hlookup, hlookup, hreply]
    · exact absurd ⟨rfl, hnode⟩ hno

/-- A save puts its data in place and says so. -/
theorem saved_entry {save : Save} (h : savedBy (entry sha256 s event) = some save) :
    (∃ path, (entry sha256 s event).reply = some (.written path (hashHex sha256 save.data) false [])) ∧
      ∃ readonly, nodeAfter sha256 (entry sha256 s event) = some (.regular save.data readonly) := by
  obtain ⟨conn, readonly, seen, rfl, hlookup, hnode⟩ := savedBy_eq_some.mp h
  rcases perform_rename sha256 s conn none save readonly seen with
    ⟨-, -, hreply, hafter⟩ | ⟨hno, -⟩
  · refine ⟨⟨s.shown, ?_⟩, readonly, ?_⟩
    · rw [entry, step_rename hlookup]
      exact hreply
    · rw [nodeAfter, entry, step_rename hlookup]
      exact hafter
  · exact absurd ⟨rfl, hnode⟩ hno

/-- A call that saves nothing leaves the file as it was. -/
theorem kept_entry (h : savedBy (entry sha256 s event) = none) :
    nodeAfter sha256 (entry sha256 s event) = s.node := by
  cases event with
  | readFile | writeFile => exact node_begin _ _ _
  | call conn fault =>
    cases hlookup : s.tasks.lookup conn with
    | none => simp only [nodeAfter, entry, step, hlookup]
    | some task =>
      rw [nodeAfter, entry, step_rename hlookup]
      rcases node_perform sha256 s conn fault task with
        hsame | ⟨save, readonly, seen, rfl⟩
      · exact hsame
      · rcases perform_rename sha256 s conn fault save readonly seen with
          ⟨rfl, hnode, -⟩ | ⟨-, -, hsame⟩
        · rw [savedBy_eq_some.mpr ⟨conn, readonly, seen, rfl, hlookup, hnode⟩] at h
          cases h
        · exact hsame

/-- A file that is there stays there. -/
theorem node_step_ne_none (h : s.node ≠ none) (event : FileEvent) :
    (s.step sha256 event).1.node ≠ none := by
  cases hsaved : savedBy (entry sha256 s event) with
  | none =>
    have hkept := kept_entry hsaved
    rw [nodeAfter] at hkept
    rw [show (s.step sha256 event).1.node = s.node from hkept]
    exact h
  | some save =>
    obtain ⟨-, readonly, hafter⟩ := saved_entry hsaved
    rw [nodeAfter] at hafter
    rw [show (s.step sha256 event).1.node = _ from hafter]
    simp

/-- A read that was cut short found a file, and hands out no hash of it. -/
theorem truncated_entry {path : Str} {data : List UInt8} {binary : Bool} {hash : Str} {size : Nat}
    {readonly : Bool} {error : Str}
    (h : (s.step sha256 event).2 = some (.contents path data true binary hash size readonly error))
    :
    s.node ≠ none ∧ hash = [] := by
  cases event with
  | readFile | writeFile => cases h
  | call conn fault =>
    cases hlookup : s.tasks.lookup conn with
    | none =>
      simp only [step, hlookup] at h
      cases h
    | some task =>
      rw [step_rename hlookup] at h
      exact perform_truncated h

/-- To find what was seen is to find what the base is the hash of. -/
theorem lookOf_eq_seen {save : Save} {seen : Option Str}
    (h : seen = none ∧ save.baseHash = [] ∨ seen = some save.baseHash ∧ save.baseHash ≠ [])
    (node : Option Node) :
    lookOf sha256 node = some seen ↔ baseOf sha256 node = some save.baseHash := by
  rcases h with ⟨rfl, hbase⟩ | ⟨rfl, hbase⟩
  · rw [hbase]
    cases node with
    | none => simp [lookOf, baseOf]
    | some node => cases node <;> simp [lookOf, baseOf, hashHex_ne_nil]
  · cases node with
    | none => simp [lookOf, baseOf, hbase.symm]
    | some node => cases node <;> simp [lookOf, baseOf]

/-- A call is calm when a save it makes replaces what the base is the hash
of, and a conflict it answers with names what stands. -/
theorem calm_iff (sha256 : Sha256) (hchecked : s.Checked) (event : FileEvent) :
    Calm sha256 (entry sha256 s event) ↔
      (∀ save, savedBy (entry sha256 s event) = some save →
        baseOf sha256 s.node = some save.baseHash) ∧
      ∀ path hash error, (entry sha256 s event).reply = some (.written path hash true error) →
        baseOf sha256 s.node = some hash := by
  constructor
  · rintro ⟨hrename, hstat⟩
    refine ⟨fun save hsaved => ?_, fun path hash error hreply => ?_⟩
    · obtain ⟨conn, readonly, seen, rfl, hlookup, hnode⟩ := savedBy_eq_some.mp hsaved
      exact (lookOf_eq_seen (hchecked conn _ hlookup) s.node).mp
        (hrename conn save readonly seen rfl hlookup hnode)
    · cases event with
      | readFile | writeFile => cases hreply
      | call conn fault =>
        cases hlookup : s.tasks.lookup conn with
        | none =>
          simp only [entry, step, hlookup] at hreply
          cases hreply
        | some task =>
          rw [entry, step_rename hlookup] at hreply
          rcases perform_conflict hreply with ⟨save, rfl, hbase, rfl, hgone⟩ | hstands
          · have hnone : s.node = none := by
              rcases hgone with hfault | hnone
              · obtain ⟨e, rfl⟩ := Option.ne_none_iff_exists'.mp hfault
                exact hstat conn e save rfl hlookup hbase
              · exact hnone
            rw [hnone]
            rfl
          · exact hstands
  · rintro ⟨hsaved, hconflict⟩
    refine ⟨?_, ?_⟩
    · rintro conn save readonly seen hevent hlookup hnode
      obtain rfl : event = .call conn none := hevent
      exact (lookOf_eq_seen (hchecked conn _ hlookup) s.node).mpr
        (hsaved save (savedBy_eq_some.mpr ⟨conn, readonly, seen, rfl, hlookup, hnode⟩))
    · rintro conn fault save hevent hlookup hbase
      obtain rfl : event = .call conn (some fault) := hevent
      have hreply : (entry sha256 s (.call conn (some fault))).reply =
          some (.written s.shown [] true "the file is gone".toList) := by
        have hlook : s.tasks.lookup conn = some (.writeStat save) := hlookup
        rw [entry, step_rename hlook]
        simp [perform, writeStat, hbase, advance]
      have hstands := hconflict _ _ _ hreply
      show s.node = none
      cases hnode : s.node with
      | none => rfl
      | some node =>
        rw [hnode] at hstands
        cases node with
        | regular bytes readonly => exact absurd (Option.some.inj hstands) (hashHex_ne_nil bytes)
        | directory | special => cases hstands

/-! ## Runs -/

/-- The base a chain of saves leaves for the next. -/
def chainEnd (sha256 : Sha256) (base : Option Str) (saves : List Save) : Option Str :=
  saves.foldl (fun _ save => some (hashHex sha256 save.data)) base

theorem chained_snoc (saves : List Save) (save : Save) : ∀ base : Option Str,
    Chained sha256 base (saves ++ [save]) ↔
      Chained sha256 base saves ∧ chainEnd sha256 base saves = some save.baseHash := by
  induction saves with
  | nil =>
    intro base
    simp [Chained, chainEnd]
  | cons first saves ih =>
    intro base
    rw [List.cons_append, Chained, Chained, ih, and_assoc]
    rfl

theorem chainEnd_snoc (saves : List Save) (save : Save) (base : Option Str) :
    chainEnd sha256 base (saves ++ [save]) = some (hashHex sha256 save.data) := by
  simp [chainEnd, List.foldl_append]

/-- What holds along every run: what stands is what the saves so far left,
and they form a chain if each replaced what its base is the hash of. -/
structure Along (sha256 : Sha256) (start : Option Node) (s : OneFile) (h : List Called) : Prop where
  checked : s.Checked
  stands : chainEnd sha256 (baseOf sha256 start) (h.filterMap savedBy) = baseOf sha256 s.node
  chain : Chained sha256 (baseOf sha256 start) (h.filterMap savedBy) ↔
    ∀ e ∈ h, ∀ save, savedBy e = some save → baseOf sha256 e.state.node = some save.baseHash
  there : (∃ e ∈ h, e.state.node ≠ none) → s.node ≠ none

theorem along_new (shown : Str) (start : Option Node) :
    Along sha256 start (new shown start) [] where
  checked conn task hlookup := by simp [new] at hlookup
  stands := rfl
  chain := by simp [Chained]
  there := by simp

theorem along_step {start : Option Node} {h : List Called} (hs : Along sha256 start s h)
    (event : FileEvent) :
    Along sha256 start (s.step sha256 event).1 (h ++ [entry sha256 s event]) := by
  have hthere : (∃ e ∈ h ++ [entry sha256 s event], e.state.node ≠ none) →
      (s.step sha256 event).1.node ≠ none := by
    rintro ⟨e, he, hne⟩
    refine node_step_ne_none ?_ event
    rcases List.mem_append.mp he with he | he
    · exact hs.there ⟨e, he, hne⟩
    · obtain rfl := List.mem_singleton.mp he
      exact hne
  have hlast : ∀ P : Called → Prop,
      (∀ e ∈ h ++ [entry sha256 s event], P e) ↔ (∀ e ∈ h, P e) ∧ P (entry sha256 s event) := by
    intro P
    simp only [List.forall_mem_append, List.forall_mem_singleton]
  cases hsaved : savedBy (entry sha256 s event) with
  | none =>
    have hnode : (s.step sha256 event).1.node = s.node := kept_entry hsaved
    have hsaves : (h ++ [entry sha256 s event]).filterMap savedBy = h.filterMap savedBy := by
      rw [List.filterMap_append, List.filterMap_cons_none hsaved]
      simp
    refine ⟨checked_step hs.checked event, ?_, ?_, hthere⟩
    · rw [hsaves, hnode]
      exact hs.stands
    · rw [hsaves, hs.chain, hlast]
      simp [hsaved]
  | some save =>
    obtain ⟨-, readonly, hafter⟩ := saved_entry hsaved
    have hnode : (s.step sha256 event).1.node = some (.regular save.data readonly) := hafter
    have hsaves : (h ++ [entry sha256 s event]).filterMap savedBy = h.filterMap savedBy ++ [save] := by
      rw [List.filterMap_append, List.filterMap_cons_some hsaved]
      rfl
    refine ⟨checked_step hs.checked event, ?_, ?_, hthere⟩
    · rw [hsaves, chainEnd_snoc, hnode]
      rfl
    · rw [hsaves, chained_snoc, hs.chain, hs.stands, hlast]
      simp only [hsaved, Option.some.injEq, forall_eq']
      rfl

/-- The run of some events on a file that nobody is reading or writing. -/
def run (sha256 : Sha256) (shown : Str) (start : Option Node) (events : List FileEvent) :
    OneFile × List Called :=
  Trace.run (step sha256) (new shown start) events

theorem along_run (sha256 : Sha256) (shown : Str) (start : Option Node) (events : List FileEvent) :
    Along sha256 start (run sha256 shown start events).1 (run sha256 shown start events).2 :=
  Trace.run_invariant (along_new shown start) (fun _ _ event hs => along_step hs event) events

/-- Of every call of a run. -/
theorem each_along (sha256 : Sha256) (shown : Str) (start : Option Node) (events : List FileEvent) :
    Trace.Each (fun before e => Along sha256 start e.state before ∧
      e = entry sha256 e.state e.call) (run sha256 shown start events).2 :=
  Trace.each_run (along_new shown start) (fun _ _ event hs => along_step hs event)
    (fun _ _ _ hs => ⟨hs, rfl⟩) events

/-- A digest that tells apart what begins differently. -/
def firstByteDigest : Sha256 := fun bytes => Vector.replicate 32 (bytes.headD 0)

/-- Two connections that read the same bytes save over them, the renames
coming last. -/
def twoSaves : List FileEvent :=
  let route : Route := { path := "/f".toList, cwd := [], links := 0, dir := ['/'] }
  let base := hashHex firstByteDigest [1]
  [.writeFile 1 route ⟨[2], base⟩, .writeFile 2 route ⟨[3], base⟩] ++
    (List.replicate 5 [FileEvent.call 1 none, .call 2 none]).flatten ++ [.call 1 none, .call 2 none]

end OneFile

end Zesterm.Files
