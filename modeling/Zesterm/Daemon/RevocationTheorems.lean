/-
Zesterm.Daemon.RevocationTheorems — a revocation sticks, and so does a
person's word after it.

An apply takes a revoked client's record out before the set is replaced, so
whatever still has its mind made up by then, a search that found a voucher or
an approval not yet recorded, writes the record again. And nothing remembers
which revocations have been acted on: a feed that repeats one takes out the
record a person has made since, and one that leaves it out lets a voucher
bring the client back. `Orderly` rules these out, and `Shut` is what the runs
keep that are left.
-/
import Zesterm.Daemon.VouchTheorems

namespace Zesterm.AttestSync

open Sync

variable {s : Sync}

/-! ## The law -/

/-- A client revoked by a finished apply has no record until a person
approves it. -/
def RevokedOut (s : Sync) : Prop := ∀ client ∈ s.barred, s.index.lookup client = none

/-- A record a person made after a revocation is not marked. -/
def RestoredPlain (s : Sync) : Prop :=
  ∀ client held, s.index.lookup client = some held → held.origin = .person true →
    marked held.record.label = false

/-- And no apply takes it out. -/
def RestoredStays (history : History) : Prop :=
  ∀ e ∈ history, ∀ saves, e.call = .apply saves → ∀ client held,
    e.state.index.lookup client = some held → held.origin = .person true →
      (e.state.step e.call).1.index.lookup client = some held

/-- The ids an apply has begun on: all of them once the set is replaced. -/
def Applying.begun (a : Applying) : List ClientId :=
  match a.stage with
  | .revoking begun _ | .forgot _ begun _ | .found _ begun _ => begun
  | _ => a.feed.revoked

/-- The one it is at. -/
def Applying.current (a : Applying) : Option ClientId :=
  match a.stage with
  | .forgot client _ _ | .found client _ _ => some client
  | _ => none

def Sync.begun (s : Sync) : List ClientId := (s.applying.map Applying.begun).getD []

def Sync.current (s : Sync) : Option ClientId := s.applying.bind Applying.current

/-- The client a call is about to write a record of. -/
def Task.records : Task → Option ClientId
  | .granting a | .noted a => some a.device
  | .insert record _ | .marking record _ => some record.client
  | _ => none

/-- A verdict waits for its connection, or a call is about to write. -/
def InFlight (s : Sync) (client : ClientId) : Prop :=
  (∃ v ∈ s.verdicts, v.request.client = client) ∨ ∃ t ∈ s.tasks, t.records = some client

/-- The client whose search finds its voucher with this step. -/
def Sync.grants (s : Sync) : Act → Option ClientId
  | .advance i _ =>
    match s.tasks[i]? with
    | some (.scanning client nowMs (a :: _)) =>
      if s.fetched.admits client nowMs s.mayVouch a then some client else none
    | _ => none
  | _ => none

/-- The steps of an orderly run. -/
def Orderly (s : Sync) : Act → Prop
  -- The lists only grow.
  | .fetch feed _ => s.applying = none → ∀ client ∈ s.fetched.revoked, client ∈ feed.revoked
  -- An apply begins on a client that has nothing in flight, and no record a
  -- person made after an earlier revocation.
  | .apply saves => ∀ client ∈ s.forgets (.apply saves),
      ¬InFlight s client ∧ ∀ held ∈ s.index.lookup client, held.origin ≠ .person true
  -- While one runs, nobody it has begun on is granted or approved.
  | .advance i tick => ∀ client ∈ s.grants (.advance i tick), client ∉ s.begun
  | .trust record => record.client ∉ s.begun ∧ (record.client ∈ s.acted → marked record.label = false)
  | .decide client approve => approve = true → client ∉ s.begun ∧
      (client ∈ s.acted → ∀ r ∈ s.pending, r.client = client → marked r.label = false)
  | .restart => False
  | _ => True

instance (s : Sync) (client : ClientId) : Decidable (InFlight s client) :=
  inferInstanceAs (Decidable (_ ∨ _))

instance (s : Sync) : DecidablePred (Orderly s)
  | .fetch feed _ => inferInstanceAs
      (Decidable (s.applying = none → ∀ client ∈ s.fetched.revoked, client ∈ feed.revoked))
  | .apply saves => inferInstanceAs (Decidable (∀ client ∈ s.forgets (.apply saves),
      ¬InFlight s client ∧ ∀ held ∈ s.index.lookup client, held.origin ≠ .person true))
  | .advance i tick => inferInstanceAs
      (Decidable (∀ client ∈ s.grants (.advance i tick), client ∉ s.begun))
  | .trust _ => inferInstanceAs (Decidable (_ ∧ _))
  | .decide client approve => inferInstanceAs (Decidable (approve = true → client ∉ s.begun ∧
      (client ∈ s.acted → ∀ r ∈ s.pending, r.client = client → marked r.label = false)))
  | .restart => inferInstanceAs (Decidable False)
  | .get _ | .remove _ | .touch .. | .ask _ | .giveUp _ | .take .. | .hangUp _ =>
    inferInstanceAs (Decidable True)

/-! ## The invariant -/

/-- What a client's record depends on: the ids revoked, those an apply has
begun on and the one it is at, and who has been revoked and is barred. -/
structure Ledger where
  revoked : List ClientId
  begun : List ClientId
  current : Option ClientId
  acted : Finset ClientId
  barred : Finset ClientId

def Sync.ledger (s : Sync) : Ledger :=
  { revoked := s.fetched.revoked, begun := s.begun, current := s.current, acted := s.acted,
    barred := s.barred }

/-- What may still be recorded. -/
structure Open (l : Ledger) (client : ClientId) (label : Str) (origin : Origin) : Prop where
  barred : client ∉ l.barred
  begun : client ∉ l.begun
  attested : origin = .attestation → client ∉ l.revoked
  restored : origin = .person true → client ∈ l.acted ∧ marked label = false

def Task.Open (l : Ledger) : Task → Prop
  | .scanning client _ _ => client ∉ l.revoked
  | .granting a | .noted a => a.device ∉ l.revoked ∧ a.device ∉ l.begun
  | .insert record origin | .marking record origin =>
    AttestSync.Open l record.client record.label origin
  | _ => True

/-- A record that is there. -/
structure Kept (l : Ledger) (client : ClientId) (held : Held) : Prop where
  barred : client ∉ l.barred
  begun : client ∈ l.begun → l.current = some client ∧ held.origin ≠ .person true
  restored : held.origin = .person true → marked held.record.label = false

/-- An apply under way, over the set as it is. -/
def Applying.Sound (a : Applying) (fetched : FetchedSet) : Prop :=
  match a.stage with
  | .revoking begun todo => begun ++ todo = a.feed.revoked ∧ fetched.revoked ⊆ a.feed.revoked
  | .forgot client begun todo | .found client begun todo =>
    client ∈ begun ∧ begun ++ todo = a.feed.revoked ∧ fetched.revoked ⊆ a.feed.revoked
  | .listing | .welcoming _ => fetched = a.feed
  | .scanning request _ _ | .granting request _ | .noted request _ =>
    fetched = a.feed ∧ request.client ∉ a.feed.revoked

structure Shut (s : Sync) : Prop where
  listed : s.barred ⊆ s.acted
  acted : ∀ client ∈ s.acted, client ∈ s.fetched.revoked
  granted : ∀ client ∈ s.granted, client ∉ s.fetched.revoked ∧ client ∉ s.begun
  records : ∀ client held, s.index.lookup client = some held → Kept s.ledger client held
  verdicts : ∀ v ∈ s.verdicts, Open s.ledger v.request.client v.request.label v.origin
  tasks : ∀ t ∈ s.tasks, t.Open s.ledger
  applying : ∀ a, s.applying = some a → a.Sound s.fetched

/-! ## Edits of the store -/

theorem Shut.put (h : Shut s) {client : ClientId} {held : Held} (hheld : Kept s.ledger client held)
    (saves : Bool) : Shut (s.put client held saves) := by
  refine ⟨h.listed, h.acted, h.granted, fun c x hx => ?_, h.verdicts, h.tasks, h.applying⟩
  dsimp only [Sync.put] at hx
  rw [Table.lookup_insert_eq] at hx
  split at hx
  · next hc =>
    obtain rfl := Option.some.inj hx
    exact hc ▸ hheld
  · exact h.records c x hx

theorem Shut.drop (h : Shut s) (client : ClientId) (saves : Bool) : Shut (s.drop client saves) := by
  unfold Sync.drop
  split
  · exact h
  · refine ⟨h.listed, h.acted, h.granted, fun c x hx => ?_, h.verdicts, h.tasks, h.applying⟩
    dsimp only at hx
    rw [Table.lookup_erase_eq] at hx
    split at hx
    · exact absurd hx (by simp)
    · exact h.records c x hx

theorem Shut.touch (h : Shut s) (client : ClientId) (time : SystemTime) (saves : Bool) :
    Shut (s.touch client time saves) := by
  unfold Sync.touch
  split
  · exact h
  · next held hheld =>
    have hkept := h.records client held hheld
    refine h.put ?_ saves
    exact ⟨hkept.barred, hkept.begun, hkept.restored⟩

/-- What may still be recorded can be. -/
theorem Open.kept {l : Ledger} {record : TrustRecord} {origin : Origin}
    (h : Open l record.client record.label origin) : Kept l record.client ⟨record, origin⟩ :=
  ⟨h.barred, fun hbegun => absurd hbegun h.begun, fun ho => (h.restored ho).2⟩

theorem Shut.withTasks (h : Shut s) {tasks : List Task} (htasks : ∀ t ∈ tasks, t.Open s.ledger) :
    Shut { s with tasks := tasks } :=
  ⟨h.listed, h.acted, h.granted, h.records, h.verdicts, htasks, h.applying⟩

theorem Shut.withGranted (h : Shut s) {granted : Finset ClientId}
    (hgranted : ∀ client ∈ granted, client ∉ s.fetched.revoked ∧ client ∉ s.begun) :
    Shut { s with granted := granted } :=
  ⟨h.listed, h.acted, hgranted, h.records, h.verdicts, h.tasks, h.applying⟩

theorem Shut.withVerdicts (h : Shut s) (pending : List PairingRequest) {verdicts : List Verdict}
    (hverdicts : ∀ v ∈ verdicts, Open s.ledger v.request.client v.request.label v.origin) :
    Shut { s with pending := pending, verdicts := verdicts } :=
  ⟨h.listed, h.acted, h.granted, h.records, hverdicts, h.tasks, h.applying⟩

theorem lookup_drop (s : Sync) (client c : ClientId) (saves : Bool) :
    (s.drop client saves).index.lookup c = if c = client then none else s.index.lookup c := by
  unfold Sync.drop
  split
  · next hnone =>
    split
    · next hc => rw [hc, hnone]
    · rfl
  · exact Table.lookup_erase_eq client c s.index

theorem drop_fields (s : Sync) (client : ClientId) (saves : Bool) :
    (s.drop client saves).applying = s.applying ∧ (s.drop client saves).fetched = s.fetched := by
  unfold Sync.drop
  split <;> exact ⟨rfl, rfl⟩

/-- Who is barred has been revoked. -/
theorem Shut.not_barred (h : Shut s) {client : ClientId} (hclient : client ∉ s.fetched.revoked) :
    client ∉ s.barred :=
  fun hbarred => hclient (h.acted client (h.listed hbarred))

/-- Whoever a person restored is not granted, so its label stays. -/
theorem Shut.keepMarker (h : Shut s) {record : TrustRecord} {origin : Origin}
    (hopen : Open s.ledger record.client record.label origin) :
    Open s.ledger (s.keepMarker record).client (s.keepMarker record).label origin := by
  have hclient : (s.keepMarker record).client = record.client := by
    unfold Sync.keepMarker
    split <;> rfl
  rw [hclient]
  refine ⟨hopen.barred, hopen.begun, hopen.attested, fun ho => ?_⟩
  obtain ⟨hacted, hlabel⟩ := hopen.restored ho
  refine ⟨hacted, ?_⟩
  unfold Sync.keepMarker
  split
  · next hkeep => exact absurd (h.acted _ hacted) (h.granted _ hkeep.1).1
  · exact hlabel

/-! ## One step of a call -/

theorem Shut.stepTask (h : Shut s) (tick : Tick) {task : Task} (htask : task.Open s.ledger)
    (hgrant : ∀ client nowMs a rest, task = .scanning client nowMs (a :: rest) →
      s.fetched.admits client nowMs s.mayVouch a = true → client ∉ s.begun) :
    Shut (s.stepTask tick task).1 ∧
      ∀ t ∈ (s.stepTask tick task).2.1, t.Open (s.stepTask tick task).1.ledger := by
  cases task with
  | get client =>
    dsimp only [Sync.stepTask]
    split
    · exact ⟨h, by simp⟩
    · exact ⟨h, by simp [Task.Open]⟩
  | missed client =>
    dsimp only [Sync.stepTask]
    split
    · exact ⟨h, by simp⟩
    · next hrevoked =>
      refine ⟨h, fun t ht => ?_⟩
      obtain rfl := Option.some.inj ht
      exact fun hmem => hrevoked (List.contains_iff_mem.mpr hmem)
  | scanning client nowMs rest =>
    cases rest with
    | nil => exact ⟨h, by simp [Sync.stepTask]⟩
    | cons a rest =>
      dsimp only [Sync.stepTask]
      split
      · next hadmits =>
        have hdevice : a.device = client := by
          unfold FetchedSet.admits at hadmits
          simp only [Bool.and_eq_true, beq_iff_eq] at hadmits
          exact hadmits.1.1.1.1
        refine ⟨h, fun t ht => ?_⟩
        obtain rfl := Option.some.inj ht
        exact ⟨hdevice ▸ htask, hdevice ▸ hgrant client nowMs a rest rfl hadmits⟩
      · refine ⟨h, fun t ht => ?_⟩
        obtain rfl := Option.some.inj ht
        exact htask
  | granting a =>
    refine ⟨h.withGranted fun c hc => ?_, fun t ht => ?_⟩
    · rcases Finset.mem_insert.mp hc with rfl | hc
      · exact htask
      · exact h.granted c hc
    · obtain rfl := Option.some.inj ht
      exact htask
  | noted a =>
    refine ⟨h.put ⟨h.not_barred htask.1, fun hbegun => absurd hbegun htask.2, ?_⟩ tick.saves,
      by simp [Sync.stepTask]⟩
    exact fun ho => absurd ho (by simp)
  | insert record origin =>
    refine ⟨h, fun t ht => ?_⟩
    obtain rfl := Option.some.inj ht
    exact h.keepMarker htask
  | marking record origin =>
    have hopen : AttestSync.Open s.ledger record.client record.label origin := htask
    exact ⟨h.put hopen.kept tick.saves, by simp [Sync.stepTask]⟩
  | remove client =>
    refine ⟨h.withGranted fun c hc => h.granted c (Finset.mem_of_mem_erase hc), fun t ht => ?_⟩
    obtain rfl := Option.some.inj ht
    trivial
  | forgotten client => exact ⟨h.drop client tick.saves, by simp [Sync.stepTask]⟩

/-! ## One step of the apply -/

/-- A change of the ledger that leaves a client what may be recorded of
it. -/
structure Moves (l l' : Ledger) (client : ClientId) : Prop where
  barred : client ∉ l.barred → client ∉ l.begun → client ∉ l'.barred
  begun : client ∉ l.begun → client ∉ l'.begun
  revoked : client ∉ l.revoked → client ∉ l.begun → client ∉ l'.revoked

section Moves

variable {l l' : Ledger} (hacted : l.acted ⊆ l'.acted)
include hacted

theorem Open.move {client : ClientId} {label : Str} {origin : Origin}
    (h : Open l client label origin) (hmoves : Moves l l' client) : Open l' client label origin :=
  ⟨hmoves.barred h.barred h.begun, hmoves.begun h.begun,
    fun ho => hmoves.revoked (h.attested ho) h.begun,
    fun ho => ⟨hacted (h.restored ho).1, (h.restored ho).2⟩⟩

theorem Task.Open.move {t : Task} (h : t.Open l)
    (hmoves : ∀ client, t.records = some client → Moves l l' client)
    (hscanning : t.isScanning = true → l.revoked = l'.revoked) : t.Open l' := by
  cases t with
  | scanning client nowMs rest =>
    intro hmem
    exact h (hscanning rfl ▸ hmem)
  | granting | noted => exact ⟨(hmoves _ rfl).revoked h.1 h.2, (hmoves _ rfl).begun h.2⟩
  | insert record origin =>
    have hopen : AttestSync.Open l record.client record.label origin := h
    exact AttestSync.Open.move hacted hopen (hmoves _ rfl)
  | marking record origin =>
    have hopen : AttestSync.Open l record.client record.label origin := h
    exact AttestSync.Open.move hacted hopen (hmoves _ rfl)
  | _ => trivial

end Moves

variable {s : Sync} {a : Applying} {client : ClientId}

/-- The apply goes on, and what it has begun on stays as it is. -/
theorem Shut.stage (h : Shut s) {applying : Option Applying}
    (hbegun : (applying.map Applying.begun).getD [] = s.begun)
    (hcurrent : ∀ client held, s.index.lookup client = some held → client ∈ s.begun →
      applying.bind Applying.current = some client)
    (hsound : ∀ a, applying = some a → a.Sound s.fetched) :
    Shut { s with applying := applying } := by
  have hmoves (client : ClientId) : Moves s.ledger { s with applying := applying }.ledger client := by
    refine ⟨fun hbarred _ => hbarred, fun hnot hmem => hnot ?_, fun hrevoked _ => hrevoked⟩
    have hmem : client ∈ (applying.map Applying.begun).getD [] := hmem
    rwa [hbegun] at hmem
  have hacted : s.ledger.acted ⊆ { s with applying := applying }.ledger.acted :=
    Finset.Subset.refl s.acted
  refine ⟨h.listed, h.acted, fun c hc => ?_, fun c held hheld => ?_, fun v hv => ?_, fun t ht => ?_,
    hsound⟩
  · obtain ⟨hrevoked, hnot⟩ := h.granted c hc
    exact ⟨hrevoked, (hmoves c).begun hnot⟩
  · have hkept := h.records c held hheld
    refine ⟨hkept.barred, fun hmem => ?_, hkept.restored⟩
    have hmem : c ∈ s.begun := hbegun ▸ hmem
    exact ⟨hcurrent c held hheld hmem, (hkept.begun hmem).2⟩
  · exact (h.verdicts v hv).move hacted (hmoves _)
  · exact (h.tasks t ht).move hacted (fun c _ => hmoves c) fun _ => rfl

/-- The apply begins on a client. -/
theorem Shut.begins (h : Shut s) (ha : s.applying = some a) {begun todo : List ClientId}
    (hstage : a.stage = .revoking begun (client :: todo)) (hfree : ¬InFlight s client)
    (hrecord : ∀ held, s.index.lookup client = some held → held.origin ≠ .person true) :
    Shut { s with
      granted := s.granted.erase client
      applying := some { a with stage := .forgot client (begun ++ [client]) todo } } := by
  have hbegun : s.begun = begun := by simp [Sync.begun, Applying.begun, ha, hstage]
  have hcurrent : s.current = none := by simp [Sync.current, Applying.current, ha, hstage]
  have hsound := h.applying a ha
  unfold Applying.Sound at hsound
  rw [hstage] at hsound
  have hmoves {c : ClientId} (hc : c ≠ client) : c ∉ s.begun → c ∉ begun ++ [client] := by
    intro hnot hmem
    rcases List.mem_append.mp hmem with hmem | hmem
    · exact hnot (hbegun ▸ hmem)
    · exact hc (List.mem_singleton.mp hmem)
  refine ⟨h.listed, h.acted, fun c hc => ?_, fun c held hheld => ?_, fun v hv => ?_, fun t ht => ?_,
    fun a' ha' => ?_⟩
  · obtain ⟨hne, hc⟩ := Finset.mem_erase.mp hc
    exact ⟨(h.granted c hc).1, hmoves hne (h.granted c hc).2⟩
  · have hkept := h.records c held hheld
    refine ⟨hkept.barred, fun hmem => ?_, hkept.restored⟩
    by_cases hc : c = client
    · subst hc
      exact ⟨rfl, hrecord held hheld⟩
    · -- What was begun on before is out already.
      have hold : c ∈ s.begun := by
        by_contra hnot
        exact hmoves hc hnot hmem
      exact absurd (hkept.begun hold).1 (by simp [Sync.ledger, hcurrent])
  · have hc : v.request.client ≠ client := fun hc => hfree (.inl ⟨v, hv, hc⟩)
    exact (h.verdicts v hv).move (Finset.Subset.refl s.acted)
      ⟨fun hbarred _ => hbarred, hmoves hc, fun hrevoked _ => hrevoked⟩
  · refine (h.tasks t ht).move (Finset.Subset.refl s.acted) (fun c hrecords => ?_) fun _ => rfl
    have hc : c ≠ client := fun hc => hfree (.inr ⟨t, ht, hc ▸ hrecords⟩)
    exact ⟨fun hbarred _ => hbarred, hmoves hc, fun hrevoked _ => hrevoked⟩
  · obtain rfl := Option.some.inj ha'
    refine ⟨by simp, ?_, hsound.2⟩
    rw [← hsound.1, List.append_assoc]
    rfl

/-- The set is replaced, and nobody is searching it. -/
theorem Shut.replace (h : Shut s) (ha : s.applying = some a) {begun : List ClientId}
    (hstage : a.stage = .revoking begun []) (hsearch : ¬s.tasks.any Task.isScanning = true) :
    Shut { s with fetched := a.feed, applying := some { a with stage := .listing } } := by
  have hsound := h.applying a ha
  unfold Applying.Sound at hsound
  rw [hstage] at hsound
  obtain ⟨hlist, hgrow⟩ := hsound
  have hbegun : s.begun = a.feed.revoked := by
    rw [← hlist, List.append_nil]
    simp [Sync.begun, Applying.begun, ha, hstage]
  have hcurrent : s.current = none := by simp [Sync.current, Applying.current, ha, hstage]
  have hnew : ∀ {c : ClientId}, c ∉ s.begun → c ∉ a.feed.revoked := fun hnot => hbegun ▸ hnot
  refine ⟨h.listed, fun c hc => hgrow (h.acted c hc), fun c hc => ?_, fun c held hheld => ?_,
    fun v hv => ?_, fun t ht => ?_, fun a' ha' => ?_⟩
  · exact ⟨hnew (h.granted c hc).2, hnew (h.granted c hc).2⟩
  · have hkept := h.records c held hheld
    refine ⟨hkept.barred, fun hmem => ?_, hkept.restored⟩
    have hold : c ∈ s.begun := hbegun ▸ hmem
    exact absurd (hkept.begun hold).1 (by simp [Sync.ledger, hcurrent])
  · exact (h.verdicts v hv).move (Finset.Subset.refl s.acted)
      ⟨fun hbarred _ => hbarred, hnew, fun _ hnot => hnew hnot⟩
  · refine (h.tasks t ht).move (Finset.Subset.refl s.acted)
      (fun c _ => ⟨fun hbarred _ => hbarred, hnew, fun _ hnot => hnew hnot⟩) fun hscanning => ?_
    exact absurd (List.any_eq_true.mpr ⟨t, ht, hscanning⟩) hsearch
  · obtain rfl := Option.some.inj ha'
    rfl

/-- The apply is done: whom it listed is out. -/
theorem Shut.finish (h : Shut s) (ha : s.applying = some a) (hstage : a.stage = .welcoming []) :
    Shut { s with
      applying := none
      acted := s.acted ∪ a.feed.revoked.toFinset
      barred := s.barred ∪ a.feed.revoked.toFinset } := by
  have hfetched := h.applying a ha
  unfold Applying.Sound at hfetched
  rw [hstage] at hfetched
  have hbegun : s.begun = a.feed.revoked := by simp [Sync.begun, Applying.begun, ha, hstage]
  have hcurrent : s.current = none := by simp [Sync.current, Applying.current, ha, hstage]
  have hnew {c : ClientId} (hbarred : c ∉ s.barred) (hnot : c ∉ s.begun) :
      c ∉ s.barred ∪ a.feed.revoked.toFinset := by
    rw [Finset.mem_union, List.mem_toFinset, ← hbegun]
    exact fun hmem => hmem.elim hbarred hnot
  have hgrow : s.acted ⊆ s.acted ∪ a.feed.revoked.toFinset := Finset.subset_union_left
  refine ⟨Finset.union_subset_union_left h.listed, fun c hc => ?_, fun c hc => ?_,
    fun c held hheld => ?_, fun v hv => ?_, fun t ht => ?_, fun a' ha' => ?_⟩
  · rcases Finset.mem_union.mp hc with hc | hc
    · exact h.acted c hc
    · rw [List.mem_toFinset, ← hfetched] at hc
      exact hc
  · exact ⟨(h.granted c hc).1, List.not_mem_nil⟩
  · have hkept := h.records c held hheld
    have hnot : c ∉ s.begun := fun hmem =>
      absurd (hkept.begun hmem).1 (by simp [Sync.ledger, hcurrent])
    exact ⟨hnew hkept.barred hnot, fun hmem => absurd hmem List.not_mem_nil, hkept.restored⟩
  · exact (h.verdicts v hv).move hgrow
      ⟨hnew, fun _ => List.not_mem_nil, fun hrevoked _ => hrevoked⟩
  · exact (h.tasks t ht).move hgrow
      (fun c _ => ⟨hnew, fun _ => List.not_mem_nil, fun hrevoked _ => hrevoked⟩) fun _ => rfl
  · exact absurd ha' (by simp)

theorem Shut.resolve (h : Shut s) {origin : Origin}
    (hopen : ∀ r ∈ s.pending, r.client = client → Open s.ledger client r.label origin) :
    Shut (s.resolve client origin) := by
  refine h.withVerdicts _ fun v hv => ?_
  rcases List.mem_append.mp hv with hv | hv
  · exact h.verdicts v hv
  · obtain ⟨r, hr, rfl⟩ := List.mem_map.mp hv
    obtain ⟨hr, hclient⟩ := List.mem_filter.mp hr
    have hclient : r.client = client := by simpa using hclient
    exact hclient ▸ hopen r hr hclient

/-- The stages after the set is replaced. -/
theorem Shut.late (h : Shut s) (ha : s.applying = some a) {stage : Stage}
    (hbegun : a.begun = a.feed.revoked) (hold : a.current = none)
    (hnew : ({ a with stage := stage } : Applying).begun = a.feed.revoked)
    (hsound : ({ a with stage := stage } : Applying).Sound s.fetched) :
    Shut { s with applying := some { a with stage := stage } } := by
  have hall : s.begun = a.begun := by simp [Sync.begun, ha]
  have hcurrent : s.current = none := by simp [Sync.current, ha, hold]
  refine h.stage ?_ (fun c held hheld hmem => ?_) fun a' ha' => ?_
  · rw [hall, hbegun]
    exact hnew
  · exact absurd ((h.records c held hheld).begun hmem).1 (by simp [Sync.ledger, hcurrent])
  · obtain rfl := Option.some.inj ha'
    exact hsound

theorem Shut.stepApply (h : Shut s) (ha : s.applying = some a) (saves : Bool)
    (hbegins : ∀ begun client todo, a.stage = .revoking begun (client :: todo) →
      ¬InFlight s client ∧
        ∀ held, s.index.lookup client = some held → held.origin ≠ .person true) :
    Shut (s.stepApply a saves).1 := by
  have hsound := h.applying a ha
  have hbegun : s.begun = a.begun := by simp [Sync.begun, ha]
  have hcurrent : s.current = a.current := by simp [Sync.current, ha]
  unfold Applying.Sound at hsound
  unfold Sync.stepApply
  cases hstage : a.stage with
  | revoking begun todo =>
    rw [hstage] at hsound
    cases todo with
    | nil =>
      dsimp only
      split
      · exact h
      · next hsearch => exact h.replace ha hstage hsearch
    | cons client todo =>
      obtain ⟨hfree, hrecord⟩ := hbegins begun client todo hstage
      exact h.begins ha hstage hfree hrecord
  | forgot client begun todo =>
    rw [hstage] at hsound
    have hcurrent : s.current = some client := by simp [hcurrent, Applying.current, hstage]
    dsimp only
    split
    · next hnone =>
      refine h.stage (by simp [hbegun, Applying.begun, hstage]) (fun c held hheld hmem => ?_)
        fun a' ha' => ?_
      · have hc : some client = some c := hcurrent ▸ ((h.records c held hheld).begun hmem).1
        rw [Option.some.inj hc, hheld] at hnone
        exact absurd hnone (by simp)
      · obtain rfl := Option.some.inj ha'
        exact hsound.2
    · refine h.stage (by simp [hbegun, Applying.begun, hstage]) (fun c held hheld hmem => ?_)
        fun a' ha' => ?_
      · have hc : some client = some c := hcurrent ▸ ((h.records c held hheld).begun hmem).1
        exact hc
      · obtain rfl := Option.some.inj ha'
        exact hsound
  | found client begun todo =>
    rw [hstage] at hsound
    have hcurrent : s.current = some client := by simp [hcurrent, Applying.current, hstage]
    have hsame := drop_fields s client saves
    refine (h.drop client saves).stage ?_ (fun c held hheld hmem => ?_) fun a' ha' => ?_
    · rw [Sync.begun, hsame.1]
      simp [ha, Applying.begun, hstage]
    · have hkept := (h.drop client saves).records c held hheld
      have hc : some client = some c := by
        rw [← hcurrent, Sync.current, ← hsame.1]
        exact (hkept.begun hmem).1
      rw [lookup_drop, if_pos (Option.some.inj hc).symm] at hheld
      exact absurd hheld (by simp)
    · obtain rfl := Option.some.inj ha'
      rw [hsame.2]
      exact hsound.2
  | listing =>
    rw [hstage] at hsound
    exact h.late ha (by simp [Applying.begun, hstage]) (by simp [Applying.current, hstage])
      (by simp [Applying.begun]) hsound
  | welcoming waiting =>
    rw [hstage] at hsound
    have hall : a.begun = a.feed.revoked := by simp [Applying.begun, hstage]
    have hnone : a.current = none := by simp [Applying.current, hstage]
    cases waiting with
    | nil => exact h.finish ha hstage
    | cons request waiting =>
      dsimp only
      split
      · exact h.late ha hall hnone (by simp [Applying.begun]) hsound
      · next hrevoked =>
        refine h.late ha hall hnone (by simp [Applying.begun]) ⟨hsound, fun hmem => hrevoked ?_⟩
        rw [hsound]
        exact List.contains_iff_mem.mpr hmem
  | scanning request rest waiting =>
    rw [hstage] at hsound
    have hall : a.begun = a.feed.revoked := by simp [Applying.begun, hstage]
    have hnone : a.current = none := by simp [Applying.current, hstage]
    cases rest with
    | nil => exact h.late ha hall hnone (by simp [Applying.begun]) hsound.1
    | cons v rest =>
      dsimp only
      split
      · exact h.late ha hall hnone (by simp [Applying.begun]) hsound
      · exact h.late ha hall hnone (by simp [Applying.begun]) hsound
  | granting request waiting =>
    rw [hstage] at hsound
    have hall : a.begun = a.feed.revoked := by simp [Applying.begun, hstage]
    have hnone : a.current = none := by simp [Applying.current, hstage]
    have hnoted : Shut { s with granted := insert request.client s.granted } := by
      refine h.withGranted fun c hc => ?_
      rcases Finset.mem_insert.mp hc with rfl | hc
      · rw [hbegun, hall, hsound.1]
        exact ⟨hsound.2, hsound.2⟩
      · exact h.granted c hc
    exact hnoted.late ha hall hnone (by simp [Applying.begun]) hsound
  | noted request waiting =>
    rw [hstage] at hsound
    have hall : a.begun = a.feed.revoked := by simp [Applying.begun, hstage]
    have hnone : a.current = none := by simp [Applying.current, hstage]
    have hrevoked : request.client ∉ s.fetched.revoked := hsound.1 ▸ hsound.2
    have hnot : request.client ∉ s.begun := by
      rw [hbegun, hall]
      exact hsound.2
    have hresolved : Shut (s.resolve request.client .attestation) :=
      h.resolve fun r _ _ =>
        ⟨h.not_barred hrevoked, hnot, fun _ => hrevoked, fun ho => absurd ho (by simp)⟩
    exact hresolved.late ha hall hnone (by simp [Applying.begun]) hsound.1

/-! ## Runs -/

theorem Shut.begin (h : Shut s) {task : Task} (htask : task.Open s.ledger) :
    Shut (s.begin task) := by
  refine h.withTasks fun t ht => ?_
  rcases List.mem_append.mp ht with ht | ht
  · exact h.tasks t ht
  · obtain rfl := List.mem_singleton.mp ht
    exact htask

/-- A person's word opens what a revocation shut. -/
theorem Shut.approve (h : Shut s) (client : ClientId) :
    Shut { s with barred := s.barred.erase client } := by
  have hsub : s.barred.erase client ⊆ s.barred := Finset.erase_subset client s.barred
  have hmoves (c : ClientId) : Moves s.ledger { s with barred := s.barred.erase client }.ledger c :=
    ⟨fun hbarred _ hmem => hbarred (hsub hmem), fun hbegun => hbegun, fun hrevoked _ => hrevoked⟩
  refine ⟨hsub.trans h.listed, h.acted, h.granted, fun c held hheld => ?_, fun v hv => ?_,
    fun t ht => ?_, h.applying⟩
  · have hkept := h.records c held hheld
    exact ⟨fun hmem => hkept.barred (hsub hmem), hkept.begun, hkept.restored⟩
  · exact (h.verdicts v hv).move (Finset.Subset.refl s.acted) (hmoves _)
  · exact (h.tasks t ht).move (Finset.Subset.refl s.acted) (fun c _ => hmoves c) fun _ => rfl

/-- And what it lets in may be recorded. -/
theorem open_approved (s : Sync) {label : Str} (hbegun : client ∉ s.begun)
    (hlabel : client ∈ s.acted → marked label = false) :
    Open { s with barred := s.barred.erase client }.ledger client label
      (.person (decide (client ∈ s.acted))) := by
  refine ⟨fun hmem => ?_, hbegun, fun ho => absurd ho (by simp), fun ho => ?_⟩
  · exact absurd rfl (Finset.ne_of_mem_erase hmem)
  · have hacted : client ∈ s.acted := by simpa using ho
    exact ⟨hacted, hlabel hacted⟩

theorem Shut.step (h : Shut s) (a : Act) (horderly : Orderly s a) : Shut (s.step a).1 := by
  cases a with
  | get | remove => exact h.begin trivial
  | trust record =>
    exact (h.approve record.client).begin (open_approved s horderly.1 horderly.2)
  | touch client time saves => exact h.touch client time saves
  | advance i tick =>
    dsimp only [Sync.step]
    split
    · exact h
    · next task htask =>
      have hmem := List.mem_of_getElem? htask
      obtain ⟨hstate, hnext⟩ := h.stepTask tick (h.tasks task hmem)
        fun client nowMs v rest hscan hadmits =>
          horderly client (by simp [Sync.grants, htask, hscan, hadmits])
      refine hstate.withTasks fun t ht => ?_
      rcases mem_advanced ht with hold | hnew
      · exact hstate.tasks t (stepTask_tasks s tick task ▸ hold)
      · exact hnext t hnew
  | fetch feed nowMs =>
    dsimp only [Sync.step]
    split
    · exact h
    · next hidle =>
      have hnone : s.begun = [] := by simp [Sync.begun, hidle]
      refine h.stage hnone.symm (fun c held hheld hmem => ?_) fun a ha => ?_
      · rw [hnone] at hmem
        exact absurd hmem List.not_mem_nil
      · obtain rfl := Option.some.inj ha
        exact ⟨rfl, horderly hidle⟩
  | apply saves =>
    dsimp only [Sync.step]
    split
    · exact h
    · next a ha =>
      exact h.stepApply ha saves fun begun client todo hstage =>
        horderly client (by simp [Sync.forgets, ha, hstage])
  | ask | giveUp => exact h.withVerdicts _ h.verdicts
  | decide client approve =>
    dsimp only [Sync.step]
    split
    · split
      · next happrove =>
        obtain ⟨hbegun, hlabel⟩ := horderly happrove
        exact (h.approve client).resolve fun r hr hclient =>
          open_approved s hbegun fun hacted => hlabel hacted r hr hclient
      · exact h.withVerdicts _ h.verdicts
    · exact h
  | take i time =>
    dsimp only [Sync.step]
    split
    · exact h
    · next v hv =>
      have hless : Shut { s with verdicts := s.verdicts.eraseIdx i } :=
        h.withVerdicts s.pending fun w hw => h.verdicts w (List.mem_of_mem_eraseIdx hw)
      exact hless.begin (h.verdicts v (List.mem_of_getElem? hv))
  | hangUp i => exact h.withVerdicts s.pending fun v hv => h.verdicts v (List.mem_of_mem_eraseIdx hv)
  | restart => exact horderly.elim

/-- An apply takes out the record it has begun on, which no person made after
a revocation. -/
theorem Shut.stays (h : Shut s) (ha : s.applying = some a) (saves : Bool) {held : Held}
    (hheld : s.index.lookup client = some held) (ho : held.origin = .person true) :
    (s.stepApply a saves).1.index.lookup client = some held := by
  unfold Sync.stepApply
  cases hstage : a.stage with
  | revoking begun todo =>
    cases todo with
    | nil =>
      dsimp only
      split <;> exact hheld
    | cons c todo => exact hheld
  | forgot c begun todo =>
    dsimp only
    split <;> exact hheld
  | found c begun todo =>
    have hsound := h.applying a ha
    unfold Applying.Sound at hsound
    rw [hstage] at hsound
    have hne : client ≠ c := by
      rintro rfl
      have hmem : client ∈ s.begun := by
        simp [Sync.begun, Applying.begun, ha, hstage, hsound.1]
      exact ((h.records client held hheld).begun hmem).2 ho
    exact (lookup_drop s c client saves).trans ((if_neg hne).trans hheld)
  | welcoming waiting =>
    cases waiting with
    | nil => exact hheld
    | cons request waiting =>
      dsimp only
      split <;> exact hheld
  | scanning request rest waiting =>
    cases rest with
    | nil => exact hheld
    | cons v rest =>
      dsimp only
      split <;> exact hheld
  | _ => exact hheld

theorem shut_start : Shut {} := by
  refine ⟨Finset.Subset.refl _, fun c hc => ?_, fun c hc => ?_, fun c held hheld => ?_, by simp,
    by simp, by simp⟩
  · exact absurd hc (Finset.notMem_empty c)
  · exact absurd hc (Finset.notMem_empty c)
  · exact absurd hheld (by simp)

/-- What an orderly run keeps. -/
def Settled (s : Sync) (history : History) : Prop :=
  (∀ e ∈ history, Orderly e.state e.call) → Shut s ∧ RestoredStays history

theorem settled_step (s : Sync) (history : History) (a : Act) (h : Settled s history) :
    Settled (s.step a).1 (history ++ [⟨s, a, (s.step a).2⟩]) := by
  intro hall
  rw [List.forall_mem_append, List.forall_mem_singleton] at hall
  obtain ⟨hstate, hstays⟩ := h hall.1
  refine ⟨hstate.step a hall.2, fun e he saves hcall client held hheld ho => ?_⟩
  rcases List.mem_append.mp he with he | he
  · exact hstays e he saves hcall client held hheld ho
  · obtain rfl := List.mem_singleton.mp he
    obtain rfl : a = .apply saves := hcall
    dsimp only [Sync.step]
    split
    · exact hheld
    · next a ha => exact hstate.stays ha saves hheld ho

/-- In an orderly run a client revoked by a finished apply has no record
until a person approves it, and the record it gets then is not marked and no
apply takes it out. -/
theorem revocation_sticks (acts : List Act)
    (h : ∀ e ∈ (Trace.run Sync.step {} acts).2, Orderly e.state e.call) :
    RevokedOut (Trace.run Sync.step {} acts).1 ∧ RestoredPlain (Trace.run Sync.step {} acts).1 ∧
      RestoredStays (Trace.run Sync.step {} acts).2 := by
  have hkept : Settled (Trace.run Sync.step {} acts).1 (Trace.run Sync.step {} acts).2 :=
    Trace.run_invariant (I := Settled)
      (fun _ => ⟨shut_start, fun e he => absurd he List.not_mem_nil⟩) settled_step acts
  obtain ⟨hstate, hstays⟩ := hkept h
  refine ⟨fun c hc => ?_, fun c held hheld => (hstate.records c held hheld).restored, hstays⟩
  by_contra hsome
  obtain ⟨held, hheld⟩ := Option.ne_none_iff_exists'.mp hsome
  exact (hstate.records c held hheld).barred hc

/-! ## Two runs -/

/-- The phone is paired, revoked, and paired again. -/
def pairedAgain : List Act :=
  [.trust (paired andyPhone "andy-phone"), .advance 0 {}, .advance 0 {},
    .fetch { revoked := [andyPhone] } 1] ++
  List.replicate 6 (.apply true) ++
  [.ask (asking andyPhone "andy-phone"), .decide andyPhone true, .take 0 0, .advance 0 {},
    .advance 0 {}]

theorem revocation_sticks_pairedAgain :
    RevokedOut (Trace.run Sync.step {} pairedAgain).1 ∧
      RestoredPlain (Trace.run Sync.step {} pairedAgain).1 ∧
      RestoredStays (Trace.run Sync.step {} pairedAgain).2 ∧
      (Trace.run Sync.step {} pairedAgain).1.index.lookup andyPhone =
        some ⟨paired andyPhone "andy-phone", .person true⟩ := by
  obtain ⟨hout, hplain, hstays⟩ := revocation_sticks pairedAgain (by decide)
  exact ⟨hout, hplain, hstays, by decide⟩

/-- Every write reaches the file, and the daemon runs on. -/
def Sync.Act.saves : Act → Bool
  | .restart => false
  | .touch _ _ saves | .apply saves => saves
  | .advance _ tick => tick.saves
  | _ => true

/-- The same feed again, up to the removal. -/
def repeated : List Act :=
  pairedAgain ++ [.fetch { revoked := [andyPhone] } 2, .apply true, .apply true]

/-- A repeated revocation takes out what a person made since, and an approval
on its way survives the revocation that overtakes it. -/
theorem repeated_removes :
    (∀ a ∈ repeated ++ [.apply true], a.saves = true) ∧
      ¬RestoredStays (Trace.run Sync.step {} (repeated ++ [.apply true])).2 ∧
      (∀ a ∈ overtaken, a.saves = true) ∧ ¬RevokedOut (Trace.run Sync.step {} overtaken).1 ∧
      ¬∀ acts : List Act, (∀ a ∈ acts, a.saves = true) →
        RevokedOut (Trace.run Sync.step {} acts).1 ∧
          RestoredPlain (Trace.run Sync.step {} acts).1 ∧
          RestoredStays (Trace.run Sync.step {} acts).2 := by
  have hsaves : ∀ a ∈ repeated ++ [Act.apply true], a.saves = true := by decide
  have hremoved : ¬RestoredStays (Trace.run Sync.step {} (repeated ++ [.apply true])).2 := by
    intro hstays
    rw [Trace.run_snoc] at hstays
    have hgone := hstays _ (List.mem_append_right _ (List.mem_singleton_self _)) true rfl andyPhone
      ⟨paired andyPhone "andy-phone", .person true⟩ (by decide) rfl
    exact absurd hgone (by decide)
  have hbarred : andyPhone ∈ (Trace.run Sync.step {} overtaken).1.barred := by decide
  have hrecord : (Trace.run Sync.step {} overtaken).1.index.lookup andyPhone ≠ none := by
    decide
  exact ⟨hsaves, hremoved, by decide, fun hout => hrecord (hout andyPhone hbarred),
    fun hall => hremoved (hall _ hsaves).2.2⟩

end Zesterm.AttestSync
