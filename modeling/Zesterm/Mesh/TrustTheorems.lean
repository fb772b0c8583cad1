/-
Zesterm.Mesh.TrustTheorems — when the trust store and its file agree.

The file is the source of truth and the index a cache of it, so a store
`Agrees` with its file when a fresh open answers as the store does. A call is
`Lawful` when it ends in agreement and, if it reports an error, has changed
neither. The index is edited before the file is written and is not put back
when the write fails, and it holds times to the nanosecond where the file
holds seconds. `Kept` says when a call meets neither, and `agreeing_run` that
a run is lawful exactly when all its calls are kept.
-/
import Zesterm.Mesh.Trust

namespace Zesterm

variable {index : TrustIndex}

/-! ## What a record is after a restart -/

/-- The times of a record are whole seconds from the epoch on. -/
def TrustRecord.WholeSeconds (r : TrustRecord) : Prop :=
  (∃ secs, r.pairedAt = fromUnix secs) ∧ ∀ t ∈ r.lastSeen, ∃ secs, t = fromUnix secs

/-- A record as it is read back. -/
def TrustRecord.reread (r : TrustRecord) : TrustRecord := r.entry.record

@[simp] theorem toUnix_fromUnix (secs : Nat) : toUnix (fromUnix secs) = secs := by
  unfold toUnix fromUnix
  omega

theorem wholeSeconds_record (c : ClientEntry) : c.record.WholeSeconds := by
  refine ⟨⟨c.pairedAt, rfl⟩, fun t ht => ?_⟩
  obtain ⟨secs, -, rfl⟩ := Option.map_eq_some_iff.mp ht
  exact ⟨secs, rfl⟩

theorem reread_eq_self (r : TrustRecord) : r.reread = r ↔ r.WholeSeconds := by
  constructor
  · intro h
    rw [← h]
    exact wholeSeconds_record r.entry
  · rintro ⟨⟨secs, hpaired⟩, hseen⟩
    obtain ⟨client, label, pairedAt, lastSeen⟩ := r
    subst hpaired
    cases lastSeen with
    | none => simp [TrustRecord.reread, TrustRecord.entry, ClientEntry.record]
    | some t =>
      obtain ⟨seen, rfl⟩ := hseen t rfl
      simp [TrustRecord.reread, TrustRecord.entry, ClientEntry.record]

/-! ## What a file is read as -/

/-- Every record stands under its own client, with times a file can hold. -/
def TrustIndex.Rereadable (index : TrustIndex) : Prop :=
  ∀ c r, index.lookup c = some r → r.client = c ∧ r.WholeSeconds

theorem lookup_clients (clients : List ClientEntry) (c : ClientId) (r : TrustRecord)
    (h : (clients.reverse.map fun c => (⟨c.id, c.record⟩ : Sigma fun _ : ClientId =>
      TrustRecord)).toAList.lookup c = some r) : r.client = c ∧ r.WholeSeconds := by
  rw [AList.lookup_to_alist] at h
  obtain ⟨entry, -, he⟩ := List.mem_map.mp (List.of_mem_dlookup h)
  cases he
  exact ⟨rfl, wholeSeconds_record entry⟩

/-- What is parsed is rereadable. -/
theorem parse_rereadable {toml : Toml} {text path : Str} (h : parse toml text path = .ok index) :
    index.Rereadable := by
  unfold parse at h
  cases hread : toml.read text with
  | error e => simp [hread] at h
  | ok file =>
    simp only [hread] at h
    split at h
    · cases h
    · cases h
      exact fun c r => lookup_clients file.clients c r

/-- The records under their own clients, as they are read back. -/
theorem lookup_fileOf (hkeys : ∀ c r, index.lookup c = some r → r.client = c) (c : ClientId) :
    (((FileTrustStore.fileOf index).clients.reverse.map fun c =>
      (⟨c.id, c.record⟩ : Sigma fun _ : ClientId => TrustRecord)).toAList).lookup c =
      (index.lookup c).map TrustRecord.reread := by
  let order := fun a b : Sigma fun _ : ClientId => TrustRecord =>
    decide (a.1.bytes.toList ≤ b.1.bytes.toList)
  let back := fun e : Sigma fun _ : ClientId => TrustRecord =>
    (⟨e.1, e.2.reread⟩ : Sigma fun _ : ClientId => TrustRecord)
  have hentries : ((FileTrustStore.fileOf index).clients.reverse.map fun c =>
      (⟨c.id, c.record⟩ : Sigma fun _ : ClientId => TrustRecord)) =
      ((index.entries.mergeSort order).map back).reverse := by
    unfold FileTrustStore.fileOf TrustIndex.values
    rw [List.map_reverse, List.map_map, List.map_map]
    refine congrArg List.reverse (List.map_congr_left fun e he => ?_)
    have hclient := hkeys e.1 e.2 (AList.mem_lookup_iff.mpr (List.mem_mergeSort.mp he))
    exact Sigma.ext hclient (HEq.rfl)
  have hperm : (index.entries.map back).Perm ((index.entries.mergeSort order).map back).reverse :=
    (((List.mergeSort_perm index.entries order).map back).symm).trans (List.reverse_perm _).symm
  have hnodup : (index.entries.map back).NodupKeys := 
    (Table.mapWithKey (fun _ => TrustRecord.reread) index).nodupKeys
  rw [AList.lookup_to_alist, hentries, ← List.perm_dlookup c hnodup hperm]
  exact Table.dlookup_map (fun _ r => r.reread) c index.entries

/-- A file that was written reads as the index it was written from. -/
theorem parse_written {toml : Toml} (htoml : toml.Faithful) {text : Str} (path : Str)
    (hkeys : ∀ c r, index.lookup c = some r → r.client = c)
    (htext : toml.write (FileTrustStore.fileOf index) = .ok text) :
    ∃ again, parse toml text path = .ok again ∧
      ∀ c, again.lookup c = (index.lookup c).map TrustRecord.reread := by
  refine ⟨_, ?_, lookup_fileOf hkeys⟩
  unfold parse
  rw [htoml _ _ htext]
  exact if_neg (Nat.lt_irrefl formatVersion)

/-! ## The writing -/

/-- Every step of the write of an index goes through. -/
structure FileTrustStore.Writes (toml : Toml) (disk : Disk) (s : FileTrustStore)
    (index : TrustIndex) : Prop where
  serialized : ∃ text, toml.write (fileOf index) = .ok text
  createDir : s.dir.isSome → disk.createDir = .ok ()
  writeTmp : disk.writeTmp = .ok ()
  rename : disk.rename = .ok ()

theorem mapError_eq_ok {E F A : Type} {f : E → F} {x : Except E A} {a : A} :
    x.mapError f = .ok a ↔ x = .ok a := by
  cases x <;> simp [Except.mapError]

theorem bind_eq_ok {E A B : Type} {x : Except E A} {f : A → Except E B} {b : B} :
    x >>= f = .ok b ↔ ∃ a, x = .ok a ∧ f a = .ok b := by
  cases x <;> simp [bind, Except.bind]

theorem flush_eq_ok {toml : Toml} {disk : Disk} {s : FileTrustStore} {text : Str} :
    s.flush toml disk index = .ok text ↔
      toml.write (FileTrustStore.fileOf index) = .ok text ∧ s.Writes toml disk index := by
  have hsteps : s.flush toml disk index = .ok text ↔
      toml.write (FileTrustStore.fileOf index) = .ok text ∧
        (s.dir.isSome → disk.createDir = .ok ()) ∧ disk.writeTmp = .ok () ∧
          disk.rename = .ok () := by
    unfold FileTrustStore.flush
    cases hdir : s.dir with
    | none | some => simp [bind_eq_ok, mapError_eq_ok, pure, Except.pure, Unique.exists_iff]
  rw [hsteps]
  constructor
  · rintro ⟨htext, hdir, htmp, hrename⟩
    exact ⟨htext, ⟨text, htext⟩, hdir, htmp, hrename⟩
  · rintro ⟨htext, hwrites⟩
    exact ⟨htext, hwrites.createDir, hwrites.writeTmp, hwrites.rename⟩

/-- Edit the index and write it: the text of the new index is left, or an
error is reported. -/
theorem flush_cases (toml : Toml) (disk : Disk) (s : FileTrustStore) (index : TrustIndex) :
    (∃ text, { s with index }.flush toml disk index = .ok text ∧
      toml.write (FileTrustStore.fileOf index) = .ok text ∧ s.Writes toml disk index) ∨
    (∃ e, { s with index }.flush toml disk index = .error e ∧ ¬s.Writes toml disk index) := by
  cases hflush : s.flush toml disk index with
  | ok text => exact .inl ⟨text, hflush, flush_eq_ok.mp hflush⟩
  | error e =>
    refine .inr ⟨e, hflush, fun hwrites => ?_⟩
    obtain ⟨text, htext⟩ := hwrites.serialized
    rw [flush_eq_ok.mpr ⟨htext, hwrites⟩] at hflush
    cases hflush

/-! ## The records in order -/

/-- Stores that answer alike for each client list the same records. -/
theorem values_congr {a b : TrustIndex} (h : ∀ c, a.lookup c = b.lookup c) : a.values = b.values := by
  have hperm : a.entries.Perm b.entries :=
    List.lookup_ext a.nodupKeys b.nodupKeys fun c r => by
      change r ∈ a.lookup c ↔ r ∈ b.lookup c
      rw [h c]
  unfold TrustIndex.values
  refine congrArg _ (List.Perm.eq_of_pairwise ?_ (List.pairwise_mergeSort ?_ ?_ a.entries)
    (List.pairwise_mergeSort ?_ ?_ b.entries)
    (((List.mergeSort_perm _ _).trans hperm).trans (List.mergeSort_perm _ _).symm))
  · -- Keys that are alike are one key, and a key has one record.
    intro x y hx hy hxy hyx
    have hbytes : x.1.bytes.toList = y.1.bytes.toList :=
      List.le_antisymm (of_decide_eq_true hxy) (of_decide_eq_true hyx)
    have hkey : x.1 = y.1 := by
      cases hx1 : x.1
      cases hy1 : y.1
      rw [hx1, hy1] at hbytes
      exact congrArg ClientId.mk (Vector.toList_inj.mp hbytes)
    exact a.nodupKeys.eq_of_fst_eq (List.mem_mergeSort.mp hx)
      (hperm.mem_iff.mpr (List.mem_mergeSort.mp hy)) hkey
  all_goals
    intro x y
    simp only [decide_eq_true_eq, Bool.or_eq_true]
  · exact fun z hxy hyz => List.le_trans hxy hyz
  · exact List.le_total _ _
  · exact fun z hxy hyz => List.le_trans hxy hyz
  · exact List.le_total _ _

namespace TrustKeeper

variable {toml : Toml} {k : TrustKeeper}

/-! ## Agreement -/

/-- A fresh open of the file answers as the store does. -/
def Agrees (toml : Toml) (k : TrustKeeper) : Prop :=
  ∃ fresh, FileTrustStore.open toml k.store.path k.store.dir k.store.tmp (found k.file) = .ok fresh ∧
    (∀ c, fresh.get c = k.store.get c) ∧ fresh.list = k.store.list

abbrev Entry := Trace.Entry TrustKeeper Call (Except MeshError Unit)

/-- A call ends with the store and its file in agreement, and one that
reports an error leaves both as they were. -/
def Lawful (toml : Toml) (e : Entry) : Prop :=
  Agrees toml (e.state.step toml e.call).1 ∧
    ∀ error, e.reply = .error error →
      (∀ c, (e.state.step toml e.call).1.store.get c = e.state.store.get c) ∧
        (e.state.step toml e.call).1.file = e.state.file

/-- What a call must find: a record the file can hold and a write that goes
through, or nothing to change. -/
def Kept (toml : Toml) (e : Entry) : Prop :=
  match e.call with
  | .insert record disk =>
    (e.state.store.Writes toml disk (e.state.store.index.insert record.client record) ∧
      record.WholeSeconds) ∨
    (¬e.state.store.Writes toml disk (e.state.store.index.insert record.client record) ∧
      e.state.store.index.lookup record.client = some record)
  | .remove client disk =>
    (e.state.store.index.lookup client).isSome →
      e.state.store.Writes toml disk (e.state.store.index.erase client)

/-! ## One call -/

/-- The index a file is loaded as. -/
def Loads (toml : Toml) (path : Str) : Option Str → TrustIndex → Prop
  | some text, index => parse toml text path = .ok index
  | none, index => index = ∅

theorem open_eq_ok {path tmp : Str} {dir file : Option Str} {fresh : FileTrustStore} :
    FileTrustStore.open toml path dir tmp (found file) = .ok fresh ↔
      ∃ index, Loads toml path file index ∧ fresh = { path, dir, tmp, index } := by
  cases file with
  | none => simp [found, FileTrustStore.open, Loads, eq_comm]
  | some text =>
    cases hparse : parse toml text path with
    | error e => simp [found, FileTrustStore.open, Loads, hparse, Except.map]
    | ok index => simp [found, FileTrustStore.open, Loads, hparse, Except.map, eq_comm]

theorem agrees_iff : Agrees toml k ↔
    ∃ index, Loads toml k.store.path k.file index ∧
      ∀ c, index.lookup c = k.store.index.lookup c := by
  constructor
  · rintro ⟨fresh, hopen, hget, -⟩
    obtain ⟨index, hloads, rfl⟩ := open_eq_ok.mp hopen
    exact ⟨index, hloads, fun c => Except.ok.inj (hget c)⟩
  · rintro ⟨index, hloads, hlookup⟩
    exact ⟨_, open_eq_ok.mpr ⟨index, hloads, rfl⟩, fun c => congrArg Except.ok (hlookup c),
      congrArg Except.ok (values_congr hlookup)⟩

/-- What a store in agreement holds can be read back. -/
theorem Agrees.rereadable (h : Agrees toml k) : k.store.index.Rereadable := by
  obtain ⟨index, hloads, hlookup⟩ := agrees_iff.mp h
  intro c r hr
  have hsame : index.lookup c = some r := (hlookup c).trans hr
  cases hfile : k.file with
  | none =>
    rw [hfile] at hloads
    cases hloads
    cases hsame
  | some text =>
    rw [hfile] at hloads
    exact parse_rereadable hloads c r hsame

/-- Agreement is about the file and the records only. -/
theorem Agrees.same_records (hk : Agrees toml k) {index : TrustIndex}
    (hsame : ∀ c, index.lookup c = k.store.index.lookup c) :
    Agrees toml { k with store := { k.store with index } } := by
  obtain ⟨loaded, hloads, hlookup⟩ := agrees_iff.mp hk
  exact agrees_iff.mpr ⟨loaded, hloads, fun c => (hlookup c).trans (hsame c).symm⟩

/-- After a write the store agrees with its file when every record it wrote
reads back as it is. -/
theorem agrees_written (htoml : toml.Faithful) {text : Str} (hfile : k.file = some text)
    (htext : toml.write (FileTrustStore.fileOf k.store.index) = .ok text)
    (hkeys : ∀ c r, k.store.index.lookup c = some r → r.client = c) :
    Agrees toml k ↔ ∀ c r, k.store.index.lookup c = some r → r.WholeSeconds := by
  obtain ⟨again, hparse, hlookup⟩ := parse_written htoml k.store.path hkeys htext
  rw [agrees_iff, hfile]
  constructor
  · rintro ⟨index, hloads, hsame⟩ c r hr
    obtain rfl : again = index := Except.ok.inj (hparse.symm.trans hloads)
    have hback := hsame c
    rw [hlookup, hr] at hback
    exact (reread_eq_self r).mp (Option.some.inj hback)
  · intro h
    refine ⟨again, hparse, fun c => ?_⟩
    rw [hlookup]
    cases hr : k.store.index.lookup c with
    | none => rfl
    | some r => exact congrArg some ((reread_eq_self r).mpr (h c r hr))

/-- The index is edited whatever becomes of the write. -/
theorem step_insert_index (toml : Toml) (k : TrustKeeper) (record : TrustRecord) (disk : Disk) :
    (k.step toml (.insert record disk)).1.store.index =
      k.store.index.insert record.client record := by
  simp only [step, FileTrustStore.insert]
  cases { k.store with index := k.store.index.insert record.client record }.flush toml disk
    (k.store.index.insert record.client record) <;> rfl

theorem lawful_insert (htoml : toml.Faithful) (hk : Agrees toml k) (record : TrustRecord)
    (disk : Disk) :
    Lawful toml ⟨k, .insert record disk, (k.step toml (.insert record disk)).2⟩ ↔
      Kept toml ⟨k, .insert record disk, (k.step toml (.insert record disk)).2⟩ := by
  let index := k.store.index.insert record.client record
  have hindex : ∀ c, index.lookup c = if c = record.client then some record else
      k.store.index.lookup c := fun c => Table.lookup_insert_eq _ _ _ _
  rcases flush_cases toml disk k.store index with
    ⟨text, hflush, htext, hwrites⟩ | ⟨e, hflush, hwrites⟩
  · have hstep : k.step toml (.insert record disk) = (⟨{ k.store with index }, some text⟩, .ok ()) := by
      simp [step, FileTrustStore.insert, index, hflush, settle, Except.map]
    have hkeys : ∀ c r, index.lookup c = some r → r.client = c := by
      intro c r hr
      rw [hindex] at hr
      split at hr
      · next hc => rw [hc, ← Option.some.inj hr]
      · exact (hk.rereadable c r hr).1
    have hagrees : Agrees toml ⟨{ k.store with index }, some text⟩ ↔ record.WholeSeconds := by
      rw [agrees_written htoml rfl htext hkeys]
      constructor
      · exact fun h => h record.client record (by rw [hindex, if_pos rfl])
      · intro hwhole c r hr
        rw [hindex] at hr
        split at hr
        · rwa [← Option.some.inj hr]
        · exact (hk.rereadable c r hr).2
    simp only [Lawful, Kept, hstep, hagrees, reduceCtorEq, false_implies, implies_true, and_true]
    constructor
    · exact fun hwhole => .inl ⟨hwrites, hwhole⟩
    · exact fun h => h.elim And.right fun hno => absurd hwrites hno.1
  · have hstep : k.step toml (.insert record disk) =
        ({ k with store := { k.store with index } }, .error e) := by
      simp [step, FileTrustStore.insert, index, hflush, settle, Except.map]
    simp only [Lawful, Kept, hstep, FileTrustStore.get, Except.ok.injEq]
    constructor
    · rintro ⟨-, hsame⟩
      have hrecord := (hsame _ rfl).1 record.client
      rw [hindex, if_pos rfl] at hrecord
      exact .inr ⟨hwrites, hrecord.symm⟩
    · rintro (⟨hwrites', -⟩ | ⟨-, hrecord⟩)
      · exact absurd hwrites' hwrites
      · have hsame : ∀ c, index.lookup c = k.store.index.lookup c := by
          intro c
          rw [hindex]
          split
          · next hc => rw [hc, hrecord]
          · rfl
        exact ⟨hk.same_records hsame, fun _ _ => ⟨hsame, trivial⟩⟩

theorem lawful_remove (htoml : toml.Faithful) (hk : Agrees toml k) (client : ClientId) (disk : Disk)
    :
    Lawful toml ⟨k, .remove client disk, (k.step toml (.remove client disk)).2⟩ ↔
      Kept toml ⟨k, .remove client disk, (k.step toml (.remove client disk)).2⟩ := by
  let index := k.store.index.erase client
  have hindex : ∀ c, index.lookup c = if c = client then none else k.store.index.lookup c :=
    fun c => Table.lookup_erase_eq _ _ _
  cases hknown : k.store.index.lookup client with
  | none =>
    have hstep : k.step toml (.remove client disk) =
        ({ k with store := { k.store with index } }, .ok ()) := by
      simp [step, FileTrustStore.remove, index, hknown, settle]
    have hsame : ∀ c, index.lookup c = k.store.index.lookup c := by
      intro c
      rw [hindex]
      split
      · next hc => rw [hc, hknown]
      · rfl
    have hagrees := hk.same_records hsame
    simp [Lawful, Kept, hstep, hagrees, hknown]
  | some record =>
    rcases flush_cases toml disk k.store index with
      ⟨text, hflush, htext, hwrites⟩ | ⟨e, hflush, hwrites⟩
    · have hstep : k.step toml (.remove client disk) =
          (⟨{ k.store with index }, some text⟩, .ok ()) := by
        simp [step, FileTrustStore.remove, index, hknown, hflush, settle, Except.map]
      have hleft : TrustIndex.Rereadable index := by
        intro c r hr
        rw [hindex] at hr
        split at hr
        · cases hr
        · exact hk.rereadable c r hr
      have hagrees : Agrees toml ⟨{ k.store with index }, some text⟩ :=
        (agrees_written htoml rfl htext fun c r hr => (hleft c r hr).1).mpr
          fun c r hr => (hleft c r hr).2
      simp only [Lawful, Kept, hstep, hagrees, reduceCtorEq, false_implies, implies_true, and_true,
        true_iff]
      exact fun _ => hwrites
    · have hstep : k.step toml (.remove client disk) =
          ({ k with store := { k.store with index } }, .error e) := by
        simp [step, FileTrustStore.remove, index, hknown, hflush, settle, Except.map]
      simp only [Lawful, Kept, hstep, FileTrustStore.get, Except.ok.injEq, hknown]
      constructor
      · rintro ⟨-, hsame⟩
        have hgone := (hsame _ rfl).1 client
        rw [hindex, if_pos rfl, hknown] at hgone
        cases hgone
      · exact fun h => absurd (h rfl) hwrites

/-! ## Runs -/

/-- From an opened store, the calls of a run are all lawful exactly when each
finds what it must. -/
theorem agreeing_run (toml : Toml) (htoml : toml.Faithful) (path : Str) (dir : Option Str)
    (tmp : Str) (file : Option Str) (store : FileTrustStore)
    (hopen : FileTrustStore.open toml path dir tmp (found file) = .ok store) (calls : List Call) :
    (∀ e ∈ (Trace.run (step toml) ⟨store, file⟩ calls).2, Lawful toml e) ↔
      ∀ e ∈ (Trace.run (step toml) ⟨store, file⟩ calls).2, Kept toml e := by
  refine Trace.run_forall_iff (I := Agrees toml) ?_ ?_ (fun k call hlawful => ?_) calls
  · obtain ⟨index, hloads, rfl⟩ := open_eq_ok.mp hopen
    exact agrees_iff.mpr ⟨index, hloads, fun c => rfl⟩
  · intro k call hk
    cases call with
    | insert record disk => exact lawful_insert htoml hk record disk
    | remove client disk => exact lawful_remove htoml hk client disk
  · exact fun hlawful => hlawful.1

/-- A phone, and the file of a host that trusts it alone. -/
def phone : TrustRecord :=
  { client := ⟨Vector.replicate 32 0xab⟩, label := "andy-phone".toList,
    pairedAt := fromUnix 1786000000, lastSeen := none }

def phoneFile : TrustFile := { version := 1, clients := [phone.entry] }

def phoneText : Str :=
  ("version = 1\n\n[[client]]\nid = \"" ++
    "abababababababababababababababababababababababababababababababab" ++
    "\"\nlabel = \"andy-phone\"\npaired_at = 1786000000\n").toList

/-- The TOML crate on that file. -/
def phoneToml : Toml where
  write file := if file = phoneFile then .ok phoneText else .error []
  read text := if text = phoneText then .ok phoneFile else .error []

theorem phoneToml_faithful : phoneToml.Faithful := by
  intro file text h
  simp only [phoneToml] at h ⊢
  split at h
  · next hfile =>
    rw [← Except.ok.inj h, if_pos rfl, hfile]
  · cases h

theorem fileOf_phone : FileTrustStore.fileOf ((∅ : TrustIndex).insert phone.client phone) =
    phoneFile := by
  have hentries : ((∅ : TrustIndex).insert phone.client phone).entries = [⟨phone.client, phone⟩] :=
    rfl
  unfold FileTrustStore.fileOf TrustIndex.values
  rw [hentries, List.mergeSort_singleton]
  rfl

/-- A disk that is full when the file is to be replaced. -/
def fullDisk : Disk := { rename := .error "No space left on device".toList }

/-- The first write goes through; the second does not, and had nothing to
change. -/
theorem agreeing_run_phone :
    (Trace.run (step phoneToml) ⟨{ path := [], dir := none, tmp := [] }, none⟩
      [.insert phone {}, .insert phone fullDisk]).2.length = 2 ∧
    ∀ e ∈ (Trace.run (step phoneToml) ⟨{ path := [], dir := none, tmp := [] }, none⟩
      [.insert phone {}, .insert phone fullDisk]).2, Lawful phoneToml e := by
  refine ⟨rfl, (agreeing_run phoneToml phoneToml_faithful [] none [] none _ rfl _).mpr ?_⟩
  have hwrites : FileTrustStore.Writes phoneToml {} { path := [], dir := none, tmp := [] }
      ((∅ : TrustIndex).insert phone.client phone) :=
    ⟨⟨phoneText, by rw [fileOf_phone]; rfl⟩, fun _ => rfl, rfl, rfl⟩
  have hfull (s : FileTrustStore) (index : TrustIndex) : ¬s.Writes phoneToml fullDisk index :=
    fun h => by cases h.rename
  intro e he
  rcases List.mem_pair.mp he with rfl | rfl
  · exact .inl ⟨hwrites, ⟨1786000000, rfl⟩, by simp [phone]⟩
  · refine .inr ⟨hfull _ _, ?_⟩
    change (step phoneToml _ (.insert phone {})).1.store.index.lookup phone.client = some phone
    rw [step_insert_index, AList.lookup_insert]

/-- A client the host refused, the record not having been written, is
trusted until the host is restarted. -/
theorem not_lawful_full_disk :
    ¬∀ (toml : Toml) (path : Str) (dir : Option Str) (tmp : Str) (file : Option Str)
      (store : FileTrustStore) (calls : List Call), toml.Faithful →
      FileTrustStore.open toml path dir tmp (found file) = .ok store →
      ∀ e ∈ (Trace.run (step toml) ⟨store, file⟩ calls).2, Lawful toml e := by
  intro hall
  have hlawful := hall phoneToml [] none [] none { path := [], dir := none, tmp := [] }
    [.insert phone fullDisk] phoneToml_faithful rfl _ (List.mem_singleton_self _)
  rcases flush_cases phoneToml fullDisk { path := [], dir := none, tmp := [] }
    ((∅ : TrustIndex).insert phone.client phone) with ⟨_, -, -, hwrites⟩ | ⟨e, hflush, -⟩
  · cases hwrites.rename
  · -- The store answers with the phone; it knew nobody before the call.
    have hreply : (step phoneToml ⟨{ path := [], dir := none, tmp := [] }, none⟩
        (.insert phone fullDisk)).2 = .error e := by
      simp only [step, FileTrustStore.insert]
      rw [hflush]
      rfl
    have hget := Except.ok.inj ((hlawful.2 e hreply).1 phone.client)
    rw [step_insert_index, AList.lookup_insert] at hget
    cases hget

end TrustKeeper

end Zesterm
