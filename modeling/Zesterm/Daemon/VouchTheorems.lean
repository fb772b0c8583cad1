/-
Zesterm.Daemon.VouchTheorems — an attested device never vouches for another.

A record made by an attestation is told from a person's by the marker in its
label, so the law is that none loses it. A search writes the marker itself.
The record of a pairing request is another matter: the apply notes the grant,
the connection takes up the approval later, and the marker is put on because
the grant is remembered by then. Whatever forgets the grant in between lets
the record in unmarked (`Undisturbed` rules it out), and its device may vouch.
-/
import Zesterm.Daemon.AttestSync

namespace Zesterm.AttestSync

open Sync

variable {client approver : ClientId} {s : Sync}

/-! ## The law -/

/-- The history of a run. -/
abbrev History := List (Trace.Entry Sync Act Reply)

/-- Who vouches has a record that a person made. -/
def VouchersPaired (history : History) : Prop :=
  ∀ e ∈ history, ∀ client approver, e.reply = .grant client approver →
    ∃ held restoring, e.state.index.lookup approver = some held ∧ held.origin = .person restoring

/-- What an attestation let in is marked. -/
def AttestedMarked (s : Sync) : Prop :=
  ∀ client held, s.index.lookup client = some held → held.origin = .attestation →
    marked held.record.label = true

/-- An approval by attestation whose record is still to get its marker. -/
inductive Unrecorded (s : Sync) (client : ClientId) : Prop
  /-- The apply has noted the grant and not answered the requests. -/
  | noted (a : Applying) (request : PairingRequest) (waiting : List PairingRequest)
      (ha : s.applying = some a) (hstage : a.stage = .noted request waiting)
      (hclient : request.client = client)
  | waiting (v : Verdict) (hv : v ∈ s.verdicts) (horigin : v.origin = .attestation)
      (hclient : v.request.client = client) (hlabel : marked v.request.label = false)
  | recording (record : TrustRecord) (h : Task.insert record .attestation ∈ s.tasks)
      (hclient : record.client = client) (hlabel : marked record.label = false)

/-- The client whose grant a step forgets. -/
def Sync.forgets (s : Sync) : Act → Option ClientId
  | .advance i _ =>
    match s.tasks[i]? with
    | some (.remove client) => some client
    | _ => none
  | .apply _ =>
    match s.applying.map Applying.stage with
    | some (.revoking _ (client :: _)) => some client
    | _ => none
  | _ => none

/-- No grant is forgotten before its record has the marker. -/
def Undisturbed (e : Trace.Entry Sync Act Reply) : Prop :=
  ∀ client, e.state.forgets e.call = some client → ¬Unrecorded e.state client

/-! ## The invariant -/

def Honest (label : Str) (origin : Origin) : Prop := origin = .attestation → marked label = true

def Truthful (t : Table ClientId Held) : Prop :=
  ∀ client held, t.lookup client = some held → Honest held.record.label held.origin

/-- What is still to be recorded will get its marker. -/
def Recalled (granted : Finset ClientId) (client : ClientId) (label : Str) (origin : Origin) : Prop :=
  origin = .attestation → client ∈ granted ∨ marked label = true

def Task.Recalled (granted : Finset ClientId) : Task → Prop
  | .insert record origin => AttestSync.Recalled granted record.client record.label origin
  | .marking record origin => Honest record.label origin
  | _ => True

structure Attributed (s : Sync) : Prop where
  index : Truthful s.index
  saved : Truthful s.saved
  verdicts : ∀ v ∈ s.verdicts, Recalled s.granted v.request.client v.request.label v.origin
  tasks : ∀ t ∈ s.tasks, t.Recalled s.granted
  noted : ∀ a request waiting, s.applying = some a → a.stage = .noted request waiting →
    request.client ∈ s.granted

theorem marked_append (label : Str) : marked (label ++ attestedMarker) = true := by
  unfold marked
  rw [List.isSuffixOf_iff_suffix]
  exact List.suffix_append label attestedMarker

theorem Truthful.insert {t : Table ClientId Held} (h : Truthful t) {held : Held}
    (hheld : Honest held.record.label held.origin) : Truthful (t.insert client held) := by
  intro c x hx
  rw [Table.lookup_insert_eq] at hx
  split at hx
  · obtain rfl := Option.some.inj hx
    exact hheld
  · exact h c x hx

theorem Truthful.erase {t : Table ClientId Held} (h : Truthful t) (client : ClientId) :
    Truthful (t.erase client) := by
  intro c x hx
  rw [Table.lookup_erase_eq] at hx
  split at hx
  · exact absurd hx (by simp)
  · exact h c x hx

theorem Attributed.put (h : Attributed s) {held : Held}
    (hheld : Honest held.record.label held.origin) (saves : Bool) :
    Attributed (s.put client held saves) := by
  refine ⟨h.index.insert hheld, ?_, h.verdicts, h.tasks, h.noted⟩
  unfold Sync.put
  dsimp only
  split
  · exact h.index.insert hheld
  · exact h.saved

theorem Attributed.drop (h : Attributed s) (client : ClientId) (saves : Bool) :
    Attributed (s.drop client saves) := by
  unfold Sync.drop
  split
  · exact h
  · refine ⟨h.index.erase client, ?_, h.verdicts, h.tasks, h.noted⟩
    dsimp only
    split
    · exact h.index.erase client
    · exact h.saved

theorem Attributed.touch (h : Attributed s) (client : ClientId) (time : SystemTime) (saves : Bool) :
    Attributed (s.touch client time saves) := by
  unfold Sync.touch
  split
  · exact h
  · next held hheld =>
    refine h.put ?_ saves
    exact h.index client held hheld

/-- A grant that is remembered serves whoever is waiting for it. -/
theorem Recalled.mono {granted granted' : Finset ClientId} (hsub : granted ⊆ granted') {label : Str}
    {origin : Origin} (h : Recalled granted client label origin) :
    Recalled granted' client label origin :=
  fun ho => (h ho).imp_left fun hmem => hsub hmem

theorem Task.Recalled.mono {granted granted' : Finset ClientId} (hsub : granted ⊆ granted')
    {t : Task} (h : t.Recalled granted) : t.Recalled granted' := by
  cases t with
  | insert record origin => exact AttestSync.Recalled.mono hsub h
  | marking record origin => exact h
  | _ => trivial

theorem Attributed.note (h : Attributed s) (client : ClientId) :
    Attributed { s with granted := insert client s.granted } := by
  have hsub : s.granted ⊆ insert client s.granted := Finset.subset_insert client s.granted
  exact ⟨h.index, h.saved, fun v hv => (h.verdicts v hv).mono hsub,
    fun t ht => (h.tasks t ht).mono hsub,
    fun a request waiting ha hstage => hsub (h.noted a request waiting ha hstage)⟩

/-- A grant nobody waits for may be forgotten. -/
theorem Attributed.forget (h : Attributed s) (hfree : ¬Unrecorded s client) :
    Attributed { s with granted := s.granted.erase client } := by
  refine ⟨h.index, h.saved, fun v hv ho => ?_, fun t ht => ?_, fun a request waiting ha hstage => ?_⟩
  · rcases h.verdicts v hv ho with hmem | hlabel
    · by_cases hlabel : marked v.request.label = true
      · exact .inr hlabel
      · refine .inl (Finset.mem_erase.mpr ⟨fun hclient => hfree ?_, hmem⟩)
        exact .waiting v hv ho hclient (Bool.not_eq_true _ ▸ hlabel)
    · exact .inr hlabel
  · have htask := h.tasks t ht
    cases t with
    | insert record origin =>
      intro ho
      rcases htask ho with hmem | hlabel
      · by_cases hlabel : marked record.label = true
        · exact .inr hlabel
        · refine .inl (Finset.mem_erase.mpr ⟨fun hclient => hfree ?_, hmem⟩)
          exact .recording record (ho ▸ ht) hclient (Bool.not_eq_true _ ▸ hlabel)
      · exact .inr hlabel
    | marking record origin => exact htask
    | _ => trivial
  · exact Finset.mem_erase.mpr ⟨fun hclient => hfree (.noted a request waiting ha hstage hclient),
      h.noted a request waiting ha hstage⟩

/-- An insert whose client is remembered writes the marker. -/
theorem honest_keepMarker {record : TrustRecord} {origin : Origin}
    (h : Recalled s.granted record.client record.label origin) :
    Honest (s.keepMarker record).label origin := by
  intro ho
  unfold Sync.keepMarker
  split
  · exact marked_append record.label
  · next hkeep =>
    rcases h ho with hmem | hlabel
    · by_contra hlabel
      exact hkeep ⟨hmem, Bool.not_eq_true _ ▸ hlabel⟩
    · exact hlabel

/-! ## One step of a call -/

theorem Attributed.stepTask (h : Attributed s) (tick : Tick) {task : Task}
    (htask : task.Recalled s.granted) (hfree : ∀ c, task = .remove c → ¬Unrecorded s c) :
    Attributed (s.stepTask tick task).1 ∧
      ∀ t ∈ (s.stepTask tick task).2.1, t.Recalled (s.stepTask tick task).1.granted := by
  cases task with
  | get | missed =>
    dsimp only [Sync.stepTask]
    split
    · exact ⟨h, by simp⟩
    · exact ⟨h, by simp [Task.Recalled]⟩
  | scanning client nowMs rest =>
    cases rest with
    | nil => exact ⟨h, by simp [Sync.stepTask]⟩
    | cons a rest =>
      dsimp only [Sync.stepTask]
      split
      · exact ⟨h, by simp [Task.Recalled]⟩
      · exact ⟨h, by simp [Task.Recalled]⟩
  | granting a => exact ⟨h.note a.device, by simp [Sync.stepTask, Task.Recalled]⟩
  | noted a =>
    refine ⟨h.put (fun _ => ?_) tick.saves, by simp [Sync.stepTask]⟩
    exact marked_append a.label
  | insert record origin =>
    refine ⟨h, fun t ht => ?_⟩
    obtain rfl := Option.some.inj ht
    exact honest_keepMarker htask
  | marking record origin =>
    have hrecord : Honest record.label origin := htask
    refine ⟨h.put ?_ tick.saves, by simp [Sync.stepTask]⟩
    exact hrecord
  | remove client => exact ⟨h.forget (hfree client rfl), by simp [Sync.stepTask, Task.Recalled]⟩
  | forgotten client => exact ⟨h.drop client tick.saves, by simp [Sync.stepTask]⟩

@[simp] theorem drop_tasks (s : Sync) (client : ClientId) (saves : Bool) :
    (s.drop client saves).tasks = s.tasks := by
  unfold Sync.drop
  split <;> rfl

theorem stepTask_tasks (s : Sync) (tick : Tick) (task : Task) :
    (s.stepTask tick task).1.tasks = s.tasks := by
  cases task with
  | get | missed =>
    dsimp only [Sync.stepTask]
    split <;> rfl
  | scanning client nowMs rest =>
    cases rest with
    | nil => rfl
    | cons a rest =>
      dsimp only [Sync.stepTask]
      split <;> rfl
  | forgotten client => exact drop_tasks s client tick.saves
  | _ => rfl

/-- What a step leaves of the calls: those there were, and what it goes on
with. -/
theorem mem_advanced {tasks : List Task} {i : Nat} {next : Option Task} {t : Task}
    (h : t ∈ tasks.eraseIdx i ++ next.toList) : t ∈ tasks ∨ t ∈ next := by
  rcases List.mem_append.mp h with hmem | hmem
  · exact .inl (List.mem_of_mem_eraseIdx hmem)
  · exact .inr (Option.mem_toList.mp hmem)

/-! ## One step of the apply -/

theorem Attributed.stage (h : Attributed s) (a : Applying)
    (hnoted : ∀ request waiting, a.stage = .noted request waiting → request.client ∈ s.granted) :
    Attributed { s with applying := some a } :=
  ⟨h.index, h.saved, h.verdicts, h.tasks, fun _ request waiting ha hstage =>
    hnoted request waiting (Option.some.inj ha ▸ hstage)⟩

theorem Attributed.refetch (h : Attributed s) (fetched : FetchedSet) :
    Attributed { s with fetched := fetched } :=
  ⟨h.index, h.saved, h.verdicts, h.tasks, h.noted⟩

theorem Attributed.finish (h : Attributed s) (revoked : Finset ClientId) :
    Attributed { s with
      applying := none, acted := s.acted ∪ revoked, barred := s.barred ∪ revoked } :=
  ⟨h.index, h.saved, h.verdicts, h.tasks, fun _ _ _ ha => absurd ha (by simp)⟩

theorem Attributed.resolve (h : Attributed s) {origin : Origin}
    (hgranted : origin = .attestation → client ∈ s.granted) :
    Attributed (s.resolve client origin) := by
  refine ⟨h.index, h.saved, fun v hv => ?_, h.tasks, h.noted⟩
  rcases List.mem_append.mp hv with hv | hv
  · exact h.verdicts v hv
  · obtain ⟨r, hr, rfl⟩ := List.mem_map.mp hv
    have hclient : r.client = client := by simpa using (List.mem_filter.mp hr).2
    exact fun ho => .inl (hclient ▸ hgranted ho)

theorem Attributed.stepApply (h : Attributed s) {a : Applying} (ha : s.applying = some a)
    (saves : Bool) (hfree : ∀ c begun todo, a.stage = .revoking begun (c :: todo) → ¬Unrecorded s c)
    :
    Attributed (s.stepApply a saves).1 := by
  have hstage : ∀ stage, (∀ request waiting, stage ≠ Stage.noted request waiting) →
      Attributed { s with applying := some { a with stage := stage } } :=
    fun stage hne => h.stage _ fun request waiting heq => absurd heq (hne request waiting)
  unfold Sync.stepApply
  cases hcase : a.stage with
  | revoking begun todo =>
    cases todo with
    | nil =>
      dsimp only
      split
      · exact h
      · exact (hstage _ (by simp)).refetch a.feed
    | cons c todo =>
      exact (h.forget (hfree c begun todo hcase)).stage _ (by simp)
  | forgot client begun todo =>
    dsimp only
    split
    · exact hstage _ (by simp)
    · exact hstage _ (by simp)
  | found client begun todo => exact (h.drop client saves).stage _ (by simp)
  | listing => exact hstage _ (by simp)
  | welcoming waiting =>
    cases waiting with
    | nil => exact h.finish a.feed.revoked.toFinset
    | cons request waiting =>
      dsimp only
      split
      · exact hstage _ (by simp)
      · exact hstage _ (by simp)
  | scanning request rest waiting =>
    cases rest with
    | nil => exact hstage _ (by simp)
    | cons v rest =>
      dsimp only
      split
      · exact hstage _ (by simp)
      · exact hstage _ (by simp)
  | granting request waiting =>
    refine (h.note request.client).stage _ fun r w heq => ?_
    obtain ⟨rfl, -⟩ := Stage.noted.inj heq
    exact Finset.mem_insert_self _ _
  | noted request waiting =>
    exact (h.resolve fun _ => h.noted a request waiting ha hcase).stage _ (by simp)

/-! ## Runs -/

theorem Attributed.begin (h : Attributed s) {task : Task} (htask : task.Recalled s.granted) :
    Attributed (s.begin task) := by
  refine ⟨h.index, h.saved, h.verdicts, fun t ht => ?_, h.noted⟩
  rcases List.mem_append.mp ht with ht | ht
  · exact h.tasks t ht
  · obtain rfl := List.mem_singleton.mp ht
    exact htask

/-- Fewer verdicts, and other requests and notes of ours. -/
theorem Attributed.shrink (h : Attributed s) (pending : List PairingRequest)
    (barred : Finset ClientId) {verdicts : List Verdict} (hsub : ∀ v ∈ verdicts, v ∈ s.verdicts) :
    Attributed { s with pending := pending, barred := barred, verdicts := verdicts } :=
  ⟨h.index, h.saved, fun v hv => h.verdicts v (hsub v hv), h.tasks, h.noted⟩

theorem Attributed.step (h : Attributed s) (a : Act)
    (hfree : ∀ c, s.forgets a = some c → ¬Unrecorded s c) : Attributed (s.step a).1 := by
  cases a with
  | get | remove => exact h.begin trivial
  | trust record =>
    refine (h.shrink s.pending (s.barred.erase record.client) fun v hv => hv).begin ?_
    exact fun ho => absurd ho (by simp)
  | touch client time saves => exact h.touch client time saves
  | advance i tick =>
    dsimp only [Sync.step]
    split
    · exact h
    · next task htask =>
      have hmem := List.mem_of_getElem? htask
      obtain ⟨hstate, hnext⟩ := h.stepTask tick (h.tasks task hmem) fun c hc =>
        hfree c (by simp [Sync.forgets, htask, hc])
      refine ⟨hstate.index, hstate.saved, hstate.verdicts, fun t ht => ?_, hstate.noted⟩
      rcases mem_advanced ht with hold | hnew
      · exact hstate.tasks t (stepTask_tasks s tick task ▸ hold)
      · exact hnext t hnew
  | fetch feed nowMs =>
    dsimp only [Sync.step]
    split
    · exact h
    · exact h.stage _ (by simp)
  | apply saves =>
    dsimp only [Sync.step]
    split
    · exact h
    · next a ha =>
      exact h.stepApply ha saves fun c begun todo hstage =>
        hfree c (by simp [Sync.forgets, ha, hstage])
  | ask | giveUp => exact h.shrink _ s.barred fun v hv => hv
  | decide client approve =>
    dsimp only [Sync.step]
    split
    · split
      · exact (h.shrink s.pending (s.barred.erase client) fun v hv => hv).resolve fun ho =>
          absurd ho (by simp [Sync.approved])
      · exact h.shrink _ s.barred fun v hv => hv
    · exact h
  | take i time =>
    dsimp only [Sync.step]
    split
    · exact h
    · next v hv =>
      refine (h.shrink s.pending s.barred fun w hw => List.mem_of_mem_eraseIdx hw).begin ?_
      exact h.verdicts v (List.mem_of_getElem? hv)
  | hangUp i => exact h.shrink s.pending s.barred fun v hv => List.mem_of_mem_eraseIdx hv
  | restart =>
    refine ⟨h.saved, h.saved, fun v hv => ?_, fun t ht => ?_, fun a request waiting ha => ?_⟩
    · exact absurd hv List.not_mem_nil
    · exact absurd ht List.not_mem_nil
    · exact absurd ha (Option.some_ne_none a).symm

theorem mayVouch_paired (h : Attributed s) (hvouch : s.mayVouch approver = true) :
    ∃ held restoring, s.index.lookup approver = some held ∧ held.origin = .person restoring := by
  unfold Sync.mayVouch at hvouch
  split at hvouch
  · next held hheld =>
    cases horigin : held.origin with
    | person restoring => exact ⟨held, restoring, hheld, horigin⟩
    | attestation =>
      rw [h.index approver held hheld horigin] at hvouch
      exact absurd hvouch (by decide)
  · exact absurd hvouch (by decide)

theorem admits_mayVouch {nowMs : UInt64} {a : Attestation}
    (h : s.fetched.admits client nowMs s.mayVouch a = true) : s.mayVouch a.approver = true := by
  unfold FetchedSet.admits at h
  simp only [Bool.and_eq_true] at h
  exact h.2

theorem stepTask_grant {tick : Tick} {task : Task}
    (h : (s.stepTask tick task).2.2 = .grant client approver) : s.mayVouch approver = true := by
  cases task with
  | get | missed =>
    dsimp only [Sync.stepTask] at h
    split at h
    · exact absurd h (by simp)
    · exact absurd h (by simp)
  | scanning client nowMs rest =>
    cases rest with
    | nil => exact absurd h (by simp [Sync.stepTask])
    | cons a rest =>
      dsimp only [Sync.stepTask] at h
      split at h
      · next hadmits =>
        obtain ⟨-, rfl⟩ := Reply.grant.inj h
        exact admits_mayVouch hadmits
      · exact absurd h (by simp)
  | _ => exact absurd h (by simp [Sync.stepTask])

theorem stepApply_grant {a : Applying} {saves : Bool}
    (h : (s.stepApply a saves).2 = .grant client approver) : s.mayVouch approver = true := by
  unfold Sync.stepApply at h
  cases hstage : a.stage with
  | revoking begun todo =>
    rw [hstage] at h
    cases todo with
    | nil =>
      dsimp only at h
      split at h
      · exact absurd h (by simp)
      · exact absurd h (by simp)
    | cons c todo => exact absurd h (by simp)
  | forgot c begun todo =>
    rw [hstage] at h
    dsimp only at h
    split at h
    · exact absurd h (by simp)
    · exact absurd h (by simp)
  | welcoming waiting =>
    rw [hstage] at h
    cases waiting with
    | nil => exact absurd h (by simp)
    | cons request waiting =>
      dsimp only at h
      split at h
      · exact absurd h (by simp)
      · exact absurd h (by simp)
  | scanning request rest waiting =>
    rw [hstage] at h
    cases rest with
    | nil => exact absurd h (by simp)
    | cons v rest =>
      dsimp only at h
      split at h
      · next hadmits =>
        obtain ⟨-, rfl⟩ := Reply.grant.inj h
        exact admits_mayVouch hadmits
      · exact absurd h (by simp)
  | _ =>
    rw [hstage] at h
    exact absurd h (by simp)

/-- A grant is a search that found an approver who may vouch. -/
theorem grant_mayVouch {a : Act} (h : (s.step a).2 = .grant client approver) :
    s.mayVouch approver = true := by
  cases a with
  | advance i tick =>
    dsimp only [Sync.step] at h
    split at h
    · exact absurd h (by simp)
    · exact stepTask_grant h
  | apply saves =>
    dsimp only [Sync.step] at h
    split at h
    · exact absurd h (by simp)
    · exact stepApply_grant h
  | fetch | take =>
    dsimp only [Sync.step] at h
    split at h
    · exact absurd h (by simp)
    · exact absurd h (by simp)
  | decide client approve =>
    dsimp only [Sync.step] at h
    split at h
    · split at h
      · exact absurd h (by simp)
      · exact absurd h (by simp)
    · exact absurd h (by simp)
  | _ => exact absurd h (by simp [Sync.step])

theorem attributed_start : Attributed {} :=
  ⟨fun _ _ h => absurd h (by simp), fun _ _ h => absurd h (by simp), by simp, by simp, by simp⟩

/-- What an undisturbed run keeps. -/
def Vouched (s : Sync) (history : History) : Prop :=
  (∀ e ∈ history, Undisturbed e) → Attributed s ∧ VouchersPaired history

theorem vouched_step (s : Sync) (history : History) (a : Act) (h : Vouched s history) :
    Vouched (s.step a).1 (history ++ [⟨s, a, (s.step a).2⟩]) := by
  intro hall
  rw [List.forall_mem_append, List.forall_mem_singleton] at hall
  obtain ⟨hstate, hpaired⟩ := h hall.1
  refine ⟨hstate.step a hall.2, fun e he client approver hreply => ?_⟩
  rcases List.mem_append.mp he with he | he
  · exact hpaired e he client approver hreply
  · obtain rfl := List.mem_singleton.mp he
    exact mayVouch_paired hstate (grant_mayVouch hreply)

/-- Where no grant is forgotten before its record has the marker, an attested
device never vouches, and every record an attestation made is marked. -/
theorem attested_never_vouches (acts : List Act)
    (h : ∀ e ∈ (Trace.run Sync.step {} acts).2, Undisturbed e) :
    VouchersPaired (Trace.run Sync.step {} acts).2 ∧
      AttestedMarked (Trace.run Sync.step {} acts).1 := by
  have hkept : Vouched (Trace.run Sync.step {} acts).1 (Trace.run Sync.step {} acts).2 :=
    Trace.run_invariant (I := Vouched)
      (fun _ => ⟨attributed_start, fun e he => absurd he List.not_mem_nil⟩) vouched_step acts
  obtain ⟨hstate, hpaired⟩ := hkept h
  exact ⟨hpaired, hstate.index⟩

/-! ## Two runs -/

def deskMac : ClientId := ⟨Vector.replicate 32 0x11⟩
def andyPhone : ClientId := ⟨Vector.replicate 32 0x22⟩
def stranger : ClientId := ⟨Vector.replicate 32 0x33⟩

def paired (client : ClientId) (label : String) : TrustRecord :=
  { client := client, label := label.toList, pairedAt := 0, lastSeen := none }

def vouching (approver device : ClientId) (label : String) : Attestation :=
  { v := 1, account := "acct".toList, device := device, label := label.toList, approver := approver,
    iat := 0, exp := 9 }

def asking (client : ClientId) (label : String) : PairingRequest :=
  { client := client, label := label.toList, code := "123456".toList, remote := "192.0.2.7".toList,
    requestedAt := 0 }

/-- The desk is paired by a person, a feed has its voucher for the phone, and
the phone knocks. -/
def introduced : List Act :=
  [.trust (paired deskMac "desk-mac"), .advance 0 {}, .advance 0 {},
    .fetch { verified := [vouching deskMac andyPhone "andy-phone"] } 1,
    .apply true, .apply true, .apply true,
    .get andyPhone, .advance 0 {}, .advance 0 { nowMs := 1 }, .advance 0 {}, .advance 0 {},
    .advance 0 {}]

theorem attested_never_vouches_introduced :
    VouchersPaired (Trace.run Sync.step {} introduced).2 ∧
      AttestedMarked (Trace.run Sync.step {} introduced).1 ∧
      ((Trace.run Sync.step {} introduced).1.index.lookup andyPhone).map (·.record.label) =
        some "andy-phone (attested)".toList := by
  have hquiet : ∀ e ∈ (Trace.run Sync.step {} introduced).2, e.state.forgets e.call = none := by
    decide
  have hlaw := attested_never_vouches introduced fun e he client hforget =>
    absurd (hquiet e he) (by simp [hforget])
  exact ⟨hlaw.1, hlaw.2, by decide⟩

/-- The phone waits for an approval, a feed has the desk's voucher for it,
and the next feed its revocation. The approval is taken up after that, and
then a third feed has the phone's voucher for a stranger. -/
def overtaken : List Act :=
  ([.trust (paired deskMac "desk-mac"), .advance 0 {}, .advance 0 {},
    .ask (asking andyPhone "andy-phone"),
    .fetch { verified := [vouching deskMac andyPhone "andy-phone"] } 1] : List Act) ++
  List.replicate 7 (Act.apply true) ++
  ([.fetch { revoked := [andyPhone] } 2] : List Act) ++ List.replicate 5 (Act.apply true) ++
  ([.take 0 0, .advance 0 {}, .advance 0 {},
    .fetch { verified := [vouching andyPhone stranger "stranger"] } 3,
    .apply true, .apply true, .apply true,
    .get stranger, .advance 0 {}, .advance 0 { nowMs := 3 }, .advance 0 {}] : List Act)

/-- An attested record without its marker, and its device vouches. -/
theorem overtaken_vouches :
    (Trace.run Sync.step {} overtaken).1.index.lookup andyPhone =
        some ⟨paired andyPhone "andy-phone", .attestation⟩ ∧
      (Trace.run Sync.step {} overtaken).2.getLast?.map Trace.Entry.reply =
        some (.grant stranger andyPhone) ∧
      ¬∀ acts : List Act, VouchersPaired (Trace.run Sync.step {} acts).2 ∧
        AttestedMarked (Trace.run Sync.step {} acts).1 := by
  have hrecord : (Trace.run Sync.step {} overtaken).1.index.lookup andyPhone =
      some ⟨paired andyPhone "andy-phone", .attestation⟩ := by decide
  refine ⟨hrecord, by decide, fun hall => ?_⟩
  exact absurd ((hall overtaken).2 andyPhone _ hrecord rfl) (by decide)

end Zesterm.AttestSync
