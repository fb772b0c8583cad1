/-
Zesterm.Cloud.VoucherTheorems — no voucher outlives its parties.

An approval reads two devices and stores its voucher in a later statement; a
revocation marks the device and then, in a second statement, the vouchers the
device is in. Two moments are lost between them. A voucher stored after a
revocation of a party has run both its statements is never withdrawn, and a
listing that runs between the two statements of one serves what is about to
be withdrawn. `vouchers_sound` says that these are all: in every run where
neither happens (`Timely`), every voucher served has parties that are live,
and that have not been revoked since its approval began its checks.

The invariant is `Vouched`. Of an approval under way: a party it has read is
live, or was revoked since. Of a voucher that is not withdrawn: a party that
is not live, or was revoked since the voucher's approval began, has a
revocation that will withdraw it.
-/
import Zesterm.Cloud.RegistryTheorems

namespace Zesterm.Cloud

open Interleave

namespace Service

variable {out : Outside} {s : Service} {m : Move Call}

/-! ## Events -/

/-- A device is revoked: the first statement of a revocation finds its row. -/
def Revokes (out : Outside) (device : Str) (e : Entry) : Prop :=
  ∃ userId now was, e.written out = some (.revokeDevice device userId now) ∧
    e.state.store.existingDevice device = some ⟨userId, was⟩

/-- Approval `i` begins its checks. -/
def Checks (i : Nat) (e : Entry) : Prop :=
  e.call = .step i ∧ ∃ args a, e.state.tasks[i]? = some (.approve args (.subject a))

/-- Approval `i` stores a voucher. -/
def Stores (i : Nat) (key : Str × Str) (e : Entry) : Prop :=
  e.call = .step i ∧ ∃ args a, e.state.tasks[i]? = some (.approve args (.putAttestation a)) ∧
    key = (a.device, a.byDevice)

/-- The device has been revoked since approval `i` began its checks. -/
def RevokedSince (out : Outside) (h : List Entry) (i : Nat) (device : Str) : Prop :=
  Trace.Since (Checks i) (Revokes out device) h

/-- The voucher there is under `key` is the one approval `i` stored. -/
def StoredBy (h : List Entry) (key : Str × Str) (i : Nat) : Prop :=
  Trace.LastBy (Stores i key) (fun e => ∃ j, Stores j key e) h

/-- A revocation of the device stands between its two statements. -/
def Withdrawing (out : Outside) (s : Service) (device userId : Str) : Prop :=
  ∃ (i : Nat) (r : Request) (now : Int), s.tasks[i]? = some r ∧
    r.writes out = some (.revokeAttestationsFor device userId now)

/-- The subject and the approver of a voucher. -/
def parties (key : Str × Str) : List Str := [key.1, key.2]

/-- What a listing serves has parties that are live now, and that have not
been revoked since the approval that stored it began its checks. -/
def ServesSound (out : Outside) (h : List Entry) (e : Entry) : Prop :=
  ∀ userId now, e.request = some (.listAttestations userId now .attestations) →
    ∀ voucher ∈ e.state.store.liveAttestations userId now, ∀ device ∈ parties voucher.1,
      (∀ row, e.state.store.existingDevice device = some row → row.revokedAt = none) ∧
      ∀ i, StoredBy h voucher.1 i → ¬RevokedSince out h i device

/-- No voucher is stored after a revocation of a party since the checks began
has run both its statements, and none is served while a revocation of a party
stands between them. -/
structure Timely (out : Outside) (h : List Entry) (e : Entry) : Prop where
  put : ∀ i args a, e.call = .step i →
    e.state.tasks[i]? = some (.approve args (.putAttestation a)) →
    ∀ device ∈ parties (a.device, a.byDevice), RevokedSince out h i device →
      Withdrawing out e.state device args.principal.userId
  list : ∀ userId now, e.request = some (.listAttestations userId now .attestations) →
    ∀ voucher ∈ e.state.store.liveAttestations userId now, ∀ device ∈ parties voucher.1,
      ¬Withdrawing out e.state device userId

/-! ## One request -/

/-- Only a revocation revokes a device. -/
theorem of_writes_revokeDevice {r : Request} {device userId : Str} {now : Int}
    (h : r.writes out = some (.revokeDevice device userId now)) :
    r = .revoke .device device userId now .principal := by
  unfold Request.writes at h
  split at h
  all_goals first
    | simp_all; done
    | rw [Option.some.injEq] at h
      split at h <;> exact absurd h (by simp)

/-- Once its first statement has found the row, its second is next. -/
theorem withdrawing_act {device userId : Str} {now : Int} {was : Option Int}
    (hw : Entry.written out ⟨s, m, ()⟩ = some (.revokeDevice device userId now))
    (hrow : s.store.existingDevice device = some ⟨userId, was⟩) :
    Withdrawing out (s.act out m).1 device userId := by
  cases m with
  | start a => exact absurd hw (by simp [Entry.written, Entry.request])
  | step i =>
    obtain ⟨r, hr, hwrites⟩ := Option.bind_eq_some_iff.mp hw
    have hr' : s.tasks[i]? = some r := hr
    obtain rfl := of_writes_revokeDevice hwrites
    obtain ⟨row, hlookup, hinc⟩ := Option.map_eq_some_iff.mp hrow
    have hanswer : (s.store.revokeDevice device userId now).2 = some (row.revokedAt.getD now) := by
      simp [Registry.revokeDevice, Table.updated, hlookup, Option.filter_some,
        (Incumbent.mk.inj hinc).1]
    refine ⟨i, _, now, by rw [act_step hr']; exact task_moved hr', ?_⟩
    simp only [Request.resume, RevokePhase.resume, hanswer, Request.writes]

/-- It stays next until it runs. -/
theorem Withdrawing.step {device userId : Str} (h : Withdrawing out s device userId) :
    Withdrawing out (s.act out m).1 device userId ∨
      ∃ now, Entry.written out ⟨s, m, ()⟩ = some (.revokeAttestationsFor device userId now) := by
  obtain ⟨j, r, now, hr, hwrites⟩ := h
  cases m with
  | start a =>
    refine .inl ⟨j, r, now, ?_, hwrites⟩
    rw [act, act_fst, tasks_start, List.getElem?_append_left (List.getElem?_eq_some_iff.mp hr).1, hr]
  | step i =>
    by_cases hij : j = i
    · subst hij
      exact .inr ⟨now, by simp [Entry.written, Entry.request, hr, hwrites]⟩
    · refine .inl ⟨j, r, now, ?_, hwrites⟩
      cases hi : s.tasks[i]? with
      | none => rw [act_none hi, hr]
      | some t =>
        rw [act_step hi]
        exact task_kept hij hr

/-! ## The invariant -/

/-- A device an approval has read is live, or has been revoked since. -/
structure Known (out : Outside) (h : List Entry) (db : Registry) (i : Nat) (userId device : Str) :
    Prop where
  began : ∃ e ∈ h, Checks i e
  row : ∃ was, db.existingDevice device = some ⟨userId, was⟩ ∧
    (was.isSome → RevokedSince out h i device)

/-- What an approval knows between two statements. -/
def Vetted (out : Outside) (h : List Entry) (db : Registry) (i : Nat) : Request → Prop
  | .approve args (.approver a) => Known out h db i args.principal.userId a.device
  | .approve args (.putAttestation a) =>
    ∀ device ∈ parties (a.device, a.byDevice), Known out h db i args.principal.userId device
  | _ => True

/-- What holds in every state of a run. -/
structure Vouched (out : Outside) (h : List Entry) (s : Service) : Prop where
  each : ∀ (i : Nat) (r : Request), s.tasks[i]? = some r → Vetted out h s.store i r
  rows : ∀ key row, s.store.attestations.lookup key = some row → ∀ device ∈ parties key,
    ∃ was, s.store.existingDevice device = some ⟨row.userId, was⟩ ∧
      (row.revokedAt = none → was.isSome → Withdrawing out s device row.userId)
  stored : ∀ key row, s.store.attestations.lookup key = some row → row.revokedAt = none →
    ∀ device ∈ parties key, ∀ i, StoredBy h key i → RevokedSince out h i device →
      Withdrawing out s device row.userId

variable {h : List Entry}

variable (out m) in
/-- The standing of a device after a move. -/
theorem standing_act {device userId : Str} {was : Option Int}
    (hrow : s.store.existingDevice device = some ⟨userId, was⟩) :
    ∃ was', (s.act out m).1.store.existingDevice device = some ⟨userId, was'⟩ ∧
      (was'.isSome → was.isSome ∨ Revokes out device ⟨s, m, ()⟩) := by
  rw [store_act]
  cases hw : Entry.written out ⟨s, m, ()⟩ with
  | none => exact ⟨was, hrow, .inl⟩
  | some w =>
    have hstanding := w.device_standing s.store device
    obtain ⟨was', hnew⟩ := hstanding.owner hrow
    refine ⟨was', hnew, fun hsome => ?_⟩
    obtain ⟨now', rfl⟩ := Option.isSome_iff_exists.mp hsome
    rcases hstanding.of_revoked hnew with hold | ⟨now, rfl⟩
    · obtain rfl := (Incumbent.mk.inj (Option.some.inj (hrow.symm.trans hold))).2
      exact .inl rfl
    · exact .inr ⟨userId, now, was, hw, hrow⟩

theorem Known.act {i : Nat} {userId device : Str} (hk : Known out h s.store i userId device) :
    Known out (h ++ [⟨s, m, ()⟩]) (s.act out m).1.store i userId device := by
  obtain ⟨⟨e, he, hchecks⟩, was, hrow, hsince⟩ := hk
  obtain ⟨was', hnew, hrevoked⟩ := standing_act out m hrow
  refine ⟨⟨e, by simp [he], hchecks⟩, was', hnew, fun hsome => ?_⟩
  rw [RevokedSince, Trace.since_snoc]
  rcases hrevoked hsome with hwas | hrevokes
  · exact .inl (hsince hwas)
  · exact .inr ⟨⟨e, he, hchecks⟩, hrevokes⟩

theorem Vetted.act {i : Nat} {r : Request} (hr : Vetted out h s.store i r) :
    Vetted out (h ++ [⟨s, m, ()⟩]) (s.act out m).1.store i r := by
  unfold Vetted at hr ⊢
  split at hr
  · exact hr.act
  · exact fun device hdevice => (hr device hdevice).act
  · trivial

/-- A request that begins has read nothing. -/
theorem vetted_begin {db : Registry} {i : Nat} (a : Call) :
    Vetted out h db i (Request.begin out a) := by
  cases a with
  | approve args =>
    simp only [Request.begin]
    split
    · trivial
    · split
      · trivial
      · split
        · trivial
        · split <;> trivial
  | _ => trivial

/-- A device that has just been read live. -/
theorem known_of_live {i : Nat} {userId device : Str} {status : DeviceStatus}
    (hbegan : ∃ e ∈ h, Checks i e) (hlive : s.store.liveDevice device userId = some status) :
    Known out h s.store i userId device :=
  ⟨hbegan, none, Registry.liveDevice_eq_some hlive, by simp⟩

/-- The checks on what was read answer, or leave the voucher to be stored. -/
theorem checked_eq (args : Approve) (a : AttestationFields) :
    Approve.checked out args a = .putAttestation a ∨
      ∃ response, Approve.checked out args a = .answered response := by
  unfold Approve.checked
  repeat' split
  all_goals first
    | exact .inl rfl
    | exact .inr ⟨_, rfl⟩

/-- The request that took the move. -/
theorem Vetted.own {i : Nat} {r : Request} (htask : s.tasks[i]? = some r)
    (hr : Vetted out h s.store i r) :
    Vetted out (h ++ [⟨s, .step i, ()⟩]) (s.act out (.step i)).1.store i (r.resume out s.store) := by
  cases r with
  | approve args phase =>
    cases phase with
    | subject a =>
      have hchecks : ∃ e ∈ h ++ [⟨s, .step i, ()⟩], Checks i e :=
        ⟨⟨s, .step i, ()⟩, by simp, rfl, args, a, htask⟩
      have hstore : (s.act out (.step i)).1.store = s.store := by rw [act_step htask]; rfl
      simp only [Request.resume, ApprovePhase.resume]
      split
      · trivial
      · next hlive =>
        rw [hstore]
        exact known_of_live hchecks hlive
    | approver a =>
      have hdevice : Known out (h ++ [⟨s, .step i, ()⟩]) (s.act out (.step i)).1.store i
        args.principal.userId a.device := Known.act hr
      have hstore : (s.act out (.step i)).1.store = s.store := by rw [act_step htask]; rfl
      simp only [Request.resume, ApprovePhase.resume]
      split
      · next hlive =>
        have hby : Known out (h ++ [⟨s, .step i, ()⟩]) (s.act out (.step i)).1.store i
            args.principal.userId a.byDevice := by
          rw [hstore]
          exact known_of_live hdevice.began hlive
        rcases checked_eq args a with heq | ⟨response, heq⟩
        · rw [heq]
          intro device hmem
          rcases List.mem_cons.mp hmem with rfl | hmem
          · exact hdevice
          · obtain rfl := List.mem_singleton.mp hmem
            exact hby
        · rw [heq]
          trivial
      · trivial
    | putAttestation | answered => trivial
    | approveDevice a =>
      simp only [Request.resume, ApprovePhase.resume]
      split <;> trivial
  | _ => trivial

/-! ## Every run -/

theorem vouched_nil {db : Registry} (hempty : db.attestations = ∅) : Vouched out [] ⟨db, []⟩ where
  each := by simp
  rows key row hrow := by simp [hempty] at hrow
  stored key row hrow := by simp [hempty] at hrow

/-- The requests there are after a move. -/
theorem each_act (hv : Vouched out h s) (i : Nat) (r : Request)
    (hr : (s.act out m).1.tasks[i]? = some r) :
    Vetted out (h ++ [⟨s, m, ()⟩]) (s.act out m).1.store i r := by
  cases m with
  | start a =>
    rcases task_start hr with hr | ⟨-, rfl⟩
    · exact (hv.each i r hr).act
    · exact vetted_begin a
  | step j =>
    cases ht : s.tasks[j]? with
    | none =>
      rw [act_none ht] at hr
      exact (hv.each i r hr).act
    | some t =>
      have htasks : (s.act out (.step j)).1.tasks = s.tasks.set j (t.resume out s.store) := by
        rw [act_step ht]
      rw [htasks] at hr
      rcases task_set ht hr with ⟨rfl, rfl⟩ | ⟨-, hr⟩
      · exact Vetted.own ht (hv.each i t ht)
      · exact (hv.each i r hr).act

/-- A revocation that is to withdraw a voucher still is, unless the move
withdrew it. -/
theorem Withdrawing.kept {device userId : Str} (hw : Withdrawing out s device userId)
    (hnot : ∀ now, Entry.written out ⟨s, m, ()⟩ ≠ some (.revokeAttestationsFor device userId now)) :
    Withdrawing out (s.act out m).1 device userId := by
  rcases hw.step (m := m) with hw | ⟨now, hnow⟩
  · exact hw
  · exact absurd hnow (hnot now)

/-- A party that is not live after a move was not before, or is to have its
vouchers withdrawn. -/
theorem party_act {userId device : Str} {was : Option Int}
    (hrow : s.store.existingDevice device = some ⟨userId, was⟩)
    (hwas : was.isSome → Withdrawing out (s.act out m).1 device userId) :
    ∃ was', (s.act out m).1.store.existingDevice device = some ⟨userId, was'⟩ ∧
      (was'.isSome → Withdrawing out (s.act out m).1 device userId) := by
  obtain ⟨was', hnew, hrevoked⟩ := standing_act out m hrow
  refine ⟨was', hnew, fun hsome => ?_⟩
  rcases hrevoked hsome with hold | ⟨userId', now, was, hw, hstanding⟩
  · exact hwas hold
  · obtain rfl := (Incumbent.mk.inj (Option.some.inj (hrow.symm.trans hstanding))).1
    exact withdrawing_act hw hrow

/-- A voucher as the move leaves it: it was there, or the move stored it. -/
inductive Left (out : Outside) (s : Service) (m : Move Call) (key : Str × Str)
    (row : AttestationRow) : Prop where
  | same (hold : s.store.attestations.lookup key = some row)
      (hput : ∀ i, ¬Stores i key ⟨s, m, ()⟩)
      (hnot : row.revokedAt = none → ∀ device ∈ parties key, ∀ now,
        Entry.written out ⟨s, m, ()⟩ ≠ some (.revokeAttestationsFor device row.userId now))
  | withdrawn (old : AttestationRow) (hold : s.store.attestations.lookup key = some old)
      (howner : old.userId = row.userId) (hrow : row.revokedAt ≠ none)
  | put (i : Nat) (args : Approve) (a : AttestationFields) (hm : m = .step i)
      (htask : s.tasks[i]? = some (.approve args (.putAttestation a)))
      (hkey : key = (a.device, a.byDevice)) (howner : row.userId = args.principal.userId ∨
        ∃ old, s.store.attestations.lookup key = some old ∧ old.userId = row.userId)

variable (out) in
/-- What an approval that stores a voucher writes. -/
theorem Stores.written {i : Nat} {key : Str × Str} {e : Entry} (hs : Stores i key e) :
    ∃ u blob iat exp, e.written out = some (.putAttestation key.1 key.2 u blob iat exp) := by
  obtain ⟨hcall, args, a, htask, rfl⟩ := hs
  refine ⟨args.principal.userId, args.blob, a.iat, a.exp, ?_⟩
  simp [Entry.written, Entry.request, hcall, htask, Request.writes]

/-- Only an approval stores a voucher. -/
theorem of_writes_putAttestation {r : Request} {device byDevice userId blob : Str} {iat exp : Int}
    (h : r.writes out = some (.putAttestation device byDevice userId blob iat exp)) :
    ∃ args a, r = .approve args (.putAttestation a) ∧ device = a.device ∧ byDevice = a.byDevice ∧
      userId = args.principal.userId := by
  unfold Request.writes at h
  split at h
  all_goals first
    | simp_all; done
    | rw [Option.some.injEq] at h
      split at h <;> exact absurd h (by simp)

theorem left_act {key : Str × Str} {row : AttestationRow}
    (hrow : (s.act out m).1.store.attestations.lookup key = some row) : Left out s m key row := by
  rw [store_act] at hrow
  cases hw : Entry.written out ⟨s, m, ()⟩ with
  | none =>
    rw [hw] at hrow
    refine .same hrow (fun i hs => ?_) fun _ _ _ _ heq => absurd (hw.symm.trans heq) (by simp)
    obtain ⟨_, _, _, _, heq⟩ := hs.written out
    exact absurd (hw.symm.trans heq) (by simp)
  | some w =>
    rw [hw, Option.map_some, Option.getD_some] at hrow
    cases w.voucher key hrow with
    | same hold hput hnot =>
      refine .same hold (fun i hs => ?_) fun hlive device hdevice now heq => ?_
      · obtain ⟨u, blob, iat, exp, heq⟩ := hs.written out
        exact hput u blob iat exp (Option.some.inj (hw.symm.trans heq))
      · obtain ⟨hne1, hne2⟩ := hnot hlive device now (Option.some.inj (hw.symm.trans heq))
        simp only [parties, List.mem_cons, List.not_mem_nil, or_false] at hdevice
        exact hdevice.elim hne1 hne2
    | withdrawn old hold howner hrevoked => exact .withdrawn old hold howner hrevoked
    | put u blob iat exp hput howner =>
      subst hput
      cases m with
      | start a => exact absurd hw (by simp [Entry.written, Entry.request])
      | step i =>
        obtain ⟨r, hr, hwrites⟩ := Option.bind_eq_some_iff.mp hw
        obtain ⟨args, a, rfl, hdevice, hby, rfl⟩ := of_writes_putAttestation hwrites
        exact .put i args a rfl hr (Prod.ext hdevice hby) howner

/-- The parties of a voucher that is being stored belong to its account. -/
theorem owner_of_put (hv : Vouched out h s) {i : Nat} {args : Approve} {a : AttestationFields}
    {row : AttestationRow} (htask : s.tasks[i]? = some (.approve args (.putAttestation a)))
    (howner : row.userId = args.principal.userId ∨
      ∃ old, s.store.attestations.lookup (a.device, a.byDevice) = some old ∧
        old.userId = row.userId) : row.userId = args.principal.userId := by
  rcases howner with howner | ⟨old, hold, howner⟩
  · exact howner
  · have hknown := hv.each i _ htask
    have hmem : a.device ∈ parties (a.device, a.byDevice) := by simp [parties]
    obtain ⟨-, was, hstanding, -⟩ := hknown _ hmem
    obtain ⟨was', hstanding', -⟩ := hv.rows _ old hold _ hmem
    rw [← howner]
    exact (Incumbent.mk.inj (Option.some.inj (hstanding'.symm.trans hstanding))).1

/-- In a run that is timely, a party revoked since the checks is to have the
voucher that is being stored withdrawn. -/
theorem withdrawing_of_put (ht : Timely out h ⟨s, m, ()⟩) {i : Nat} {args : Approve}
    {a : AttestationFields} (hm : m = .step i)
    (htask : s.tasks[i]? = some (.approve args (.putAttestation a))) {device : Str}
    (hdevice : device ∈ parties (a.device, a.byDevice)) (hsince : RevokedSince out h i device) :
    Withdrawing out (s.act out m).1 device args.principal.userId := by
  refine (ht.put i args a hm htask device hdevice hsince).kept fun now heq => ?_
  simp [Entry.written, Entry.request, hm, htask, Request.writes] at heq

theorem rows_act (hv : Vouched out h s) (ht : Timely out h ⟨s, m, ()⟩) {key : Str × Str}
    {row : AttestationRow} (hrow : (s.act out m).1.store.attestations.lookup key = some row)
    {device : Str} (hdevice : device ∈ parties key) :
    ∃ was, (s.act out m).1.store.existingDevice device = some ⟨row.userId, was⟩ ∧
      (row.revokedAt = none → was.isSome → Withdrawing out (s.act out m).1 device row.userId) := by
  cases left_act hrow with
  | same hold hput hnot =>
    obtain ⟨was, hstanding, hwas⟩ := hv.rows key row hold device hdevice
    by_cases hlive : row.revokedAt = none
    · obtain ⟨was', hnew, hwas'⟩ := party_act (m := m) hstanding fun hsome =>
        (hwas hlive hsome).kept (hnot hlive device hdevice)
      exact ⟨was', hnew, fun _ => hwas'⟩
    · obtain ⟨was', hnew, -⟩ := standing_act out m hstanding
      exact ⟨was', hnew, fun h => absurd h hlive⟩
  | withdrawn old hold howner hrevoked =>
    obtain ⟨was, hstanding, -⟩ := hv.rows key old hold device hdevice
    rw [howner] at hstanding
    obtain ⟨was', hnew, -⟩ := standing_act out m hstanding
    exact ⟨was', hnew, fun h => absurd h hrevoked⟩
  | put i args a hm htask hkey howner =>
    subst hkey
    have hknown := hv.each i _ htask
    obtain ⟨-, was, hstanding, hsince⟩ := hknown device hdevice
    rw [owner_of_put hv htask howner]
    obtain ⟨was', hnew, hwas'⟩ := party_act (m := m) hstanding fun hsome =>
      withdrawing_of_put ht hm htask hdevice (hsince hsome)
    exact ⟨was', hnew, fun _ => hwas'⟩

theorem stored_act (hv : Vouched out h s) (ht : Timely out h ⟨s, m, ()⟩) {key : Str × Str}
    {row : AttestationRow} (hrow : (s.act out m).1.store.attestations.lookup key = some row)
    (hlive : row.revokedAt = none) {device : Str} (hdevice : device ∈ parties key) {i : Nat}
    (hstored : StoredBy (h ++ [⟨s, m, ()⟩]) key i)
    (hsince : RevokedSince out (h ++ [⟨s, m, ()⟩]) i device) :
    Withdrawing out (s.act out m).1 device row.userId := by
  obtain ⟨was, hstanding, -⟩ := rows_act hv ht hrow hdevice
  rw [StoredBy, Trace.lastBy_snoc] at hstored
  rw [RevokedSince, Trace.since_snoc] at hsince
  cases left_act hrow with
  | same hold hput hnot =>
    have hstoredBy : StoredBy h key i := (hstored.resolve_left (hput i)).1
    obtain ⟨was, hstanding, -⟩ := hv.rows key row hold device hdevice
    rcases hsince with hsince | ⟨-, userId, now, was', hw, hrevoked⟩
    · exact (hv.stored key row hold hlive device hdevice i hstoredBy hsince).kept
        (hnot hlive device hdevice)
    · obtain rfl := (Incumbent.mk.inj (Option.some.inj (hstanding.symm.trans hrevoked))).1
      exact withdrawing_act hw hrevoked
  | withdrawn old hold howner hrevoked => exact absurd hlive hrevoked
  | put j args a hm htask hkey howner =>
    subst hkey
    have hstores : Stores j (a.device, a.byDevice) ⟨s, m, ()⟩ := ⟨hm, args, a, htask, rfl⟩
    obtain rfl : i = j := by
      rcases hstored with ⟨hi, -⟩ | ⟨-, hnone⟩
      · exact Move.step.inj (hi.symm.trans hm)
      · exact absurd ⟨j, hstores⟩ hnone
    rw [owner_of_put hv htask howner]
    rcases hsince with hsince | ⟨-, userId, now, was', hw, -⟩
    · exact withdrawing_of_put ht hm htask hdevice hsince
    · obtain ⟨_, _, _, _, hput⟩ := hstores.written out
      exact absurd (hw.symm.trans hput) (by simp)

theorem vouched_act (hv : Vouched out h s) (ht : Timely out h ⟨s, m, ()⟩) :
    Vouched out (h ++ [⟨s, m, ()⟩]) (s.act out m).1 where
  each := each_act hv
  rows _ _ hrow _ hdevice := rows_act hv ht hrow hdevice
  stored _ _ hrow hlive _ hdevice _ := stored_act hv ht hrow hlive hdevice

/-- What a listing serves is unrevoked and the account's. -/
theorem of_mem_liveAttestations {db : Registry} {userId : Str} {now : Int}
    {voucher : (Str × Str) × AttestationRow} (hmem : voucher ∈ db.liveAttestations userId now) :
    db.attestations.lookup voucher.1 = some voucher.2 ∧ voucher.2.userId = userId ∧
      voucher.2.revokedAt = none := by
  rw [Registry.liveAttestations, List.mem_insertionSort, List.mem_filter, List.mem_map] at hmem
  obtain ⟨⟨⟨key, row⟩, hentry, rfl⟩, hserved⟩ := hmem
  simp only [Registry.served, Bool.and_eq_true, beq_iff_eq, Option.isNone_iff_eq_none] at hserved
  exact ⟨AList.mem_lookup_iff.mpr hentry, hserved.1.1.1, hserved.1.1.2⟩

theorem servesSound (hv : Vouched out h s) (ht : Timely out h ⟨s, m, ()⟩) :
    ServesSound out h ⟨s, m, ()⟩ := by
  intro userId now hrequest voucher hmem device hdevice
  obtain ⟨hrow, rfl, hlive⟩ := of_mem_liveAttestations hmem
  have hnot := ht.list _ now hrequest voucher hmem device hdevice
  obtain ⟨was, hstanding, hwas⟩ := hv.rows voucher.1 voucher.2 hrow device hdevice
  refine ⟨fun row hexisting => ?_, fun i hstored hsince =>
    hnot (hv.stored voucher.1 voucher.2 hrow hlive device hdevice i hstored hsince)⟩
  obtain rfl := Option.some.inj (hstanding.symm.trans hexisting)
  cases was with
  | none => rfl
  | some at' => exact absurd (hwas hlive rfl) hnot

/-- In every timely run from a table with no vouchers, every listing is
sound. -/
theorem vouchers_sound (out : Outside) (db : Registry) (hempty : db.attestations = ∅)
    (moves : List (Move Call)) (htimely : Trace.Each (Timely out) (run out db moves).2) :
    Trace.Each (ServesSound out) (run out db moves).2 := by
  have hinv := Trace.run_invariant_of_each (s := (⟨db, []⟩ : Service))
    (I := fun s h => Vouched out h s ∧ Trace.Each (ServesSound out) h) (P := Timely out)
    ⟨vouched_nil hempty, Trace.each_nil _⟩ ?_ moves htimely
  · exact hinv.2
  · rintro s h m ⟨hv, heach⟩ ht
    exact ⟨vouched_act hv ht, Trace.each_snoc.mpr ⟨heach, servesSound hv ht⟩⟩

/-- No request is about to revoke anything. -/
def Quiet (out : Outside) (s : Service) : Bool :=
  s.tasks.all fun r =>
    match r.writes out with
    | some (.revokeDevice _ _ _) | some (.revokeAttestationsFor _ _ _) => false
    | _ => true

/-- A run in which nothing is revoked is timely. -/
theorem timely_of_quiet (hquiet : ∀ e ∈ h, Quiet out e.state = true) :
    Trace.Each (Timely out) h := by
  have htask : ∀ e ∈ h, ∀ (i : Nat) (r : Request) (w : Write), e.state.tasks[i]? = some r →
      r.writes out = some w → (∀ d u now, w ≠ .revokeDevice d u now) ∧
        ∀ d u now, w ≠ .revokeAttestationsFor d u now := by
    intro e he i r w hr hw
    have hr' := List.all_eq_true.mp (hquiet e he) r (List.mem_of_getElem? hr)
    rw [hw] at hr'
    constructor <;> rintro d u now rfl <;> exact absurd hr' (by simp)
  rintro before e after rfl
  have hnot : ∀ device userId, ¬Withdrawing out e.state device userId := by
    rintro device userId ⟨i, r, now, hr, hw⟩
    exact (htask e (by simp) i r _ hr hw).2 _ _ _ rfl
  refine ⟨fun i args a _ _ device _ hsince => ?_, fun _ _ _ _ _ device _ => hnot device _⟩
  obtain ⟨front, x, rest, rfl, -, f, hf, userId, now, -, hw, -⟩ := hsince
  obtain ⟨r, hr, hwrites⟩ := Option.bind_eq_some_iff.mp hw
  unfold Entry.request at hr
  split at hr
  · exact absurd rfl ((htask f (by simp [hf]) _ r _ hr hwrites).1 _ _ _)
  · exact absurd hr (by simp)

/-- A blob says that `b` vouches for `d`, and every signature verifies. -/
def anyVoucher : Outside where
  verifyAsync _ _ _ := true
  decodeAttestation _ := some ⟨['u'], ['d'], ['b'], 0, 10⟩
  attestationSignatureOk _ := true
  sessionIdOf := id

/-- An account with a device that waits and one that is approved. -/
def twoDevices : Registry where
  devices :=
    let approved : DeviceRow := { userId := ['u'], label := [], kind := .desktop, enrolledAt := 0 }
    AList.insert ['d'] { approved with status := .pending } (AList.insert ['b'] approved ∅)

/-- `u` approves `d` on the word of `b`. -/
def approval : Call := .approve ⟨.user ['u'], ['d'], ['v'], 1⟩

/-- An approval and a listing after it. -/
theorem vouchers_sound_served :
    let moves := [.start approval, .step 0, .step 0, .step 0, .step 0,
      .start (.listAttestations ['u'] 2), .step 1]
    (run anyVoucher twoDevices moves).1.tasks[1]? =
        some (.listAttestations ['u'] 2 (.revokedIds [['v']])) ∧
      Trace.Each (ServesSound anyVoucher) (run anyVoucher twoDevices moves).2 := by
  intro moves
  refine ⟨by decide, vouchers_sound anyVoucher twoDevices rfl moves (timely_of_quiet ?_)⟩
  decide

/-- A revocation runs both its statements between an approval's checks and
its voucher, which is served for good. -/
theorem voucher_outlives : ¬∀ (out : Outside) (db : Registry), db.attestations = ∅ →
    ∀ moves, Trace.Each (ServesSound out) (run out db moves).2 := by
  intro hall
  let moves : List (Move Call) := [.start approval, .step 0, .step 0,
    .start (.revoke .device ['d'] ['u'] 1), .step 1, .step 1, .step 0,
    .start (.listAttestations ['u'] 2)]
  have heach := hall anyVoucher twoDevices rfl (moves ++ [.step 2])
  rw [run, Trace.run_snoc, Trace.extend, Trace.each_snoc] at heach
  have hserved := heach.2 ['u'] 2 (by decide)
    ((['d'], ['b']), ⟨['u'], ['v'], 0, 10, none⟩) (by decide) ['d'] (by simp [parties])
  exact absurd (hserved.1 ⟨['u'], some 1⟩ (by decide)) (by simp)

end Service

end Zesterm.Cloud
