/-
Zesterm.Cloud.TokenTheorems — a machine holds one live credential.

A token resolves through a join with its principal's row, so revoking the
principal disables the token with no second write, and restoring it enables
the token again: the token is the one the machine has held all along
(`ComesBack`). What kills a token for good is the issue of the next one, whose
first statement revokes every token of the principal (`StaysDead`).

An issue is two statements. `OneLive` is the invariant of the runs in which no
two issues for one principal overlap: an issue between its statements has left
its principal without a live token, and no other stands there.
-/
import Zesterm.Cloud.RegistryTheorems

namespace Zesterm.Cloud

open Interleave

/-- Two live tokens of one principal are one token. -/
def Registry.OneToken (db : Registry) : Prop :=
  ∀ a b row row', db.machineTokens.lookup a = some row → db.machineTokens.lookup b = some row' →
    row.revokedAt = none → row'.revokedAt = none → row.principalKind = row'.principalKind →
    row.principalId = row'.principalId → a = b

namespace Request

variable {out : Outside}

/-- The principal whose new token a request is to insert. -/
def issuing (out : Outside) (r : Request) : Option (EnrollKind × Str) :=
  match r.writes out with
  | some (.insertToken _ _ kind principal _) => some (kind, principal)
  | _ => none

theorem issuing_eq_some {r : Request} {kind : EnrollKind} {principal : Str} :
    r.issuing out = some (kind, principal) ↔
      ∃ id u now, r.writes out = some (.insertToken id u kind principal now) := by
  unfold issuing
  constructor
  · intro h
    split at h
    · next id u k p now hw =>
      obtain ⟨rfl, rfl⟩ := Prod.mk.inj (Option.some.inj h)
      exact ⟨id, u, now, hw⟩
    · exact absurd h (by simp)
  · rintro ⟨id, u, now, hw⟩
    rw [hw]

/-- Only the last statement of a claim inserts a token. -/
theorem of_writes_insertToken {r : Request} {id u principal : Str} {kind : EnrollKind} {now : Int}
    (h : r.writes out = some (.insertToken id u kind principal now)) :
    (∃ args row owner, r = .claimCode args (.insertToken row owner) ∧ kind = row.kind ∧
      principal = args.id) ∨
    (∃ args row owner, r = .claimLink args (.insertToken row owner) ∧ kind = .device ∧
      principal = args.id) := by
  unfold writes at h
  split at h
  all_goals first
    | simp_all; done
    | rw [Option.some.injEq] at h
      split at h <;> exact absurd h (by simp)

/-- A request that begins is to insert nothing. -/
theorem issuing_begin (a : Call) : (Request.begin out a).issuing out = none := by
  rw [Option.eq_none_iff_forall_ne_some]
  rintro ⟨kind, principal⟩ h
  obtain ⟨id, u, now, hw⟩ := issuing_eq_some.mp h
  rcases of_writes_insertToken hw with ⟨args, row, owner, heq, -⟩ | ⟨args, row, owner, heq, -⟩
  · cases a <;> cases heq
  · cases a with
    | claimLink args' =>
      have hphase := (Request.claimLink.inj heq).2
      split at hphase <;> cases hphase
    | _ => cases heq

/-- What is left when it stands before its last statement. -/
theorem of_claimCodeResume_insertToken {db : Registry} {args : ClaimCode}
    {phase : ClaimPhase EnrollCodeRow} {row : EnrollCodeRow} {owner : Str}
    (h : claimCodeResume out db args phase = .insertToken row owner) :
    phase = .revokeTokens row owner := by
  cases phase with
  | revokeTokens row' owner' =>
    obtain ⟨rfl, rfl⟩ := ClaimPhase.insertToken.inj h
    rfl
  | _ =>
    simp only [claimCodeResume, ClaimCode.found, ClaimPhase.admitted] at h
    repeat' split at h
    all_goals exact absurd h (by simp)

theorem of_claimLinkResume_insertToken {db : Registry} {args : ClaimLink}
    {phase : ClaimPhase LinkGrantRow} {row : LinkGrantRow} {owner : Str}
    (h : claimLinkResume out db args phase = .insertToken row owner) :
    phase = .revokeTokens row owner := by
  cases phase with
  | revokeTokens row' owner' =>
    obtain ⟨rfl, rfl⟩ := ClaimPhase.insertToken.inj h
    rfl
  | _ =>
    simp only [claimLinkResume, ClaimPhase.admitted] at h
    repeat' split at h
    all_goals exact absurd h (by simp)

/-- It gets there by revoking the tokens the principal had. -/
theorem of_issuing_resume {db : Registry} {r : Request} {kind : EnrollKind} {principal : Str}
    (h : (r.resume out db).issuing out = some (kind, principal)) :
    ∃ now, r.writes out = some (.revokeTokens kind principal now) := by
  obtain ⟨id, u, now, hw⟩ := issuing_eq_some.mp h
  rcases of_writes_insertToken hw with ⟨args, row, owner, heq, rfl, rfl⟩ |
    ⟨args, row, owner, heq, rfl, rfl⟩
  · cases r with
    | claimCode args' phase =>
      obtain ⟨rfl, hphase⟩ := Request.claimCode.inj heq
      obtain rfl := of_claimCodeResume_insertToken hphase
      exact ⟨args'.now, rfl⟩
    | _ => exact absurd heq (by simp [resume])
  · cases r with
    | claimLink args' phase =>
      obtain ⟨rfl, hphase⟩ := Request.claimLink.inj heq
      obtain rfl := of_claimLinkResume_insertToken hphase
      exact ⟨args'.now, rfl⟩
    | _ => exact absurd heq (by simp [resume])

end Request

/-! ## Resolving -/

/-- The principal of a token is the account's and live, and approved where the
join asks for it. -/
def Registry.PrincipalStands (db : Registry) (row : TokenRow) : Prop :=
  match row.principalKind with
  | .host => db.existingHost row.principalId = some ⟨row.userId, none⟩
  | .device => db.existingDevice row.principalId = some ⟨row.userId, none⟩ ∧
      ∃ device, db.devices.lookup row.principalId = some device ∧ device.status = .approved

theorem Registry.principalLive_iff {db : Registry} {row : TokenRow} :
    db.principalLive row = true ↔ db.PrincipalStands row := by
  unfold principalLive PrincipalStands
  cases row.principalKind with
  | host =>
    dsimp only
    rw [existingHost]
    cases db.hosts.lookup row.principalId with
    | none => simp
    | some host => simp
  | device =>
    dsimp only
    rw [existingDevice]
    cases db.devices.lookup row.principalId with
    | none => simp
    | some device => simp

theorem Registry.resolveToken_eq_some {db : Registry} {kind : EnrollKind} {id : Str} {now : Int}
    {row : TokenRow} : db.resolveToken kind id now = some row ↔
      db.machineTokens.lookup id = some row ∧ row.principalKind = kind ∧ row.revokedAt = none ∧
        now < row.expiresAt ∧ db.PrincipalStands row ∧ db.users.lookup row.userId = some none := by
  rw [resolveToken, Option.filter_eq_some_iff]
  simp only [Bool.and_eq_true, beq_iff_eq, Option.isNone_iff_eq_none, decide_eq_true_eq,
    principalLive_iff, and_assoc]

/-- The statement of a resolution that looks at the tokens of one kind. -/
def EnrollKind.resolvePhase : EnrollKind → ResolvePhase
  | .host => .host
  | .device => .device

namespace Service

variable {out : Outside} {s : Service} {m : Move Call} {h : List Entry}

/-- The move resolves a token, by this row. -/
def Resolves (out : Outside) (token : Str) (now : Int) (row : TokenRow) (e : Entry) : Prop :=
  ∃ kind : EnrollKind, e.request = some (.resolve token now kind.resolvePhase) ∧
    e.state.store.resolveToken kind (out.sessionIdOf token) now = some row

/-- What resolves is unrevoked, unexpired, of a live principal and of an
account that is not disabled. -/
def ResolvesLive (out : Outside) (e : Entry) : Prop :=
  ∀ token now row, Resolves out token now row e → row.revokedAt = none ∧ now < row.expiresAt ∧
    e.state.store.PrincipalStands row ∧ e.state.store.users.lookup row.userId = some none

/-- What resolves had never been revoked, nor its principal issued another. -/
def StaysDead (out : Outside) (h : List Entry) (e : Entry) : Prop :=
  ∀ token now row, Resolves out token now row e → ∀ f ∈ h, ∀ old,
    f.state.store.machineTokens.lookup (out.sessionIdOf token) = some old → old.revokedAt = none ∧
      ∀ at', f.written out ≠ some (.revokeTokens old.principalKind old.principalId at')

/-- A token whose principal is issued no other resolves whenever the principal
and the account are live again, until it expires. -/
def ComesBack (out : Outside) (s : Service) (moves : List (Move Call)) : Prop :=
  ∀ id row, s.store.machineTokens.lookup id = some row → row.revokedAt = none →
    (∀ e ∈ (Trace.run (act out) s moves).2, ∀ at', Entry.written out e ≠
      some (.revokeTokens row.principalKind row.principalId at')) →
    ∃ row', (Trace.run (act out) s moves).1.store.machineTokens.lookup id = some row' ∧
      row'.userId = row.userId ∧ row'.principalId = row.principalId ∧
      ∀ now, now < row'.expiresAt → (Trace.run (act out) s moves).1.store.PrincipalStands row' →
        (Trace.run (act out) s moves).1.store.users.lookup row.userId = some none →
        (Trace.run (act out) s moves).1.store.resolveToken row.principalKind id now = some row'

/-- No token is revoked for a new one while another request is to insert one
for the same principal. -/
def Alone (out : Outside) (e : Entry) : Prop :=
  ∀ kind principal now, e.written out = some (.revokeTokens kind principal now) →
    ∀ (i : Nat) (r : Request), e.state.tasks[i]? = some r → r.issuing out ≠ some (kind, principal)

/-! ## What is dead stays so -/

variable (out m) in
/-- A token's row after a move. -/
theorem token_act (id : Str) {row : TokenRow} (hrow : s.store.machineTokens.lookup id = some row) :
    ∃ row', (s.act out m).1.store.machineTokens.lookup id = some row' ∧
      row'.userId = row.userId ∧ row'.principalKind = row.principalKind ∧
      row'.principalId = row.principalId ∧
      (row'.revokedAt = row.revokedAt ∧ (row.revokedAt = none → ∀ at',
          Entry.written out ⟨s, m, ()⟩ ≠ some (.revokeTokens row.principalKind row.principalId at')) ∨
        ∃ at', Entry.written out ⟨s, m, ()⟩ =
            some (.revokeTokens row.principalKind row.principalId at') ∧
          row'.revokedAt = some at') := by
  rw [store_act]
  cases hw : Entry.written out ⟨s, m, ()⟩ with
  | none => exact ⟨row, hrow, rfl, rfl, rfl, .inl ⟨rfl, by simp⟩⟩
  | some w =>
    rw [Option.map_some, Option.getD_some]
    cases w.token s.store id with
    | same hsame hnot =>
      refine ⟨row, hsame.trans hrow, rfl, rfl, rfl, .inl ⟨rfl, fun hlive at' heq => ?_⟩⟩
      exact hnot row at' hrow hlive (Option.some.inj heq)
    | superseded old now hold hw hlive hnew =>
      obtain rfl := Option.some.inj (hrow.symm.trans hold)
      exact ⟨_, hnew, rfl, rfl, rfl, .inr ⟨now, congrArg some hw, rfl⟩⟩
    | issued u kind principal now hw hold hnew => exact absurd (hrow.symm.trans hold) (by simp)
    | touched old now hw hold hnew =>
      obtain rfl := Option.some.inj (hrow.symm.trans hold)
      exact ⟨_, hnew, rfl, rfl, rfl, .inl ⟨rfl, fun _ _ heq => by simp [hw] at heq⟩⟩

/-- A token that was revoked, or whose principal was issued another. -/
def Dead (out : Outside) (id : Str) (e : Entry) : Prop :=
  ∃ old, e.state.store.machineTokens.lookup id = some old ∧ (old.revokedAt.isSome ∨
    ∃ at', e.written out = some (.revokeTokens old.principalKind old.principalId at'))

/-- Its row is there and revoked. -/
def Buried (s : Service) (id : Str) : Prop :=
  ∃ row, s.store.machineTokens.lookup id = some row ∧ row.revokedAt.isSome

theorem Buried.act {id : Str} (hb : Buried s id) : Buried (s.act out m).1 id := by
  obtain ⟨row, hrow, hrevoked⟩ := hb
  obtain ⟨row', hrow', -, -, -, ⟨hsame, -⟩ | ⟨at', -, hsome⟩⟩ :=
    token_act out m id hrow
  · exact ⟨row', hrow', by rw [hsame]; exact hrevoked⟩
  · exact ⟨row', hrow', by rw [hsome]; rfl⟩

theorem Dead.buried {id : Str} (hd : Dead out id ⟨s, m, ()⟩) : Buried (s.act out m).1 id := by
  obtain ⟨old, hold, hrevoked | ⟨at', hw⟩⟩ := hd
  · exact Buried.act ⟨old, hold, hrevoked⟩
  · obtain ⟨row', hrow', -, -, -, ⟨hsame, hnot⟩ | ⟨at'', -, hsome⟩⟩ :=
      token_act out m id hold
    · cases hlive : old.revokedAt with
      | none => exact absurd hw (hnot hlive at')
      | some => exact ⟨row', hrow', by rw [hsame, hlive]; rfl⟩
    · exact ⟨row', hrow', by rw [hsome]; rfl⟩

theorem staysDead {e : Entry} (hburied : ∀ id, (∃ f ∈ h, Dead out id f) → Buried e.state id) :
    StaysDead out h e := by
  rintro token now row ⟨kind, -, hresolve⟩ f hf old hold
  obtain ⟨hlookup, -, hlive, -⟩ := Registry.resolveToken_eq_some.mp hresolve
  have hnot : ¬Dead out (out.sessionIdOf token) f := by
    intro hdead
    obtain ⟨row', hrow', hrevoked⟩ := hburied _ ⟨f, hf, hdead⟩
    rw [Option.some.inj (hrow'.symm.trans hlookup), hlive] at hrevoked
    exact absurd hrevoked (by simp)
  constructor
  · rw [← Option.not_isSome_iff_eq_none]
    exact fun hsome => hnot ⟨old, hold, .inl hsome⟩
  · exact fun at' hw => hnot ⟨old, hold, .inr ⟨at', hw⟩⟩

theorem comesBack (s : Service) (moves : List (Move Call)) : ComesBack out s moves := by
  unfold ComesBack
  intro id row hrow hlive hnone
  have hinv := Trace.run_invariant_of_each (s := s)
    (I := fun (s : Service) _ => ∃ row', s.store.machineTokens.lookup id = some row' ∧
      row'.userId = row.userId ∧ row'.principalKind = row.principalKind ∧
      row'.principalId = row.principalId ∧ row'.revokedAt = none)
    (P := fun _ e => ∀ at', Entry.written out e ≠
      some (.revokeTokens row.principalKind row.principalId at'))
    ⟨row, hrow, rfl, rfl, rfl, hlive⟩ ?_ moves (Trace.each_of_forall hnone)
  · obtain ⟨row', hrow', huser, hkind, hprincipal, hlive'⟩ := hinv
    refine ⟨row', hrow', huser, hprincipal, fun now hnow hstands husers => ?_⟩
    rw [Registry.resolveToken_eq_some]
    exact ⟨hrow', hkind, hlive', hnow, hstands, by rw [huser]; exact husers⟩
  · rintro s h m ⟨old, hold, huser, hkind, hprincipal, hlive'⟩ hnot
    obtain ⟨new, hnew, huser', hkind', hprincipal', hor⟩ := token_act out m id hold
    refine ⟨new, hnew, huser'.trans huser, hkind'.trans hkind, hprincipal'.trans hprincipal, ?_⟩
    rcases hor with ⟨hsame, -⟩ | ⟨at', hw, -⟩
    · exact hsame.trans hlive'
    · rw [hkind, hprincipal] at hw
      exact absurd hw (hnot at')

/-! ## One live token -/

/-- No live token of the principal. -/
def NoToken (db : Registry) (kind : EnrollKind) (principal : Str) : Prop :=
  ∀ id row, db.machineTokens.lookup id = some row → row.principalKind = kind →
    row.principalId = principal → row.revokedAt.isSome

/-- What holds in every run in which issues are alone. -/
structure OneLive (out : Outside) (s : Service) : Prop where
  one : s.store.OneToken
  none : ∀ (i : Nat) (r : Request) kind principal, s.tasks[i]? = some r →
    r.issuing out = some (kind, principal) → NoToken s.store kind principal
  apart : ∀ (i j : Nat) (r r' : Request) p, s.tasks[i]? = some r → s.tasks[j]? = some r' →
    r.issuing out = some p → r'.issuing out = some p → i = j

/-- A live token after a move was live before, or is the one a request was to
insert. -/
theorem live_act {id : Str} {row : TokenRow}
    (hrow : (s.act out m).1.store.machineTokens.lookup id = some row) (hlive : row.revokedAt = none) :
    (∃ old, s.store.machineTokens.lookup id = some old ∧ old.revokedAt = none ∧
      old.principalKind = row.principalKind ∧ old.principalId = row.principalId ∧
      ∀ at', Entry.written out ⟨s, m, ()⟩ ≠
        some (.revokeTokens row.principalKind row.principalId at')) ∨
    ∃ u now, Entry.written out ⟨s, m, ()⟩ =
      some (.insertToken id u row.principalKind row.principalId now) := by
  have hnew := hrow
  cases hold : s.store.machineTokens.lookup id with
  | some old =>
    obtain ⟨row', hrow', -, hkind, hprincipal, hor⟩ := token_act out m id hold
    obtain rfl := Option.some.inj (hrow.symm.trans hrow')
    rcases hor with ⟨hsame, hnot⟩ | ⟨at', -, hsome⟩
    · refine .inl ⟨old, rfl, hsame.symm.trans hlive, hkind.symm, hprincipal.symm, ?_⟩
      rw [hkind, hprincipal]
      exact hnot (hsame.symm.trans hlive)
    · exact absurd (hlive.symm.trans hsome) (by simp)
  | none =>
    rw [store_act] at hnew
    cases hw : Entry.written out ⟨s, m, ()⟩ with
    | none =>
      rw [hw] at hnew
      exact absurd (hold.symm.trans hnew) (by simp)
    | some w =>
      rw [hw, Option.map_some, Option.getD_some] at hnew
      cases w.token s.store id with
      | same hsame hnot => exact absurd (hold.symm.trans (hsame.symm.trans hnew)) (by simp)
      | superseded old now hold' => exact absurd (hold.symm.trans hold') (by simp)
      | issued u kind principal now hw' hold' hnew' =>
        obtain rfl := Option.some.inj (hnew.symm.trans hnew')
        exact .inr ⟨u, now, congrArg some hw'⟩
      | touched old now hw' hold' => exact absurd (hold.symm.trans hold') (by simp)

/-- The request that inserts a token. -/
theorem issuing_of_written {id u principal : Str} {kind : EnrollKind} {now : Int}
    (hw : Entry.written out ⟨s, m, ()⟩ = some (.insertToken id u kind principal now)) :
    ∃ i r, m = .step i ∧ s.tasks[i]? = some r ∧ r.issuing out = some (kind, principal) := by
  cases m with
  | start a => exact absurd hw (by simp [Entry.written, Entry.request])
  | step i =>
    obtain ⟨r, hr, hwrites⟩ := Option.bind_eq_some_iff.mp hw
    exact ⟨i, r, rfl, hr, Request.issuing_eq_some.mpr ⟨id, u, now, hwrites⟩⟩

/-- A request that is to insert a token after a move was before, or has just
revoked what its principal had. -/
theorem issuing_act {i : Nat} {r : Request} {kind : EnrollKind} {principal : Str}
    (hr : (s.act out m).1.tasks[i]? = some r) (hissuing : r.issuing out = some (kind, principal)) :
    (m ≠ .step i ∧ s.tasks[i]? = some r) ∨ (m = .step i ∧
      ∃ at', Entry.written out ⟨s, m, ()⟩ = some (.revokeTokens kind principal at')) := by
  cases m with
  | start a =>
    rcases task_start hr with hr | ⟨-, rfl⟩
    · exact .inl ⟨by simp, hr⟩
    · exact absurd hissuing (by rw [Request.issuing_begin]; simp)
  | step j =>
    cases ht : s.tasks[j]? with
    | none =>
      rw [act_none ht] at hr
      refine .inl ⟨fun heq => ?_, hr⟩
      obtain rfl := Move.step.inj heq
      exact absurd (ht.symm.trans hr) (by simp)
    | some t =>
      have htasks : (s.act out (.step j)).1.tasks = s.tasks.set j (t.resume out s.store) := by
        rw [act_step ht]
      rw [htasks] at hr
      rcases task_set ht hr with ⟨rfl, rfl⟩ | ⟨hij, hr⟩
      · obtain ⟨at', hw⟩ := Request.of_issuing_resume hissuing
        exact .inr ⟨rfl, at', by simp [Entry.written, Entry.request, ht, hw]⟩
      · exact .inl ⟨fun heq => hij (Move.step.inj heq).symm, hr⟩

theorem OneLive.act (ho : OneLive out s) (halone : Alone out ⟨s, m, ()⟩) :
    OneLive out (s.act out m).1 where
  one := by
    intro a b row row' ha hb hlive hlive' hkind hprincipal
    rcases live_act ha hlive with ⟨old, hold, holdLive, hk, hp, -⟩ | ⟨u, now, hw⟩ <;>
      rcases live_act hb hlive' with ⟨old', hold', holdLive', hk', hp', -⟩ | ⟨u', now', hw'⟩
    · exact ho.one a b old old' hold hold' holdLive holdLive' (hk.trans (hkind.trans hk'.symm))
        (hp.trans (hprincipal.trans hp'.symm))
    · obtain ⟨i, r, -, hr, hissuing⟩ := issuing_of_written hw'
      have hdead := ho.none i r _ _ hr hissuing a old hold (hk.trans hkind) (hp.trans hprincipal)
      rw [holdLive] at hdead
      exact absurd hdead (by simp)
    · obtain ⟨i, r, -, hr, hissuing⟩ := issuing_of_written hw
      have hdead := ho.none i r _ _ hr hissuing b old' hold' (hk'.trans hkind.symm)
        (hp'.trans hprincipal.symm)
      rw [holdLive'] at hdead
      exact absurd hdead (by simp)
    · exact (Write.insertToken.inj (Option.some.inj (hw.symm.trans hw'))).1
  none := by
    intro i r kind principal hr hissuing id row hrow hkind hprincipal
    cases hlive : row.revokedAt with
    | some => rfl
    | none =>
      rcases issuing_act hr hissuing with ⟨hne, hr⟩ | ⟨-, at', hw⟩ <;>
        rcases live_act hrow hlive with ⟨old, hold, holdLive, hk, hp, hnot⟩ | ⟨u, now, hw'⟩
      · have hdead := ho.none i r kind principal hr hissuing id old hold (hk.trans hkind)
          (hp.trans hprincipal)
        rw [holdLive] at hdead
        exact absurd hdead (by simp)
      · obtain ⟨j, r', hm, hr', hissuing'⟩ := issuing_of_written hw'
        rw [hkind, hprincipal] at hissuing'
        obtain rfl := ho.apart i j r r' _ hr hr' hissuing hissuing'
        exact absurd hm hne
      · rw [hkind, hprincipal] at hnot
        exact absurd hw (hnot at')
      · exact absurd (hw.symm.trans hw') (by simp)
  apart := by
    intro i j r r' p hr hr' hissuing hissuing'
    rcases issuing_act hr hissuing with ⟨-, hr⟩ | ⟨hi, at', hw⟩ <;>
      rcases issuing_act hr' hissuing' with ⟨-, hr'⟩ | ⟨hj, at'', hw'⟩
    · exact ho.apart i j r r' p hr hr' hissuing hissuing'
    · exact absurd hissuing (halone p.1 p.2 at'' hw' i r hr)
    · exact absurd hissuing' (halone p.1 p.2 at' hw j r' hr')
    · exact Move.step.inj (hi.symm.trans hj)

/-- A token resolves only while it and its principal are live. One that was
revoked, or superseded, never resolves again; one that was not resolves again
when its principal is restored. Where no two issues for one principal overlap,
at most one live token exists for it. -/
theorem one_live_credential (out : Outside) (db : Registry) (hone : db.OneToken)
    (moves : List (Move Call)) :
    (∀ e ∈ (run out db moves).2, ResolvesLive out e) ∧
    Trace.Each (StaysDead out) (run out db moves).2 ∧
    (∀ more, ComesBack out (run out db moves).1 more) ∧
    ((∀ e ∈ (run out db moves).2, Alone out e) →
      (∀ e ∈ (run out db moves).2, e.state.store.OneToken) ∧
        (run out db moves).1.store.OneToken) := by
  refine ⟨?_, ?_, fun more => comesBack _ more, fun halone => ?_⟩
  · rintro e - token now row ⟨kind, -, hresolve⟩
    obtain ⟨-, -, hlive, hnow, hstands, husers⟩ := Registry.resolveToken_eq_some.mp hresolve
    exact ⟨hlive, hnow, hstands, husers⟩
  · refine Trace.each_run (I := fun s h => ∀ id, (∃ f ∈ h, Dead out id f) → Buried s id) (by simp)
      ?_ ?_ moves
    · rintro s h m hburied id ⟨f, hf, hdead⟩
      rcases List.mem_append.mp hf with hf | hf
      · exact (hburied id ⟨f, hf, hdead⟩).act
      · obtain rfl := List.mem_singleton.mp hf
        exact hdead.buried
    · intro s h m hburied
      exact staysDead hburied
  · have hinv := Trace.run_invariant_of_each (s := (⟨db, []⟩ : Service))
      (I := fun (s : Service) h => OneLive out s ∧ ∀ e ∈ h, e.state.store.OneToken)
      (P := fun _ e => Alone out e) ⟨⟨hone, by simp, by simp⟩, by simp⟩ ?_ moves
      (Trace.each_of_forall halone)
    · exact ⟨hinv.2, hinv.1.one⟩
    · rintro s h m ⟨ho, hall⟩ ha
      refine ⟨ho.act ha, ?_⟩
      rw [List.forall_mem_append, List.forall_mem_singleton]
      exact ⟨hall, ho.one⟩

theorem oneToken_oneCode : oneCode.OneToken := by
  intro a b row row' ha
  exact absurd ha (by simp [oneCode])

/-- One claim, and one token. -/
theorem one_live_credential_claimed :
    ((run anySignature oneCode claiming).1.store.machineTokens.lookup ['t']).isSome ∧
      (run anySignature oneCode claiming).1.store.OneToken := by
  refine ⟨by decide, ((one_live_credential anySignature oneCode oneToken_oneCode
    claiming).2.2.2 ?_).2⟩
  -- The claim is the only request there is, so no other is to insert a token.
  have hlone : ∀ e ∈ (run anySignature oneCode claiming).2, e.state.tasks.length ≤ 1 := by
    decide
  intro e he kind principal now hw i r hr hissuing
  obtain ⟨id, u, now', hinsert⟩ := Request.issuing_eq_some.mp hissuing
  obtain ⟨r', hr', hrevoke⟩ := Option.bind_eq_some_iff.mp hw
  unfold Entry.request at hr'
  split at hr'
  · next j _ =>
    have hi := (List.getElem?_eq_some_iff.mp hr).1
    have hj := (List.getElem?_eq_some_iff.mp hr').1
    have hlength := hlone e he
    obtain rfl : i = j := by omega
    obtain rfl := Option.some.inj (hr.symm.trans hr')
    exact absurd (hinsert.symm.trans hrevoke) (by simp)
  · exact absurd hr' (by simp)

/-- A device is revoked and restored, and the token it was given before
resolves again. -/
theorem token_comes_back : ¬∀ (out : Outside) (db : Registry), db.OneToken → ∀ moves,
    Trace.Each (fun h e => ∀ token now row, Resolves out token now row e → ∀ f ∈ h,
      (f.state.store.machineTokens.lookup (out.sessionIdOf token)).isSome →
        ∀ at', Entry.written out f ≠ some (.revokeDevice row.principalId row.userId at'))
      (run out db moves).2 := by
  intro hall
  let moves : List (Move Call) := claiming ++
    [.start (.revoke .device claim.id ['u'] 2), .step 1, .step 1,
      .start (.restore .device claim.id ['u']), .step 2, .start (.resolve ['t'] 3), .step 3]
  let row : TokenRow :=
    { userId := ['u'], principalKind := .device, principalId := claim.id, createdAt := 1,
      lastSeenAt := 1, expiresAt := 1 + Registry.machineTokenTtlMs }
  have heach := hall anySignature oneCode oneToken_oneCode (moves ++ [.step 3])
  rw [run, Trace.run_snoc, Trace.extend, Trace.each_snoc] at heach
  have hrevoked : ∃ f ∈ (run anySignature oneCode moves).2,
      (f.state.store.machineTokens.lookup ['t']).isSome ∧
        Entry.written anySignature f = some (.revokeDevice claim.id ['u'] 2) := by
    decide
  obtain ⟨f, hf, hissued, hw⟩ := hrevoked
  exact heach.2 ['t'] 3 row ⟨.device, by decide, by decide⟩ f hf hissued 2 hw

end Service

end Zesterm.Cloud
