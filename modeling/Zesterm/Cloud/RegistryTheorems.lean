/-
Zesterm.Cloud.RegistryTheorems — what one statement can do to one row.

Every law of the registry is about a row over a run, so each table gets one
lemma that lists the statements that touch a row of it and what they leave;
every other statement leaves the row alone. What is proved of requests
afterwards never unfolds a statement again.
-/
import Zesterm.Cloud.Requests

namespace Zesterm.Cloud

namespace Registry

variable {db : Registry}

/-! ## Rows of the principals -/

theorem liveDevice_eq_some {id userId : Str} {status : DeviceStatus}
    (h : db.liveDevice id userId = some status) : db.existingDevice id = some ⟨userId, none⟩ := by
  obtain ⟨row, hrow, -⟩ := Option.map_eq_some_iff.mp h
  obtain ⟨hlookup, hlive⟩ := Option.filter_eq_some_iff.mp hrow
  simp only [Bool.and_eq_true, beq_iff_eq, Option.isNone_iff_eq_none] at hlive
  rw [existingDevice, hlookup, Option.map_some, hlive.1, hlive.2]

end Registry

/-- What a statement does to the standing of a key in one of the two
registries. -/
inductive Standing (old new : Option Incumbent) (enrols revokes restores : Str → Prop) : Prop where
  | same (h : new = old)
  | enrolled (owner : Str) (h : enrols owner) (hold : old = none) (hnew : new = some ⟨owner, none⟩)
  | revoked (owner : Str) (h : revokes owner) (was : Option Int) (now : Int)
      (hold : old = some ⟨owner, was⟩) (hnew : new = some ⟨owner, some now⟩)
  | restored (owner : Str) (h : restores owner) (was : Int) (hold : old = some ⟨owner, some was⟩)
      (hnew : new = some ⟨owner, none⟩)

namespace Standing

variable {old new : Option Incumbent} {enrols revokes restores : Str → Prop}

/-- A key never changes hands. -/
theorem owner (h : Standing old new enrols revokes restores) {u : Str} {r : Option Int}
    (hold : old = some ⟨u, r⟩) : ∃ r', new = some ⟨u, r'⟩ := by
  cases h with
  | same heq => exact ⟨r, heq.trans hold⟩
  | enrolled v _ hnone => exact absurd (hold.symm.trans hnone) (by simp)
  | revoked v _ was now hv hnew =>
    obtain rfl : u = v := by simpa using congrArg (Option.map (·.userId)) (hold.symm.trans hv)
    exact ⟨_, hnew⟩
  | restored v _ was hv hnew =>
    obtain rfl : u = v := by simpa using congrArg (Option.map (·.userId)) (hold.symm.trans hv)
    exact ⟨_, hnew⟩

/-- A key that is revoked was, or has just been. -/
theorem of_revoked (h : Standing old new enrols revokes restores) {u : Str} {r : Int}
    (hnew : new = some ⟨u, some r⟩) : old = some ⟨u, some r⟩ ∨ revokes u := by
  cases h with
  | same heq => exact .inl (heq.symm.trans hnew)
  | enrolled v _ _ hv => exact absurd (hnew.symm.trans hv) (by simp)
  | revoked v hrev was now _ hv =>
    obtain rfl : u = v := by simpa using congrArg (Option.map (·.userId)) (hnew.symm.trans hv)
    exact .inr hrev
  | restored v _ was _ hv => exact absurd (hnew.symm.trans hv) (by simp)

/-! ### The three statements

Rows of either registry are read by `incumbent`. -/

variable {Row : Type} {t : Table Str Row} {incumbent : Row → Incumbent} {id k u : Str}

theorem upsert {row : Row} {p : Row → Bool} {f : Row → Row} (hnew : incumbent row = ⟨u, none⟩)
    (hset : ∀ r, incumbent (f r) = incumbent r) (henrols : id = k → enrols u) :
    Standing ((t.lookup id).map incumbent) (((t.upsert k row p f).lookup id).map incumbent)
      enrols revokes restores := by
  by_cases hk : id = k
  · subst hk
    rw [Table.lookup_upsert_self, Table.upserted]
    cases hrow : t.lookup id with
    | none => exact .enrolled u (henrols rfl) rfl (by rw [Option.some_or, Option.map_some, hnew])
    | some old =>
      refine .same ?_
      dsimp only
      split
      · rw [Option.some_or, Option.map_some, Option.map_some, hset]
      · rw [Option.none_or]
  · exact .same (by rw [Table.lookup_upsert_ne hk])

theorem updateWhere {p : Row → Bool} {f : Row → Row}
    (h : ∀ row, id = k → p row = true →
      Standing (some (incumbent row)) (some (incumbent (f row))) enrols revokes restores) :
    Standing ((t.lookup id).map incumbent) (((t.updateWhere k p f).lookup id).map incumbent)
      enrols revokes restores := by
  rw [Table.lookup_updateWhere]
  cases hrow : t.lookup id with
  | none => exact .same rfl
  | some row =>
    rw [Option.map_some, Option.map_some]
    split
    · next hcond => exact h row hcond.1 hcond.2
    · exact .same rfl

theorem revoke {p : Row → Bool} {f : Row → Row} (now : Int)
    (hp : ∀ r, p r = true → (incumbent r).userId = u)
    (hset : ∀ r, incumbent (f r) = ⟨(incumbent r).userId, some ((incumbent r).revokedAt.getD now)⟩)
    (hrevokes : id = k → revokes u) :
    Standing ((t.lookup id).map incumbent) (((t.updateWhere k p f).lookup id).map incumbent)
      enrols revokes restores :=
  updateWhere fun row hk hrow => by
    obtain rfl := hp row hrow
    rw [hset]
    exact .revoked _ (hrevokes hk) (incumbent row).revokedAt _ rfl rfl

theorem restore {p : Row → Bool} {f : Row → Row}
    (hp : ∀ r, p r = true → (incumbent r).userId = u ∧ (incumbent r).revokedAt.isSome)
    (hset : ∀ r, incumbent (f r) = ⟨(incumbent r).userId, none⟩) (hrestores : id = k → restores u) :
    Standing ((t.lookup id).map incumbent) (((t.updateWhere k p f).lookup id).map incumbent)
      enrols revokes restores :=
  updateWhere fun row hk hrow => by
    obtain ⟨rfl, hrevoked⟩ := hp row hrow
    obtain ⟨was, hwas⟩ := Option.isSome_iff_exists.mp hrevoked
    rw [hset]
    exact .restored _ (hrestores hk) was (by rw [← hwas]) rfl

variable (incumbent) in
/-- An insertion that answers found no row, or one of the account's that is
live, and leaves such a row. -/
theorem of_upserted {row : Row} {p : Row → Bool} {f : Row → Row} (hnew : incumbent row = ⟨u, none⟩)
    (hset : ∀ r, incumbent (f r) = incumbent r) (hp : ∀ r, p r = true → incumbent r = ⟨u, none⟩)
    (h : (t.upserted id row p f).isSome) :
    (∀ was, (t.lookup id).map incumbent = some was → was = ⟨u, none⟩) ∧
      ((t.upsert id row p f).lookup id).map incumbent = some ⟨u, none⟩ := by
  rw [Table.lookup_upsert_self]
  unfold Table.upserted at h ⊢
  cases hrow : t.lookup id with
  | none => exact ⟨by simp, by rw [Option.some_or, Option.map_some, hnew]⟩
  | some old =>
    rw [hrow] at h
    dsimp only at h ⊢
    split at h
    · next hours =>
      refine ⟨fun was hwas => ?_, ?_⟩
      · rw [← Option.some.inj hwas, hp old hours]
      · rw [if_pos hours, Option.some_or, Option.map_some, hset, hp old hours]
    · exact absurd h (by simp)

/-- An update of other columns. -/
theorem keep {f : Str → Row → Row} (hset : ∀ r, incumbent (f id r) = incumbent r) :
    Standing ((t.lookup id).map incumbent) (((t.mapWithKey f).lookup id).map incumbent)
      enrols revokes restores := by
  refine .same ?_
  rw [Table.lookup_mapWithKey, Option.map_map]
  congr 1
  funext r
  exact hset r

end Standing

namespace Write

variable {db : Registry}

variable (db) in
/-- A device's row: three statements touch its standing. -/
theorem device_standing (w : Write) (id : Str) :
    Standing (db.existingDevice id) ((w.run db).existingDevice id)
      (fun u => ∃ label kind now, w = .enrolDevice id u label kind now)
      (fun u => ∃ now, w = .revokeDevice id u now) (fun u => w = .restoreDevice id u) := by
  cases w with
  | enrolDevice k u label kind now =>
    exact .upsert rfl (fun _ => rfl) fun h => ⟨label, kind, now, by rw [h]⟩
  | revokeDevice k u now =>
    refine .revoke (u := u) now (fun r hr => ?_) (fun _ => rfl) fun h => ⟨now, by rw [h]⟩
    exact beq_iff_eq.mp hr
  | restoreDevice k u =>
    refine .restore (u := u) (fun r hr => ?_) (fun _ => rfl) fun h => by rw [h]
    simpa using hr
  | approveDevice k u by' now =>
    refine .keep fun r => ?_
    dsimp only
    split <;> try split
    all_goals rfl
  | touchPrincipal kind k now =>
    cases kind with
    | host => exact .same rfl
    | device =>
      refine .keep fun r => ?_
      dsimp only
      split <;> rfl
  | insertEnrollCode =>
    simp only [run, Registry.insertEnrollCode]
    split <;> exact .same rfl
  | insertToken =>
    simp only [run, Registry.insertToken]
    split <;> exact .same rfl
  | startLinkGrant =>
    simp only [run, Registry.startLinkGrant]
    split <;> exact .same rfl
  | denyLinkGrant =>
    simp only [run, Registry.denyLinkGrant]
    split <;> exact .same rfl
  | enrolHost | revokeHost | restoreHost | spendEnrollCode | revokeTokens | touchToken
  | approveLinkGrant | claimLinkGrant | putAttestation | revokeAttestationsFor => exact .same rfl

/-! ## Vouchers -/

/-- What a statement leaves of a voucher's row. -/
inductive Voucher (db : Registry) (w : Write) (key : Str × Str) (row : AttestationRow) : Prop where
  | same (hold : db.attestations.lookup key = some row)
      (hput : ∀ u blob iat exp, w ≠ .putAttestation key.1 key.2 u blob iat exp)
      (hnot : row.revokedAt = none → ∀ d now,
        w = .revokeAttestationsFor d row.userId now → d ≠ key.1 ∧ d ≠ key.2)
  | withdrawn (old : AttestationRow) (hold : db.attestations.lookup key = some old)
      (howner : old.userId = row.userId) (hrow : row.revokedAt ≠ none)
  | put (u blob : Str) (iat exp : Int) (hw : w = .putAttestation key.1 key.2 u blob iat exp)
      (howner : row.userId = u ∨
        ∃ old, db.attestations.lookup key = some old ∧ old.userId = row.userId)

/-- A voucher's row is touched by storing it and by withdrawing what a device
of its is in. -/
theorem voucher (w : Write) (key : Str × Str) {row : AttestationRow}
    (h : (w.run db).attestations.lookup key = some row) : Voucher db w key row := by
  have hsame (heq : (w.run db).attestations = db.attestations)
      (hput : ∀ d b u blob iat exp, w ≠ .putAttestation d b u blob iat exp)
      (hnot : ∀ d u now, w ≠ .revokeAttestationsFor d u now) : Voucher db w key row :=
    .same (heq ▸ h) (hput _ _) fun _ d now hw => absurd hw (hnot d _ now)
  cases w with
  | putAttestation d b u blob iat exp =>
    by_cases hk : key = (d, b)
    · subst hk
      refine .put u blob iat exp rfl ?_
      simp only [run, Registry.putAttestation, Table.lookup_upsert_self, Table.upserted] at h
      cases hrow : db.attestations.lookup (d, b) with
      | none =>
        simp only [hrow, Option.some_or, Option.some.injEq] at h
        exact .inl (by rw [← h])
      | some old =>
        refine .inr ⟨old, rfl, ?_⟩
        simp only [hrow] at h
        split at h
        · rw [Option.some_or, Option.some.injEq] at h
          rw [← h]
        · rw [Option.none_or, Option.some.injEq] at h
          rw [← h]
    · simp only [run, Registry.putAttestation, Table.lookup_upsert_ne hk] at h
      refine .same h (fun _ _ _ _ heq => hk ?_) fun _ _ _ heq => absurd heq (by simp)
      obtain ⟨hd, hb, -⟩ := Write.putAttestation.inj heq
      exact Prod.ext hd.symm hb.symm
  | revokeAttestationsFor d u now =>
    simp only [run, Registry.revokeAttestationsFor, Table.lookup_mapWithKey,
      Option.map_eq_some_iff] at h
    obtain ⟨old, hold, hrow⟩ := h
    split at hrow
    · refine .withdrawn old hold ?_ ?_ <;> rw [← hrow]
      simp
    · next hnot =>
      subst hrow
      refine .same hold (by simp) fun _ d' now' heq => ?_
      obtain ⟨rfl, hu, -⟩ := Write.revokeAttestationsFor.inj heq
      constructor
      · rintro rfl
        exact hnot ⟨hu.symm, .inl rfl⟩
      · rintro rfl
        exact hnot ⟨hu.symm, .inr rfl⟩
  | insertEnrollCode | insertToken | startLinkGrant | denyLinkGrant =>
    refine hsame ?_ (by simp) (by simp)
    simp only [run, Registry.insertEnrollCode, Registry.insertToken, Registry.startLinkGrant,
      Registry.denyLinkGrant]
    split <;> rfl
  | touchPrincipal kind => cases kind <;> exact hsame rfl (by simp) (by simp)
  | enrolHost | enrolDevice | revokeHost | revokeDevice | restoreHost | restoreDevice
  | approveDevice | spendEnrollCode | revokeTokens | touchToken | approveLinkGrant
  | claimLinkGrant => exact hsame rfl (by simp) (by simp)

/-! ## Machine tokens -/

/-- What a statement does to a token's row. -/
inductive Token (db : Registry) (w : Write) (id : Str) : Prop where
  | same (h : (w.run db).machineTokens.lookup id = db.machineTokens.lookup id)
      (hnot : ∀ old now, db.machineTokens.lookup id = some old → old.revokedAt = none →
        w ≠ .revokeTokens old.principalKind old.principalId now)
  | superseded (old : TokenRow) (now : Int) (hold : db.machineTokens.lookup id = some old)
      (hw : w = .revokeTokens old.principalKind old.principalId now) (hlive : old.revokedAt = none)
      (hnew : (w.run db).machineTokens.lookup id = some { old with revokedAt := some now })
  | issued (u : Str) (kind : EnrollKind) (principal : Str) (now : Int)
      (hw : w = .insertToken id u kind principal now) (hold : db.machineTokens.lookup id = none)
      (hnew : (w.run db).machineTokens.lookup id = some
        { userId := u, principalKind := kind, principalId := principal, createdAt := now,
          lastSeenAt := now, expiresAt := now + Registry.machineTokenTtlMs })
  | touched (old : TokenRow) (now : Int) (hw : w = .touchToken id now)
      (hold : db.machineTokens.lookup id = some old)
      (hnew : (w.run db).machineTokens.lookup id = some
        { old with lastSeenAt := now, expiresAt := now + Registry.machineTokenTtlMs })

variable (db) in
theorem token (w : Write) (id : Str) : Token db w id := by
  have hsame (heq : (w.run db).machineTokens = db.machineTokens)
      (hnot : ∀ kind principal now, w ≠ .revokeTokens kind principal now) : Token db w id :=
    .same (by rw [heq]) fun _ _ _ _ => hnot _ _ _
  cases w with
  | revokeTokens kind principal now =>
    cases hold : db.machineTokens.lookup id with
    | none =>
      refine .same ?_ fun old _ h => absurd (hold.symm.trans h) (by simp)
      simp only [run, Registry.revokeTokens, Table.lookup_mapWithKey, hold, Option.map_none]
    | some old =>
      by_cases hmatch : old.principalKind = kind ∧ old.principalId = principal ∧ old.revokedAt = none
      · obtain ⟨rfl, rfl, hlive⟩ := hmatch
        refine .superseded old now hold rfl hlive ?_
        simp only [run, Registry.revokeTokens, Table.lookup_mapWithKey, hold, Option.map_some, hlive,
          and_self, if_true]
      · refine .same ?_ fun old' now' hold' hlive heq => hmatch ?_
        · simp only [run, Registry.revokeTokens, Table.lookup_mapWithKey, hold, Option.map_some,
            if_neg hmatch]
        · obtain rfl := Option.some.inj (hold.symm.trans hold')
          obtain ⟨rfl, rfl, -⟩ := Write.revokeTokens.inj heq
          exact ⟨rfl, rfl, hlive⟩
  | insertToken k u kind principal now =>
    by_cases hmem : k ∈ db.machineTokens
    · exact hsame (by simp [run, Registry.insertToken, hmem]) (by simp)
    · have hnew : (run db (.insertToken k u kind principal now)).machineTokens =
          db.machineTokens.insert k
            { userId := u, principalKind := kind, principalId := principal, createdAt := now,
              lastSeenAt := now, expiresAt := now + Registry.machineTokenTtlMs } := by
        simp [run, Registry.insertToken, hmem]
      by_cases hk : id = k
      · subst hk
        exact .issued u kind principal now rfl (AList.lookup_eq_none.mpr hmem)
          (by rw [hnew, AList.lookup_insert])
      · exact .same (by rw [hnew, AList.lookup_insert_ne hk]) (by simp)
  | touchToken k now =>
    by_cases hk : id = k
    · subst hk
      cases hold : db.machineTokens.lookup id with
      | none =>
        refine .same ?_ (by simp)
        simp only [run, Registry.touchToken, Table.lookup_adjust_self, hold, Option.map_none]
      | some old =>
        refine .touched old now rfl hold ?_
        simp only [run, Registry.touchToken, Table.lookup_adjust_self, hold, Option.map_some]
    · exact .same (by simp only [run, Registry.touchToken, Table.lookup_adjust_ne hk]) (by simp)
  | insertEnrollCode | startLinkGrant | denyLinkGrant =>
    refine hsame ?_ (by simp)
    simp only [run, Registry.insertEnrollCode, Registry.startLinkGrant, Registry.denyLinkGrant]
    split <;> rfl
  | touchPrincipal kind => cases kind <;> exact hsame rfl (by simp)
  | enrolHost | enrolDevice | revokeHost | revokeDevice | restoreHost | restoreDevice
  | approveDevice | spendEnrollCode | approveLinkGrant | claimLinkGrant | putAttestation
  | revokeAttestationsFor => exact hsame rfl (by simp)

/-! ## Enrolment codes -/

/-- What a statement does to a code's row. -/
inductive Code (db : Registry) (w : Write) (code : Str) : Prop where
  | same (h : (w.run db).enrollCodes.lookup code = db.enrollCodes.lookup code)
  | minted (row : EnrollCodeRow) (hold : db.enrollCodes.lookup code = none)
      (hnew : (w.run db).enrollCodes.lookup code = some row)
  | spent (old : EnrollCodeRow) (id : Str) (now : Int)
      (hold : db.enrollCodes.lookup code = some old)
      (hnew : (w.run db).enrollCodes.lookup code =
        some { old with usedAt := some now, usedBy := some id })

variable (db) in
theorem code (w : Write) (code : Str) : Code db w code := by
  cases w with
  | insertEnrollCode c u kind now =>
    by_cases hmem : c ∈ db.enrollCodes
    · exact .same (by simp [run, Registry.insertEnrollCode, hmem])
    · have hnew : (run db (.insertEnrollCode c u kind now)).enrollCodes = db.enrollCodes.insert c
          { userId := u, kind := kind, createdAt := now,
            expiresAt := now + Registry.enrollCodeTtlMs } := by
        simp [run, Registry.insertEnrollCode, hmem]
      by_cases hc : code = c
      · subst hc
        exact .minted _ (AList.lookup_eq_none.mpr hmem) (by rw [hnew, AList.lookup_insert])
      · exact .same (by rw [hnew, AList.lookup_insert_ne hc])
  | spendEnrollCode c id now =>
    have hnew : (run db (.spendEnrollCode c id now)).enrollCodes.lookup code =
        (db.enrollCodes.lookup code).map fun row =>
          if code = c ∧ (row.usedAt.isNone && decide (now < row.expiresAt)) = true then
            { row with usedAt := some now, usedBy := some id } else row :=
      Table.lookup_updateWhere ..
    cases hold : db.enrollCodes.lookup code with
    | none => exact .same (by rw [hnew, hold]; rfl)
    | some old =>
      rw [hold, Option.map_some] at hnew
      split at hnew
      · exact .spent old id now hold hnew
      · exact .same (hnew.trans hold.symm)
  | insertToken | startLinkGrant | denyLinkGrant =>
    refine .same ?_
    simp only [run, Registry.insertToken, Registry.startLinkGrant, Registry.denyLinkGrant]
    split <;> rfl
  | touchPrincipal kind => cases kind <;> exact .same rfl
  | enrolHost | enrolDevice | revokeHost | revokeDevice | restoreHost | restoreDevice
  | approveDevice | revokeTokens | touchToken | approveLinkGrant | claimLinkGrant
  | putAttestation | revokeAttestationsFor => exact .same rfl

/-! ## Link grants -/

/-- What a statement does to a grant's row. -/
inductive Grant (db : Registry) (w : Write) (id : Str) : Prop where
  | same (h : (w.run db).linkGrants.lookup id = db.linkGrants.lookup id)
      (happrove : ∀ u now, w = .approveLinkGrant id u now → db.findLiveLinkGrant id now = none)
      (hclaim : ∀ d now, w = .claimLinkGrant id d now → (db.claimLinkGrant id d now).2 = none)
  | started (d label : Str) (kind : DeviceKind) (platform : Str) (now : Int) (row : LinkGrantRow)
      (hw : w = .startLinkGrant id d label kind platform now)
      (hnew : (w.run db).linkGrants.lookup id = some row) (happrovedAt : row.approvedAt = none)
      (happroved : row.approvedByUser = none)
  | gone (hnew : (w.run db).linkGrants.lookup id = none)
      (happrove : ∀ u now, w ≠ .approveLinkGrant id u now)
      (hclaim : ∀ d now, w ≠ .claimLinkGrant id d now)
  | approved (u : Str) (now : Int) (old : LinkGrantRow) (hw : w = .approveLinkGrant id u now)
      (hlive : (db.findLiveLinkGrant id now).isSome) (hold : db.linkGrants.lookup id = some old)
      (hnew : (w.run db).linkGrants.lookup id = some
        { old with
          approvedAt := some (old.approvedAt.getD now)
          approvedByUser := some (old.approvedByUser.getD u) })
  | claimed (d : Str) (now : Int) (old : LinkGrantRow) (hw : w = .claimLinkGrant id d now)
      (hold : db.linkGrants.lookup id = some old)
      (hnew : (w.run db).linkGrants.lookup id = some { old with claimedAt := some now })

variable (db) in
theorem grant (w : Write) (id : Str) : Grant db w id := by
  have hsame (heq : (w.run db).linkGrants = db.linkGrants)
      (happrove : ∀ k u now, w ≠ .approveLinkGrant k u now)
      (hclaim : ∀ k d now, w ≠ .claimLinkGrant k d now) : Grant db w id :=
    .same (by rw [heq]) (fun u now h => absurd h (happrove id u now))
      fun d now h => absurd h (hclaim id d now)
  cases w with
  | startLinkGrant k d label kind platform now =>
    by_cases hmem : k ∈ db.linkGrants
    · exact hsame (by simp [run, Registry.startLinkGrant, hmem]) (by simp) (by simp)
    · have hnew : (run db (.startLinkGrant k d label kind platform now)).linkGrants =
          (db.linkGrants.keep fun _ row => row.deviceId ≠ d).insert k
            { deviceId := d, label := label, kind := kind, platform := platform,
              createdAt := now, expiresAt := now + Registry.linkGrantTtlMs } := by
        simp [run, Registry.startLinkGrant, hmem]
      by_cases hk : id = k
      · subst hk
        exact .started d label kind platform now _ rfl (by rw [hnew, AList.lookup_insert]) rfl rfl
      · have hkept : (run db (.startLinkGrant k d label kind platform now)).linkGrants.lookup id =
            (db.linkGrants.lookup id).filter fun row => row.deviceId ≠ d := by
          rw [hnew, AList.lookup_insert_ne hk, Table.lookup_keep]
        cases hold : db.linkGrants.lookup id with
        | none => exact .same (by rw [hkept, hold]; rfl) (by simp) (by simp)
        | some old =>
          rw [hold, Option.filter_some] at hkept
          split at hkept
          · exact .same (hkept.trans hold.symm) (by simp) (by simp)
          · exact .gone hkept (by simp) (by simp)
  | approveLinkGrant k u now =>
    by_cases hk : id = k
    · subst hk
      have hnew : (run db (.approveLinkGrant id u now)).linkGrants.lookup id =
          (db.linkGrants.lookup id).map fun row =>
            if id = id ∧ (row.claimedAt.isNone && decide (now < row.expiresAt)) = true then
              { row with
                approvedAt := some (row.approvedAt.getD now)
                approvedByUser := some (row.approvedByUser.getD u) } else row :=
        Table.lookup_updateWhere ..
      cases hold : db.linkGrants.lookup id with
      | none =>
        refine .same (by rw [hnew, hold]; rfl) (fun u' now' _ => ?_) (by simp)
        rw [Registry.findLiveLinkGrant, hold, Option.filter_none]
      | some old =>
        rw [hold, Option.map_some] at hnew
        split at hnew
        · next hlive =>
          refine .approved u now old rfl ?_ hold hnew
          rw [Registry.findLiveLinkGrant, hold, Option.filter_some, if_pos hlive.2]
          rfl
        · next hnot =>
          refine .same (hnew.trans hold.symm) (fun u' now' heq => ?_) (by simp)
          obtain ⟨-, rfl, rfl⟩ := Write.approveLinkGrant.inj heq
          rw [Registry.findLiveLinkGrant, hold, Option.filter_some,
            if_neg fun h => hnot ⟨rfl, h⟩]
    · refine .same ?_ (fun u' now' heq => absurd (Write.approveLinkGrant.inj heq).1.symm hk) (by simp)
      simp [run, Registry.approveLinkGrant, Table.lookup_updateWhere, hk]
  | denyLinkGrant k now =>
    by_cases hlive : (db.findLiveLinkGrant k now).isSome
    · by_cases hk : id = k
      · subst hk
        refine .gone ?_ (by simp) (by simp)
        simp [run, Registry.denyLinkGrant, hlive]
      · refine .same ?_ (by simp) (by simp)
        simp [run, Registry.denyLinkGrant, hlive, AList.lookup_erase_ne hk]
    · exact hsame (by simp [run, Registry.denyLinkGrant, hlive]) (by simp) (by simp)
  | claimLinkGrant k d now =>
    by_cases hk : id = k
    · subst hk
      have hnew : (run db (.claimLinkGrant id d now)).linkGrants.lookup id =
          (db.linkGrants.lookup id).map fun row =>
            if id = id ∧ (row.deviceId == d && row.approvedAt.isSome && row.claimedAt.isNone &&
              decide (now < row.expiresAt)) = true then
              { row with claimedAt := some now } else row :=
        Table.lookup_updateWhere ..
      cases hold : db.linkGrants.lookup id with
      | none =>
        refine .same (by rw [hnew, hold]; rfl) (by simp) fun d' now' _ => ?_
        simp [Registry.claimLinkGrant, Table.updated, hold]
      | some old =>
        rw [hold, Option.map_some] at hnew
        split at hnew
        · exact .claimed d now old rfl hold hnew
        · next hnot =>
          refine .same (hnew.trans hold.symm) (by simp) fun d' now' heq => ?_
          obtain ⟨-, rfl, rfl⟩ := Write.claimLinkGrant.inj heq
          rw [Registry.claimLinkGrant, Table.updated, hold, Option.filter_some,
            if_neg fun h => hnot ⟨rfl, h⟩]
          rfl
    · refine .same ?_ (by simp) fun d' now' heq => absurd (Write.claimLinkGrant.inj heq).1.symm hk
      simp [run, Registry.claimLinkGrant, Table.lookup_updateWhere, hk]
  | insertEnrollCode | insertToken =>
    refine hsame ?_ (by simp) (by simp)
    simp only [run, Registry.insertEnrollCode, Registry.insertToken]
    split <;> rfl
  | touchPrincipal kind => cases kind <;> exact hsame rfl (by simp) (by simp)
  | enrolHost | enrolDevice | revokeHost | revokeDevice | restoreHost | restoreDevice
  | approveDevice | spendEnrollCode | revokeTokens | touchToken | putAttestation
  | revokeAttestationsFor => exact hsame rfl (by simp) (by simp)

end Write

/-! ## Moves -/

namespace Service

open Interleave

variable {out : Outside} {s : Service} {m : Move Call}

/-- A move in a run, and what it found. -/
abbrev Entry := Trace.Entry Service (Move Call) Unit

/-- The request that takes this move's statement. -/
def Entry.request (e : Entry) : Option Request :=
  match e.call with
  | .step i => e.state.tasks[i]?
  | .start _ => none

/-- What the move writes. -/
def Entry.written (out : Outside) (e : Entry) : Option Write := e.request.bind (·.writes out)

/-- A run, and its history. -/
def run (out : Outside) (db : Registry) (moves : List (Move Call)) : Service × List Entry :=
  Trace.run (act out) ⟨db, []⟩ moves

theorem act_step {i : Nat} {r : Request} (h : s.tasks[i]? = some r) :
    (s.act out (.step i)).1 =
      { store := (r.runStatement out s.store).1, tasks := s.tasks.set i (r.resume out s.store) } := by
  rw [act, act_fst, move_step h]
  rfl

theorem act_none {i : Nat} (h : s.tasks[i]? = none) : (s.act out (.step i)).1 = s := by
  rw [act, act_fst, move_step_none h]

/-- What a move writes is all it does to the store. -/
theorem store_act (m : Move Call) : (s.act out m).1.store =
    ((Entry.written out ⟨s, m, ()⟩).map (Write.run s.store)).getD s.store := by
  cases m with
  | start a => rfl
  | step i =>
    cases hr : s.tasks[i]? with
    | none => simp [act_none hr, Entry.written, Entry.request, hr]
    | some r => simp [act_step hr, Entry.written, Entry.request, hr, Request.runStatement]

/-! ### A claim to run -/

/-- Every signature verifies, and a token is its own hash. -/
def anySignature : Outside where
  verifyAsync _ _ _ := true
  decodeAttestation _ := none
  attestationSignatureOk _ := true
  sessionIdOf := id

/-- An account that has minted a code for a device. -/
def oneCode : Registry where
  users := AList.insert ['u'] none ∅
  enrollCodes := AList.insert ['c']
    { userId := ['u'], kind := .device, createdAt := 0, expiresAt := 10 } ∅

/-- A device claims it and is given the token `t`. -/
def claim : ClaimCode where
  code := ['c']
  key := Vector.replicate 32 0
  label := []
  signature := Vector.replicate 64 0
  platform := none
  deviceKind := none
  now := 1
  token := ['t']

/-- The claim, statement by statement. -/
def claiming : List (Move Call) :=
  [.start (.claimCode claim), .step 0, .step 0, .step 0, .step 0, .step 0, .step 0]

end Service

end Zesterm.Cloud
