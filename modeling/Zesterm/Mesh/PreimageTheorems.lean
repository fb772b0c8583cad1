/-
Zesterm.Mesh.PreimageTheorems — no two statements have the same signed
bytes.

Every field of a signed message is delimited: an id or a nonce by its
fixed length, a label by the length in front of it, a role or a purpose by
the NUL behind it. So equal bytes are taken apart from the left, one field
after the other (`signing_separated`).
-/
import Zesterm.Mesh.Attest

namespace Zesterm

open Coding

variable {purpose : Purpose} {b message : List UInt8}

/-! ## Fields -/

theorem toUtf8_injective {s t : Str} (h : toUtf8 s = toUtf8 t) : s = t := by
  have hbytes (s : Str) : s.utf8Encode = (toUtf8 s).toByteArray := rfl
  apply String.ofList_injective
  rw [← String.toByteArray_inj, String.toByteArray_ofList, String.toByteArray_ofList, hbytes,
    hbytes, h]

/-- A role, ended by the NUL behind it. -/
theorem delimited_role : Delimited (fun _ => True) fun r : Role => r.asDomain ++ [0] :=
  .terminated 0 (fun r _ => by cases r <;> decide) fun r r' _ _ h => by
    cases r <;> cases r' <;> first | rfl | exact absurd h (by decide)

/-- A purpose, ended by the NUL behind it. -/
theorem delimited_purpose : Delimited (fun _ => True) fun p : Purpose => p.asDomain ++ [0] :=
  .terminated 0 (fun p _ => by cases p <;> decide) fun p p' _ _ h => by
    cases p <;> cases p' <;> first | rfl | exact absurd h (by decide)

/-- A label behind its length. -/
theorem delimited_label : Delimited (fun s => True ∧ (toUtf8 s).length < 256 ^ 2) fun s : Str =>
    bigEndian 2 (toUtf8 s).length ++ toUtf8 s :=
  (delimited_bigEndian 2).lengthPrefixed fun _ _ _ _ h => toUtf8_injective h

/-! ## Messages -/

theorem preimage_injective {role role' : Role} {purpose' : Purpose} {message' : List UInt8}
    (h : preimage role purpose message = preimage role' purpose' message') :
    role = role' ∧ purpose = purpose' ∧ message = message' := by
  unfold preimage at h
  rw [List.append_assoc _ [0] message, List.append_assoc _ [0] message'] at h
  simp only [List.append_assoc, List.append_cancel_left_eq] at h
  rw [← List.append_assoc role.asDomain, ← List.append_assoc role'.asDomain] at h
  obtain ⟨hrole, h⟩ := delimited_role _ _ trivial trivial _ _ h
  rw [← List.append_assoc purpose.asDomain, ← List.append_assoc purpose'.asDomain] at h
  obtain ⟨hpurpose, hmessage⟩ := delimited_purpose _ _ trivial trivial _ _ h
  exact ⟨hrole, hpurpose, hmessage⟩

theorem lenPrefix_eq_ok {bytes : List UInt8} {what : Str} {n : Nat} :
    lenPrefix bytes what = .ok n ↔ bytes.length < 65536 ∧ n = bytes.length := by
  unfold lenPrefix
  split
  · next h => simp [h, eq_comm]
  · next h => simp [h]

/-- A transcript encodes when its two labels have a length. -/
theorem authTranscript_eq_ok {t : Transcript} (h : authTranscript t = .ok b) :
    (toUtf8 t.hostLabel).length < 65536 ∧ (toUtf8 t.clientLabel).length < 65536 ∧
      b = authDomain ++ bigEndian 2 t.version.toNat ++ t.host.bytes.toList ++
        t.client.bytes.toList ++ t.hostNonce.bytes.toList ++ t.clientNonce.bytes.toList ++
        t.hostDh.toList ++ t.clientDh.toList ++ bigEndian 2 (toUtf8 t.hostLabel).length ++
        toUtf8 t.hostLabel ++ bigEndian 2 (toUtf8 t.clientLabel).length ++
        toUtf8 t.clientLabel := by
  unfold authTranscript at h
  dsimp only at h
  cases hh : lenPrefix (toUtf8 t.hostLabel) "host label".toList with
  | error e => rw [hh] at h; exact absurd h (by simp [bind, Except.bind])
  | ok hostLen =>
    cases hc : lenPrefix (toUtf8 t.clientLabel) "client label".toList with
    | error e => rw [hh, hc] at h; exact absurd h (by simp [bind, Except.bind])
    | ok clientLen =>
      obtain ⟨hhost, rfl⟩ := lenPrefix_eq_ok.mp hh
      obtain ⟨hclient, rfl⟩ := lenPrefix_eq_ok.mp hc
      rw [hh, hc] at h
      exact ⟨hhost, hclient, (Except.ok.inj h).symm⟩

/-- Equal signed transcripts are equal in every field. -/
theorem authTranscript_injective {t t' : Transcript} (h : authTranscript t = .ok b)
    (h' : authTranscript t' = .ok b) : t = t' := by
  obtain ⟨hh, hc, hb⟩ := authTranscript_eq_ok h
  obtain ⟨hh', hc', hb'⟩ := authTranscript_eq_ok h'
  have heq := hb.symm.trans hb'
  simp only [List.append_assoc, List.append_cancel_left_eq] at heq
  obtain ⟨hversion, heq⟩ := delimited_bigEndian 2 _ _ (UInt16.toNat_lt _) (UInt16.toNat_lt _) _ _ heq
  obtain ⟨hhost, heq⟩ := delimited_vector 32 _ _ trivial trivial _ _ heq
  obtain ⟨hclient, heq⟩ := delimited_vector 32 _ _ trivial trivial _ _ heq
  obtain ⟨hhostNonce, heq⟩ := delimited_vector 32 _ _ trivial trivial _ _ heq
  obtain ⟨hclientNonce, heq⟩ := delimited_vector 32 _ _ trivial trivial _ _ heq
  obtain ⟨hhostDh, heq⟩ := delimited_vector 32 _ _ trivial trivial _ _ heq
  obtain ⟨hclientDh, heq⟩ := delimited_vector 32 _ _ trivial trivial _ _ heq
  rw [← List.append_assoc, ← List.append_assoc (bigEndian 2 (toUtf8 t'.hostLabel).length)] at heq
  obtain ⟨hhostLabel, heq⟩ := delimited_label _ _ ⟨trivial, hh⟩ ⟨trivial, hh'⟩ _ _ heq
  have hclientLabel := delimited_label.injective ⟨trivial, hc⟩ ⟨trivial, hc'⟩ heq
  obtain ⟨version, ⟨host⟩, ⟨client⟩, ⟨hostNonce⟩, ⟨clientNonce⟩, hostLabel, clientLabel, hostDh,
    clientDh⟩ := t
  obtain ⟨version', ⟨host'⟩, ⟨client'⟩, ⟨hostNonce'⟩, ⟨clientNonce'⟩, hostLabel', clientLabel',
    hostDh', clientDh'⟩ := t'
  dsimp only at *
  obtain rfl := UInt16.toNat_inj.mp hversion
  subst hhost hclient hhostNonce hclientNonce hhostDh hclientDh hhostLabel hclientLabel
  rfl

theorem attestationMessage_eq_ok {a : Attestation} (h : attestationMessage a = .ok b) :
    (toUtf8 a.account).length < 65536 ∧ (toUtf8 a.label).length < 65536 ∧
      b = attestDomain ++ bigEndian 2 a.v.toNat ++ bigEndian 2 (toUtf8 a.account).length ++
        toUtf8 a.account ++ a.device.bytes.toList ++ bigEndian 2 (toUtf8 a.label).length ++
        toUtf8 a.label ++ a.approver.bytes.toList ++ bigEndian 8 a.iat.toNat ++
        bigEndian 8 a.exp.toNat := by
  unfold attestationMessage at h
  dsimp only at h
  split at h
  · simp at h
  · next haccount =>
    split at h
    · simp at h
    · next hlabel =>
      exact ⟨not_not.mp haccount, not_not.mp hlabel, (Except.ok.inj h).symm⟩

/-- Equal signed attestations are equal in every field. -/
theorem attestationMessage_injective {a a' : Attestation} (h : attestationMessage a = .ok b)
    (h' : attestationMessage a' = .ok b) : a = a' := by
  obtain ⟨ha, hl, hb⟩ := attestationMessage_eq_ok h
  obtain ⟨ha', hl', hb'⟩ := attestationMessage_eq_ok h'
  have heq := hb.symm.trans hb'
  simp only [List.append_assoc, List.append_cancel_left_eq] at heq
  obtain ⟨hv, heq⟩ := delimited_bigEndian 2 _ _ (UInt16.toNat_lt _) (UInt16.toNat_lt _) _ _ heq
  rw [← List.append_assoc, ← List.append_assoc (bigEndian 2 (toUtf8 a'.account).length)] at heq
  obtain ⟨haccount, heq⟩ := delimited_label _ _ ⟨trivial, ha⟩ ⟨trivial, ha'⟩ _ _ heq
  obtain ⟨hdevice, heq⟩ := delimited_vector 32 _ _ trivial trivial _ _ heq
  rw [← List.append_assoc, ← List.append_assoc (bigEndian 2 (toUtf8 a'.label).length)] at heq
  obtain ⟨hlabel, heq⟩ := delimited_label _ _ ⟨trivial, hl⟩ ⟨trivial, hl'⟩ _ _ heq
  obtain ⟨happrover, heq⟩ := delimited_vector 32 _ _ trivial trivial _ _ heq
  obtain ⟨hiat, heq⟩ := delimited_bigEndian 8 _ _ (UInt64.toNat_lt _) (UInt64.toNat_lt _) _ _ heq
  have hexp := (delimited_bigEndian 8).injective (UInt64.toNat_lt _) (UInt64.toNat_lt _) heq
  obtain ⟨v, account, ⟨device⟩, label, ⟨approver⟩, iat, exp⟩ := a
  obtain ⟨v', account', ⟨device'⟩, label', ⟨approver'⟩, iat', exp'⟩ := a'
  dsimp only at *
  obtain rfl := UInt16.toNat_inj.mp hv
  obtain rfl := UInt64.toNat_inj.mp hiat
  obtain rfl := UInt64.toNat_inj.mp hexp
  subst haccount hdevice hlabel happrover
  rfl

/-- The two domains part at their tenth byte. -/
theorem authTranscript_ne_attestationMessage {t : Transcript} {a : Attestation}
    (h : authTranscript t = .ok b) : attestationMessage a ≠ .ok b := by
  intro h'
  obtain ⟨_, _, hb⟩ := authTranscript_eq_ok h
  obtain ⟨_, _, hb'⟩ := attestationMessage_eq_ok h'
  have heq := congrArg (·[9]?) (hb.symm.trans hb')
  simp only [List.append_assoc] at heq
  rw [List.getElem?_append_left (by decide), List.getElem?_append_left (by decide)] at heq
  exact absurd heq (by decide)

/-! ## Signatures -/

/-- Nothing verifies under `key` but what its holder signed: `signed` is
what that was. -/
def Ed25519.Unforgeable (ed : Ed25519) (key : Vector UInt8 32)
    (signed : Role → Purpose → List UInt8 → Prop) : Prop :=
  ∀ bytes signature, ed.verifyStrict key bytes signature = true →
    ∃ role purpose message, signed role purpose message ∧ bytes = preimage role purpose message

/-- What verifies for a role, a purpose and a message was signed for them. -/
theorem signed_of_verifyWith {ed : Ed25519} {key : Vector UInt8 32}
    {signed : Role → Purpose → List UInt8 → Prop} (hed : ed.Unforgeable key signed) {role : Role}
    {signature : Signature} {who : Str}
    (h : verifyWith ed key role purpose message signature who = .ok ()) :
    signed role purpose message := by
  unfold verifyWith at h
  split at h
  · next hv =>
    obtain ⟨role', purpose', message', hsigned, heq⟩ := hed _ _ hv
    obtain ⟨rfl, rfl, rfl⟩ := preimage_injective heq
    exact hsigned
  · simp at h

theorem signed_of_verifyClient {ed : Ed25519} {client : ClientId}
    {signed : Role → Purpose → List UInt8 → Prop} (hed : ed.Unforgeable client.bytes signed)
    {signature : Signature} (h : verifyClient ed client purpose message signature = .ok ()) :
    signed .client purpose message := by
  unfold verifyClient verifyingKey at h
  split at h
  · simp [bind, Except.bind] at h
  · split at h
    · simp [bind, Except.bind] at h
    · exact signed_of_verifyWith hed h

/-- Signing preimages tell their role, purpose and message; transcripts and
attestations tell all their fields, and each other apart; so what verifies
for one role, purpose and message was signed for no other. -/
theorem signing_separated :
    (∀ role role' purpose purpose' message message',
      preimage role purpose message = preimage role' purpose' message' →
        role = role' ∧ purpose = purpose' ∧ message = message') ∧
    (∀ t t' b, authTranscript t = .ok b → authTranscript t' = .ok b → t = t') ∧
    (∀ a a' b, attestationMessage a = .ok b → attestationMessage a' = .ok b → a = a') ∧
    (∀ t a b, authTranscript t = .ok b → attestationMessage a ≠ .ok b) ∧
    ∀ (ed : Ed25519) (key : Vector UInt8 32) (signed : Role → Purpose → List UInt8 → Prop),
      ed.Unforgeable key signed →
        ∀ role purpose message signature who,
          verifyWith ed key role purpose message signature who = .ok () →
            signed role purpose message :=
  ⟨fun _ _ _ _ _ _ => preimage_injective, fun _ _ _ => authTranscript_injective,
    fun _ _ _ => attestationMessage_injective, fun _ _ _ => authTranscript_ne_attestationMessage,
    fun _ _ _ hed _ _ _ _ _ => signed_of_verifyWith hed⟩

end Zesterm
