/-
Zesterm.Mesh.Attest — one trusted device vouching for a new one:
`zest-mesh`'s `attest.rs`.
-/
import Zesterm.Mesh.Pairing

namespace Zesterm

open Coding

/-- Why an attestation message could not be built. -/
inductive AttestError where
  | accountTooLong
  | labelTooLong
  | signerIsNotApprover
  deriving DecidableEq

/-- The domain this message lives in. -/
def attestDomain : List UInt8 := ascii "zesterm-attest-v1"

/-- What an approver signs when vouching for a new device. -/
structure Attestation where
  v : UInt16
  account : Str
  /-- The key being vouched for. -/
  device : ClientId
  label : Str
  /-- The approver, whose key signs. -/
  approver : ClientId
  iat : UInt64
  exp : UInt64
  deriving DecidableEq

/-- The exact bytes an approver signs. -/
def attestationMessage (a : Attestation) : Except AttestError (List UInt8) :=
  let account := toUtf8 a.account
  let label := toUtf8 a.label
  if ¬ account.length < 65536 then .error .accountTooLong
  else if ¬ label.length < 65536 then .error .labelTooLong
  else
    .ok (attestDomain ++ bigEndian 2 a.v.toNat ++ bigEndian 2 account.length ++ account ++
      a.device.bytes.toList ++ bigEndian 2 label.length ++ label ++ a.approver.bytes.toList ++
      bigEndian 8 a.iat.toNat ++ bigEndian 8 a.exp.toNat)

/-- Sign an attestation as the approver. -/
def signAttestation (ed : Ed25519) (identity : ClientIdentity) (a : Attestation) :
    Except AttestError Signature :=
  if identity.id ≠ a.approver then .error .signerIsNotApprover
  else (attestationMessage a).map (identity.sign ed .deviceAttestation)

/-- Is this a live voucher of its approver? The window comes first. -/
def verifyAttestation (ed : Ed25519) (a : Attestation) (signature : Signature) (nowMs : UInt64) :
    Bool :=
  if nowMs < a.iat ∨ nowMs ≥ a.exp then false
  else
    match attestationMessage a with
    | .error _ => false
    | .ok message =>
      match verifyClient ed a.approver .deviceAttestation message signature with
      | .ok () => true
      | .error _ => false

end Zesterm
