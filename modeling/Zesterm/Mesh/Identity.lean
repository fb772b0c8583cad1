/-
Zesterm.Mesh.Identity — who a machine is and how it proves it:
`zest-mesh`'s `identity.rs`.

An id is an Ed25519 public key. What a key signs is never the caller's
bytes alone but `preimage`: the role that signs and the purpose it signs
for stand ahead of the message.

The signature scheme is `ed25519-dalek`'s, so it is left open: `Ed25519`
lists the calls the source makes. Byte arrays of a fixed size are vectors.
-/
import Zesterm.Core.Text

namespace Zesterm

/-- The calls into the signature scheme. -/
structure Ed25519 where
  /-- `SigningKey::verifying_key`. -/
  verifyingKey : Vector UInt8 32 → Vector UInt8 32
  sign : Vector UInt8 32 → List UInt8 → Vector UInt8 64
  /-- `VerifyingKey::from_bytes`: the bytes are a point of the curve. -/
  isPoint : Vector UInt8 32 → Bool
  isWeak : Vector UInt8 32 → Bool
  verifyStrict : Vector UInt8 32 → List UInt8 → Vector UInt8 64 → Bool

/-- What goes wrong in the mesh. -/
inductive MeshError where
  | identity (reason : Str)
  | badSignature (who : Str)
  | store (reason : Str)
  deriving DecidableEq

/-! ## Ids -/

/-- Lowercase hex, two characters per byte. -/
def hexEncode (bytes : List UInt8) : Str :=
  bytes.flatMap fun b => [Nat.digitChar (b.toNat / 16), Nat.digitChar (b.toNat % 16)]

theorem hexEncode_cons (b : UInt8) (bytes : List UInt8) : hexEncode (b :: bytes) =
    Nat.digitChar (b.toNat / 16) :: Nat.digitChar (b.toNat % 16) :: hexEncode bytes := rfl

theorem length_hexEncode (bytes : List UInt8) : (hexEncode bytes).length = bytes.length * 2 := by
  simp [hexEncode]

structure HostId where
  bytes : Vector UInt8 32
  deriving DecidableEq

structure ClientId where
  bytes : Vector UInt8 32
  deriving DecidableEq

def HostId.short (id : HostId) : Str := hexEncode (id.bytes.toList.take 4)

def ClientId.short (id : ClientId) : Str := hexEncode (id.bytes.toList.take 4)

/-- A one-shot challenge. -/
structure Nonce where
  bytes : Vector UInt8 32
  deriving DecidableEq

/-- An Ed25519 signature. -/
structure Signature where
  bytes : Vector UInt8 64
  deriving DecidableEq

/-! ## What is signed -/

/-- Which key produced a signature. -/
inductive Role where
  | host
  | client
  deriving DecidableEq

/-- What a signature is for. -/
inductive Purpose where
  | auth
  | enrollment
  | attachTicket
  | deviceAttestation
  deriving DecidableEq

/-- `b"…"`: the bytes of an ASCII literal. -/
def ascii (s : String) : List UInt8 := s.toList.map fun c => UInt8.ofNat c.toNat

def Role.asDomain : Role → List UInt8
  | .host => ascii "host"
  | .client => ascii "client"

def Purpose.asDomain : Purpose → List UInt8
  | .auth => ascii "auth"
  | .enrollment => ascii "enrollment"
  | .attachTicket => ascii "attach-ticket"
  | .deviceAttestation => ascii "device-attestation"

/-- The prefix every signed preimage starts with. -/
def signingDomain : List UInt8 := ascii "zesterm-sig-v1"

/-- The exact bytes a key is asked to sign. -/
def preimage (role : Role) (purpose : Purpose) (message : List UInt8) : List UInt8 :=
  signingDomain ++ [0] ++ role.asDomain ++ [0] ++ purpose.asDomain ++ [0] ++ message

/-! ## Identities -/

/-- This machine's identity as a host. -/
structure HostIdentity where
  key : Vector UInt8 32
  id : HostId

/-- A device that attaches to hosts. -/
structure ClientIdentity where
  key : Vector UInt8 32
  id : ClientId

def HostIdentity.fromSecretBytes (ed : Ed25519) (secret : Vector UInt8 32) : HostIdentity :=
  { key := secret, id := ⟨ed.verifyingKey secret⟩ }

def ClientIdentity.fromSecretBytes (ed : Ed25519) (secret : Vector UInt8 32) : ClientIdentity :=
  { key := secret, id := ⟨ed.verifyingKey secret⟩ }

def HostIdentity.sign (ed : Ed25519) (i : HostIdentity) (purpose : Purpose)
    (message : List UInt8) : Signature :=
  ⟨ed.sign i.key (preimage .host purpose message)⟩

def ClientIdentity.sign (ed : Ed25519) (i : ClientIdentity) (purpose : Purpose)
    (message : List UInt8) : Signature :=
  ⟨ed.sign i.key (preimage .client purpose message)⟩

/-- A key of an id, if the id is one. -/
def verifyingKey (ed : Ed25519) (bytes : Vector UInt8 32) (who : Str) :
    Except MeshError (Vector UInt8 32) :=
  if ed.isPoint bytes = false then
    .error (.identity (who ++ " is not a valid ed25519 public key".toList))
  else if ed.isWeak bytes then
    .error (.identity
      (who ++ " is a small-order ed25519 key and cannot identify a machine".toList))
  else .ok bytes

def verifyWith (ed : Ed25519) (key : Vector UInt8 32) (role : Role) (purpose : Purpose)
    (message : List UInt8) (signature : Signature) (who : Str) : Except MeshError Unit :=
  if ed.verifyStrict key (preimage role purpose message) signature.bytes then .ok ()
  else .error (.badSignature who)

/-- Did `host` sign `message` for `purpose`? -/
def verifyHost (ed : Ed25519) (host : HostId) (purpose : Purpose) (message : List UInt8)
    (signature : Signature) : Except MeshError Unit := do
  let key ← verifyingKey ed host.bytes host.short
  verifyWith ed key .host purpose message signature host.short

/-- Did `client` sign `message` for `purpose`? -/
def verifyClient (ed : Ed25519) (client : ClientId) (purpose : Purpose) (message : List UInt8)
    (signature : Signature) : Except MeshError Unit := do
  let key ← verifyingKey ed client.bytes client.short
  verifyWith ed key .client purpose message signature client.short

end Zesterm
