/-
Zesterm.Mesh.Secure — the sealed channel of one connection: `zest-mesh`'s
`secure.rs`.

Each direction has a key, a counter that makes the nonce of the next record
and an epoch that counts how often the key was ratcheted. The ratchet is
never announced: both ends count the same records. An operation on a
`&mut` direction returns the direction it leaves together with its result,
so that what a failure changes is part of what it returns.

ChaCha20-Poly1305, X25519 and HKDF are crates, so `Suite` leaves them open.
The two HKDF calls ask for 32 bytes from a 32-byte key, which HKDF never
refuses; their error branches are left out.
-/
import Zesterm.Proto.Frame
import Zesterm.Mesh.Identity
import Zesterm.Lib.Delimited

namespace Zesterm

open Coding

/-- The calls into the ciphers. -/
structure Suite where
  /-- `PublicKey::from(&StaticSecret)`. -/
  dhPublic : Vector UInt8 32 → Vector UInt8 32
  /-- `diffie_hellman`, of a secret and the peer's public key. -/
  diffieHellman : Vector UInt8 32 → Vector UInt8 32 → Vector UInt8 32
  wasContributory : Vector UInt8 32 → Bool
  /-- `Hkdf::new(Some(salt), secret)` expanded to 32 bytes under a label. -/
  hkdf : List UInt8 → Vector UInt8 32 → List UInt8 → Vector UInt8 32
  /-- `Hkdf::from_prk(key)` expanded to 32 bytes under a label. -/
  hkdfFromPrk : Vector UInt8 32 → List UInt8 → Vector UInt8 32
  /-- Key, nonce, associated data, message. -/
  encrypt : Vector UInt8 32 → List UInt8 → List UInt8 → List UInt8 → Option (List UInt8)
  decrypt : Vector UInt8 32 → List UInt8 → List UInt8 → List UInt8 → Option (List UInt8)
  sha256 : List UInt8 → Vector UInt8 32

/-- Records per key before the ratchet turns. -/
def rekeyAfter : Nat := 1 <<< 24

/-- Poly1305's tag. -/
def tagLen : Nat := 16

/-- The most plaintext a single record may carry. -/
def maxPlaintext : Nat := maxFrame - tagLen

/-- `u32::MAX`. -/
def maxEpoch : Nat := 4294967295

/-! ## One direction -/

/-- One direction's key, counter and epoch. -/
structure Direction where
  key : Vector UInt8 32
  epoch : Nat
  counter : Nat
  deriving DecidableEq

namespace Direction

def new (key : Vector UInt8 32) : Direction := { key := key, epoch := 0, counter := 0 }

/-- `epoch: u32 BE || counter: u64 BE`, twelve bytes. -/
def nonce (d : Direction) : List UInt8 := bigEndian 4 d.epoch ++ bigEndian 8 d.counter

/-- Advance, ratcheting the key when the counter wraps. -/
def advance (c : Suite) (d : Direction) : Direction × Except MeshError Unit :=
  let d := { d with counter := d.counter + 1 }
  if d.counter < rekeyAfter then (d, .ok ())
  else
    let next := c.hkdfFromPrk d.key (ascii "zesterm-rekey-v1")
    let d := { d with key := next, counter := 0 }
    if d.epoch < maxEpoch then ({ d with epoch := d.epoch + 1 }, .ok ())
    else (d, .error (.identity "this channel has run out of epochs; redial".toList))

def sealWith (c : Suite) (d : Direction) (plaintext : List UInt8) :
    Direction × Except MeshError (List UInt8) :=
  if plaintext.length > maxPlaintext then
    (d, .error (.identity (showNat plaintext.length ++
      " bytes is more than a frame can carry once sealed".toList)))
  else
    match c.encrypt d.key d.nonce [] plaintext with
    | none => (d, .error (.identity "sealing failed".toList))
    | some out =>
      let (d, r) := d.advance c
      (d, r.map fun _ => out)

/-- A record that does not open leaves the counter where it was. -/
def openWith (c : Suite) (d : Direction) (ciphertext : List UInt8) :
    Direction × Except MeshError (List UInt8) :=
  match c.decrypt d.key d.nonce [] ciphertext with
  | none => (d, .error (.badSignature "a sealed frame did not open".toList))
  | some out =>
    let (d, r) := d.advance c
    (d, r.map fun _ => out)

end Direction

/-! ## The channel -/

/-- A sealed, ordered, one-connection channel. -/
structure SecureChannel where
  send : Direction
  recv : Direction
  deriving DecidableEq

namespace SecureChannel

/-- Seal one frame's body. -/
def «seal» (c : Suite) (s : SecureChannel) (plaintext : List UInt8) :
    SecureChannel × Except MeshError (List UInt8) :=
  let (d, r) := s.send.sealWith c plaintext
  ({ s with send := d }, r)

/-- Open one frame's body. -/
def «open» (c : Suite) (s : SecureChannel) (ciphertext : List UInt8) :
    SecureChannel × Except MeshError (List UInt8) :=
  let (d, r) := s.recv.openWith c ciphertext
  ({ s with recv := d }, r)

end SecureChannel

/-! ## Agreeing on one -/

/-- An X25519 public key on the wire. -/
structure DhPublic where
  bytes : Vector UInt8 32
  deriving DecidableEq

/-- All zero: what a peer that sent no key looks like. -/
def DhPublic.isAbsent (k : DhPublic) : Bool := k.bytes == Vector.replicate 32 0

/-- One connection's private half. -/
structure EphemeralDh where
  secret : Vector UInt8 32

def EphemeralDh.public (c : Suite) (dh : EphemeralDh) : DhPublic := ⟨c.dhPublic dh.secret⟩

/-- Agree on a channel, consuming the secret. The role decides which
derived key sends and which receives. -/
def EphemeralDh.agree (c : Suite) (dh : EphemeralDh) (theirs : DhPublic)
    (transcriptHash : List UInt8) (role : Role) : Except MeshError SecureChannel :=
  if theirs.isAbsent then
    .error (.badSignature "peer sent no ephemeral key; refusing to derive a channel".toList)
  else
    let shared := c.diffieHellman dh.secret theirs.bytes
    if c.wasContributory shared = false then
      .error (.badSignature "peer's ephemeral key is non-contributory".toList)
    else
      let h2c := c.hkdf transcriptHash shared (ascii "zesterm-e2e-v1 host->client")
      let c2h := c.hkdf transcriptHash shared (ascii "zesterm-e2e-v1 client->host")
      match role with
      | .host => .ok { send := .new h2c, recv := .new c2h }
      | .client => .ok { send := .new c2h, recv := .new h2c }

/-! ## Both ends -/

def Role.peer : Role → Role
  | .host => .client
  | .client => .host

/-- The two ends of one connection. -/
structure Link where
  host : SecureChannel
  client : SecureChannel
  deriving DecidableEq

/-- The ends of a connection that agreed on its two keys. -/
def Link.new (h2c c2h : Vector UInt8 32) : Link :=
  { host := { send := .new h2c, recv := .new c2h }
    client := { send := .new c2h, recv := .new h2c } }

def Link.end (l : Link) : Role → SecureChannel
  | .host => l.host
  | .client => l.client

def Link.setEnd (l : Link) : Role → SecureChannel → Link
  | .host, s => { l with host := s }
  | .client, s => { l with client := s }

/-- One end seals a frame, or is handed a record to open: any record, from
whoever holds the pipe. -/
inductive LinkCall where
  | «seal» (side : Role) (plaintext : List UInt8)
  | «open» (side : Role) (record : List UInt8)
  deriving DecidableEq

def Link.call (c : Suite) (l : Link) : LinkCall → Link × Except MeshError (List UInt8)
  | .seal side plaintext =>
    let (s, r) := (l.end side).seal c plaintext
    (l.setEnd side s, r)
  | .open side record =>
    let (s, r) := (l.end side).open c record
    (l.setEnd side s, r)

end Zesterm
