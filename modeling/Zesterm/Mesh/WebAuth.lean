/-
Zesterm.Mesh.WebAuth — the browser's port of the handshake's cryptography:
`transcript.ts` and `secure.ts` of `@zesterm/auth`.

The ciphers are the `@noble` packages', so `Noble` leaves them open; what
throws is `none`. Ids, nonces and keys are hex strings here. An epoch is a
number without a bound, of which a nonce carries the low 32 bits.
-/
import Zesterm.Mesh.Pairing

namespace Zesterm.WebAuth

open Coding

/-- The calls into `@noble`. -/
structure Noble where
  sha256 : List UInt8 → Vector UInt8 32
  /-- `x25519.getPublicKey`. -/
  getPublicKey : Vector UInt8 32 → Vector UInt8 32
  /-- `x25519.getSharedSecret`, of a secret and the peer's public key. -/
  getSharedSecret : Vector UInt8 32 → Vector UInt8 32 → Vector UInt8 32
  /-- HKDF's `extract`, of a secret and a salt. -/
  extract : Vector UInt8 32 → List UInt8 → Vector UInt8 32
  /-- HKDF's `expand` to 32 bytes under a label. -/
  expand : Vector UInt8 32 → List UInt8 → Vector UInt8 32
  /-- `chacha20poly1305(key, nonce).encrypt`. -/
  encrypt : Vector UInt8 32 → List UInt8 → List UInt8 → Option (List UInt8)
  decrypt : Vector UInt8 32 → List UInt8 → List UInt8 → Option (List UInt8)

/-! ## `hexToBytes` -/

/-- The white space `parseInt` skips. -/
def isJsSpace (c : Char) : Bool :=
  let n := c.toNat
  (9 ≤ n ∧ n ≤ 13) ∨ n = 0x20 ∨ n = 0xA0 ∨ n = 0x1680 ∨ (0x2000 ≤ n ∧ n ≤ 0x200A) ∨ n = 0x2028 ∨
    n = 0x2029 ∨ n = 0x202F ∨ n = 0x205F ∨ n = 0x3000 ∨ n = 0xFEFF

/-- The digits a number begins with. -/
def leadingHex (s : Str) : Option Nat :=
  let digits := s.takeWhile fun c => (digitValue 16 c).isSome
  if digits.isEmpty then none else parseDigits 16 digits

/-- `Number.parseInt(s, 16)`; `none` is `NaN`. -/
def parseInt16 (s : Str) : Option Int :=
  let s := s.dropWhile isJsSpace
  let (negative, s) :=
    match s with
    | '-' :: rest => (true, rest)
    | '+' :: rest => (false, rest)
    | s => (false, s)
  let s :=
    match s with
    | '0' :: 'x' :: rest => rest
    | '0' :: 'X' :: rest => rest
    | s => s
  (leadingHex s).map fun (n : Nat) => if negative then -(n : Int) else n

/-- `hexToBytes`: two characters a byte, kept modulo 256. -/
def hexToBytes (hex : Str) : Option (List UInt8) :=
  if hex.length % 2 ≠ 0 then none else pairs hex
where
  pairs : Str → Option (List UInt8)
    | a :: b :: rest => do
      let byte ← parseInt16 [a, b]
      let bytes ← pairs rest
      return UInt8.ofNat (byte % 256).toNat :: bytes
    | _ => some []

/-- `bytesToHex`. -/
def bytesToHex (bytes : List UInt8) : Str := hexEncode bytes

/-! ## `transcript.ts` -/

/-- `Transcript`. -/
structure Transcript where
  version : Nat
  host : Str
  client : Str
  hostNonce : Str
  clientNonce : Str
  hostLabel : Str
  clientLabel : Str
  hostDh : Str
  clientDh : Str
  deriving DecidableEq

def fixed (hex : Str) (bytes : Nat) : Option (List UInt8) := do
  let out ← hexToBytes hex
  if out.length ≠ bytes then none else some out

/-- The label behind its length, refused where that does not fit. -/
def lenPrefixed (label : Str) : Option (List UInt8) :=
  let bytes := toUtf8 label
  if bytes.length > 0xffff then none
  else some (UInt8.ofNat (bytes.length / 256) :: UInt8.ofNat (bytes.length % 256) :: bytes)

/-- The exact bytes both sides sign. -/
def authTranscript (t : Transcript) : Option (List UInt8) := do
  let version := [UInt8.ofNat (t.version / 256 % 256), UInt8.ofNat (t.version % 256)]
  let host ← fixed t.host 32
  let client ← fixed t.client 32
  let hostNonce ← fixed t.hostNonce 32
  let clientNonce ← fixed t.clientNonce 32
  let hostDh ← fixed t.hostDh 32
  let clientDh ← fixed t.clientDh 32
  let hostLabel ← lenPrefixed t.hostLabel
  let clientLabel ← lenPrefixed t.clientLabel
  return ascii "zesterm-auth-v2" ++ version ++ host ++ client ++ hostNonce ++ clientNonce ++
    hostDh ++ clientDh ++ hostLabel ++ clientLabel

/-- `padStart`. -/
def padStart (s : Str) (length : Nat) (fill : Char) : Str :=
  List.replicate (length - s.length) fill ++ s

/-- The six digits a person compares between two screens. -/
def pairingCode (noble : Noble) (t : Transcript) : Option Str := do
  let message ← authTranscript t
  let digest := (noble.sha256 (ascii "zesterm-pairing-code-v1\x00" ++ message)).toList
  let byte (i : Nat) : Nat := (digest.getD i 0).toNat
  let n := byte 0 * 2 ^ 24 + byte 1 * 2 ^ 16 + byte 2 * 2 ^ 8 + byte 3
  return padStart (showNat (n % 10 ^ 6)) 6 '0'

/-! ## `secure.ts` -/

/-- `REKEY_AFTER`. -/
def rekeyAfter : Nat := 2 ^ 24

/-- One direction: its key, its counter, its epoch. -/
structure Direction where
  key : Vector UInt8 32
  epoch : Nat
  counter : Nat
  deriving DecidableEq

namespace Direction

def new (key : Vector UInt8 32) : Direction := { key := key, epoch := 0, counter := 0 }

/-- `setUint32` keeps an epoch modulo 2³². -/
def nonce (d : Direction) : List UInt8 := bigEndian 4 (d.epoch % 2 ^ 32) ++ bigEndian 8 d.counter

/-- Advance, ratcheting when the counter wraps. -/
def advance (noble : Noble) (d : Direction) : Direction :=
  let d := { d with counter := d.counter + 1 }
  if d.counter < rekeyAfter then d
  else
    { key := noble.expand d.key (ascii "zesterm-rekey-v1"), counter := 0, epoch := d.epoch + 1 }

def «seal» (noble : Noble) (d : Direction) (plaintext : List UInt8) :
    Direction × Option (List UInt8) :=
  match noble.encrypt d.key d.nonce plaintext with
  | none => (d, none)
  | some out => (d.advance noble, some out)

/-- The counter does not advance on a failure. -/
def «open» (noble : Noble) (d : Direction) (ciphertext : List UInt8) :
    Direction × Option (List UInt8) :=
  match noble.decrypt d.key d.nonce ciphertext with
  | none => (d, none)
  | some out => (d.advance noble, some out)

end Direction

/-- Both directions of one connection. -/
structure SecureChannel where
  sendDir : Direction
  recvDir : Direction
  deriving DecidableEq

namespace SecureChannel

def «seal» (noble : Noble) (s : SecureChannel) (plaintext : List UInt8) :
    SecureChannel × Option (List UInt8) :=
  ({ s with sendDir := (s.sendDir.seal noble plaintext).1 }, (s.sendDir.seal noble plaintext).2)

def «open» (noble : Noble) (s : SecureChannel) (ciphertext : List UInt8) :
    SecureChannel × Option (List UInt8) :=
  ({ s with recvDir := (s.recvDir.open noble ciphertext).1 }, (s.recvDir.open noble ciphertext).2)

end SecureChannel

/-- `ephemeralFromSeed(seed).publicKey`. -/
def publicKey (noble : Noble) (secret : Vector UInt8 32) : Str :=
  bytesToHex (noble.getPublicKey secret).toList

/-- `ephemeralFromSeed(seed).agree`. -/
def agree (noble : Noble) (secret : Vector UInt8 32) (theirDh : Str) (transcript : Transcript)
    (role : Role) : Option SecureChannel := do
  let theirs ← hexToBytes theirDh
  if h : theirs.length = 32 then
    if theirs.all (· == 0) then none
    else do
      let shared := noble.getSharedSecret secret ⟨theirs.toArray, h⟩
      if shared.toList.all (· == 0) then none
      else do
        let message ← authTranscript transcript
        let th := noble.sha256 message
        let prk := noble.extract shared th.toList
        let h2c := noble.expand prk (ascii "zesterm-e2e-v1 host->client")
        let c2h := noble.expand prk (ascii "zesterm-e2e-v1 client->host")
        match role with
        | .host => return { sendDir := .new h2c, recvDir := .new c2h }
        | .client => return { sendDir := .new c2h, recvDir := .new h2c }
  else none

end Zesterm.WebAuth
