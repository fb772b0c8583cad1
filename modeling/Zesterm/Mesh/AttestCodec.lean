/-
Zesterm.Mesh.AttestCodec — how an attestation travels: the codec of
`zest-mesh`'s `attest.rs`.

`base64url(message) "." base64url(signature)`, both parts unpadded. The
decoder splits, decodes and narrows, and verifies nothing; every malformed
shape is one `none`. `Cursor` is a reader of what is left of the message,
and `u32` shifts are products and quotients.
-/
import Zesterm.Lib.Reading
import Zesterm.Lib.Sextets
import Zesterm.Mesh.Attest

namespace Zesterm

open Coding

/-- The layout version `attestationMessage` is to write. -/
def attestationVersion : UInt16 := 1

/-- How long a blob may be before it is refused unread. -/
def maxAttestationChars : Nat := 2048

/-! ## base64url -/

/-- `ALPHABET`. -/
def alphabet : Str := "ABCDEFGHIJKLMNOPQRSTUVWXYZabcdefghijklmnopqrstuvwxyz0123456789-_".toList

/-- The character of a sextet. -/
def alphabetChar (v : Nat) : Char := alphabet.getD v 'A'

/-- What up to three bytes are written as: one character per six bits
actually present. -/
def encodeChunk (chunk : List UInt8) : Str :=
  let n := (chunk.getD 0 0).toNat * 2 ^ 16 + (chunk.getD 1 0).toNat * 2 ^ 8 + (chunk.getD 2 0).toNat
  let chars := [n / 2 ^ 18 % 64, n / 2 ^ 12 % 64, n / 2 ^ 6 % 64, n % 64]
  (chars.take (chunk.length + 1)).map alphabetChar

/-- `base64url_encode`. -/
def base64urlEncode : List UInt8 → Str
  | [] => []
  | [a] => encodeChunk [a]
  | [a, b] => encodeChunk [a, b]
  | a :: b :: c :: rest => encodeChunk [a, b, c] ++ base64urlEncode rest

/-- The sextet of a character. -/
def sextet (b : UInt8) : Option Nat :=
  let b := b.toNat
  if 65 ≤ b ∧ b ≤ 90 then some (b - 65)
  else if 97 ≤ b ∧ b ≤ 122 then some (b - 97 + 26)
  else if 48 ≤ b ∧ b ≤ 57 then some (b - 48 + 52)
  else if b = 45 then some 62
  else if b = 95 then some 63
  else none

/-- What `base64url_decode` carries from one character to the next. -/
structure Bits where
  acc : Nat
  bits : Nat
  out : List UInt8
  deriving DecidableEq

/-- Six more bits, and a byte once eight are there. -/
def Bits.push (s : Bits) (v : Nat) : Bits :=
  let acc := s.acc * 64 % 2 ^ 32 + v
  let bits := s.bits + 6
  if bits ≥ 8 then ⟨acc, bits - 8, s.out ++ [UInt8.ofNat (acc / 2 ^ (bits - 8))]⟩
  else ⟨acc, bits, s.out⟩

/-- `base64url_decode`: the unused low bits of a last sextet must be zero. -/
def base64urlDecode (text : Str) : Option (List UInt8) :=
  let bytes := toUtf8 text
  if bytes.length % 4 = 1 then none
  else do
    let s ← bytes.foldlM (fun (s : Bits) b => (sextet b).map s.push) ⟨0, 0, []⟩
    if s.bits > 0 ∧ s.acc % 2 ^ s.bits ≠ 0 then none else some s.out

/-! ## The message -/

namespace Cursor

def u16 : Reader UInt8 UInt16 := narrow (number 2) fun n => some (UInt16.ofNat n)

def u64 : Reader UInt8 UInt64 := narrow (number 8) fun n => some (UInt64.ofNat n)

def key : Reader UInt8 (Vector UInt8 32) :=
  narrow (take 32) fun bytes => if h : bytes.length = 32 then some ⟨bytes.toArray, h⟩ else none

def string : Reader UInt8 Str := do
  let len ← u16
  narrow (take len.toNat) fromUtf8

/-- The fields in their order. -/
def attestation : Reader UInt8 Attestation := do
  expect attestDomain
  let v ← narrow u16 fun v => if v ≠ attestationVersion then none else some v
  let account ← string
  let device ← key
  let label ← string
  let approver ← key
  let iat ← u64
  let exp ← u64
  return { v, account, device := ⟨device⟩, label, approver := ⟨approver⟩, iat, exp }

end Cursor

/-- `parse_message`: the fields, and nothing behind them. -/
def parseMessage (message : List UInt8) : Option Attestation := do
  let (a, rest) ← Cursor.attestation message
  if rest ≠ [] then none else some a

/-! ## The blob -/

/-- An attestation with the bytes it arrived in. -/
structure DecodedAttestation where
  fields : Attestation
  message : List UInt8
  signature : Signature
  deriving DecidableEq

/-- `Signature::from_slice`. -/
def Signature.fromSlice (bytes : List UInt8) : Option Signature :=
  if h : bytes.length = 64 then some ⟨⟨bytes.toArray, h⟩⟩ else none

def encodeAttestation (a : Attestation) (sig : Signature) : Except AttestError Str :=
  (attestationMessage a).map fun message =>
    base64urlEncode message ++ '.' :: base64urlEncode sig.bytes.toList

def decodeAttestation (text : Str) : Option DecodedAttestation :=
  if text = [] ∨ utf8Len text > maxAttestationChars then none
  else
    match text.splitOn '.' with
    | [message, signature] => do
      let message ← base64urlDecode message
      let signature ← (base64urlDecode signature).bind Signature.fromSlice
      let fields ← parseMessage message
      return { fields, message, signature }
    | _ => none

end Zesterm
