/-
Zesterm.Cloud.AttestCodec — the cloud's side of an attestation blob:
`attestation.ts` and `bytes.ts` of `cloud/packages/shared`.

A timestamp is a number that JavaScript holds exactly, and a key its
lowercase hex. `btoa` and `atob` are the forgiving base64 of the platform;
`TextDecoder` drops a leading byte order mark and puts something in place of
what is not UTF-8. What it puts there is `malformed`, which nothing depends
on: such a text never encodes back to the bytes it was read from.
-/
import Zesterm.Lib.Reading
import Zesterm.Lib.Sextets
import Zesterm.Mesh.Attest

namespace Zesterm.Cloud

open Coding

/-- `ATTESTATION_VERSION`. -/
def attestationVersion : Nat := 1

/-- `ATTESTATION_KEY_LEN`. -/
def attestationKeyLen : Nat := 32

/-- `ATTESTATION_SIGNATURE_LEN`. -/
def attestationSignatureLen : Nat := 64

/-- `MAX_ATTESTATION_CHARS`. -/
def maxAttestationChars : Nat := 2048

/-- `Number.MAX_SAFE_INTEGER`. -/
def maxSafeInteger : Nat := 2 ^ 53 - 1

/-! ## `bytes.ts` -/

/-- The characters of base64, `+` and `/` among them. -/
def base64Char (v : Nat) : Char :=
  "ABCDEFGHIJKLMNOPQRSTUVWXYZabcdefghijklmnopqrstuvwxyz0123456789+/".toList.getD v 'A'

/-- `btoa` of the string whose characters are these bytes. -/
def btoa : List UInt8 → Str
  | [] => []
  | [x] => (Sextets.split [x]).map base64Char ++ ['=', '=']
  | [x, y] => (Sextets.split [x, y]).map base64Char ++ ['=']
  | x :: y :: z :: bytes => (Sextets.split [x, y, z]).map base64Char ++ btoa bytes

/-- The two characters that differ, as base64url has them. -/
def urlChar (c : Char) : Char := if c = '+' then '-' else if c = '/' then '_' else c

/-- The same two, as `atob` has them. -/
def plainChar (c : Char) : Char := if c = '-' then '+' else if c = '_' then '/' else c

def toBase64Url (bytes : List UInt8) : Str := ((btoa bytes).map urlChar).rdropWhile (· = '=')

/-- The value of a character of base64. -/
def base64Value (c : Char) : Option Nat :=
  if 'A' ≤ c ∧ c ≤ 'Z' then some (c.toNat - 65)
  else if 'a' ≤ c ∧ c ≤ 'z' then some (c.toNat - 97 + 26)
  else if '0' ≤ c ∧ c ≤ '9' then some (c.toNat - 48 + 52)
  else if c = '+' then some 62
  else if c = '/' then some 63
  else none

/-- ASCII whitespace, which `atob` skips. -/
def asciiWhitespace : Str := ['\t', '\n', '\x0c', '\r', ' ']

/-- The padding `atob` accepts: one or two `=` of a text whose length is a
multiple of four. -/
def unpad (s : Str) : Str :=
  if s.length % 4 = 0 then
    match s.reverse with
    | '=' :: '=' :: rest => rest.reverse
    | '=' :: rest => rest.reverse
    | _ => s
  else s

/-- `atob`, as the bytes its characters are. -/
def atob (s : Str) : Option (List UInt8) := do
  let s := unpad (s.filter fun c => c ∉ asciiWhitespace)
  if s.length % 4 = 1 then none
  else do
    let sextets ← s.mapM base64Value
    let (bytes, _) ← Sextets.join sextets
    return bytes

/-- The characters of `B64URL`. -/
def isBase64Url (c : Char) : Bool :=
  ('A' ≤ c ∧ c ≤ 'Z') ∨ ('a' ≤ c ∧ c ≤ 'z') ∨ ('0' ≤ c ∧ c ≤ '9') ∨ c = '_' ∨ c = '-'

def fromBase64Url (text : Str) : Option (List UInt8) :=
  if ¬ text.all isBase64Url then none else atob (text.map plainChar)

/-- `fromHex`: `length` bytes of lowercase hex. -/
def fromHex (text : Str) (length : Nat) : Option (List UInt8) :=
  if text.length ≠ length * 2 then none else pairs text
where
  /-- The value of `[0-9a-f]`. -/
  digit (c : Char) : Option Nat :=
    if '0' ≤ c ∧ c ≤ '9' then some (c.toNat - 48)
    else if 'a' ≤ c ∧ c ≤ 'f' then some (c.toNat - 97 + 10)
    else none
  /-- Two characters a byte. -/
  pairs : Str → Option (List UInt8)
    | a :: b :: rest => do
      let high ← digit a
      let low ← digit b
      let bytes ← pairs rest
      return UInt8.ofNat (high * 16 + low) :: bytes
    | _ => some []

/-- `String.length`: the UTF-16 code units. -/
def utf16Len (text : Str) : Nat := (text.map fun c => if c.toNat < 0x10000 then 1 else 2).sum

/-- `new TextDecoder().decode`. -/
def textDecode (malformed : List UInt8 → Str) (bytes : List UInt8) : Str :=
  match fromUtf8 bytes with
  | some text => if text.head? = some '\uFEFF' then text.tail else text
  | none => malformed bytes

/-! ## The message -/

/-- The statement, all of it; `approver` is `by`. -/
structure Fields where
  v : Nat
  account : Str
  device : Str
  label : Str
  approver : Str
  iat : Nat
  exp : Nat
  deriving DecidableEq

/-- `pushLenPrefixed`; `none` is its `RangeError`. -/
def pushLenPrefixed (text : Str) : Option (List UInt8) :=
  let bytes := toUtf8 text
  if bytes.length > 0xffff then none
  else some ([UInt8.ofNat (bytes.length / 256), UInt8.ofNat (bytes.length % 256)] ++ bytes)

def u16be (value : Nat) : List UInt8 := [UInt8.ofNat (value / 256 % 256), UInt8.ofNat (value % 256)]

def u64be (value : Nat) : Option (List UInt8) :=
  if value > maxSafeInteger then none else some (bigEndian 8 value)

def keyBytes (hexText : Str) : Option (List UInt8) := fromHex hexText attestationKeyLen

/-- `attestationMessage`; `none` is its `RangeError`. -/
def attestationMessage (a : Fields) : Option (List UInt8) := do
  let account ← pushLenPrefixed a.account
  let device ← keyBytes a.device
  let label ← pushLenPrefixed a.label
  let approver ← keyBytes a.approver
  let iat ← u64be a.iat
  let exp ← u64be a.exp
  return attestDomain ++ u16be a.v ++ account ++ device ++ label ++ approver ++ iat ++ exp

def encodeAttestation (message signature : List UInt8) : Str :=
  toBase64Url message ++ '.' :: toBase64Url signature

namespace Parse

def readU16 : Reader UInt8 Nat :=
  narrow (take 2) fun b => some ((b.getD 0 0).toNat * 256 + (b.getD 1 0).toNat)

/-- A value JavaScript cannot hold exactly is refused rather than rounded. -/
def readU64 : Reader UInt8 Nat :=
  narrow (number 8) fun value => if value > maxSafeInteger then none else some value

/-- A text that does not encode back to its bytes is refused. -/
def readString (malformed : List UInt8 → Str) : Reader UInt8 Str := do
  let len ← readU16
  narrow (take len) fun bytes =>
    let text := textDecode malformed bytes
    if toUtf8 text ≠ bytes then none else some text

/-- The fields in their order. -/
def fields (malformed : List UInt8 → Str) : Reader UInt8 Fields := do
  expect attestDomain
  let _ ← narrow readU16 fun v => if v ≠ attestationVersion then none else some v
  let account ← readString malformed
  let device ← take attestationKeyLen
  let label ← readString malformed
  let approver ← take attestationKeyLen
  let iat ← readU64
  let exp ← readU64
  return { v := attestationVersion, account, device := hexEncode device, label,
           approver := hexEncode approver, iat, exp }

end Parse

/-- `parseMessage`: the fields, and nothing behind them. -/
def parseMessage (malformed : List UInt8 → Str) (message : List UInt8) : Option Fields := do
  let (a, rest) ← Parse.fields malformed message
  if rest ≠ [] then none else some a

/-! ## The blob -/

/-- `DecodedAttestation`. -/
structure DecodedAttestation where
  fields : Fields
  message : List UInt8
  signature : List UInt8
  deriving DecidableEq

def decodeAttestation (malformed : List UInt8 → Str) (text : Str) : Option DecodedAttestation :=
  if utf16Len text = 0 ∨ utf16Len text > maxAttestationChars then none
  else
    match splitOnce '.' text with
    | none => none
    | some (message, signature) =>
      if signature.contains '.' then none
      else do
        let message ← fromBase64Url message
        let signature ← fromBase64Url signature
        if signature.length ≠ attestationSignatureLen then none
        else do
          let fields ← parseMessage malformed message
          return { fields, message, signature }

end Zesterm.Cloud
