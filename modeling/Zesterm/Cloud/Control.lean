/-
Zesterm.Cloud.Control — what the relay reads of a control link:
`parseHello` of `control.ts`.

A text is its UTF-16 units, which is what `.length` counts. `JSON.parse` and
the numbers it makes are the language's: a decimal is the double next to it,
so more than one of them is `CONTROL_VERSION`.
-/
import Zesterm.Cloud.AttestCodec
import Zesterm.Lib.JsonText

namespace Zesterm.Cloud.Control

open JsonText (Text Value utf16)

def maxLabelChars : Nat := 128

/-- The longest control message this build will parse. -/
def maxControlMessageChars : Nat := 1024

def hostIdBytes : Nat := 32

def signatureBytes : Nat := 64

/-- Why a control link was refused. -/
inductive ControlErrorCode where
  | malformed
  | version
  | stale
  | wrongRoom
  | badSignature
  | unknownHost
  | unconfigured
  deriving DecidableEq

/-- `string | ArrayBuffer`. -/
inductive Message where
  | text (units : Text)
  | binary

/-- What a daemon claims, once it is well-formed. -/
structure Hello where
  host : Text
  label : Text
  sig : List UInt8
  deriving DecidableEq

/-- `m[key]`. -/
def field (m : List (Text × Value)) (key : Str) : Option Value := JsonText.get m (utf16 key)

/-- `=== text`. -/
def isText (text : Str) : Option Value → Bool
  | some (.string s) => s = utf16 text
  | _ => false

/-- `=== CONTROL_VERSION`, the double: half a step under `1` and half a step
over it still round to it. -/
def isVersion : Option Value → Bool
  | some (.number n) => 1 - 1 / 2 ^ 54 ≤ n.value ∧ n.value ≤ 1 + 1 / 2 ^ 53
  | _ => false

def asText : Option Value → Except ControlErrorCode Text
  | some (.string s) => .ok s
  | _ => .error .malformed

/-- `fromHex`, of units. -/
def fromHexUnits (text : Text) (length : Nat) : Except ControlErrorCode (List UInt8) :=
  match fromHex (text.map fun u => Char.ofNat u.toNat) length with
  | some bytes => .ok bytes
  | none => .error .malformed

/-- Field by field, never a cast. -/
def parseHello : Message → Except ControlErrorCode Hello
  | .binary => .error .malformed
  | .text message =>
    if message.length = 0 ∨ maxControlMessageChars < message.length then .error .malformed
    else
      match JsonText.parse message with
      | some (.object m) =>
        if ¬ isText "hello".toList (field m "t".toList) then .error .malformed
        else if ¬ isVersion (field m "v".toList) then .error .version
        else do
          let host ← asText (field m "host".toList)
          let _ ← fromHexUnits host hostIdBytes
          let label ← asText (field m "label".toList)
          if maxLabelChars < label.length then throw .malformed
          let sig ← asText (field m "sig".toList)
          let signature ← fromHexUnits sig signatureBytes
          return { host, label, sig := signature }
      | _ => .error .malformed

end Zesterm.Cloud.Control
