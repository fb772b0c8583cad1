/-
Zesterm.Core.Text — the text functions the escape parser leans on: UTF-8,
Rust's integer parsing, and the decoders of `perform.rs` (exit status,
VS Code's escaping, percent escapes, colour specs).

Rust's `parse` and `from_str_radix` accept one leading `+`, and so do
these. A string's `len()` is its length in bytes, which matters where a
length is tested before the text is known to be ASCII. Slicing inside a
multi-byte character panics in the source; `parseColorSpec` answers `none`
there.
-/
import Zesterm.Core.Grid

namespace Zesterm

/-! ## UTF-8 -/

/-- A continuation byte's six bits. -/
def continuation (b : UInt8) : Option Nat :=
  if 0x80 ≤ b.toNat ∧ b.toNat < 0xC0 then some (b.toNat - 0x80) else none

/-- The character with code point `n`, if there is one and it needs at
least `low`: an overlong form is not UTF-8. -/
def scalar (low n : Nat) : Option Char :=
  if low ≤ n ∧ n.isValidChar then some (Char.ofNat n) else none

/-- `core::str::from_utf8`, as the text it accepts. -/
def fromUtf8 : List UInt8 → Option Str
  | [] => some []
  | a :: rest =>
    if a.toNat < 0x80 then (fromUtf8 rest).map (Char.ofNat a.toNat :: ·)
    else
      match rest with
      | [] => none
      | b :: rest =>
        if 0xC0 ≤ a.toNat ∧ a.toNat < 0xE0 then do
          let b ← continuation b
          let c ← scalar 0x80 ((a.toNat - 0xC0) * 64 + b)
          (fromUtf8 rest).map (c :: ·)
        else
          match rest with
          | [] => none
          | c :: rest =>
            if 0xE0 ≤ a.toNat ∧ a.toNat < 0xF0 then do
              let b ← continuation b
              let c ← continuation c
              let ch ← scalar 0x800 (((a.toNat - 0xE0) * 64 + b) * 64 + c)
              (fromUtf8 rest).map (ch :: ·)
            else
              match rest with
              | [] => none
              | d :: rest =>
                if 0xF0 ≤ a.toNat ∧ a.toNat < 0xF8 then do
                  let b ← continuation b
                  let c ← continuation c
                  let d ← continuation d
                  let ch ← scalar 0x10000 ((((a.toNat - 0xF0) * 64 + b) * 64 + c) * 64 + d)
                  (fromUtf8 rest).map (ch :: ·)
                else none

/-- `str::as_bytes`. -/
def toUtf8 (s : Str) : List UInt8 := s.flatMap String.utf8EncodeChar

/-- `str::len`. -/
def utf8Len (s : Str) : Nat := (s.map Char.utf8Size).sum

/-! ## Numbers -/

/-- `char::to_digit`. -/
def digitValue (radix : Nat) (c : Char) : Option Nat :=
  let n := c.toNat
  let v :=
    if 48 ≤ n ∧ n ≤ 57 then n - 48
    else if 97 ≤ n ∧ n ≤ 122 then n - 87
    else if 65 ≤ n ∧ n ≤ 90 then n - 55
    else radix
  if v < radix then some v else none

/-- The digits of an unsigned number, most significant first. -/
def parseDigits (radix : Nat) (s : Str) : Option Nat :=
  s.foldlM (fun acc c => (digitValue radix c).map (acc * radix + ·)) 0

/-- `from_str_radix` of an unsigned type whose greatest value is `bound`. -/
def parseRadix (radix bound : Nat) (s : Str) : Option Nat :=
  let digits :=
    match s with
    | '+' :: rest => rest
    | s => s
  if digits.isEmpty then none
  else (parseDigits radix digits).filter (· ≤ bound)

/-- `str::parse` of an unsigned type. -/
def parseUnsigned (bound : Nat) (s : Str) : Option Nat := parseRadix 10 bound s

/-- The decimal digits of a number, as `{}` prints it. -/
def showNat (n : Nat) : Str := Nat.toDigits 10 n

/-- `{:04x}`. -/
def showHex4 (n : Nat) : Str :=
  let digits := Nat.toDigits 16 n
  List.replicate (4 - digits.length) '0' ++ digits

/-! ## Slices -/

/-- `str::strip_prefix`. -/
def stripPrefix : (lead s : Str) → Option Str
  | [], s => some s
  | _ :: _, [] => none
  | p :: ps, c :: cs => if p = c then stripPrefix ps cs else none

/-- `str::split_once`. -/
def splitOnce (sep : Char) (s : Str) : Option (Str × Str) :=
  if s.contains sep then
    some (s.takeWhile (· != sep), (s.dropWhile (· != sep)).drop 1)
  else none

def trimEnd (s : Str) : Str := s.rdropWhile isWhitespace

def trim (s : Str) : Str := trimEnd (s.dropWhile isWhitespace)

/-! ## The decoders of `perform.rs` -/

/-- The exit status from `OSC 133;D;<status>`: a leading run of digits, or
unknown, never success. -/
def parseExitStatus (param : List UInt8) : Option Int := do
  let s ← fromUtf8 param
  let digits := s.takeWhile fun c => decide (48 ≤ c.toNat ∧ c.toNat ≤ 57)
  let v ← parseUnsigned (2 ^ 31 - 1) digits
  pure v

/-- Undo the escaping VS Code applies to the `OSC 633;E` command line. -/
def unescapeVscode : Str → Str
  | [] => []
  | '\\' :: 'x' :: a :: b :: rest =>
    match parseRadix 16 255 [a, b] with
    | some v => Char.ofNat v :: unescapeVscode rest
    | none => '\\' :: 'x' :: a :: b :: unescapeVscode rest
  | ['\\', 'x', a] =>
    match parseRadix 16 255 [a] with
    | some v => [Char.ofNat v]
    | none => ['\\', 'x', a]
  | ['\\', 'x'] => ['\\', 'x']
  | '\\' :: '\\' :: rest => '\\' :: unescapeVscode rest
  | '\\' :: c :: rest => '\\' :: c :: unescapeVscode rest
  | ['\\'] => ['\\']
  | c :: rest => c :: unescapeVscode rest

/-- The bytes `percent_decode` leaves. -/
def percentBytes : List UInt8 → List UInt8
  | [] => []
  | a :: rest =>
    match rest with
    | b :: c :: tail =>
      match if a = 0x25 then (fromUtf8 [b, c]).bind (parseRadix 16 255) else none with
      | some v => UInt8.ofNat v :: percentBytes tail
      | none => a :: percentBytes (b :: c :: tail)
    | rest => a :: rest

/-- Decode `%XX` escapes in an OSC 7 path. -/
def percentDecode (s : Str) : Str := (fromUtf8 (percentBytes (toUtf8 s))).getD s

/-! ## Colours -/

/-- A resolved 24-bit colour. -/
structure Rgb where
  r : UInt8
  g : UInt8
  b : UInt8
  deriving DecidableEq, Inhabited

/-- One component of `rgb:R/G/B`: one to four hex digits, scaled to eight
bits. -/
def scaleComponent (s : Str) : Option UInt8 := do
  let v ← parseRadix 16 u32Max s
  match s.length with
  | 1 => some (UInt8.ofNat (v * 17))
  | 2 => some (UInt8.ofNat v)
  | 3 => some (UInt8.ofNat (v / 16))
  | 4 => some (UInt8.ofNat (v / 256))
  | _ => none

/-- `str::split`. -/
def splitOn (sep : Char) : Str → List Str
  | [] => [[]]
  | c :: cs =>
    if c = sep then [] :: splitOn sep cs
    else
      match splitOn sep cs with
      | [] => [[c]]
      | part :: parts => (c :: part) :: parts

/-- Parse an XParseColor-style spec: `rgb:RR/GG/BB`, `#rgb` or
`#rrggbb`. -/
def parseColorSpec (spec : Str) : Option Rgb :=
  match stripPrefix ['r', 'g', 'b', ':'] spec with
  | some rest =>
    match splitOn '/' rest with
    | r :: g :: b :: _ => do
      let r ← scaleComponent r
      let g ← scaleComponent g
      let b ← scaleComponent b
      pure ⟨r, g, b⟩
    | _ => none
  | none => do
    let hex ← stripPrefix ['#'] spec
    let byte (s : Str) : Option UInt8 := (parseRadix 16 255 s).map UInt8.ofNat
    match utf8Len hex, hex with
    | 3, [r, g, b] => do
      let r ← byte [r]
      let g ← byte [g]
      let b ← byte [b]
      pure ⟨r * 17, g * 17, b * 17⟩
    | 6, [r₁, r₀, g₁, g₀, b₁, b₀] => do
      let r ← byte [r₁, r₀]
      let g ← byte [g₁, g₀]
      let b ← byte [b₁, b₀]
      pure ⟨r, g, b⟩
    | _, _ => none

end Zesterm
