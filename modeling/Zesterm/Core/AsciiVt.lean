/-
Zesterm.Core.AsciiVt — a small escape parser, for running the terminal on
concrete bytes.

`Vt` leaves the parser and the width table open. `asciiVt` fills them in
for the plain part of the state machine: printable ASCII, control bytes,
CSI with parameters, private markers and intermediates, two-byte escapes,
and OSC strings ended by BEL or by the next ESC. Bytes above ASCII are
dropped, and every printable character is one column wide. `utf8Vt` adds
the characters that UTF-8 writes in two bytes, among them the combining
marks of the block at U+0300, which take no column.
-/
import Zesterm.Core.Perform

namespace Zesterm

/-- Where the parser is between two bytes. -/
inductive AsciiState where
  | ground
  | escape (intermediates : List UInt8)
  /-- Finished groups, the group in hand, the value in hand. -/
  | csi (groups : Params) (group : List Nat) (value : Nat) (intermediates : List UInt8)
  /-- Finished parameters and the one in hand. -/
  | osc (params : List (List UInt8)) (param : List UInt8)
  deriving DecidableEq

namespace AsciiState

/-- A byte outside any sequence. -/
def groundByte (b : UInt8) : AsciiState × List Action :=
  let n := b.toNat
  if n = 0x1b then (.escape [], [])
  else if n < 0x20 then (.ground, [.execute b])
  else if n < 0x7f then (.ground, [.print (Char.ofNat n)])
  else (.ground, [])

/-- A byte after ESC. -/
def escapeByte (intermediates : List UInt8) (b : UInt8) : AsciiState × List Action :=
  let n := b.toNat
  if n = 0x5b ∧ intermediates = [] then (.csi [] [] 0 [], [])
  else if n = 0x5d ∧ intermediates = [] then (.osc [] [], [])
  else if 0x20 ≤ n ∧ n < 0x30 then (.escape (intermediates ++ [b]), [])
  else if 0x30 ≤ n ∧ n < 0x7f then (.ground, [.esc intermediates false b])
  else if n = 0x1b then (.escape [], [])
  else (.escape intermediates, [.execute b])

/-- A byte inside a CSI sequence. The value in hand is always pushed, so
an empty parameter reads as zero. -/
def csiByte (groups : Params) (group : List Nat) (value : Nat) (intermediates : List UInt8)
    (b : UInt8) : AsciiState × List Action :=
  let n := b.toNat
  if 0x30 ≤ n ∧ n ≤ 0x39 then
    (.csi groups group (min (value * 10 + (n - 0x30)) 65535) intermediates, [])
  else if n = 0x3a then (.csi groups (group ++ [value]) 0 intermediates, [])
  else if n = 0x3b then (.csi (groups ++ [group ++ [value]]) [] 0 intermediates, [])
  else if 0x20 ≤ n ∧ n < 0x40 then (.csi groups group value (intermediates ++ [b]), [])
  else if 0x40 ≤ n ∧ n < 0x7f then
    (.ground, [.csi (groups ++ [group ++ [value]]) intermediates false (Char.ofNat n)])
  else if n = 0x1b then (.escape [], [])
  else (.csi groups group value intermediates, [.execute b])

/-- A byte inside an OSC string. -/
def oscByte (params : List (List UInt8)) (param : List UInt8) (b : UInt8) :
    AsciiState × List Action :=
  let n := b.toNat
  if n = 0x07 then (.ground, [.osc (params ++ [param]) true])
  else if n = 0x1b then (.escape [], [.osc (params ++ [param]) false])
  else if n = 0x3b then (.osc (params ++ [param]) [], [])
  else if n < 0x20 then (.osc params param, [])
  else (.osc params (param ++ [b]), [])

def byte : AsciiState → UInt8 → AsciiState × List Action
  | .ground, b => groundByte b
  | .escape i, b => escapeByte i b
  | .csi gs g v i, b => csiByte gs g v i b
  | .osc ps p, b => oscByte ps p b

def advance : AsciiState → List UInt8 → AsciiState × List Action
  | s, [] => (s, [])
  | s, b :: bs =>
    let (s, out) := s.byte b
    let (s, rest) := advance s bs
    (s, out ++ rest)

end AsciiState

/-- The parser and width table above, as a `Vt`. -/
def asciiVt : Vt :=
  { Parser := AsciiState
    new := .ground
    advance := AsciiState.advance
    width := fun c => if 0x20 ≤ c.toNat ∧ c.toNat < 0x7f then some 1 else none }

/-! ## Two-byte characters -/

namespace AsciiState

/-- A byte, where the lead of a two-byte character may be in hand. -/
def utf8Byte : AsciiState × Option UInt8 → UInt8 → (AsciiState × Option UInt8) × List Action
  | (s, some lead), b =>
    if 0x80 ≤ b.toNat ∧ b.toNat < 0xc0 then
      ((s, none), [.print (Char.ofNat ((lead.toNat - 0xc0) * 64 + (b.toNat - 0x80)))])
    else
      let (s, out) := s.byte b
      ((s, none), .print (Char.ofNat 0xfffd) :: out)
  | (.ground, none), b =>
    if 0xc2 ≤ b.toNat ∧ b.toNat < 0xe0 then ((.ground, some b), [])
    else
      let (s, out) := groundByte b
      ((s, none), out)
  | (s, none), b =>
    let (s, out) := s.byte b
    ((s, none), out)

def utf8Advance : AsciiState × Option UInt8 → List UInt8 →
    (AsciiState × Option UInt8) × List Action
  | s, [] => (s, [])
  | s, b :: bs =>
    let (s, out) := utf8Byte s b
    let (s, rest) := utf8Advance s bs
    (s, out ++ rest)

end AsciiState

/-- The parser with two-byte characters and their widths, as a `Vt`. -/
def utf8Vt : Vt :=
  { Parser := AsciiState × Option UInt8
    new := (.ground, none)
    advance := AsciiState.utf8Advance
    width := fun c =>
      if c.toNat < 0x20 ∨ 0x7f ≤ c.toNat ∧ c.toNat < 0xa0 then none
      else if 0x300 ≤ c.toNat ∧ c.toNat < 0x370 then some 0
      else some 1 }

end Zesterm
