/-
Zesterm.Core.Modes — the terminal modes and the cursor style of
`zest-core`'s `modes.rs`.

The mode word keeps its bit layout: it crosses the wire as raw bits, and
the kitty keyboard flags live in it at `1 << (16 + k)`.
-/
import Zesterm.Core.Cell

namespace Zesterm

/-! ## The mode word -/

/-- `Modes`: a 32-bit flag word. -/
structure Modes where
  bits : BitVec 32
  deriving DecidableEq

namespace Modes

def empty : Modes := ⟨0⟩
def autoWrap : Modes := ⟨1#32 <<< 0⟩
def origin : Modes := ⟨1#32 <<< 1⟩
def appCursor : Modes := ⟨1#32 <<< 2⟩
def appKeypad : Modes := ⟨1#32 <<< 3⟩
def showCursor : Modes := ⟨1#32 <<< 4⟩
def insert : Modes := ⟨1#32 <<< 5⟩
def lineFeedNewLine : Modes := ⟨1#32 <<< 6⟩
def altScreen : Modes := ⟨1#32 <<< 7⟩
def bracketedPaste : Modes := ⟨1#32 <<< 8⟩
def mouseClick : Modes := ⟨1#32 <<< 9⟩
def mouseDrag : Modes := ⟨1#32 <<< 10⟩
def mouseMotion : Modes := ⟨1#32 <<< 11⟩
def mouseSgr : Modes := ⟨1#32 <<< 12⟩
def focusReporting : Modes := ⟨1#32 <<< 13⟩
def syncUpdate : Modes := ⟨1#32 <<< 14⟩
def win32Input : Modes := ⟨1#32 <<< 15⟩
def kittyDisambiguate : Modes := ⟨1#32 <<< 16⟩
def kittyEventTypes : Modes := ⟨1#32 <<< 17⟩
def kittyReportAll : Modes := ⟨1#32 <<< 19⟩

def union (a b : Modes) : Modes := ⟨a.bits ||| b.bits⟩
def remove (a b : Modes) : Modes := ⟨a.bits &&& ~~~ b.bits⟩
def contains (a b : Modes) : Bool := a.bits &&& b.bits == b.bits

/-- `a.set(b, on)`. -/
def set (a b : Modes) (on : Bool) : Modes := if on then a.union b else a.remove b

/-- Every bit this terminal has a name for. -/
def all : Modes := ⟨0x000BFFFF#32⟩

/-- `Modes::from_bits_truncate`: unknown bits are dropped. -/
def fromBitsTruncate (bits : BitVec 32) : Modes := ⟨bits &&& all.bits⟩

/-- The modes a terminal starts in. -/
def initial : Modes := autoWrap.union showCursor

/-- Where the kitty flag byte sits inside the mode word. -/
def kittyShift : Nat := 16

/-- The kitty keyboard flags this terminal implements, as the protocol
numbers them. -/
def kittySupported : BitVec 8 := 1#8 ||| 2#8 ||| 8#8

/-- The kitty flags as a protocol flag byte. -/
def kittyFlags (m : Modes) : BitVec 8 := (m.bits >>> kittyShift).setWidth 8 &&& kittySupported

/-- This mode set with the kitty flags replaced by `flags`. -/
def withKittyFlags (m : Modes) (flags : BitVec 8) : Modes :=
  let kept := m.bits &&& ~~~ (kittySupported.setWidth 32 <<< kittyShift)
  let set := (flags &&& kittySupported).setWidth 32 <<< kittyShift
  fromBitsTruncate (kept ||| set)

instance : Inhabited Modes := ⟨empty⟩

end Modes

/-! ## The cursor style -/

inductive CursorShape where
  | block
  | underline
  | bar
  deriving DecidableEq

structure CursorStyle where
  shape : CursorShape
  blinking : Bool
  deriving DecidableEq

namespace CursorStyle

/-- `CursorStyle::default()`: a blinking block. -/
def default : CursorStyle := ⟨.block, true⟩

instance : Inhabited CursorStyle := ⟨default⟩

/-- Decode a DECSCUSR parameter. -/
def fromDecscusr : Nat → CursorStyle
  | 0 => ⟨.block, true⟩
  | 1 => ⟨.block, true⟩
  | 2 => ⟨.block, false⟩
  | 3 => ⟨.underline, true⟩
  | 4 => ⟨.underline, false⟩
  | 5 => ⟨.bar, true⟩
  | 6 => ⟨.bar, false⟩
  | _ => default

/-- Encode back to a DECSCUSR parameter, never 0. -/
def toDecscusr : CursorStyle → Nat
  | ⟨.block, true⟩ => 1
  | ⟨.block, false⟩ => 2
  | ⟨.underline, true⟩ => 3
  | ⟨.underline, false⟩ => 4
  | ⟨.bar, true⟩ => 5
  | ⟨.bar, false⟩ => 6

end CursorStyle

end Zesterm
