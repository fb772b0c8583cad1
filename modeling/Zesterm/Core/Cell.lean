/-
Zesterm.Core.Cell — the grid cell of `zest-core`: `color.rs` and
`cell.rs`.

A cell is a character, two unresolved colours, a flag word and an index
into the side table of the row that owns it. The flag word keeps the bit
layout of the source, because the wire sends the raw bits and because two
cells share a run exactly when their whole flag words agree, `WRAPLINE`
and the two width flags included.

`u8` components of a colour are `UInt8`; the side-table index is a `Nat`
with `noExtra` (`u16::MAX`) meaning "nothing extra".
-/
import Mathlib.Data.List.DropRight
import Mathlib.Data.List.Rotate
import Mathlib.Data.List.Sort
import Mathlib.Tactic

namespace Zesterm

/-- Rust's `String`, as the list of its characters. -/
abbrev Str := List Char

/-! ## Colours -/

/-- A colour as the escape stream expressed it, never resolved to RGB. -/
inductive Color where
  /-- The theme's own foreground or background. -/
  | default
  /-- A palette index. -/
  | indexed (i : UInt8)
  /-- A direct 24-bit colour. -/
  | rgb (r g b : UInt8)
  deriving DecidableEq, Inhabited

/-! ## Cell flags -/

/-- `CellFlags`: a 16-bit flag word. -/
structure CellFlags where
  bits : BitVec 16
  deriving DecidableEq

namespace CellFlags

def empty : CellFlags := ⟨0⟩
def bold : CellFlags := ⟨1#16 <<< 0⟩
def dim : CellFlags := ⟨1#16 <<< 1⟩
def italic : CellFlags := ⟨1#16 <<< 2⟩
def underline : CellFlags := ⟨1#16 <<< 3⟩
def doubleUnderline : CellFlags := ⟨1#16 <<< 4⟩
def undercurl : CellFlags := ⟨1#16 <<< 5⟩
def strikeout : CellFlags := ⟨1#16 <<< 6⟩
def inverse : CellFlags := ⟨1#16 <<< 7⟩
def hidden : CellFlags := ⟨1#16 <<< 8⟩
def blink : CellFlags := ⟨1#16 <<< 9⟩

/-- The cell holds a double-width character. -/
def wide : CellFlags := ⟨1#16 <<< 10⟩

/-- The right half of a double-width character. -/
def wideSpacer : CellFlags := ⟨1#16 <<< 11⟩

/-- Set on the last cell of a row that wrapped rather than ended. -/
def wrapline : CellFlags := ⟨1#16 <<< 12⟩

/-- `a | b`, and `a |= b`. -/
def union (a b : CellFlags) : CellFlags := ⟨a.bits ||| b.bits⟩

/-- `a & b`. -/
def inter (a b : CellFlags) : CellFlags := ⟨a.bits &&& b.bits⟩

/-- `a -= b`. -/
def remove (a b : CellFlags) : CellFlags := ⟨a.bits &&& ~~~ b.bits⟩

def contains (a b : CellFlags) : Bool := a.bits &&& b.bits == b.bits

def intersects (a b : CellFlags) : Bool := a.bits &&& b.bits != 0

/-- `a.set(b, on)`. -/
def set (a b : CellFlags) (on : Bool) : CellFlags := if on then a.union b else a.remove b

instance : Inhabited CellFlags := ⟨empty⟩

/-- A flag just set, or just cleared, reads back as it was written. -/
@[simp] theorem contains_set (a b : CellFlags) (on : Bool) (hb : b.bits ≠ 0#16) :
    (a.set b on).contains b = on := by
  cases on
  · have hz : a.bits &&& ~~~ b.bits &&& b.bits = 0#16 := by
      ext i; simp
    simpa [set, remove, contains, hz] using Ne.symm hb
  · have ho : (a.bits ||| b.bits) &&& b.bits = b.bits := by
      ext i; simp; tauto
    simp [set, union, contains, ho]

/-- `WRAPLINE` is bit 12, so holding it is a fact about that one bit. -/
theorem contains_wrapline (a : CellFlags) : a.contains wrapline = a.bits.getLsbD 12 := by
  have hbit : wrapline.bits = BitVec.twoPow 16 12 := by decide
  unfold contains
  rw [hbit, BitVec.and_twoPow]
  cases a.bits.getLsbD 12 <;> decide

/-- Setting `WRAPLINE` to what it already is changes nothing. -/
@[simp] theorem set_wrapline_contains (a : CellFlags) :
    a.set wrapline (a.contains wrapline) = a := by
  have hbit : wrapline.bits = BitVec.twoPow 16 12 := by decide
  obtain ⟨bits⟩ := a
  rw [contains_wrapline]
  cases h : bits.getLsbD 12 <;>
    simp only [set, union, remove, hbit, if_true, if_false, Bool.false_eq_true, mk.injEq]
  all_goals
    ext i hi
    by_cases h12 : i = 12
    · subst h12; simp_all [← BitVec.getLsbD_eq_getElem]
    · simp_all [← BitVec.getLsbD_eq_getElem, Ne.symm h12]

end CellFlags

/-! ## Cells -/

/-- No side-table entry: `u16::MAX`. -/
def noExtra : Nat := 65535

/-- One grid cell. `extra` indexes the side table of the owning row. -/
structure Cell where
  ch : Char
  fg : Color
  bg : Color
  flags : CellFlags
  extra : Nat
  deriving DecidableEq

namespace Cell

/-- `Cell::default()`. -/
def blank : Cell :=
  { ch := ' ', fg := .default, bg := .default, flags := .empty, extra := noExtra }

instance : Inhabited Cell := ⟨blank⟩

/-- A blank cell carrying `template`'s colours; of its attributes only
`INVERSE` survives. -/
def blankWith (template : Cell) : Cell :=
  { ch := ' ', fg := template.fg, bg := template.bg,
    flags := template.flags.inter .inverse, extra := noExtra }

/-- True if nothing would be painted for this cell but its background. -/
def isBlank (c : Cell) : Bool :=
  (c.ch == ' ' || c.ch == '\x00') && c.extra == noExtra &&
    !c.flags.intersects
      (CellFlags.underline.union (CellFlags.doubleUnderline.union
        (CellFlags.undercurl.union CellFlags.strikeout)))

/-- A trailing cell that `Row::trimmed_len` does not count. -/
def isPadding (c : Cell) : Bool := c.isBlank && c.bg == blank.bg

end Cell

end Zesterm
