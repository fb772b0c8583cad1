/-
Zesterm.Core.Palette — the live colour palette of `zest-core`'s
`palette.rs`.

A table of 256 colours is a function of its index. The seed is the
theme's and the live copy is what escape sequences change; a reset
restores the seed.
-/
import Zesterm.Core.Text

namespace Zesterm

/-- The resolved palette a session is using. -/
structure PaletteSnapshot where
  colors : UInt8 → Rgb
  foreground : Rgb
  background : Rgb
  cursor : Rgb

namespace PaletteSnapshot

/-- The level ramp of the 6x6x6 cube. -/
def levels : List UInt8 := [0, 95, 135, 175, 215, 255]

/-- Fill indices 16..=255 with the standard cube and grayscale ramp. -/
def fillStandardExtended (p : PaletteSnapshot) : PaletteSnapshot :=
  { p with colors := fun i =>
      let n := i.toNat
      if n < 16 then p.colors i
      else if n < 232 then
        let level (k : Nat) : UInt8 := levels.getD k 0
        ⟨level ((n - 16) / 36), level ((n - 16) / 6 % 6), level ((n - 16) % 6)⟩
      else
        let v := UInt8.ofNat (8 + (n - 232) * 10)
        ⟨v, v, v⟩ }

/-- The palette a terminal starts from. -/
def initial : PaletteSnapshot :=
  { colors := fun _ => ⟨0, 0, 0⟩
    foreground := ⟨0xd7, 0xdc, 0xea⟩
    background := ⟨0x0b, 0x0f, 0x1a⟩
    cursor := ⟨0x6e, 0xa8, 0xff⟩ : PaletteSnapshot }.fillStandardExtended

end PaletteSnapshot

/-- The live palette against the seed. -/
structure Palette where
  live : PaletteSnapshot
  seed : PaletteSnapshot

namespace Palette

def new (seed : PaletteSnapshot) : Palette := { live := seed, seed := seed }

def reseed (_ : Palette) (seed : PaletteSnapshot) : Palette := new seed

/-- `OSC 4 ; n ; #rrggbb`. -/
def setIndexed (p : Palette) (index : UInt8) (color : Rgb) : Palette :=
  { p with live := { p.live with colors := fun i => if i = index then color else p.live.colors i } }

/-- `OSC 104`, of one index or of all of them. -/
def resetIndexed (p : Palette) : Option UInt8 → Palette
  | some i => p.setIndexed i (p.seed.colors i)
  | none => { p with live := { p.live with colors := p.seed.colors } }

def setForeground (p : Palette) (c : Rgb) : Palette :=
  { p with live := { p.live with foreground := c } }

def resetForeground (p : Palette) : Palette := p.setForeground p.seed.foreground

def setBackground (p : Palette) (c : Rgb) : Palette :=
  { p with live := { p.live with background := c } }

def resetBackground (p : Palette) : Palette := p.setBackground p.seed.background

def setCursor (p : Palette) (c : Rgb) : Palette := { p with live := { p.live with cursor := c } }

def resetCursor (p : Palette) : Palette := p.setCursor p.seed.cursor

end Palette

end Zesterm
