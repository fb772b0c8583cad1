/-
Zesterm.Core.OscTheorems — commands to the operating system draw nothing.

An OSC sets a title, a colour, a working directory, a block; none touches a
screen, a mode, the style in hand or anything saved. `screens` is that part
of the state, and `screens_oscDispatch` says it stays. What is a function of
it (the keyboard flags in force, a property of both grids, the place of the
cursor) stays with it.
-/
import Zesterm.Core.Perform

namespace Zesterm

namespace TermState

/-- Both screens and everything that decides how they are drawn on. -/
structure Screens where
  grid : Grid
  altGrid : Option Grid
  template : Cell
  modes : Modes
  savedCursor : SavedCursor
  savedCursorAlt : SavedCursor
  kittyStack : List (BitVec 8)
  kittyStackAlt : List (BitVec 8)

def screens (s : TermState) : Screens :=
  ⟨s.grid, s.altGrid, s.template, s.modes, s.savedCursor, s.savedCursorAlt, s.kittyStack,
    s.kittyStackAlt⟩

variable (s : TermState)
variable (params : List (List UInt8))

theorem screens_oscMarker (kind : UInt8) : (s.oscMarker params kind).screens = s.screens := by
  unfold oscMarker blockPromptStart blockPromptEnd blockOutputStart blockFinish
  split
  · split <;> rfl
  · split
    · split <;> rfl
    · split
      · split <;> rfl
      · split
        · split <;> rfl
        · rfl

theorem screens_setCwd (host : Option Str) (path : Str) : (s.setCwd host path).screens = s.screens := by
  unfold setCwd
  split <;> rfl

theorem screens_setShellFact (key value : Str) : (s.setShellFact key value).screens = s.screens := by
  unfold setShellFact
  split
  · rfl
  · dsimp only
    split
    · split <;> rfl
    · split <;> rfl

theorem screens_oscVscode : (s.oscVscode params).screens = s.screens := by
  unfold oscVscode
  split
  · rfl
  · split
    · split <;> rfl
    · split
      · split
        · split
          · exact screens_setCwd s _ _
          · split
            · exact screens_setShellFact s _ _
            · rfl
        · rfl
      · exact screens_oscMarker s _ _

theorem screens_oscCwd : (s.oscCwd params).screens = s.screens := by
  unfold oscCwd
  split
  · rfl
  · split
    · exact screens_setCwd s _ _
    · split
      · exact screens_setCwd s _ _
      · exact screens_setCwd s _ _

theorem screens_oscPalette : (s.oscPalette params).screens = s.screens := by
  fun_induction oscPalette s params with
  | case1 s index spec rest spec' s' ih =>
    rw [ih]
    dsimp only [s']
    split
    · rfl
    · split
      · rfl
      · split <;> rfl
  | case2 => rfl

theorem screens_oscDynamicColor (code : Nat) (params : List (List UInt8)) :
    (s.oscDynamicColor code params).screens = s.screens := by
  unfold oscDynamicColor
  dsimp only
  split
  · rfl
  · split <;> rfl

theorem screens_oscProgress : (s.oscProgress params).screens = s.screens := by
  unfold oscProgress
  dsimp only
  generalize (_ || _ : Bool) = raises
  cases raises <;> rfl

/-- No command to the operating system touches the screens. -/
theorem screens_oscDispatch : (s.oscDispatch params).screens = s.screens := by
  unfold oscDispatch
  split
  · unfold oscTitle; split <;> rfl
  · unfold oscTitle; split <;> rfl
  · exact screens_oscPalette s _
  · exact screens_oscCwd s _
  · unfold oscHyperlink; dsimp only; split <;> rfl
  · split
    · exact screens_oscProgress s _
    · rfl
  · exact screens_oscDynamicColor s _ _
  · exact screens_oscDynamicColor s _ _
  · exact screens_oscDynamicColor s _ _
  · rfl
  · rfl
  · rfl
  · rfl
  · unfold oscPrompt
    split
    · rfl
    · exact screens_oscMarker s _ _
  · exact screens_oscVscode s _
  · split <;> rfl
  · rfl

end TermState

end Zesterm
