/-
Zesterm.Core.HoldTheorems — a property of a grid, held on both screens.

Most of what a terminal does to a grid moves whole rows, counts them, or
moves the cursor. `Grid.Stable` lists those operations once, as what a
property of a grid has to survive. `TermState.Holds` says that the primary
screen has one such property and the alternate another; `holds_perform` that
every action of the parser keeps it, except the actions that edit the cells
of a row or destroy history, which each property answers for itself.

The style new cells are written in is data of the terminal and not of a
grid, and reaches a grid as the cell blanks are made from. A second
property, of that cell, goes along.
-/
import Zesterm.Core.CommandTheorems
import Zesterm.Core.OscTheorems

namespace Zesterm

/-- A property of a style that selecting another style keeps. -/
structure Cell.Selectable (T : Cell → Prop) : Prop where
  blank : T Cell.blank
  sgr : ∀ (n : Nat) (params : Params) {t : Cell}, T t → T (TermState.sgrLoop n params t)

namespace Grid

/-- A property of a grid that every operation on whole rows keeps. -/
structure Stable (T : Cell → Prop) (I : Grid → Prop) : Prop where
  cursor : ∀ {g : Grid} (c : Cursor), I g → I { g with cursor := c }
  region : ∀ {g : Grid} (r : ScrollRegion), I g → I { g with region := r }
  offset : ∀ {g : Grid} (n : Nat), I g → I { g with displayOffset := n }
  wrapped : ∀ {g : Grid} (row : Nat) (w : Bool), I g → I (g.setWrapped row w)
  eraseLine : ∀ {g : Grid} (row : Nat) (t : Cell), I g → I (g.eraseInRow row 0 (g.cols - 1) t)
  scrollUp : ∀ {g : Grid} (n : Nat) {t : Cell}, T t → I g → I (g.scrollUp n t)
  scrollDown : ∀ {g : Grid} (n : Nat) {t : Cell}, T t → I g → I (g.scrollDown n t)
  cancel : ∀ {g : Grid}, I g → I g.cancelRestateDebt
  endWindow : ∀ {g : Grid}, I g → I g.endRestatementWindow
  strand : ∀ {g : Grid} {t : Cell}, T t → I g → I (g.strandSettled t).1
  began : ∀ {g : Grid} (cols rows : Nat) {t : Cell}, T t → I g → I (g.noteRestatementBegan cols rows t)
  homed : ∀ {g : Grid} {t : Cell}, T t → I g → I (g.noteCursorHomedWhileHidden t)
  settle : ∀ {g : Grid}, g.restating = true → I g → I g.settleRestate.1

namespace Stable

variable {T : Cell → Prop} {I : Grid → Prop} (hI : Stable T I)
include hI

theorem insertLines {g : Grid} (n : Nat) {t : Cell} (ht : T t) (h : I g) : I (g.insertLines n t) := by
  unfold Grid.insertLines
  split
  · exact hI.region _ (hI.scrollDown n ht (hI.region _ h))
  · exact h

theorem deleteLines {g : Grid} (n : Nat) {t : Cell} (ht : T t) (h : I g) : I (g.deleteLines n t) := by
  unfold Grid.deleteLines
  split
  · exact hI.region _ (hI.scrollUp n ht (hI.region _ h))
  · exact h

theorem eraseLines (t : Cell) : ∀ (rows : List Nat) {g : Grid}, I g →
    I (rows.foldl (fun g row => g.eraseInRow row 0 (g.cols - 1) t) g)
  | [], _, h => h
  | row :: rows, _, h => eraseLines t rows (hI.eraseLine row t h)

theorem eraseRows {g : Grid} (first last : Nat) (t : Cell) (h : I g) : I (g.eraseRows first last t) :=
  hI.eraseLines t _ h

theorem clearAll {g : Grid} (t : Cell) (h : I g) : I (g.clearAll t) := by
  have hblank := hI.eraseLines t (List.range g.rows) h
  unfold Grid.clearAll
  dsimp only
  generalize (List.range g.rows).foldl (fun g row => g.eraseInRow row 0 (g.cols - 1) t) g = g₁ at hblank ⊢
  exact hI.cancel (hI.region (ScrollRegion.full g₁.rows) (hI.cursor {} hblank))

theorem scrollToLine {g : Grid} (line : LineId) (h : I g) : I (g.scrollToLine line).1 := by
  unfold Grid.scrollToLine
  split
  · exact h
  · exact hI.offset _ h

end Stable

end Grid

namespace TermState

/-! ## Both screens -/

/-- The primary screen has one property, the alternate another, and every
style in hand a third. -/
structure Holds (T : Cell → Prop) (I J : Grid → Prop) (s : TermState) : Prop where
  primary : I s.grid
  alt : ∀ g, s.altGrid = some g → J g
  template : T s.template
  saved : T s.savedCursor.template
  savedAlt : T s.savedCursorAlt.template

variable {T : Cell → Prop} {I J : Grid → Prop} {s : TermState}

namespace Holds

theorem of_frame {s' : TermState} (h : s.Holds T I J) (hg : s'.grid = s.grid) (ha : s'.altGrid = s.altGrid)
    (ht : s'.template = s.template) (hs : s'.savedCursor = s.savedCursor)
    (hsa : s'.savedCursorAlt = s.savedCursorAlt) : s'.Holds T I J :=
  ⟨hg ▸ h.primary, fun g hg' => h.alt g (ha ▸ hg'), ht ▸ h.template, hs ▸ h.saved, hsa ▸ h.savedAlt⟩

/-- An edit of the screen in use. -/
theorem modifyGrid (h : s.Holds T I J) {f : Grid → Grid} (hI : s.altGrid = none → I (f s.grid))
    (hJ : ∀ g, s.altGrid = some g → J (f g)) : (s.modifyGrid f).Holds T I J := by
  unfold TermState.modifyGrid
  split
  · next alt ha =>
    refine ⟨h.primary, fun g hg => ?_, h.template, h.saved, h.savedAlt⟩
    exact Option.some.inj hg ▸ hJ alt ha
  · next ha => exact ⟨hI ha, h.alt, h.template, h.saved, h.savedAlt⟩

theorem touch (h : s.Holds T I J) : s.touch.Holds T I J := h.of_frame rfl rfl rfl rfl rfl

theorem touchFull (h : s.Holds T I J) : s.touchFull.Holds T I J := h.of_frame rfl rfl rfl rfl rfl

theorem pushEvent (h : s.Holds T I J) (e : TermEvent) : (s.pushEvent e).Holds T I J :=
  h.of_frame rfl rfl rfl rfl rfl

theorem setModes (h : s.Holds T I J) (m : Modes) (on : Bool) : (s.setModes m on).Holds T I J :=
  h.of_frame rfl rfl rfl rfl rfl

theorem syncKittyModes (h : s.Holds T I J) : s.syncKittyModes.Holds T I J := by
  unfold TermState.syncKittyModes
  dsimp only
  split
  · exact h.of_frame rfl rfl rfl rfl rfl
  · exact h

theorem setKittyStack (h : s.Holds T I J) (stack : List (BitVec 8)) :
    (s.setKittyStack stack).syncKittyModes.Holds T I J := by
  refine syncKittyModes ?_
  unfold TermState.setKittyStack
  split
  · exact h.of_frame rfl rfl rfl rfl rfl
  · exact h.of_frame rfl rfl rfl rfl rfl

theorem saveCursor (h : s.Holds T I J) : s.saveCursor.Holds T I J := by
  unfold TermState.saveCursor
  dsimp only
  split
  · exact ⟨h.primary, h.alt, h.template, h.saved, h.template⟩
  · exact ⟨h.primary, h.alt, h.template, h.template, h.savedAlt⟩

theorem foldl {β : Type} (f : TermState → β → TermState)
    (hf : ∀ (s : TermState) b, s.Holds T I J → (f s b).Holds T I J) :
    ∀ (l : List β) {s : TermState}, s.Holds T I J → (l.foldl f s).Holds T I J
  | [], _, h => h
  | b :: l, s, h => foldl f hf l (hf s b h)

end Holds

/-! ## Drawing -/

section Drawing

variable (hI : Grid.Stable T I) (hJ : Grid.Stable T J) (h : s.Holds T I J)
variable (n : Nat)
include hI hJ h

/-- An operation on whole rows of the screen in use. -/
theorem Holds.op {f : Grid → Grid} (hf : ∀ {K : Grid → Prop}, Grid.Stable T K → ∀ g, K g → K (f g)) :
    (s.modifyGrid f).Holds T I J :=
  h.modifyGrid (fun _ => hf hI _ h.primary) fun g hg => hf hJ g (h.alt g hg)

theorem Holds.modifyCursor (f : Cursor → Cursor) : (s.modifyCursor f).Holds T I J :=
  h.op hI hJ fun hK _ hg => hK.cursor _ hg

theorem holds_settleRestate (hr : s.activeGrid.restating = true) : s.settleRestate.Holds T I J := by
  have hset : (s.modifyGrid fun g => g.settleRestate.1).Holds T I J := by
    refine h.modifyGrid (fun ha => ?_) fun g ha => ?_
    · rw [activeGrid, ha] at hr
      exact hI.settle hr h.primary
    · rw [activeGrid, ha] at hr
      exact hJ.settle hr (h.alt g ha)
  unfold settleRestate
  dsimp only
  split
  · exact (hset.pushEvent _).touchFull
  · exact hset

theorem holds_strandIfDiverged : s.strandIfDiverged.Holds T I J := by
  have hstrand := h.op hI hJ (f := fun g => (g.strandSettled s.template).1)
    fun hK _ hg => hK.strand h.template hg
  unfold strandIfDiverged
  split
  · exact h
  · dsimp only
    split
    · exact (hstrand.pushEvent _).touchFull
    · exact hstrand

/-- A move of the cursor, from where a settle that has diverged is ended. -/
theorem holds_moveCursor (f : Cursor → Cursor) :
    (s.strandIfDiverged.modifyCursor f).touch.Holds T I J :=
  ((holds_strandIfDiverged hI hJ h).modifyCursor hI hJ f).touch

omit hI hJ in
theorem holds_evictBlocks : s.evictBlocks.Holds T I J := by
  unfold evictBlocks
  dsimp only
  split
  · exact h.of_frame rfl rfl rfl rfl rfl
  · exact h

theorem holds_scrollUp :
    ((s.modifyGrid fun g => g.scrollUp n s.template).evictBlocks).touchFull.Holds T I J :=
  (holds_evictBlocks (h.op hI hJ fun hK _ hg => hK.scrollUp n h.template hg)).touchFull

theorem holds_linefeed : s.linefeed.Holds T I J := by
  have hstrand := holds_strandIfDiverged hI hJ h
  unfold linefeed
  dsimp only
  refine Holds.modifyCursor hI hJ ?_ _
  split
  · exact holds_scrollUp hI hJ hstrand 1
  · split
    · exact (hstrand.modifyCursor hI hJ _).touch
    · exact hstrand

theorem holds_wrapRow : s.wrapRow.Holds T I J := by
  have hset := h.op hI hJ (f := fun g => g.setWrapped s.activeGrid.cursor.row true)
    fun hK _ hg => hK.wrapped _ true hg
  unfold wrapRow
  exact (holds_linefeed hI hJ hset).modifyCursor hI hJ _

theorem holds_carriageReturn : s.carriageReturn.Holds T I J := holds_moveCursor hI hJ h _

theorem holds_backspace : s.backspace.Holds T I J := holds_moveCursor hI hJ h _

theorem holds_tab : (s.tab n).Holds T I J := holds_moveCursor hI hJ h _

theorem holds_backTab : (s.backTab n).Holds T I J := holds_moveCursor hI hJ h _

theorem holds_goto (row col : Nat) : (s.goto row col).Holds T I J := holds_moveCursor hI hJ h _

theorem holds_gotoAbsolute (row col : Nat) : (s.gotoAbsolute row col).Holds T I J :=
  holds_moveCursor hI hJ h _

theorem holds_moveUp : (s.moveUp n).Holds T I J := holds_moveCursor hI hJ h _

theorem holds_moveDown : (s.moveDown n).Holds T I J := holds_moveCursor hI hJ h _

theorem holds_moveLeft : (s.moveLeft n).Holds T I J := holds_moveCursor hI hJ h _

theorem holds_moveRight : (s.moveRight n).Holds T I J := holds_moveCursor hI hJ h _

theorem holds_restoreCursor : s.restoreCursor.Holds T I J := by
  unfold restoreCursor
  dsimp only
  refine (Holds.modifyCursor hI hJ (Holds.setModes ?_ _ _) _).touch
  refine ⟨h.primary, h.alt, ?_, h.saved, h.savedAlt⟩
  show T (if s.altGrid.isSome then s.savedCursorAlt else s.savedCursor).template
  split
  · exact h.savedAlt
  · exact h.saved

theorem holds_moveTo (row col : Nat) : (s.moveTo row col).Holds T I J := by
  unfold moveTo
  dsimp only
  refine holds_goto hI hJ ?_ _ _
  split
  · exact h.op hI hJ fun hK _ hg => hK.homed h.template hg
  · exact h

theorem holds_setScrollRegion (top bottom : Nat) : (s.setScrollRegion top bottom).Holds T I J :=
  (holds_goto hI hJ (h.op hI hJ fun hK _ hg => hK.region _ hg) 0 0).touchFull

theorem holds_reverseIndex : s.reverseIndex.Holds T I J := by
  have hstrand := holds_strandIfDiverged hI hJ h
  unfold reverseIndex
  dsimp only
  split
  · exact (hstrand.op hI hJ fun hK _ hg => hK.scrollDown 1 hstrand.template hg).touchFull
  · split
    · exact (hstrand.modifyCursor hI hJ _).touch
    · exact hstrand

theorem holds_setShowCursor (on : Bool) : (s.setShowCursor on).Holds T I J := by
  have hset := h.setModes .showCursor on
  unfold setShowCursor
  dsimp only
  split
  · next hr => exact holds_settleRestate hI hJ hset hr
  · exact hset.op hI hJ fun hK _ hg => hK.endWindow hg

end Drawing

/-! ## The dispatch -/

/-- The alternate screen as a terminal enters it has the property asked of
one. -/
def Enters (T : Cell → Prop) (J : Grid → Prop) : Prop :=
  ∀ (cols rows : Nat) (t : Cell) (yes : Bool), T t →
    J (((Grid.new cols rows 0).clearAll t).setViewportRestatedElsewhere yes)

theorem holds_setAltScreen (hE : Enters T J) (h : s.Holds T I J) (enable : Bool) :
    (s.setAltScreen enable).Holds T I J := by
  unfold setAltScreen
  split
  · exact h
  · dsimp only
    refine (Holds.syncKittyModes ?_).touchFull
    split
    · refine ⟨h.primary, fun g hg => ?_, h.template, h.saved, h.savedAlt⟩
      exact Option.some.inj hg ▸ hE _ _ _ _ h.template
    · exact ⟨h.primary, fun g hg => (nomatch hg), h.template, h.saved, h.savedAlt⟩

section Dispatch

variable (hT : Cell.Selectable T) (hI : Grid.Stable T I) (hJ : Grid.Stable T J) (hE : Enters T J)

include hI hJ hE in
theorem holds_setPrivateMode (h : s.Holds T I J) (enable : Bool) (mode : Nat) :
    (s.setPrivateMode enable mode).Holds T I J := by
  unfold setPrivateMode
  split
  · exact h.setModes _ _
  · exact holds_goto hI hJ (h.setModes _ _) 0 0
  · exact h.setModes _ _
  · exact holds_setShowCursor hI hJ h _
  · exact h.setModes _ _
  · exact h.setModes _ _
  · exact h.setModes _ _
  · exact h.setModes _ _
  · exact h.setModes _ _
  · exact h.setModes _ _
  · exact holds_setAltScreen hE h _
  · exact holds_setAltScreen hE h _
  · split
    · exact h.saveCursor
    · exact holds_restoreCursor hI hJ h
  · split
    · exact holds_setAltScreen hE h.saveCursor _
    · exact holds_restoreCursor hI hJ (holds_setAltScreen hE h _)
  · exact h.setModes _ _
  · exact (h.setModes _ _).pushEvent _
  · exact h.setModes _ _
  · exact h

include hI hJ hE in
theorem holds_setPrivateModes (h : s.Holds T I J) (params : Params) (enable : Bool) :
    (s.setPrivateModes params enable).Holds T I J :=
  (Holds.foldl _ (fun _ mode hs => holds_setPrivateMode hI hJ hE hs enable mode) _ h).touch

theorem holds_setAnsiModes (h : s.Holds T I J) (params : Params) (enable : Bool) :
    (s.setAnsiModes params enable).Holds T I J := by
  refine (Holds.foldl _ (fun s mode hs => ?_) _ h).touch
  unfold setAnsiMode
  split
  · exact hs.setModes _ _
  · exact hs.setModes _ _
  · exact hs

include hT hI hJ hE in
theorem holds_fullReset (h : s.Holds T I J) : s.fullReset.Holds T I J := by
  have hblank : ({ s with template := Cell.blank, modes := Modes.initial } : TermState).Holds T I J :=
    ⟨h.primary, h.alt, hT.blank, h.saved, h.savedAlt⟩
  unfold fullReset
  dsimp only
  generalize ({ s with template := Cell.blank, modes := Modes.initial } : TermState) = s₀ at hblank ⊢
  have hkitty : s₀.kittyReset.Holds T I J :=
    Holds.syncKittyModes (hblank.of_frame rfl rfl rfl rfl rfl)
  have hclear := (holds_setAltScreen hE hkitty false).op hI hJ (f := fun g => g.clearAll Cell.blank)
    fun hK _ hg => hK.clearAll _ hg
  refine Holds.touchFull ?_
  exact hclear.of_frame rfl rfl rfl rfl rfl

theorem holds_oscDispatch (h : s.Holds T I J) (params : List (List UInt8)) :
    (s.oscDispatch params).Holds T I J := by
  have hs := screens_oscDispatch s params
  exact h.of_frame (congrArg Screens.grid hs) (congrArg Screens.altGrid hs)
    (congrArg Screens.template hs) (congrArg Screens.savedCursor hs)
    (congrArg Screens.savedCursorAlt hs)

/-! ### Control characters and sequences -/

include hI hJ in
theorem holds_execute (h : s.Holds T I J) (byte : UInt8) : (s.execute byte).Holds T I J := by
  unfold execute
  split
  · exact (h.pushEvent _).pushEvent _
  · exact holds_backspace hI hJ h
  · exact holds_tab hI hJ h _
  · exact holds_carriageReturn hI hJ h
  · split
    · dsimp only
      split
      · exact holds_carriageReturn hI hJ (holds_linefeed hI hJ h)
      · exact holds_linefeed hI hJ h
    · exact h

theorem holds_keyboardDispatch (hI : Grid.Stable T I) (hJ : Grid.Stable T J) (h : s.Holds T I J)
    (params : Params) (inter : Option Nat) : (s.keyboardDispatch params inter).Holds T I J := by
  unfold keyboardDispatch
  split
  · exact h.pushEvent _
  · exact h.setKittyStack _
  · exact h.setKittyStack _
  · exact h.setKittyStack _
  · exact h
  · exact holds_restoreCursor hI hJ h

end Dispatch

end TermState

/-- Whether an action edits the cells of a row, or destroys history: a
character, an erase, an insertion or a deletion of cells, DECALN. -/
def Action.edits : Action → Bool
  | .print _ => true
  | .csi _ _ _ c => ['J', 'K', 'X', '@', 'P'].contains c
  | .esc _ _ byte => byte.toNat == 0x38
  | _ => false

namespace TermState

variable {T : Cell → Prop} {I J : Grid → Prop} {s : TermState}

section Dispatch

variable (hT : Cell.Selectable T) (hI : Grid.Stable T I) (hJ : Grid.Stable T J) (hE : Enters T J)
include hT hI hJ hE

theorem holds_csiDispatch (h : s.Holds T I J) (params : Params) (intermediates : List UInt8)
    (ignore : Bool) (c : Char) (hc : ['J', 'K', 'X', '@', 'P'].contains c = false) :
    (s.csiDispatch params intermediates ignore c).Holds T I J := by
  have hedit (c : Char) (hc : c ∈ ['J', 'K', 'X', '@', 'P'])
      (h : ['J', 'K', 'X', '@', 'P'].contains c = false) : False := by
    rw [List.contains_iff_mem.mpr hc] at h
    exact absurd h (by decide)
  unfold csiDispatch
  dsimp only
  split
  · exact h
  split
  · exact holds_moveUp hI hJ h _
  · exact holds_moveDown hI hJ h _
  · exact holds_moveDown hI hJ h _
  · exact holds_moveRight hI hJ h _
  · exact holds_moveRight hI hJ h _
  · exact holds_moveLeft hI hJ h _
  · exact holds_carriageReturn hI hJ (holds_moveDown hI hJ h _)
  · exact holds_carriageReturn hI hJ (holds_moveUp hI hJ h _)
  · exact holds_gotoAbsolute hI hJ h _ _
  · exact holds_gotoAbsolute hI hJ h _ _
  · exact holds_goto hI hJ h _ _
  · exact holds_moveTo hI hJ h _ _
  · exact holds_moveTo hI hJ h _ _
  · exact holds_tab hI hJ h _
  · exact holds_backTab hI hJ h _
  · exact (hedit _ (by simp) hc).elim
  · exact (hedit _ (by simp) hc).elim
  · exact (hedit _ (by simp) hc).elim
  · exact (hedit _ (by simp) hc).elim
  · exact (hedit _ (by simp) hc).elim
  · exact (h.op hI hJ fun hK _ hg => hK.insertLines _ h.template hg).touchFull
  · exact (h.op hI hJ fun hK _ hg => hK.deleteLines _ h.template hg).touchFull
  · exact holds_scrollUp hI hJ h _
  · exact (h.op hI hJ fun hK _ hg => hK.scrollDown _ h.template hg).touchFull
  · split
    · exact h.op hI hJ fun hK _ hg => hK.began _ _ h.template hg
    · exact h
  · split
    · exact holds_setPrivateModes hI hJ hE h _ _
    · exact holds_setAnsiModes h _ _
  · split
    · exact holds_setPrivateModes hI hJ hE h _ _
    · exact holds_setAnsiModes h _ _
  · split
    · exact ⟨h.primary, h.alt, hT.sgr _ _ h.template, h.saved, h.savedAlt⟩
    · exact h
  · split
    · exact h.of_frame rfl rfl rfl rfl rfl
    · exact h
  · split
    · exact h
    · exact holds_setScrollRegion hI hJ h _ _
  · split
    · exact h.of_frame rfl rfl rfl rfl rfl
    · exact h.of_frame rfl rfl rfl rfl rfl
    · exact h
  · exact h.pushEvent _
  · split
    · exact h.pushEvent _
    · exact h.pushEvent _
    · exact h
  · exact h.saveCursor
  · exact holds_keyboardDispatch hI hJ h _ _
  · exact h

theorem holds_escDispatch (h : s.Holds T I J) (intermediates : List UInt8) (byte : UInt8)
    (hb : byte.toNat ≠ 0x38) : (s.escDispatch intermediates byte).Holds T I J := by
  unfold escDispatch
  dsimp only
  split
  · exact h.saveCursor
  · next heq => exact absurd heq hb
  · exact holds_linefeed hI hJ h
  · exact holds_carriageReturn hI hJ (holds_linefeed hI hJ h)
  · exact holds_reverseIndex hI hJ h
  · exact h.of_frame rfl rfl rfl rfl rfl
  · exact holds_fullReset hT hI hJ hE h
  · exact h

/-- Every action but the edits keeps what the two screens hold. -/
theorem holds_perform (vt : Vt) (h : s.Holds T I J) (a : Action) (ha : a.edits = false) :
    (s.perform vt a).Holds T I J := by
  cases a with
  | print ch => simp [Action.edits] at ha
  | execute byte => exact holds_execute hI hJ h byte
  | csi params intermediates ignore c =>
    exact holds_csiDispatch hT hI hJ hE h params intermediates ignore c ha
  | esc intermediates ignore byte =>
    exact holds_escDispatch hT hI hJ hE h intermediates byte (by simpa [Action.edits] using ha)
  | osc params bell => exact holds_oscDispatch h params

end Dispatch

/-! ## Runs -/

/-- A list of actions each of which meets a condition on the state it is
performed in. -/
def Performs (vt : Vt) (P : TermState → Action → Prop) : TermState → List Action → Prop
  | _, [] => True
  | s, a :: actions => P s a ∧ Performs vt P (s.perform vt a) actions

instance decidablePerforms (vt : Vt) (P : TermState → Action → Prop) [∀ s a, Decidable (P s a)] :
    ∀ (actions : List Action) (s : TermState), Decidable (Performs vt P s actions)
  | [], _ => isTrue trivial
  | a :: actions, s =>
    have := decidablePerforms vt P actions (s.perform vt a)
    inferInstanceAs (Decidable (P s a ∧ Performs vt P (s.perform vt a) actions))

/-- What every action that meets its condition keeps, a list of them
keeps. -/
theorem Performs.keeps {vt : Vt} {P : TermState → Action → Prop} {Q : TermState → Prop}
    (hstep : ∀ s a, P s a → Q s → Q (s.perform vt a)) (actions : List Action) {s : TermState}
    (h : Performs vt P s actions) (hs : Q s) : Q (actions.foldl (perform vt) s) := by
  induction actions generalizing s with
  | nil => exact hs
  | cons a actions ih => exact ih h.2 (hstep s a h.1 hs)

end TermState

namespace Terminal

variable {vt : Vt} {T : Cell → Prop} {I J : Grid → Prop} {t : Terminal vt}

/-- A call that neither feeds output nor resizes. -/
theorem holds_call (hI : Grid.Stable T I) (hJ : Grid.Stable T J) (h : t.state.Holds T I J) (c : Call)
    (hc : c.isQuiet = true) : (t.call c).state.Holds T I J := by
  cases c with
  | advance | resize | setBlockContext | setPtyRestatesViewport => simp [Call.isQuiet] at hc
  | setNowMs | setInputAuthor | setDefaultCursorStyle | setPalette | takeEvents | takeDamage =>
    exact h.of_frame rfl rfl rfl rfl rfl
  | scrollDisplay | scrollToBottom =>
    exact (h.op hI hJ fun hK _ hg => hK.offset _ hg).of_frame rfl rfl rfl rfl rfl
  | scrollToLine line =>
    unfold call scrollToLine
    dsimp only
    split
    · exact h
    · have hline := hI.scrollToLine line h.primary
      split
      · exact ⟨hline, h.alt, h.template, h.saved, h.savedAlt⟩
      · exact ⟨hline, h.alt, h.template, h.saved, h.savedAlt⟩

end Terminal

end Zesterm
