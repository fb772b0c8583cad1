/-
Zesterm.Core.TermTheorems — the operations of a terminal that only draw.

Nearly everything a program can send does no more than draw on the screen
that is live: that screen evolves in the sense of `Grid.Evolves`, the
other screen and the blocks stay as they are, and the mode word goes on
telling the truth about which screen it is. `TermState.Draws` says so, is
a preorder, and has one lemma an operation. The operations that do more
are the subject of `PerformTheorems`.
-/
import Zesterm.Core.GridTheorems
import Zesterm.Core.Perform

namespace Zesterm

namespace TermState

/-! ## Reading a state after a small edit -/

section Frame

variable (s : TermState) (f : Grid → Grid)

@[simp] theorem blocks_modifyGrid : (s.modifyGrid f).blocks = s.blocks := by
  unfold modifyGrid; split <;> rfl

@[simp] theorem modes_modifyGrid : (s.modifyGrid f).modes = s.modes := by
  unfold modifyGrid; split <;> rfl

@[simp] theorem activeGrid_modifyGrid : (s.modifyGrid f).activeGrid = f s.activeGrid := by
  unfold modifyGrid activeGrid
  split
  · next h => simp [h]
  · next h => simp [h]

@[simp] theorem isSome_altGrid_modifyGrid :
    (s.modifyGrid f).altGrid.isSome = s.altGrid.isSome := by
  unfold modifyGrid
  split
  · next h => simp [h]
  · next h => simp [h]

theorem grid_modifyGrid (h : s.altGrid.isSome) : (s.modifyGrid f).grid = s.grid := by
  unfold modifyGrid
  split
  · rfl
  · next hn => simp [hn] at h

end Frame

/-- The mode word's screen bit is the truth about which screen is live. -/
def AltFlag (s : TermState) : Prop := s.modes.contains .altScreen = s.altGrid.isSome

/-! ## Drawing -/

/-- `s'` is `s` after drawing on the screen that is live. -/
structure Draws (s s' : TermState) : Prop where
  active : s.activeGrid.Evolves s'.activeGrid
  isAlt : s'.altGrid.isSome = s.altGrid.isSome
  primary : s.altGrid.isSome → s'.grid = s.grid
  blocks : s'.blocks = s.blocks
  flag : s.AltFlag → s'.AltFlag

namespace Draws

variable (s : TermState)

theorem refl : s.Draws s :=
  ⟨Grid.Evolves.refl _, rfl, fun _ => rfl, rfl, id⟩

theorem trans {s s' s'' : TermState} (h : s.Draws s') (h' : s'.Draws s'') : s.Draws s'' :=
  ⟨h.active.trans h'.active, h'.isAlt.trans h.isAlt,
    fun ha => (h'.primary (h.isAlt ▸ ha)).trans (h.primary ha),
    h'.blocks.trans h.blocks, fun hf => h'.flag (h.flag hf)⟩

/-- Nothing but bookkeeping changed. -/
theorem of_frame {s s' : TermState} (hg : s'.grid = s.grid) (ha : s'.altGrid = s.altGrid)
    (hb : s'.blocks = s.blocks)
    (hm : s'.modes.contains .altScreen = s.modes.contains .altScreen) : s.Draws s' := by
  refine ⟨?_, by rw [ha], fun _ => hg, hb, fun hf => ?_⟩
  · simp only [activeGrid, hg, ha]
    exact Grid.Evolves.refl _
  · exact hm.trans (hf.trans (by rw [ha]))

theorem modifyGrid (f : Grid → Grid) (hf : s.activeGrid.Evolves (f s.activeGrid)) :
    s.Draws (s.modifyGrid f) :=
  ⟨by simpa using hf, by simp, fun h => grid_modifyGrid s f h, by simp, fun h => by
    unfold AltFlag at h ⊢; simpa using h⟩

theorem ite {s a b : TermState} {c : Prop} [Decidable c] (ha : s.Draws a) (hb : s.Draws b) :
    s.Draws (if c then a else b) := by
  split
  · exact ha
  · exact hb

/-- A move of the cursor after anything else; it has to end inside the
screen. -/
theorem cursor {s s' : TermState} (h : s.Draws s') (f : Cursor → Cursor)
    (hf : s.activeGrid.Shape → s.activeGrid.Within →
      (f s'.activeGrid.cursor).row < s.activeGrid.rows ∧
        (f s'.activeGrid.cursor).col < s.activeGrid.cols) : s.Draws (s'.modifyCursor f) := by
  refine ⟨?_, ?_, fun ha => ?_, ?_, fun hs => ?_⟩
  · rw [TermState.modifyCursor, activeGrid_modifyGrid]
    exact h.active.cursor _ hf
  · rw [TermState.modifyCursor, isSome_altGrid_modifyGrid, h.isAlt]
  · rw [TermState.modifyCursor, grid_modifyGrid _ _ (h.isAlt ▸ ha), h.primary ha]
  · rw [TermState.modifyCursor, blocks_modifyGrid, h.blocks]
  · have := h.flag hs
    unfold AltFlag at this ⊢
    simpa [TermState.modifyCursor] using this

theorem modifyCursor (f : Cursor → Cursor)
    (hf : s.activeGrid.Shape → s.activeGrid.Within →
      (f s.activeGrid.cursor).row < s.activeGrid.rows ∧
        (f s.activeGrid.cursor).col < s.activeGrid.cols) : s.Draws (s.modifyCursor f) :=
  cursor (refl s) f hf

theorem touch : s.Draws s.touch := of_frame rfl rfl rfl rfl

theorem touchFull : s.Draws s.touchFull := of_frame rfl rfl rfl rfl

theorem pushEvent (e : TermEvent) : s.Draws (s.pushEvent e) :=
  of_frame rfl rfl rfl rfl

theorem foldl {β : Type} (f : TermState → β → TermState)
    (hf : ∀ (s : TermState) b, s.Draws (f s b)) :
    ∀ (l : List β) (s : TermState), s.Draws (l.foldl f s)
  | [], s => refl s
  | b :: l, s => (hf s b).trans (foldl f hf l (f s b))

end Draws

/-! ## Bits of the mode word -/

section Bits

variable {b : Modes} {i : Nat} (hi : i < 16) (hb : b.bits = BitVec.twoPow 32 i)
include hi hb

/-- Holding a mode is a fact about its bit. -/
theorem contains_bit (m : Modes) : m.contains b = m.bits.getLsbD i := by
  have hne : BitVec.twoPow 32 i ≠ 0#32 := by
    intro h
    have hbit := congrArg (fun x => x.getLsbD i) h
    simp [BitVec.getLsbD_twoPow] at hbit
    omega
  unfold Modes.contains
  rw [hb, BitVec.and_twoPow]
  cases m.bits.getLsbD i with
  | true => simp
  | false => simpa using hne.symm

/-- Setting any other mode leaves it. -/
theorem contains_set_bit (modes m : Modes) (on : Bool) (h : m.bits.getLsbD i = false) :
    (modes.set m on).contains b = modes.contains b := by
  rw [contains_bit hi hb, contains_bit hi hb]
  cases on with
  | true =>
    simp only [Modes.set, Modes.union, if_true, BitVec.getLsbD_or, h, Bool.or_false]
  | false =>
    simp only [Modes.set, Modes.remove, Bool.false_eq_true, if_false, BitVec.getLsbD_and,
      BitVec.getLsbD_not, h]
    simp
    omega

/-- The keyboard flags live beside it. -/
theorem contains_withKittyFlags_bit (hall : Modes.all.bits.getLsbD i = true) (m : Modes)
    (flags : BitVec 8) : (m.withKittyFlags flags).contains b = m.contains b := by
  have hshift (w : BitVec 32) : (w <<< Modes.kittyShift).getLsbD i = false := by
    rw [BitVec.getLsbD_shiftLeft]
    simp [Modes.kittyShift, hi]
  rw [contains_bit hi hb, contains_bit hi hb]
  simp only [Modes.withKittyFlags, Modes.fromBitsTruncate, BitVec.getLsbD_and, BitVec.getLsbD_or,
    BitVec.getLsbD_not, hall, hshift, Bool.not_false, Bool.and_true, Bool.or_false]
  simp
  omega

end Bits

variable (s : TermState)
variable (n : Nat)

theorem contains_altScreen (m : Modes) : m.contains .altScreen = m.bits.getLsbD 7 :=
  contains_bit (by decide) (by decide) m

theorem contains_altScreen_set (modes m : Modes) (on : Bool) (h : m.bits.getLsbD 7 = false) :
    (modes.set m on).contains .altScreen = modes.contains .altScreen :=
  contains_set_bit (by decide) (by decide) modes m on h

/-- Setting any mode but the screen's draws nothing. -/
theorem Draws.setModes (m : Modes) (on : Bool) (h : m.bits.getLsbD 7 = false) :
    s.Draws (s.setModes m on) :=
  Draws.of_frame rfl rfl rfl (contains_altScreen_set s.modes m on h)

theorem contains_withKittyFlags (m : Modes) (flags : BitVec 8) :
    (m.withKittyFlags flags).contains .altScreen = m.contains .altScreen :=
  contains_withKittyFlags_bit (i := 7) (by decide) (by decide) (by decide) m flags

/-! ## The restating pty -/

theorem draws_settleRestate : s.Draws s.settleRestate := by
  have h := Draws.modifyGrid s (fun g => g.settleRestate.1) (Grid.evolves_settleRestate _)
  unfold settleRestate
  dsimp only
  split
  · exact (h.trans (Draws.pushEvent _ _)).trans (Draws.touchFull _)
  · exact h

theorem draws_strandIfDiverged : s.Draws s.strandIfDiverged := by
  have h := Draws.modifyGrid s (fun g => (g.strandSettled s.template).1)
    (Grid.evolves_strandSettled _ _)
  unfold strandIfDiverged
  split
  · exact Draws.refl s
  · dsimp only
    split
    · exact (h.trans (Draws.pushEvent _ _)).trans (Draws.touchFull _)
    · exact h

/-- A move of the cursor that first ends a restore. -/
theorem draws_moveCursor (f : Cursor → Cursor)
    (hf : s.strandIfDiverged.activeGrid.Shape → s.strandIfDiverged.activeGrid.Within →
      (f s.strandIfDiverged.activeGrid.cursor).row < s.strandIfDiverged.activeGrid.rows ∧
        (f s.strandIfDiverged.activeGrid.cursor).col < s.strandIfDiverged.activeGrid.cols) :
    s.Draws (s.strandIfDiverged.modifyCursor f).touch :=
  ((draws_strandIfDiverged s).trans (Draws.modifyCursor _ _ hf)).trans (Draws.touch _)

/-! ## Moving -/

theorem draws_carriageReturn : s.Draws s.carriageReturn :=
  draws_moveCursor s _ fun hs hw => ⟨hw.row, hs.cols_pos⟩

theorem draws_backspace : s.Draws s.backspace :=
  draws_moveCursor s _ fun _ hw => ⟨hw.row, (Nat.sub_le _ _).trans_lt hw.col⟩

/-- A tab stops inside the line. -/
theorem nextTab_lt {cols : Nat} (hc : 0 < cols) (col : Nat) : s.nextTab cols col < cols := by
  unfold nextTab
  cases hf : (List.range' (col + 1) (cols - (col + 1))).find? fun c => s.tabs.getD c false with
  | none => exact Nat.sub_lt hc Nat.one_pos
  | some c =>
    obtain ⟨hlo, hhi⟩ := List.mem_range'_1.mp (List.mem_of_find?_eq_some hf)
    show c < cols
    omega

theorem prevTab_le (col : Nat) : s.prevTab col ≤ col := by
  unfold prevTab
  cases hf : (List.range col).reverse.find? fun c => s.tabs.getD c false with
  | none => exact Nat.zero_le _
  | some c =>
    have := List.mem_range.mp (List.mem_reverse.mp (List.mem_of_find?_eq_some hf))
    exact this.le

theorem draws_tab : s.Draws (s.tab n) :=
  draws_moveCursor s _ fun hs hw => by
    refine ⟨hw.row, ?_⟩
    have hpos : max n 1 = max n 1 - 1 + 1 := by omega
    dsimp only
    rw [hpos, Function.iterate_succ_apply']
    exact nextTab_lt _ hs.cols_pos _

theorem draws_backTab : s.Draws (s.backTab n) :=
  draws_moveCursor s _ fun _ hw => by
    refine ⟨hw.row, lt_of_le_of_lt ?_ hw.col⟩
    exact Function.iterate_le_id_of_le_id (fun col => prevTab_le _ col) (max n 1) _

theorem draws_goto (row col : Nat) : s.Draws (s.goto row col) :=
  draws_moveCursor s _ fun hs hw => by
    have hrows := hs.rows_pos
    have hcols := hs.cols_pos
    have htop := hw.ordered.trans_lt hw.bottom
    have hbottom := hw.bottom
    dsimp only
    refine ⟨?_, by omega⟩
    split <;> omega

/-- The row is the one the cursor was on before the restore ended. -/
theorem draws_gotoAbsolute (row col : Nat) (hrow : s.activeGrid.Within → row < s.activeGrid.rows) :
    s.Draws (s.gotoAbsolute row col) := by
  have h := draws_strandIfDiverged s
  refine (h.cursor _ fun hs hw => ⟨hrow hw, ?_⟩).trans (Draws.touch _)
  have hcols := hs.cols_pos
  dsimp only
  rw [h.active.cols]
  omega

theorem draws_moveUp : s.Draws (s.moveUp n) :=
  draws_moveCursor s _ fun _ hw => by
    have hrow := hw.row
    have htop := hw.ordered.trans_lt hw.bottom
    refine ⟨?_, hw.col⟩
    dsimp only
    split <;> omega

theorem draws_moveDown : s.Draws (s.moveDown n) :=
  draws_moveCursor s _ fun hs hw => by
    have hrows := hs.rows_pos
    have hbottom := hw.bottom
    refine ⟨?_, hw.col⟩
    dsimp only
    split <;> omega

theorem draws_moveLeft : s.Draws (s.moveLeft n) :=
  draws_moveCursor s _ fun _ hw => ⟨hw.row, (Nat.sub_le _ _).trans_lt hw.col⟩

theorem draws_moveRight : s.Draws (s.moveRight n) :=
  draws_moveCursor s _ fun hs hw => ⟨hw.row, (Nat.min_le_right _ _).trans_lt
    (Nat.sub_lt hs.cols_pos Nat.one_pos)⟩

theorem draws_saveCursor : s.Draws s.saveCursor := by
  unfold saveCursor
  dsimp only
  split <;> exact Draws.of_frame rfl rfl rfl rfl

theorem draws_restoreCursor : s.Draws s.restoreCursor := by
  have h (t : Cell) (on : Bool) : s.Draws ({ s with template := t }.setModes .origin on) :=
    (Draws.of_frame rfl rfl rfl rfl : s.Draws { s with template := t }).trans
      (Draws.setModes _ _ _ (by decide))
  exact ((h _ _).trans (Draws.modifyCursor _ _ fun hs _ =>
    ⟨(Nat.min_le_right _ _).trans_lt (Nat.sub_lt hs.rows_pos Nat.one_pos),
      (Nat.min_le_right _ _).trans_lt (Nat.sub_lt hs.cols_pos Nat.one_pos)⟩)).trans (Draws.touch _)

theorem draws_moveTo (row col : Nat) : s.Draws (s.moveTo row col) := by
  unfold moveTo
  dsimp only
  split
  · exact (Draws.modifyGrid s _ (Grid.evolves_noteCursorHomedWhileHidden _ _)).trans
      (draws_goto _ _ _)
  · exact draws_goto _ _ _

theorem draws_setScrollRegion (top bottom : Nat) : s.Draws (s.setScrollRegion top bottom) := by
  refine ((Draws.modifyGrid s _ (Grid.evolves_region _ _ fun hs _ => ?_)).trans
    (draws_goto _ _ _)).trans (Draws.touchFull _)
  split
  · next h => exact ⟨h.1.le, h.2⟩
  · exact ⟨Nat.zero_le _, Nat.sub_lt hs.rows_pos Nat.one_pos⟩

theorem draws_reverseIndex : s.Draws s.reverseIndex := by
  have h := draws_strandIfDiverged s
  unfold reverseIndex
  dsimp only
  split
  · exact (h.trans (Draws.modifyGrid _ _ (Grid.evolves_scrollDown _ _ _))).trans
      (Draws.touchFull _)
  · split
    · exact (h.trans (Draws.modifyCursor _ _ fun _ hw =>
        ⟨(Nat.sub_le _ _).trans_lt hw.row, hw.col⟩)).trans (Draws.touch _)
    · exact h

/-! ## Erasing and editing -/

theorem draws_eraseInRow (row start stop : Nat) : s.Draws (s.eraseInRow row start stop) :=
  Draws.modifyGrid s _ (Grid.evolves_eraseInRow _ _ _ _ _)

theorem draws_eraseRows (first last : Nat) : s.Draws (s.eraseRows first last) :=
  Draws.modifyGrid s _ (Grid.evolves_eraseRows _ _ _ _)

theorem draws_eraseInLine (mode : Nat) : s.Draws (s.eraseInLine mode) := by
  have h := draws_strandIfDiverged s
  unfold eraseInLine
  dsimp only
  split <;> first
    | exact (h.trans (draws_eraseInRow _ _ _ _)).trans (Draws.touch _)
    | exact h.trans (Draws.touch _)

theorem draws_eraseChars : s.Draws (s.eraseChars n) :=
  ((draws_strandIfDiverged s).trans (draws_eraseInRow _ _ _ _)).trans (Draws.touch _)

theorem draws_decaln : s.Draws s.decaln := by
  refine (Draws.foldl _ (fun s row => Draws.modifyGrid s _ ?_) _ s).trans (Draws.touchFull _)
  exact Grid.evolves_modifyRow _ _ _ (fun _ => rfl) (fun r => by simp)

theorem draws_writeMark (ch : Char) : s.Draws (s.writeMark ch) := by
  unfold writeMark
  dsimp only
  split
  · exact (Draws.modifyGrid s _ (Grid.evolves_modifyRow _ _ _ (fun r => by simp)
      (fun r => by simp))).trans (Draws.touch _)
  · exact Draws.refl s

theorem draws_putChar (ch : Char) (width : Nat) : s.Draws (s.putChar ch width) := by
  have hset (s : TermState) (row col : Nat) (c : Cell) :
      s.Draws (s.modifyGrid fun g => g.setCell row col c) :=
    Draws.modifyGrid s _ (Grid.evolves_setCell _ _ _ _)
  have hins : s.Draws (if s.modes.contains .insert then
      s.modifyGrid fun g => g.insertCells width s.template else s) :=
    Draws.ite (Draws.modifyGrid s _ (Grid.evolves_insertCells _ _ _)) (Draws.refl s)
  unfold putChar
  dsimp only
  generalize (if s.modes.contains .insert then
    s.modifyGrid fun g => g.insertCells width s.template else s) = s₁ at hins ⊢
  have hcols : s₁.activeGrid.cols = s.activeGrid.cols := hins.active.cols
  have hwrote : s.Draws (if width = 2 then
      (s₁.modifyGrid fun g => g.setCell s₁.activeGrid.cursor.row s₁.activeGrid.cursor.col
        { s.template with
          ch := ch
          flags := if width = 2 then s.template.flags.union .wide else s.template.flags }).modifyGrid
            fun g => g.setCell s₁.activeGrid.cursor.row (s₁.activeGrid.cursor.col + 1)
              { s.template with ch := ' ', flags := s.template.flags.union .wideSpacer }
      else s₁.modifyGrid fun g => g.setCell s₁.activeGrid.cursor.row s₁.activeGrid.cursor.col
        { s.template with
          ch := ch
          flags := if width = 2 then s.template.flags.union .wide else s.template.flags }) := by
    split
    · exact (hins.trans (hset _ _ _ _)).trans (hset _ _ _ _)
    · exact hins.trans (hset _ _ _ _)
  refine Draws.trans ?_ (Draws.touch _)
  have hrow (hs : s.activeGrid.Shape) (hw : s.activeGrid.Within) :=
    (hwrote.active.within hs hw).row.trans_eq hwrote.active.rows
  split
  · -- The line is full: the cursor waits on its last column.
    exact hwrote.cursor _ fun hs hw => ⟨hrow hs hw, by
      have := hs.cols_pos
      dsimp only
      omega⟩
  · next hlt => exact hwrote.cursor _ fun hs hw => ⟨hrow hs hw, by
      dsimp only
      omega⟩

/-! ## Modes and the rest -/

theorem draws_syncKittyModes : s.Draws s.syncKittyModes := by
  unfold syncKittyModes
  dsimp only
  split
  · exact (Draws.of_frame rfl rfl rfl (contains_withKittyFlags _ _) : s.Draws
      { s with modes := s.modes.withKittyFlags ((s.activeKittyStack.getLast?).getD 0) }).trans
        (Draws.touch _)
  · exact Draws.refl s

theorem draws_setKittyStack (stack : List (BitVec 8)) : s.Draws (s.setKittyStack stack) := by
  unfold setKittyStack
  split <;> exact Draws.of_frame rfl rfl rfl rfl

theorem draws_kittyPush (flags : BitVec 8) : s.Draws (s.kittyPush flags) :=
  (draws_setKittyStack s _).trans (draws_syncKittyModes _)

theorem draws_kittyPop : s.Draws (s.kittyPop n) :=
  (draws_setKittyStack s _).trans (draws_syncKittyModes _)

theorem draws_kittySet (flags : BitVec 8) (mode : Nat) : s.Draws (s.kittySet flags mode) :=
  (draws_setKittyStack s _).trans (draws_syncKittyModes _)

theorem draws_keyboardDispatch (params : Params) (inter : Option Nat) :
    s.Draws (s.keyboardDispatch params inter) := by
  unfold keyboardDispatch
  split
  · exact Draws.pushEvent _ _
  · exact draws_kittyPush _ _
  · exact draws_kittyPop _ _
  · exact draws_kittySet _ _ _
  · exact Draws.refl s
  · exact draws_restoreCursor s

theorem draws_setShowCursor (on : Bool) : s.Draws (s.setShowCursor on) := by
  have h := Draws.setModes s .showCursor on (by decide)
  unfold setShowCursor
  dsimp only
  split
  · exact h.trans (draws_settleRestate _)
  · exact h.trans (Draws.modifyGrid _ _ (Grid.evolves_endRestatementWindow _))

theorem draws_setAnsiModes (params : Params) (enable : Bool) :
    s.Draws (s.setAnsiModes params enable) := by
  refine (Draws.foldl _ (fun s mode => ?_) _ s).trans (Draws.touch _)
  unfold setAnsiMode
  split
  · exact Draws.setModes _ _ _ (by decide)
  · exact Draws.setModes _ _ _ (by decide)
  · exact Draws.refl _

theorem draws_setCursorStyle (param : Nat) : s.Draws (s.setCursorStyle param) :=
  ((Draws.of_frame rfl rfl rfl rfl : s.Draws
    { s with
      cursorStyleFromProgram := param != 0
      cursorStyle := if param = 0 then s.defaultCursorStyle
        else CursorStyle.fromDecscusr param }).trans (Draws.pushEvent _ _)).trans (Draws.touch _)

end TermState

end Zesterm
