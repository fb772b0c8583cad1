/-
Zesterm.Proto.ChangeTheorems — what moves the sequence number, and what
does not.

The number never falls, and a sequence that gets to a `touch` moves it
(`perform_touches`). One that does not leaves the picture as it was, with
three exceptions: a title, a progress, and the announcement of a repaint,
which may take back the rows a settle pulled (`perform_silent`). A run of
silent sequences is described by what these three leave (`silent_run`), and
so the picture changes behind a standing number exactly where a chunk slips
(`moves_iff`).
-/
import Zesterm.Core.TermTheorems
import Zesterm.Core.AsciiVt
import Zesterm.Proto.Change

namespace Zesterm

namespace TermState

/-! ## The number under small edits -/

section Seq

variable (s : TermState)

@[simp] theorem seq_modifyGrid (f : Grid → Grid) : (s.modifyGrid f).seq = s.seq := by
  unfold modifyGrid
  split <;> rfl

@[simp] theorem seq_modifyCursor (f : Cursor → Cursor) : (s.modifyCursor f).seq = s.seq :=
  seq_modifyGrid s _

@[simp] theorem seq_touch : s.touch.seq = s.seq + 1 := rfl

@[simp] theorem seq_touchFull : s.touchFull.seq = s.seq + 1 := rfl

@[simp] theorem seq_pushEvent (e : TermEvent) : (s.pushEvent e).seq = s.seq := rfl

@[simp] theorem seq_setModes (m : Modes) (on : Bool) : (s.setModes m on).seq = s.seq := rfl

@[simp] theorem seq_setKittyStack (stack : List (BitVec 8)) :
    (s.setKittyStack stack).seq = s.seq := by
  unfold setKittyStack
  split <;> rfl

@[simp] theorem seq_saveCursor : s.saveCursor.seq = s.seq := by
  unfold saveCursor
  dsimp only
  split <;> rfl

@[simp] theorem seq_evictBlocks : s.evictBlocks.seq = s.seq := by
  unfold evictBlocks
  dsimp only
  split <;> rfl

/-- Stranding moves the number whenever there is something to strand. -/
theorem seq_strandIfDiverged :
    s.strandIfDiverged.seq = if s.activeGrid.needsStrand then s.seq + 1 else s.seq := by
  unfold strandIfDiverged
  cases h : s.activeGrid.needsStrand with
  | false => rfl
  | true =>
    have hk : s.activeGrid.settledPull ≠ 0 := by
      simp only [Grid.needsStrand, Bool.and_eq_true, decide_eq_true_eq] at h
      omega
    simp [Grid.strandSettled, hk]

theorem le_seq_strandIfDiverged : s.seq ≤ s.strandIfDiverged.seq := by
  rw [seq_strandIfDiverged]
  split <;> omega

theorem le_seq_settleRestate : s.seq ≤ s.settleRestate.seq := by
  unfold settleRestate
  dsimp only
  split <;> simp

theorem le_seq_syncKittyModes : s.seq ≤ s.syncKittyModes.seq := by
  unfold syncKittyModes
  dsimp only
  split <;> simp

theorem le_seq_setAltScreen (on : Bool) : s.seq ≤ (s.setAltScreen on).seq := by
  unfold setAltScreen
  split
  · exact le_rfl
  · rw [seq_touchFull]
    refine le_trans (le_trans ?_ (le_seq_syncKittyModes _)) (Nat.le_succ _)
    split <;> exact le_rfl

theorem le_seq_linefeed : s.seq ≤ s.linefeed.seq := by
  refine le_trans (le_seq_strandIfDiverged s) ?_
  unfold linefeed
  rw [seq_modifyCursor]
  dsimp only
  split
  · simp
  · split <;> simp

theorem le_seq_wrapRow : s.seq ≤ s.wrapRow.seq := by
  unfold wrapRow
  rw [seq_modifyCursor]
  refine le_trans ?_ (le_seq_linefeed _)
  rw [seq_modifyGrid]

@[simp] theorem modes_touch : s.touch.modes = s.modes := rfl

@[simp] theorem modes_touchFull : s.touchFull.modes = s.modes := rfl

@[simp] theorem modes_evictBlocks : s.evictBlocks.modes = s.modes := by
  unfold evictBlocks
  dsimp only
  split <;> rfl

@[simp] theorem modes_strandIfDiverged : s.strandIfDiverged.modes = s.modes := by
  unfold strandIfDiverged
  dsimp only
  split
  · rfl
  · split
    · exact modes_modifyGrid s _
    · exact modes_modifyGrid s _

theorem modes_linefeed : s.linefeed.modes = s.modes := by
  unfold linefeed modifyCursor
  rw [modes_modifyGrid]
  dsimp only
  split
  · simp
  · split <;> simp

theorem modes_wrapRow : s.wrapRow.modes = s.modes := by
  unfold wrapRow modifyCursor
  rw [modes_modifyGrid, modes_linefeed, modes_modifyGrid]

end Seq

/-! ## The sequences that always move it -/

section Movers

variable (s : TermState)

theorem lt_seq_carriageReturn : s.seq < s.carriageReturn.seq := by
  have := le_seq_strandIfDiverged s
  simp only [carriageReturn, seq_touch, seq_modifyCursor]
  omega

theorem lt_seq_backspace : s.seq < s.backspace.seq := by
  have := le_seq_strandIfDiverged s
  simp only [backspace, seq_touch, seq_modifyCursor]
  omega

theorem lt_seq_putChar (ch : Char) (width : Nat) : s.seq < (s.putChar ch width).seq := by
  unfold putChar
  dsimp only
  rw [seq_touch]
  refine Nat.lt_succ_of_le ?_
  split_ifs <;> simp

theorem lt_seq_tab (count : Nat) : s.seq < (s.tab count).seq := by
  have := le_seq_strandIfDiverged s
  simp only [tab, seq_touch, seq_modifyCursor]
  omega

theorem lt_seq_goto (row col : Nat) : s.seq < (s.goto row col).seq := by
  have := le_seq_strandIfDiverged s
  simp only [goto, seq_touch, seq_modifyCursor]
  omega

theorem lt_seq_gotoAbsolute (row col : Nat) : s.seq < (s.gotoAbsolute row col).seq := by
  have := le_seq_strandIfDiverged s
  simp only [gotoAbsolute, seq_touch, seq_modifyCursor]
  omega

theorem lt_seq_moveUp (n : Nat) : s.seq < (s.moveUp n).seq := by
  have := le_seq_strandIfDiverged s
  simp only [moveUp, seq_touch, seq_modifyCursor]
  omega

theorem lt_seq_moveDown (n : Nat) : s.seq < (s.moveDown n).seq := by
  have := le_seq_strandIfDiverged s
  simp only [moveDown, seq_touch, seq_modifyCursor]
  omega

theorem lt_seq_moveLeft (n : Nat) : s.seq < (s.moveLeft n).seq := by
  have := le_seq_strandIfDiverged s
  simp only [moveLeft, seq_touch, seq_modifyCursor]
  omega

theorem lt_seq_moveRight (n : Nat) : s.seq < (s.moveRight n).seq := by
  have := le_seq_strandIfDiverged s
  simp only [moveRight, seq_touch, seq_modifyCursor]
  omega

theorem lt_seq_moveTo (row col : Nat) : s.seq < (s.moveTo row col).seq := by
  unfold moveTo
  dsimp only
  refine lt_of_le_of_lt ?_ (lt_seq_goto _ _ _)
  split
  · rw [seq_modifyGrid]
  · exact le_rfl

theorem lt_seq_backTab (count : Nat) : s.seq < (s.backTab count).seq := by
  have := le_seq_strandIfDiverged s
  simp only [backTab, seq_touch, seq_modifyCursor]
  omega

theorem lt_seq_restoreCursor : s.seq < s.restoreCursor.seq := by
  simp only [restoreCursor, seq_touch, seq_modifyCursor, seq_setModes]
  exact Nat.lt_succ_self _

theorem lt_seq_eraseInLine (mode : Nat) : s.seq < (s.eraseInLine mode).seq := by
  have := le_seq_strandIfDiverged s
  unfold eraseInLine
  dsimp only
  rw [seq_touch]
  refine Nat.lt_succ_of_le (this.trans (le_of_eq ?_))
  split
  · exact (seq_modifyGrid _ _).symm
  · exact (seq_modifyGrid _ _).symm
  · exact (seq_modifyGrid _ _).symm
  · rfl

theorem lt_seq_eraseChars (n : Nat) : s.seq < (s.eraseChars n).seq := by
  have := le_seq_strandIfDiverged s
  simp only [eraseChars, seq_touch, eraseInRow, seq_modifyGrid]
  omega

@[simp] theorem seq_eraseScreenBlocks : s.eraseScreenBlocks.seq = s.seq := by
  unfold eraseScreenBlocks
  split
  · dsimp only
    split <;> rfl
  · rfl

theorem lt_seq_eraseInDisplay (mode : Nat) : s.seq < (s.eraseInDisplay mode).seq := by
  have := le_seq_strandIfDiverged s
  unfold eraseInDisplay
  dsimp only
  rw [seq_touchFull]
  split
  · split <;> simp only [eraseInRow, eraseRows, seq_modifyGrid] <;> omega
  · split <;> simp only [eraseInRow, eraseRows, seq_modifyGrid] <;> omega
  · simp only [eraseRows, seq_modifyGrid, seq_eraseScreenBlocks]
    omega
  · simp only [eraseHistory, seq_pushEvent, eraseRows, seq_modifyGrid, seq_eraseScreenBlocks]
    omega
  · omega

theorem le_seq_setPrivateMode (on : Bool) (mode : Nat) :
    s.seq ≤ (s.setPrivateMode on mode).seq := by
  unfold setPrivateMode
  split
  case h_2 => exact (lt_seq_goto (s.setModes .origin on) 0 0).le
  case h_4 =>
    unfold setShowCursor
    dsimp only
    split
    · exact le_seq_settleRestate (s.setModes .showCursor on)
    · simp
  case h_11 => exact le_seq_setAltScreen s on
  case h_12 => exact le_seq_setAltScreen s on
  case h_13 =>
    split
    · simp
    · exact (lt_seq_restoreCursor s).le
  case h_14 =>
    split
    · exact (seq_saveCursor s).symm.trans_le (le_seq_setAltScreen _ _)
    · exact (le_seq_setAltScreen s false).trans (lt_seq_restoreCursor _).le
  all_goals simp

theorem lt_seq_setPrivateModes (params : Params) (on : Bool) :
    s.seq < (s.setPrivateModes params on).seq := by
  have hfold : ∀ (modes : List Nat) (s : TermState),
      s.seq ≤ (modes.foldl (fun s mode => s.setPrivateMode on mode) s).seq := by
    intro modes
    induction modes with
    | nil => exact fun s => le_rfl
    | cons mode modes ih => exact fun s => (le_seq_setPrivateMode s on mode).trans (ih _)
  exact Nat.lt_succ_of_le (hfold _ s)

theorem lt_seq_setAnsiModes (params : Params) (on : Bool) :
    s.seq < (s.setAnsiModes params on).seq := by
  have hfold : ∀ (modes : List Nat) (s : TermState),
      (modes.foldl (fun s mode => s.setAnsiMode on mode) s).seq = s.seq := by
    intro modes
    induction modes with
    | nil => exact fun s => rfl
    | cons mode modes ih =>
      intro s
      have hone : (s.setAnsiMode on mode).seq = s.seq := by
        unfold setAnsiMode
        split <;> rfl
      exact (ih _).trans hone
  exact Nat.lt_succ_of_le (hfold _ s).ge

theorem lt_seq_setCursorStyle (param : Nat) : s.seq < (s.setCursorStyle param).seq :=
  Nat.lt_succ_self _

theorem lt_seq_setScrollRegion (top bottom : Nat) : s.seq < (s.setScrollRegion top bottom).seq := by
  unfold setScrollRegion
  dsimp only
  rw [seq_touchFull]
  refine Nat.lt_succ_of_lt (lt_of_le_of_lt ?_ (lt_seq_goto _ _ _))
  rw [seq_modifyGrid]

theorem lt_seq_decaln : s.seq < s.decaln.seq := by
  have hfold : ∀ (rows : List Nat) (f : Nat → Grid → Grid) (s : TermState),
      (rows.foldl (fun s row => s.modifyGrid (f row)) s).seq = s.seq := by
    intro rows f
    induction rows with
    | nil => exact fun s => rfl
    | cons row rows ih => exact fun s => (ih _).trans (seq_modifyGrid s _)
  unfold decaln
  dsimp only
  rw [seq_touchFull, hfold]
  exact Nat.lt_succ_self _

theorem lt_seq_fullReset : s.seq < s.fullReset.seq := by
  unfold fullReset
  dsimp only
  rw [seq_touchFull, seq_modifyGrid]
  refine Nat.lt_succ_of_le (le_trans ?_ (le_seq_setAltScreen _ _))
  unfold kittyReset
  exact le_seq_syncKittyModes
    { s with
      template := Cell.blank, modes := Modes.initial, kittyStack := [], kittyStackAlt := [] }

end Movers

/-! ## Sequences that move it in some states -/

/-- Neither the number nor anything in the picture is different. -/
structure Still (s s' : TermState) : Prop where
  seq : s'.seq = s.seq
  picture : s'.picture = s.picture
  pull : s'.activeGrid.settledPull = s.activeGrid.settledPull

theorem Still.refl (s : TermState) : Still s s := ⟨rfl, rfl, rfl⟩

/-- The step from `s` to `s'` moves the number, or leaves all there is to
see, as `touched` says. -/
def Counts (touched : Bool) (s s' : TermState) : Prop :=
  if touched then s.seq < s'.seq else Still s s'

section Counts

variable {s s' : TermState}

theorem Counts.moved (h : s.seq < s'.seq) : Counts true s s' := h

theorem Counts.still (h : Still s s') : Counts false s s' := h

theorem strandIfDiverged_of_not (h : s.activeGrid.needsStrand = false) :
    s.strandIfDiverged = s := by
  unfold strandIfDiverged
  rw [h]
  rfl

theorem lt_seq_strandIfDiverged (h : s.activeGrid.needsStrand = true) :
    s.seq < s.strandIfDiverged.seq := by
  rw [seq_strandIfDiverged, if_pos h]
  exact Nat.lt_succ_self _

/-- Bookkeeping of the grid that nothing shows. -/
theorem Still.modifyGrid (f : Grid → Grid) (hview : (f s.activeGrid).view = s.activeGrid.view)
    (hpull : (f s.activeGrid).settledPull = s.activeGrid.settledPull) :
    Still s (s.modifyGrid f) := by
  refine ⟨seq_modifyGrid s f, ?_, by rw [activeGrid_modifyGrid]; exact hpull⟩
  unfold TermState.picture
  rw [activeGrid_modifyGrid, hview, modes_modifyGrid, blocks_modifyGrid]
  unfold TermState.modifyGrid
  split <;> rfl

theorem counts_linefeed (s : TermState) : Counts s.linefeedTouches s s.linefeed := by
  cases hstrand : s.activeGrid.needsStrand with
  | true =>
    rw [linefeedTouches, hstrand]
    refine .moved (lt_of_lt_of_le (lt_seq_strandIfDiverged hstrand) ?_)
    unfold linefeed
    rw [seq_modifyCursor]
    dsimp only
    split
    · simp
    · split <;> simp
  | false =>
    unfold linefeed linefeedTouches
    dsimp only
    rw [strandIfDiverged_of_not hstrand, hstrand]
    by_cases hbottom : s.activeGrid.cursor.row = s.activeGrid.region.bottom
    · rw [if_pos hbottom]
      simp [Counts, hbottom]
    · rw [if_neg hbottom]
      by_cases hlast : s.activeGrid.cursor.row + 1 < s.activeGrid.rows
      · rw [if_pos hlast]
        simp [Counts, hlast]
      · rw [if_neg hlast]
        have hstill : Still s (s.modifyCursor fun c => { c with pendingWrap := false }) :=
          Still.modifyGrid _ rfl rfl
        simpa [Counts, hbottom, hlast] using hstill

theorem counts_reverseIndex (s : TermState) : Counts s.reverseIndexTouches s s.reverseIndex := by
  cases hstrand : s.activeGrid.needsStrand with
  | true =>
    rw [reverseIndexTouches, hstrand]
    refine .moved (lt_of_lt_of_le (lt_seq_strandIfDiverged hstrand) ?_)
    unfold reverseIndex
    dsimp only
    split
    · simp
    · split <;> simp
  | false =>
    unfold reverseIndex reverseIndexTouches
    dsimp only
    rw [strandIfDiverged_of_not hstrand, hstrand]
    by_cases htop : s.activeGrid.cursor.row = s.activeGrid.region.top
    · rw [if_pos htop]
      simp [Counts, htop]
    · rw [if_neg htop]
      by_cases hrow : s.activeGrid.cursor.row > 0
      · rw [if_pos hrow]
        simp [Counts, hrow]
      · rw [if_neg hrow]
        simpa [Counts, htop, hrow] using Still.refl s

theorem counts_print (vt : Vt) (s : TermState) (ch : Char) :
    Counts (s.printTouches vt ch) s (s.writeChar vt ch) := by
  unfold writeChar printTouches
  dsimp only
  generalize (vt.width ch).getD 0 = width
  by_cases hzero : width = 0
  · rw [if_pos hzero, if_pos hzero]
    unfold writeMark
    dsimp only
    cases hstrand : s.activeGrid.needsStrand with
    | true =>
      refine .moved (lt_of_lt_of_le (lt_seq_strandIfDiverged hstrand) ?_)
      split <;> simp
    | false =>
      rw [strandIfDiverged_of_not hstrand]
      by_cases hcol : s.activeGrid.cursor.col > 0
      · rw [if_pos hcol]
        simp [Counts, hcol]
      · rw [if_neg hcol]
        simpa [Counts, hcol] using Still.refl s
  · rw [if_neg hzero, if_neg hzero]
    cases hauto : s.modes.contains .autoWrap with
    | true =>
      -- With wrapping on, the character is written, wherever it lands.
      simp only [Bool.not_true, Bool.and_false, Bool.not_false, Bool.or_true]
      refine .moved (lt_of_le_of_lt (le_seq_strandIfDiverged s) ?_)
      generalize hs' : (if s.strandIfDiverged.activeGrid.cursor.pendingWrap &&
          s.strandIfDiverged.modes.contains .autoWrap then
        s.strandIfDiverged.wrapRow.modifyCursor fun c => { c with pendingWrap := false }
        else s.strandIfDiverged) = s'
      have hle : s.strandIfDiverged.seq ≤ s'.seq := by
        rw [← hs']
        split
        · rw [seq_modifyCursor]
          exact le_seq_wrapRow _
        · exact le_rfl
      have hmodes : s'.modes.contains .autoWrap = true := by
        rw [← hs']
        split
        · unfold modifyCursor
          rw [modes_modifyGrid, modes_wrapRow, modes_strandIfDiverged, hauto]
        · rw [modes_strandIfDiverged, hauto]
      split
      · exact hle.trans_lt ((le_seq_wrapRow s').trans_lt (lt_seq_putChar _ _ _))
      · exact hle.trans_lt (lt_seq_putChar _ _ _)
    | false =>
      have hkeep : (s.strandIfDiverged.activeGrid.cursor.pendingWrap &&
          s.strandIfDiverged.modes.contains .autoWrap) = false := by
        rw [modes_strandIfDiverged, hauto, Bool.and_false]
      rw [hkeep]
      simp only [Bool.false_eq_true, if_false, modes_strandIfDiverged, hauto]
      cases hstrand : s.activeGrid.needsStrand with
      | true =>
        refine .moved (lt_of_lt_of_le (lt_seq_strandIfDiverged hstrand) ?_)
        split
        · exact le_rfl
        · exact (lt_seq_putChar _ _ _).le
      | false =>
        rw [strandIfDiverged_of_not hstrand]
        by_cases hfit : width = 2 ∧ s.activeGrid.cursor.col + 1 ≥ s.activeGrid.cols
        · rw [if_pos hfit]
          simpa [Counts, hfit] using Still.refl s
        · rw [if_neg hfit]
          simpa [Counts, hfit] using lt_seq_putChar s ch width

theorem Counts.of_true {b : Bool} (hb : b = true) (h : s.seq < s'.seq) : Counts b s s' := by
  rw [hb]
  exact h

theorem Counts.of_false {b : Bool} (hb : b = false) (h : Still s s') : Counts b s s' := by
  rw [hb]
  exact h

/-- What is none of the screens, the modes, the title, the blocks or the
progress is not in the picture. -/
theorem Still.of_frame (hseq : s'.seq = s.seq) (hgrid : s'.grid = s.grid)
    (halt : s'.altGrid = s.altGrid) (hmodes : s'.modes = s.modes)
    (hstyle : s'.cursorStyle = s.cursorStyle) (htitle : s'.title = s.title)
    (hblocks : s'.blocks = s.blocks) (hprogress : s'.progress = s.progress) : Still s s' := by
  refine ⟨hseq, ?_, ?_⟩
  · simp only [TermState.picture, activeGrid, hgrid, halt, hmodes, hstyle, htitle, hblocks,
      hprogress]
  · simp only [activeGrid, hgrid, halt]

theorem Still.pushEvent (s : TermState) (e : TermEvent) : Still s (s.pushEvent e) :=
  .of_frame rfl rfl rfl rfl rfl rfl rfl rfl

theorem Still.saveCursor (s : TermState) : Still s s.saveCursor := by
  unfold TermState.saveCursor
  dsimp only
  split <;> exact .of_frame rfl rfl rfl rfl rfl rfl rfl rfl

theorem Still.setKittyStack (s : TermState) (stack : List (BitVec 8)) :
    Still s (s.setKittyStack stack) := by
  unfold TermState.setKittyStack
  split <;> exact .of_frame rfl rfl rfl rfl rfl rfl rfl rfl

theorem modes_setKittyStack (s : TermState) (stack : List (BitVec 8)) :
    (s.setKittyStack stack).modes = s.modes := by
  unfold setKittyStack
  split <;> rfl

theorem activeKittyStack_setKittyStack (s : TermState) (stack : List (BitVec 8)) :
    (s.setKittyStack stack).activeKittyStack = stack := by
  unfold setKittyStack activeKittyStack
  cases h : s.altGrid.isSome <;> simp [h]

/-- A new stack moves the number if its top changes the mode word. -/
theorem counts_kitty (s : TermState) (stack : List (BitVec 8)) :
    Counts (s.kittyTouches (stack.getLast?.getD 0)) s (s.setKittyStack stack).syncKittyModes := by
  unfold syncKittyModes kittyTouches
  dsimp only
  rw [activeKittyStack_setKittyStack, modes_setKittyStack]
  by_cases h : s.modes.withKittyFlags (stack.getLast?.getD 0) = s.modes
  · rw [if_neg (not_not.mpr h)]
    exact .of_false (by rw [h]; exact bne_self_eq_false _) (Still.setKittyStack s stack)
  · rw [if_pos h]
    exact .of_true (bne_iff_ne.mpr h) (by simp)

/-- A push moves the number if the flags pushed change the mode word. -/
theorem counts_kittyConcat (s : TermState) (stack : List (BitVec 8)) (top : BitVec 8) :
    Counts (s.kittyTouches top) s (s.setKittyStack (stack ++ [top])).syncKittyModes := by
  have h := counts_kitty s (stack ++ [top])
  rw [List.getLast?_concat, Option.getD_some] at h
  exact h

theorem counts_keyboard (s : TermState) (params : Params) (inter : Option Nat) :
    Counts (s.keyboardTouches params inter) s (s.keyboardDispatch params inter) := by
  unfold keyboardDispatch
  split
  · exact Still.pushEvent s _
  · exact counts_kittyConcat s _ _
  · exact counts_kitty s _
  · exact counts_kittyConcat s _ _
  · next n h1 h2 h3 h4 =>
    refine .of_false ?_ (Still.refl s)
    unfold keyboardTouches
    split <;> simp_all
  · exact lt_seq_restoreCursor s

theorem counts_csi (s : TermState) (params : Params) (intermediates : List UInt8) (ignore : Bool)
    (c : Char) (h : (Action.csi params intermediates ignore c).isRestatement = false) :
    Counts (s.csiTouches params intermediates ignore c) s
      (s.csiDispatch params intermediates ignore c) := by
  cases ignore with
  | true => exact Still.refl s
  | false =>
    unfold csiDispatch
    dsimp only
    rw [if_neg Bool.false_ne_true]
    split
    · exact lt_seq_moveUp s _
    · exact lt_seq_moveDown s _
    · exact lt_seq_moveDown s _
    · exact lt_seq_moveRight s _
    · exact lt_seq_moveRight s _
    · exact lt_seq_moveLeft s _
    · exact (lt_seq_moveDown s _).trans (lt_seq_carriageReturn _)
    · exact (lt_seq_moveUp s _).trans (lt_seq_carriageReturn _)
    · exact lt_seq_gotoAbsolute s _ _
    · exact lt_seq_gotoAbsolute s _ _
    · exact lt_seq_goto s _ _
    · exact lt_seq_moveTo s _ _
    · exact lt_seq_moveTo s _ _
    · exact lt_seq_tab s _
    · exact lt_seq_backTab s _
    · exact lt_seq_eraseInDisplay s _
    · exact lt_seq_eraseInLine s _
    · exact lt_seq_eraseChars s _
    · exact Nat.lt_succ_of_le (seq_modifyGrid s _).ge
    · exact Nat.lt_succ_of_le (seq_modifyGrid s _).ge
    · exact Nat.lt_succ_of_le (seq_modifyGrid s _).ge
    · exact Nat.lt_succ_of_le (seq_modifyGrid s _).ge
    · refine .moved ?_
      rw [seq_touchFull, seq_evictBlocks, seq_modifyGrid]
      exact Nat.lt_succ_self _
    · exact Nat.lt_succ_of_le (seq_modifyGrid s _).ge
    · split
      · next hrepaint =>
        obtain ⟨hpublic, height⟩ := hrepaint
        simp_all [Action.isRestatement]
      · exact Still.refl s
    · split
      · exact lt_seq_setPrivateModes s _ _
      · exact lt_seq_setAnsiModes s _ _
    · split
      · exact lt_seq_setPrivateModes s _ _
      · exact lt_seq_setAnsiModes s _ _
    · split
      · next hinter =>
        exact .of_true (by simpa [csiTouches, csiMovers] using hinter) (Nat.lt_succ_self _)
      · next hinter => exact .of_false (by simpa [csiTouches, csiMovers] using hinter) (.refl s)
    · split
      · next hinter =>
        exact .of_true (by simpa [csiTouches, csiMovers] using hinter) (lt_seq_setCursorStyle s _)
      · next hinter => exact .of_false (by simpa [csiTouches, csiMovers] using hinter) (.refl s)
    · split
      · next hinter =>
        exact .of_false (by simpa [csiTouches, csiMovers] using hinter) (.refl s)
      · next hinter =>
        exact .of_true (by simpa [csiTouches, csiMovers] using hinter)
          (lt_seq_setScrollRegion s _ _)
    · split <;> exact Still.of_frame rfl rfl rfl rfl rfl rfl rfl rfl
    · exact Still.pushEvent s _
    · split
      · exact Still.pushEvent s _
      · exact Still.pushEvent s _
      · exact Still.refl s
    · exact Still.saveCursor s
    · exact counts_keyboard s params _
    · refine .of_false ?_ (Still.refl s)
      simp_all [csiTouches, csiMovers]

theorem counts_execute (s : TermState) (byte : UInt8) :
    Counts (s.executeTouches byte) s (s.execute byte) := by
  unfold execute
  split
  · next h =>
    exact .of_false (by simp [executeTouches, h]) (.of_frame rfl rfl rfl rfl rfl rfl rfl rfl)
  · next h => exact .of_true (by simp [executeTouches, h]) (lt_seq_backspace s)
  · next h => exact .of_true (by simp [executeTouches, h]) (lt_seq_tab s 1)
  · next h => exact .of_true (by simp [executeTouches, h]) (lt_seq_carriageReturn s)
  · next h7 h8 h9 hd =>
    have htouches : s.executeTouches byte =
        if 0x0a ≤ byte.toNat ∧ byte.toNat ≤ 0x0c then
          s.linefeedTouches || s.modes.contains .lineFeedNewLine
        else false := by
      unfold executeTouches
      split <;> first | rfl | simp_all
    rw [htouches]
    split
    · dsimp only
      rw [modes_linefeed]
      cases s.modes.contains .lineFeedNewLine with
      | true =>
        rw [if_pos rfl, Bool.or_true]
        exact (le_seq_linefeed s).trans_lt (lt_seq_carriageReturn _)
      | false =>
        rw [if_neg Bool.false_ne_true, Bool.or_false]
        exact counts_linefeed s
    · exact Still.refl s

theorem counts_esc (s : TermState) (intermediates : List UInt8) (byte : UInt8) :
    Counts (s.escTouches intermediates byte) s (s.escDispatch intermediates byte) := by
  unfold escDispatch
  dsimp only
  split
  · next h => exact .of_false (by simp [escTouches, h]) (.saveCursor s)
  · next h =>
    split
    · next hi => exact .of_true (by simp [escTouches, h, hi]) (lt_seq_restoreCursor s)
    · next hi => exact .of_true (by simp [escTouches, h, hi]) (lt_seq_decaln s)
    · next hother hi =>
      refine .of_false ?_ (.refl s)
      simp only [escTouches, h, hi]
  · next h =>
    have htouches : s.escTouches intermediates byte = s.linefeedTouches := by
      simp only [escTouches, h]
    rw [htouches]
    exact counts_linefeed s
  · next h =>
    exact .of_true (by simp [escTouches, h])
      ((le_seq_linefeed s).trans_lt (lt_seq_carriageReturn _))
  · next h =>
    have htouches : s.escTouches intermediates byte = s.reverseIndexTouches := by
      simp only [escTouches, h]
    rw [htouches]
    exact counts_reverseIndex s
  · next h =>
    exact .of_false (by simp [escTouches, h]) (.of_frame rfl rfl rfl rfl rfl rfl rfl rfl)
  · next h => exact .of_true (by simp [escTouches, h]) (lt_seq_fullReset s)
  · next h7 h8 hD hE hM hH hc =>
    refine .of_false ?_ (.refl s)
    unfold escTouches
    split <;> first | rfl | simp_all

/-! ## OSC -/

theorem Counts.trans {a b : Bool} {s s' s'' : TermState} (h : Counts a s s')
    (h' : Counts b s' s'') : Counts (a || b) s s'' := by
  cases a with
  | true =>
    have hlt : s.seq < s'.seq := h
    refine .moved (hlt.trans_le ?_)
    cases b with
    | true => exact le_of_lt h'
    | false =>
      have hstill : Still s' s'' := h'
      exact hstill.seq.ge
  | false =>
    have hs : Still s s' := h
    cases b with
    | true => exact lt_of_eq_of_lt hs.seq.symm h'
    | false =>
      have hs' : Still s' s'' := h'
      exact Still.mk (hs'.seq.trans hs.seq) (hs'.picture.trans hs.picture) (hs'.pull.trans hs.pull)

theorem counts_palette : ∀ (params : List (List UInt8)) (s : TermState),
    Counts (paletteTouches params) s (s.oscPalette params)
  | index :: spec :: rest, s => by
    rw [oscPalette, paletteTouches]
    refine Counts.trans ?_ (counts_palette rest _)
    cases (fromUtf8 index).bind (parseUnsigned 255) with
    | none => exact Still.refl s
    | some i =>
      dsimp only
      by_cases hquery : (fromUtf8 spec).getD [] = ['?']
      · rw [if_pos hquery, hquery]
        exact Still.pushEvent s _
      · rw [if_neg hquery]
        cases hcolor : parseColorSpec ((fromUtf8 spec).getD []) with
        | none => exact .of_false (by simp) (Still.refl s)
        | some c => exact .of_true (by simp [hquery]) (Nat.lt_succ_self _)
  | [], s => Still.refl s
  | [_], s => Still.refl s

theorem counts_dynamicColor (s : TermState) (code : Nat) (params : List (List UInt8)) :
    Counts (dynamicColorTouches params) s (s.oscDynamicColor code params) := by
  unfold dynamicColorTouches oscDynamicColor
  dsimp only
  by_cases hquery : (oscText params 1).getD [] = ['?']
  · rw [if_pos hquery, hquery]
    exact Still.pushEvent s _
  · rw [if_neg hquery]
    cases parseColorSpec ((oscText params 1).getD []) with
    | none => exact .of_false (by simp) (Still.refl s)
    | some c => exact .of_true (by simp [hquery]) (Nat.lt_succ_self _)

theorem counts_marker (s : TermState) (params : List (List UInt8)) (kind : UInt8) :
    Counts (s.markerTouches kind) s (s.oscMarker params kind) := by
  unfold oscMarker markerTouches
  have hprompt : Counts s.blockLine.isSome s s.blockPromptStart := by
    unfold blockPromptStart
    cases s.blockLine with
    | none => exact Still.refl s
    | some line => exact Nat.lt_succ_self _
  have houtput : Counts s.blockLine.isSome s s.blockOutputStart := by
    unfold blockOutputStart
    cases s.blockLine with
    | none => exact Still.refl s
    | some line => exact Nat.lt_succ_self _
  have hfinish : Counts s.blockLine.isSome s (s.blockFinish (params[2]?.bind parseExitStatus)) := by
    unfold blockFinish
    cases s.blockLine with
    | none => exact Still.refl s
    | some line => exact Nat.lt_succ_self _
  have hend : Still s s.blockPromptEnd := by
    unfold blockPromptEnd
    cases s.blockLine with
    | none => exact Still.refl s
    | some line => exact .of_frame rfl rfl rfl rfl rfl rfl rfl rfl
  split_ifs with hA hB hC hD
  · simpa [hA] using hprompt
  · exact .of_false (by simp [hB]) hend
  · simpa [hC] using houtput
  · simpa [hD] using hfinish
  · exact .of_false (by simp [hA, hC, hD]) (Still.refl s)

theorem Still.setCwd (s : TermState) (host : Option Str) (path : Str) :
    Still s (s.setCwd host path) := by
  unfold TermState.setCwd
  split
  · exact Still.refl s
  · exact .of_frame rfl rfl rfl rfl rfl rfl rfl rfl

theorem Still.setShellFact (s : TermState) (key value : Str) :
    Still s (s.setShellFact key value) := by
  unfold TermState.setShellFact
  split
  · exact Still.refl s
  · dsimp only
    split_ifs
    · exact .of_frame rfl rfl rfl rfl rfl rfl rfl rfl
    · exact Still.refl s
    · exact Still.refl s
    · exact .of_frame rfl rfl rfl rfl rfl rfl rfl rfl

theorem counts_prompt (s : TermState) (params : List (List UInt8)) :
    Counts (s.promptTouches params) s (s.oscPrompt params) := by
  unfold promptTouches oscPrompt
  cases markerKind params with
  | none => exact Still.refl s
  | some kind => exact counts_marker s params kind

theorem counts_vscode (s : TermState) (params : List (List UInt8)) :
    Counts (s.promptTouches params) s (s.oscVscode params) := by
  unfold promptTouches oscVscode
  cases markerKind params with
  | none => exact Still.refl s
  | some kind =>
    dsimp only
    split_ifs with hE hP
    · refine .of_false (by simp [markerTouches, hE]) ?_
      split
      · exact .of_frame rfl rfl rfl rfl rfl rfl rfl rfl
      · exact Still.refl s
    · refine .of_false (by simp [markerTouches, hP]) ?_
      split
      · split
        · exact Still.setCwd s _ _
        · split
          · exact Still.setShellFact s _ _
          · exact Still.refl s
      · exact Still.refl s
    · exact counts_marker s params kind

theorem Still.oscCwd (s : TermState) (params : List (List UInt8)) : Still s (s.oscCwd params) := by
  unfold TermState.oscCwd
  split
  · exact Still.refl s
  · split
    · exact Still.setCwd s _ _
    · split <;> exact Still.setCwd s _ _

/-- What the picture may differ in after a silent sequence: the title, the
progress, and the screen where the announcement of a repaint took back what
a settle pulled. -/
structure Slips (a : Action) (s s' : TermState) : Prop where
  seq : s'.seq = s.seq
  modes : s'.modes = s.modes
  cursorStyle : s'.cursorStyle = s.cursorStyle
  blocks : s'.blocks = s.blocks
  title : s'.title = a.title?.getD s.title
  progress : s'.progress = a.progress?.getD s.progress
  screen : a.isRestatement = false ∨ s.activeGrid.settledPull = 0 →
    s'.activeGrid.view = s.activeGrid.view ∧
      s'.activeGrid.settledPull = s.activeGrid.settledPull
  banked : a.isRestatement = true → s'.activeGrid.settledPull = 0
  /-- What is no longer held as pulled is history again. -/
  boundary : s'.activeGrid.scrollbackLen + s'.activeGrid.settledPull =
    s.activeGrid.scrollbackLen + s.activeGrid.settledPull

theorem Slips.of_still {a : Action} (htitle : a.title? = none) (hprogress : a.progress? = none)
    (hrepaint : a.isRestatement = false) (h : Still s s') : Slips a s s' := by
  have hp := h.picture
  have hview : s'.activeGrid.view = s.activeGrid.view := congrArg Picture.screen hp
  have hlen : s'.activeGrid.scrollbackLen = s.activeGrid.scrollbackLen :=
    congrArg ScreenView.scrollbackLen hview
  exact
    { seq := h.seq
      modes := congrArg Picture.modes hp
      cursorStyle := congrArg Picture.cursorStyle hp
      blocks := congrArg Picture.blocks hp
      title := by rw [htitle]; exact congrArg Picture.title hp
      progress := by rw [hprogress]; exact congrArg Picture.progress hp
      screen := fun _ => ⟨hview, h.pull⟩
      banked := fun hyes => by rw [hrepaint] at hyes; exact absurd hyes Bool.false_ne_true
      boundary := by rw [hlen, h.pull] }

/-- What a repaint's announcement leaves of a screen and its boundary. -/
theorem noteRestatementBegan_spec (g : Grid) (cols rows : Nat) (t : Cell) :
    (g.noteRestatementBegan cols rows t).settledPull = 0 ∧
      (g.noteRestatementBegan cols rows t).scrollbackLen = g.scrollbackLen + g.settledPull ∧
      (g.settledPull = 0 → (g.noteRestatementBegan cols rows t).view = g.view) := by
  -- The flags it sets show nothing; the rest is what it takes back.
  have hflags : ∀ h : Grid,
      (if h.pendingRestate = 0 then h
        else if cols = h.cols ∧ rows = h.rows then
          if h.restating then h else { h with restating := true, restateRowsSeen := 0 }
        else { h with sittingOut := true }).settledPull = h.settledPull ∧
      (if h.pendingRestate = 0 then h
        else if cols = h.cols ∧ rows = h.rows then
          if h.restating then h else { h with restating := true, restateRowsSeen := 0 }
        else { h with sittingOut := true }).scrollbackLen = h.scrollbackLen ∧
      (if h.pendingRestate = 0 then h
        else if cols = h.cols ∧ rows = h.rows then
          if h.restating then h else { h with restating := true, restateRowsSeen := 0 }
        else { h with sittingOut := true }).view = h.view := by
    intro h
    split_ifs <;> exact ⟨rfl, rfl, rfl⟩
  unfold Grid.noteRestatementBegan
  dsimp only
  obtain ⟨hpull, hlen, hview⟩ := hflags ({ g with restatementOpen := true }.rebankSettled t)
  rw [hpull, hlen, hview]
  unfold Grid.rebankSettled
  dsimp only
  by_cases hk : g.settledPull = 0
  · rw [if_pos hk, hk]
    exact ⟨rfl, rfl, fun _ => rfl⟩
  · rw [if_neg hk]
    exact ⟨rfl, rfl, fun h => absurd h hk⟩

theorem slips_restatement (s : TermState) {a : Action} (htitle : a.title? = none)
    (hprogress : a.progress? = none) (hrepaint : a.isRestatement = true) (cols rows : Nat) (t : Cell) :
    Slips a s (s.modifyGrid fun g => g.noteRestatementBegan cols rows t) := by
  obtain ⟨hpull, hlen, hview⟩ := noteRestatementBegan_spec s.activeGrid cols rows t
  have hframe : (s.modifyGrid fun g => g.noteRestatementBegan cols rows t).title = s.title ∧
      (s.modifyGrid fun g => g.noteRestatementBegan cols rows t).progress = s.progress ∧
      (s.modifyGrid fun g => g.noteRestatementBegan cols rows t).cursorStyle = s.cursorStyle := by
    unfold modifyGrid
    split <;> exact ⟨rfl, rfl, rfl⟩
  exact
    { seq := seq_modifyGrid s _
      modes := modes_modifyGrid s _
      cursorStyle := hframe.2.2
      blocks := blocks_modifyGrid s _
      title := by rw [htitle]; exact hframe.1
      progress := by rw [hprogress]; exact hframe.2.1
      screen := fun hno => by
        rw [activeGrid_modifyGrid]
        rcases hno with hno | hno
        · rw [hrepaint] at hno
          exact absurd hno.symm Bool.false_ne_true
        · exact ⟨hview hno, hpull.trans hno.symm⟩
      banked := fun _ => by rw [activeGrid_modifyGrid, hpull]
      boundary := by rw [activeGrid_modifyGrid, hpull, hlen, Nat.add_zero] }

/-- A sequence that gets to a `touch` moves the number, and one that does
not changes only what it may. -/
def Reads (touched : Bool) (a : Action) (s s' : TermState) : Prop :=
  if touched then s.seq < s'.seq else Slips a s s'

theorem Reads.of_counts {touched : Bool} {a : Action} (htitle : a.title? = none)
    (hprogress : a.progress? = none) (hrepaint : a.isRestatement = false)
    (h : Counts touched s s') : Reads touched a s s' := by
  cases touched with
  | true => exact h
  | false => exact Slips.of_still htitle hprogress hrepaint h

theorem reads_csi (s : TermState) (params : Params) (intermediates : List UInt8) (ignore : Bool)
    (c : Char) :
    Reads (s.csiTouches params intermediates ignore c) (.csi params intermediates ignore c) s
      (s.csiDispatch params intermediates ignore c) := by
  cases hrepaint : (Action.csi params intermediates ignore c).isRestatement with
  | false => exact .of_counts rfl rfl hrepaint (counts_csi s params intermediates ignore c hrepaint)
  | true =>
    have hparts := hrepaint
    simp only [Action.isRestatement, Bool.and_eq_true, Bool.not_eq_true', beq_iff_eq,
      bne_iff_ne] at hparts
    obtain ⟨⟨⟨rfl, rfl⟩, hinter⟩, hheight⟩ := hparts
    have hnumber : s.csiDispatch params intermediates false 't' =
        s.modifyGrid fun g => g.noteRestatementBegan (arg params 2 0) (arg params 1 0) s.template := by
      simp [csiDispatch, hinter, hheight]
    rw [hnumber]
    exact slips_restatement s rfl rfl hrepaint _ _ _

/-- The OSC sequences that set neither the title nor the progress. -/
theorem counts_osc (s : TermState) (params : List (List UInt8))
    (htitle : Action.oscNumber params ≠ some 0 ∧ Action.oscNumber params ≠ some 2)
    (hprogress : ¬(Action.oscNumber params = some 9 ∧ (oscText params 1).getD [] = ['4'])) :
    Counts (s.oscTouches params) s (s.oscDispatch params) := by
  unfold Action.oscNumber at htitle hprogress
  unfold oscDispatch
  split
  · next h => exact absurd h htitle.1
  · next h => exact absurd h htitle.2
  · next h => simpa only [oscTouches, h] using counts_palette (params.drop 1) s
  · next h => exact .of_false (by simp only [oscTouches, h]) (.oscCwd s params)
  · next h =>
    refine .of_false (by simp only [oscTouches, h]) ?_
    unfold oscHyperlink
    dsimp only
    split <;> exact .of_frame rfl rfl rfl rfl rfl rfl rfl rfl
  · next h =>
    refine .of_false (by simp only [oscTouches, h]) ?_
    split
    · next hfour => exact absurd ⟨h, hfour⟩ hprogress
    · exact .pushEvent s _
  · next h => simpa only [oscTouches, h] using counts_dynamicColor s 10 params
  · next h => simpa only [oscTouches, h] using counts_dynamicColor s 11 params
  · next h => simpa only [oscTouches, h] using counts_dynamicColor s 12 params
  · next h => exact .of_true (by simp only [oscTouches, h]) (Nat.lt_succ_self _)
  · next h => exact .of_true (by simp only [oscTouches, h]) (Nat.lt_succ_self _)
  · next h => exact .of_true (by simp only [oscTouches, h]) (Nat.lt_succ_self _)
  · next h => exact .of_true (by simp only [oscTouches, h]) (Nat.lt_succ_self _)
  · next h => simpa only [oscTouches, h] using counts_prompt s params
  · next h => simpa only [oscTouches, h] using counts_vscode s params
  · next h =>
    refine .of_false (by simp only [oscTouches, h]) ?_
    split
    · exact .pushEvent s _
    · exact .refl s
  · refine .of_false ?_ (.refl s)
    unfold oscTouches
    split <;> first | rfl | simp_all

/-- A title is set behind the number's back. -/
theorem slips_title (s : TermState) (params : List (List UInt8)) (bell : Bool)
    (h : Action.oscNumber params = some 0 ∨ Action.oscNumber params = some 2) :
    Slips (.osc params bell) s (s.oscTitle params) := by
  have htitle : (Action.osc params bell).title? = oscText params 1 := by
    simp only [Action.title?, h, if_true]
  have hprogress : (Action.osc params bell).progress? = none := by
    unfold Action.progress?
    dsimp only
    rw [if_neg]
    rintro ⟨h9, -⟩
    rcases h with h | h <;> simp [h] at h9
  unfold oscTitle
  cases ht : oscText params 1 with
  | none =>
    rw [ht] at htitle
    exact .of_still htitle hprogress rfl (.refl s)
  | some title =>
    exact
      { seq := rfl
        modes := rfl
        cursorStyle := rfl
        blocks := rfl
        title := by rw [htitle, ht]; rfl
        progress := by rw [hprogress]; rfl
        screen := fun _ => ⟨rfl, rfl⟩
        banked := fun hno => absurd hno Bool.false_ne_true
        boundary := rfl }

/-- So is a progress. -/
theorem slips_progress (s : TermState) (params : List (List UInt8)) (bell : Bool)
    (h : Action.oscNumber params = some 9) (hfour : (oscText params 1).getD [] = ['4']) :
    Slips (.osc params bell) s (s.oscProgress params) := by
  have htitle : (Action.osc params bell).title? = none := by
    simp [Action.title?, h]
  have hset : (Action.osc params bell).progress? = some (s.oscProgress params).progress := by
    have hraise : ∀ (b : Bool) (s : TermState),
        (if b then s.raiseAttention .notify else s).progress = s.progress := by
      intro b s
      cases b <;> rfl
    unfold Action.progress? oscProgress
    dsimp only
    rw [if_pos ⟨h, hfour⟩]
    refine Eq.trans ?_ (congrArg some (hraise _ _).symm)
    generalize ((oscText params 2).bind fun t => parseUnsigned u32Max (trim t)).getD 0 = state
    rcases state with _ | _ | _ | _ | _ | state <;> rfl
  have hframe : ∀ s' : TermState, s' = s.oscProgress params →
      s'.seq = s.seq ∧ s'.modes = s.modes ∧ s'.cursorStyle = s.cursorStyle ∧
        s'.blocks = s.blocks ∧ s'.title = s.title ∧ s'.activeGrid = s.activeGrid := by
    intro s' hs'
    rw [hs']
    unfold oscProgress
    dsimp only
    split <;> exact ⟨rfl, rfl, rfl, rfl, rfl, rfl⟩
  obtain ⟨hseq, hmodes, hstyle, hblocks, htitle', hgrid⟩ := hframe _ rfl
  exact
    { seq := hseq
      modes := hmodes
      cursorStyle := hstyle
      blocks := hblocks
      title := by rw [htitle]; exact htitle'
      progress := by rw [hset]; rfl
      screen := fun _ => by rw [hgrid]; exact ⟨rfl, rfl⟩
      banked := fun hno => absurd hno Bool.false_ne_true
      boundary := by rw [hgrid] }

theorem reads_osc (s : TermState) (params : List (List UInt8)) (bell : Bool) :
    Reads (s.oscTouches params) (.osc params bell) s (s.oscDispatch params) := by
  by_cases htitle : Action.oscNumber params = some 0 ∨ Action.oscNumber params = some 2
  · have hdispatch : s.oscDispatch params = s.oscTitle params := by
      unfold Action.oscNumber at htitle
      rcases htitle with h | h <;> simp only [oscDispatch, h]
    have htouches : s.oscTouches params = false := by
      unfold Action.oscNumber at htitle
      rcases htitle with h | h <;> simp only [oscTouches, h]
    rw [hdispatch, htouches]
    exact slips_title s params bell htitle
  · by_cases hprogress : Action.oscNumber params = some 9 ∧ (oscText params 1).getD [] = ['4']
    · have hnumber := hprogress.1
      unfold Action.oscNumber at hnumber
      have hdispatch : s.oscDispatch params = s.oscProgress params := by
        simp only [oscDispatch, hnumber, if_pos hprogress.2]
      have htouches : s.oscTouches params = false := by
        simp only [oscTouches, hnumber]
      rw [hdispatch, htouches]
      exact slips_progress s params bell hprogress.1 hprogress.2
    · refine .of_counts ?_ ?_ rfl (counts_osc s params (not_or.mp htitle) hprogress)
      · unfold Action.title?
        dsimp only
        rw [if_neg htitle]
      · unfold Action.progress?
        dsimp only
        rw [if_neg hprogress]

theorem perform_reads (vt : Vt) (s : TermState) (a : Action) :
    Reads (s.touches vt a) a s (s.perform vt a) := by
  cases a with
  | print ch => exact .of_counts rfl rfl rfl (counts_print vt s ch)
  | execute byte => exact .of_counts rfl rfl rfl (counts_execute s byte)
  | csi params intermediates ignore c => exact reads_csi s params intermediates ignore c
  | esc intermediates ignore byte => exact .of_counts rfl rfl rfl (counts_esc s intermediates byte)
  | osc params bell => exact reads_osc s params bell

/-- The number never falls. -/
theorem le_seq_perform (vt : Vt) (s : TermState) (a : Action) : s.seq ≤ (s.perform vt a).seq := by
  have h := perform_reads vt s a
  cases ht : s.touches vt a with
  | true =>
    rw [ht] at h
    exact le_of_lt h
  | false =>
    rw [ht] at h
    have hslips : Slips a s (s.perform vt a) := h
    exact hslips.seq.ge

/-! ## Runs -/

theorem le_seq_run (vt : Vt) (actions : List Action) (s : TermState) :
    s.seq ≤ (actions.foldl (perform vt) s).seq := by
  induction actions generalizing s with
  | nil => exact le_rfl
  | cons a actions ih => exact (le_seq_perform vt s a).trans (ih _)

/-- A run that is not silent moves the number. -/
theorem lt_seq_run (vt : Vt) (actions : List Action) (s : TermState)
    (h : ¬Silent vt s actions) : s.seq < (actions.foldl (perform vt) s).seq := by
  induction actions generalizing s with
  | nil => exact absurd trivial h
  | cons a actions ih =>
    have hstep := perform_reads vt s a
    cases ht : s.touches vt a with
    | true =>
      rw [ht] at hstep
      exact lt_of_lt_of_le hstep (le_seq_run vt actions _)
    | false =>
      have hrest : ¬Silent vt (s.perform vt a) actions := fun hrest => h ⟨ht, hrest⟩
      exact (le_seq_perform vt s a).trans_lt (ih _ hrest)

/-- What a silent run leaves different, with the number where it was. -/
structure SlipsRun (actions : List Action) (s s' : TermState) : Prop where
  seq : s'.seq = s.seq
  modes : s'.modes = s.modes
  cursorStyle : s'.cursorStyle = s.cursorStyle
  blocks : s'.blocks = s.blocks
  title : s'.title = Action.titleAfter s.title actions
  progress : s'.progress = Action.progressAfter s.progress actions
  screen : (¬∃ a ∈ actions, a.isRestatement = true) ∨ s.activeGrid.settledPull = 0 →
    s'.activeGrid.view = s.activeGrid.view ∧
      s'.activeGrid.settledPull = s.activeGrid.settledPull
  banked : (∃ a ∈ actions, a.isRestatement = true) → s'.activeGrid.settledPull = 0
  boundary : s'.activeGrid.scrollbackLen + s'.activeGrid.settledPull =
    s.activeGrid.scrollbackLen + s.activeGrid.settledPull

theorem titleAfter_cons (title : Str) (a : Action) (actions : List Action) :
    Action.titleAfter title (a :: actions) = Action.titleAfter (a.title?.getD title) actions := by
  unfold Action.titleAfter
  cases h : a.title? with
  | none => rw [List.filterMap_cons_none h, Option.getD_none]
  | some t =>
    rw [List.filterMap_cons_some h, List.getLast?_cons, Option.getD_some, Option.getD_some]

theorem progressAfter_cons (progress : Progress) (a : Action) (actions : List Action) :
    Action.progressAfter progress (a :: actions) =
      Action.progressAfter (a.progress?.getD progress) actions := by
  unfold Action.progressAfter
  cases h : a.progress? with
  | none => rw [List.filterMap_cons_none h, Option.getD_none]
  | some p =>
    rw [List.filterMap_cons_some h, List.getLast?_cons, Option.getD_some, Option.getD_some]

theorem silent_run (vt : Vt) (actions : List Action) (s : TermState) (h : Silent vt s actions) :
    SlipsRun actions s (actions.foldl (perform vt) s) := by
  induction actions generalizing s with
  | nil =>
    exact
      { seq := rfl
        modes := rfl
        cursorStyle := rfl
        blocks := rfl
        title := rfl
        progress := rfl
        screen := fun _ => ⟨rfl, rfl⟩
        banked := fun ⟨_, ha, _⟩ => absurd ha List.not_mem_nil
        boundary := rfl }
  | cons a actions ih =>
    obtain ⟨htouch, hrest⟩ := h
    have hstep := perform_reads vt s a
    rw [htouch] at hstep
    have hslips : Slips a s (s.perform vt a) := hstep
    have hrun := ih _ hrest
    rw [List.foldl_cons]
    refine
      { seq := hrun.seq.trans hslips.seq
        modes := hrun.modes.trans hslips.modes
        cursorStyle := hrun.cursorStyle.trans hslips.cursorStyle
        blocks := hrun.blocks.trans hslips.blocks
        title := ?_
        progress := ?_
        screen := ?_
        banked := ?_
        boundary := hrun.boundary.trans hslips.boundary }
    · rw [titleAfter_cons, hrun.title, hslips.title]
    · rw [progressAfter_cons, hrun.progress, hslips.progress]
    · rintro (hno | hzero)
      · have ha : a.isRestatement = false := by
          cases hr : a.isRestatement with
          | false => rfl
          | true => exact absurd ⟨a, List.mem_cons_self .., hr⟩ hno
        obtain ⟨hview, hpull⟩ := hslips.screen (.inl ha)
        obtain ⟨hview', hpull'⟩ := hrun.screen
          (.inl fun ⟨b, hb, hr⟩ => hno ⟨b, List.mem_cons_of_mem a hb, hr⟩)
        exact ⟨hview'.trans hview, hpull'.trans hpull⟩
      · obtain ⟨hview, hpull⟩ := hslips.screen (.inr hzero)
        obtain ⟨hview', hpull'⟩ := hrun.screen (.inr (hpull.trans hzero))
        exact ⟨hview'.trans hview, hpull'.trans hpull⟩
    · rintro ⟨b, hb, hr⟩
      by_cases hlater : ∃ b ∈ actions, b.isRestatement = true
      · exact hrun.banked hlater
      · -- The announcement was the first sequence, and nothing was pulled since.
        rcases List.mem_cons.mp hb with rfl | hb
        · exact (hrun.screen (.inl hlater)).2.trans (hslips.banked hr)
        · exact absurd ⟨b, hb, hr⟩ hlater

/-- The picture of a run that was silent is the one before it if and only
if the three things that slip were left alone. -/
theorem SlipsRun.picture_eq_iff {actions : List Action} (h : SlipsRun actions s s') :
    s'.picture = s.picture ↔
      Action.titleAfter s.title actions = s.title ∧
        Action.progressAfter s.progress actions = s.progress ∧
        ¬(s.activeGrid.settledPull > 0 ∧ ∃ a ∈ actions, a.isRestatement = true) := by
  constructor
  · intro hp
    refine ⟨h.title.symm.trans (congrArg Picture.title hp),
      h.progress.symm.trans (congrArg Picture.progress hp), ?_⟩
    rintro ⟨hpull, hrepaint⟩
    -- What was pulled is history again, so the boundary is not where it was.
    have hlen : s'.activeGrid.scrollbackLen = s.activeGrid.scrollbackLen :=
      congrArg (fun p => p.screen.scrollbackLen) hp
    have hbanked := h.banked hrepaint
    have hboundary := h.boundary
    omega
  · rintro ⟨htitle, hprogress, hkept⟩
    have hscreen : (¬∃ a ∈ actions, a.isRestatement = true) ∨ s.activeGrid.settledPull = 0 := by
      by_cases hrepaint : ∃ a ∈ actions, a.isRestatement = true
      · exact .inr (Nat.eq_zero_of_not_pos fun hpull => hkept ⟨hpull, hrepaint⟩)
      · exact .inl hrepaint
    unfold picture
    rw [(h.screen hscreen).1, h.modes, h.cursorStyle, h.blocks, h.title.trans htitle,
      h.progress.trans hprogress]

end Counts

end TermState

/-! ## What a client could see, and the number -/

/-- What changes a terminal from outside: a chunk of output, and a resize. -/
inductive TermOp where
  | output (chunk : List UInt8)
  | resize (cols rows : Nat)

namespace Terminal

variable {vt : Vt}

def update (t : Terminal vt) : TermOp → Terminal vt
  | .output chunk => t.advance chunk
  | .resize cols rows => t.resize cols rows

/-- An update that changes what a client could see moves the number. -/
def Announces (t : Terminal vt) (op : TermOp) : Prop :=
  (t.update op).state.picture ≠ t.state.picture → t.state.seq < (t.update op).state.seq

/-- A chunk none of whose sequences gets to a `touch` and which sets another
title or another progress, or announces a repaint while rows are pulled. -/
def SlipsBy (t : Terminal vt) : TermOp → Prop
  | .output chunk =>
    let actions := (vt.advance t.parser chunk).2
    TermState.Silent vt t.state actions ∧
      (Action.titleAfter t.state.title actions ≠ t.state.title ∨
        Action.progressAfter t.state.progress actions ≠ t.state.progress ∨
        (t.state.activeGrid.settledPull > 0 ∧ ∃ a ∈ actions, a.isRestatement = true))
  | .resize _ _ => False

theorem lt_seq_resize (s : TermState) (cols rows : Nat) : s.seq < (s.resize cols rows).seq := by
  unfold TermState.resize
  dsimp only
  rw [TermState.seq_touchFull]
  refine Nat.lt_succ_of_le (le_of_eq ?_)
  unfold TermState.reanchorBlocks TermState.rebase TermState.resizeScreens
  dsimp only
  split <;> split <;> rfl

/-- An update of a terminal that changes what a client could see moves the
number, if and only if it is not one of those that slip by. -/
theorem announces_iff (t : Terminal vt) (op : TermOp) : t.Announces op ↔ ¬t.SlipsBy op := by
  cases op with
  | resize cols rows => exact ⟨fun _ => not_false, fun _ _ => lt_seq_resize t.state cols rows⟩
  | output chunk =>
    have hstate : (t.update (.output chunk)).state =
        (vt.advance t.parser chunk).2.foldl (TermState.perform vt) t.state := rfl
    unfold Announces SlipsBy
    dsimp only
    rw [hstate]
    generalize (vt.advance t.parser chunk).2 = actions
    by_cases hsilent : TermState.Silent vt t.state actions
    · have hrun := TermState.silent_run vt actions t.state hsilent
      have hseq := hrun.seq
      constructor
      · rintro hann ⟨-, hslip⟩
        have hsame := not_ne_iff.mp fun hne => absurd (hann hne) (by omega)
        obtain ⟨htitle, hprogress, hkept⟩ := hrun.picture_eq_iff.mp hsame
        rcases hslip with h | h | h
        · exact h htitle
        · exact h hprogress
        · exact hkept h
      · intro hno hne
        refine absurd (hrun.picture_eq_iff.mpr ?_) hne
        have hkeep := fun h => hno ⟨hsilent, h⟩
        exact ⟨not_ne_iff.mp fun h => hkeep (.inl h), not_ne_iff.mp fun h => hkeep (.inr (.inl h)),
          fun h => hkeep (.inr (.inr h))⟩
    · exact ⟨fun _ h => hsilent h.1, fun _ _ => TermState.lt_seq_run vt actions t.state hsilent⟩

/-- `ESC ] 2 ; x BEL`: a title, and nothing else. -/
theorem not_announces_title :
    ¬(Terminal.new asciiVt 4 1 0).Announces (.output [0x1b, 0x5d, 0x32, 0x3b, 0x78, 0x07]) := by
  intro h
  have hne : ((Terminal.new asciiVt 4 1 0).update
      (.output [0x1b, 0x5d, 0x32, 0x3b, 0x78, 0x07])).state.picture ≠
        (Terminal.new asciiVt 4 1 0).state.picture := by
    intro hp
    exact absurd (congrArg Picture.title hp) (by decide)
  exact absurd (h hne) (by decide)

end Terminal

end Zesterm
