/-
Zesterm.Core.ReplicaTheorems — what the remote door does to a replica.

A grid is read here as two lists, its `history` and its `screen`. A grid
that only the remote door writes is `Held`: in shape and in bounds like any
grid, with its region the whole screen and no repaint in hand, because no
parser ever drives it. Every method keeps that of both screens of a replica
(`Replica`), and says what it does to the two lists of the live one: a row
written is a place of the screen, and history dropped or added never touches
the screen.
-/
import Zesterm.Core.RemoteTheorems
import Zesterm.Core.BoundsTheorems

namespace Zesterm

namespace Grid

variable {g : Grid}

/-! ## History and screen -/

/-- The rows above the live screen. -/
def history (g : Grid) : List Row := g.lines.take g.scrollbackLen

/-- The rows of the live screen. -/
def screen (g : Grid) : List Row := g.lines.drop g.scrollbackLen

theorem history_append_screen (g : Grid) : g.history ++ g.screen = g.lines :=
  List.take_append_drop _ _

theorem Shape.length_history (hs : g.Shape) : g.history.length = g.scrollbackLen := by
  have := hs.len
  simp only [history, lines, List.length_take, Storage.length_logical]
  omega

theorem Shape.length_screen (hs : g.Shape) : g.screen.length = g.rows := by
  have := hs.len
  simp only [screen, lines, List.length_drop, Storage.length_logical]
  omega

/-- A grid's two lists, read off its rows. -/
theorem split_lines {above below : List Row} (hl : g.lines = above ++ below)
    (hlen : above.length = g.scrollbackLen) : g.history = above ∧ g.screen = below := by
  unfold history screen
  rw [hl, ← hlen]
  exact ⟨List.take_left, List.drop_left⟩

/-- Editing a row of the screen. -/
theorem split_modifyRow (hs : g.Shape) {i : Nat} (hi : i < g.rows) (f : Row → Row) :
    (g.modifyRow i f).history = g.history ∧ (g.modifyRow i f).screen = g.screen.modify i f := by
  have hlen := hs.len
  have hbase : g.activeBase = g.history.length := by
    rw [hs.length_history]
    unfold activeBase
    omega
  refine split_lines ?_ hs.length_history
  show (g.storage.modifyRow (g.activeBase + i) f).logical = _
  rw [Storage.logical_modifyRow, Nat.mod_eq_of_lt (by unfold activeBase; omega), hbase,
    show g.storage.logical = g.history ++ g.screen from g.history_append_screen.symm]
  exact Storage.modify_append_right f _ _ _

/-! ## Rows on their way into history -/

/-- One turn: a blank row joins at the bottom, the oldest is let go where
there is no room for one more, and then the reader is seen to. -/
theorem scrollScreenUp1_cases (hs : g.Shape) (t : Cell) :
    ∃ (g₁ : Grid) (gone : Nat) (b : Row), g.scrollScreenUp1 t =
        (if g₁.displayOffset > 0 then
          { g₁ with displayOffset := min (g₁.displayOffset + 1) (g₁.storage.len - g₁.rows) }
        else g₁) ∧
      (g.scrollbackLen < g.scrollbackLimit ∧ gone = 0 ∨
        g.scrollbackLimit ≤ g.scrollbackLen ∧ gone = 1) ∧
      g₁.lines = (g.lines ++ [b]).drop gone ∧ g₁.scrollbackLen = g.scrollbackLen + 1 - gone ∧
      g₁.displayOffset = g.displayOffset ∧ g₁.storage.len - g₁.rows = g₁.scrollbackLen := by
  have hlen := hs.len
  have hpos := hs.rows_pos
  unfold scrollScreenUp1
  dsimp only
  by_cases hroom : g.scrollbackLen < g.scrollbackLimit
  · rw [if_pos hroom]
    refine ⟨_, 0, Storage.blankRow g.cols t g.storage.nextId, rfl, .inl ⟨hroom, rfl⟩, ?_, rfl, rfl, ?_⟩
    · show (g.storage.resizeRows (g.storage.len + 1) g.cols t).logical = _
      rw [Storage.logical_resizeRows, Nat.sub_eq_zero_of_le (Nat.le_succ _),
        Nat.add_sub_cancel_left]
      rfl
    · show (g.storage.resizeRows (g.storage.len + 1) g.cols t).len - g.rows = g.scrollbackLen + 1
      rw [Storage.len_resizeRows]
      omega
  · rw [if_neg hroom]
    have hturn : ∃ b, ((g.storage.rotateUp 1).recycle ((g.storage.rotateUp 1).len - 1) t).logical =
        (g.lines ++ [b]).drop 1 := by
      rw [Storage.logical_rotateUp_recycle _ t (by omega)]
      cases hl : g.storage.logical with
      | nil =>
        have := g.storage.length_logical
        rw [hl] at this
        simp at this
        omega
      | cons a l => exact ⟨a.reset t g.storage.nextId, by simp [lines, hl]⟩
    obtain ⟨b, hb⟩ := hturn
    have hk : ((g.storage.rotateUp 1).recycle ((g.storage.rotateUp 1).len - 1) t).len - g.rows =
        g.scrollbackLen := by
      rw [← Storage.length_logical, hb]
      simp only [lines, List.length_drop, List.length_append, List.length_singleton,
        Storage.length_logical]
      omega
    refine ⟨_, 1, b, rfl, .inr ⟨Nat.le_of_not_lt hroom, rfl⟩, ?_⟩
    split
    · exact ⟨hb, rfl, rfl, hk⟩
    · exact ⟨hb, rfl, rfl, hk⟩

theorem scrollScreenUp1_spec (hs : g.Shape) (t : Cell) :
    ∃ (gone : Nat) (b : Row), (g.scrollbackLen < g.scrollbackLimit ∧ gone = 0 ∨
        g.scrollbackLimit ≤ g.scrollbackLen ∧ gone = 1) ∧
      (g.scrollScreenUp1 t).lines = (g.lines ++ [b]).drop gone ∧
      (g.scrollScreenUp1 t).scrollbackLen = g.scrollbackLen + 1 - gone ∧
      (g.scrollScreenUp1 t).displayOffset = if g.displayOffset = 0 then 0 else
        min (g.displayOffset + 1) (g.scrollScreenUp1 t).scrollbackLen := by
  obtain ⟨g₁, gone, b, heq, hgone, hlines, hlen, hd, hmax⟩ := scrollScreenUp1_cases hs t
  refine ⟨gone, b, hgone, ?_⟩
  rw [heq, hmax, hd]
  by_cases h0 : g.displayOffset = 0
  · rw [if_neg (by omega), if_pos h0]
    exact ⟨hlines, hlen, hd.trans h0⟩
  · rw [if_pos (by omega), if_neg h0]
    exact ⟨hlines, hlen, rfl⟩

theorem frame_scrollScreenUp1 (g : Grid) (t : Cell) :
    (g.scrollScreenUp1 t).scrollbackLimit = g.scrollbackLimit ∧
      (g.scrollScreenUp1 t).restatementOpen = g.restatementOpen ∧
      (g.scrollScreenUp1 t).region = g.region := by
  unfold scrollScreenUp1
  dsimp only
  split <;> split <;> first | exact ⟨rfl, rfl, rfl⟩ | split <;> exact ⟨rfl, rfl, rfl⟩

theorem frame_scrollScreenUp (t : Cell) (n : Nat) (g : Grid) :
    (g.scrollScreenUp t n).settledPull = g.settledPull ∧
      (g.scrollScreenUp t n).restatementOpen = g.restatementOpen ∧
      (g.scrollScreenUp t n).region = g.region := by
  induction n generalizing g with
  | zero => exact ⟨rfl, rfl, rfl⟩
  | succ n ih =>
    obtain ⟨hp, ho, hr⟩ := ih (g.scrollScreenUp1 t)
    obtain ⟨-, ho', hr'⟩ := g.frame_scrollScreenUp1 t
    exact ⟨hp.trans (settledPull_scrollScreenUp1 g t), ho.trans ho', hr.trans hr'⟩

/-! ## A grid only the remote door writes -/

/-- In shape and in bounds; the region is the whole screen and no repaint is
in hand. -/
structure Held (cols rows : Nat) (g : Grid) : Prop where
  cols : g.cols = cols
  rows : g.rows = rows
  shape : g.Shape
  within : g.Within
  settled : g.settledPull = 0
  closed : g.restatementOpen = false
  region : g.region = ScrollRegion.full g.rows

namespace Held

variable {cols rows : Nat} {g g' : Grid}

theorem of_kept {limit : Nat} (h : g.Held cols rows) (hk : g'.Kept limit) (hc : g'.cols = g.cols)
    (hr : g'.rows = g.rows) (hp : g'.settledPull = g.settledPull)
    (ho : g'.restatementOpen = g.restatementOpen) (hg : g'.region = g.region) :
    g'.Held cols rows :=
  ⟨hc.trans h.cols, hr.trans h.rows, hk.shape, hk.within, hp.trans h.settled, ho.trans h.closed,
    by rw [hg, h.region, hr]⟩

theorem kept (h : g.Held cols rows) : g.Kept g.scrollbackLimit := ⟨h.shape, h.within, rfl⟩

theorem of_evolves (h : g.Held cols rows) (he : g.Evolves g') (hp : g'.settledPull = 0)
    (ho : g'.restatementOpen = false) (hg : g'.region = g.region) : g'.Held cols rows :=
  ⟨he.cols.trans h.cols, he.rows.trans h.rows, he.shape h.shape, he.within h.shape h.within, hp, ho,
    by rw [hg, h.region, he.rows]⟩

theorem modifyRow (h : g.Held cols rows) (i : Nat) (f : Row → Row)
    (hf : ∀ r, (f r).cells.length = r.cells.length) : (g.modifyRow i f).Held cols rows :=
  h.of_kept (h.kept.modifyRow i f hf) rfl rfl rfl rfl rfl

/-- Editing a row, if it is one: the screen's place is edited and history is
left alone. -/
theorem rowEdit (h : g.Held cols rows) (i : Nat) (f : Row → Row)
    (hf : ∀ r, (f r).cells.length = r.cells.length) :
    (RemoteWriter.rowEdit i f g).Held cols rows ∧
      (RemoteWriter.rowEdit i f g).history = g.history ∧
      (RemoteWriter.rowEdit i f g).screen = g.screen.modify i f := by
  unfold RemoteWriter.rowEdit
  split
  · next hi => exact ⟨h.modifyRow i f hf, split_modifyRow h.shape hi f⟩
  · next hi =>
    refine ⟨h, rfl, (List.modify_eq_self ?_).symm⟩
    rw [h.shape.length_screen]
    exact Nat.le_of_not_lt hi

theorem setNextLineId (h : g.Held cols rows) (id : LineId) :
    (g.setNextLineId id).Held cols rows :=
  ⟨h.cols, h.rows, ⟨h.shape.1, h.shape.2, h.shape.3, h.shape.4⟩, { h.within with }, h.settled,
    h.closed, h.region⟩

theorem setCursor (h : g.Held cols rows) (c : Cursor) (hr : c.row < rows) (hc : c.col < cols) :
    ({ g with cursor := c } : Grid).Held cols rows :=
  ⟨h.cols, h.rows, ⟨h.shape.1, h.shape.2, h.shape.3, h.shape.4⟩,
    { h.within with row := by rw [h.rows]; exact hr, col := by rw [h.cols]; exact hc },
    h.settled, h.closed, h.region⟩

theorem setViewportRestatedElsewhere (h : g.Held cols rows) (yes : Bool) :
    (g.setViewportRestatedElsewhere yes).Held cols rows :=
  ⟨h.cols, h.rows, ⟨h.shape.1, h.shape.2, h.shape.3, h.shape.4⟩, { h.within with }, h.settled,
    h.closed, h.region⟩

theorem dropScrollbackRows (h : g.Held cols rows) (named : List LineId) :
    (g.dropScrollbackRows named).1.Held cols rows := by
  obtain ⟨s, kept, _, heq, _⟩ := g.dropScrollbackRows_spec named h.shape h.within.offset
  have hk := h.kept.dropScrollbackRows named
  rw [heq] at hk ⊢
  exact h.of_kept hk rfl rfl rfl rfl rfl

theorem pushHistory (h : g.Held cols rows) (page : List (LineId × List Cell × Bool)) :
    (g.pushHistory page).Held cols rows := by
  obtain ⟨s, n, heq, _⟩ := g.pushHistory_spec page
  have hk := h.kept.pushHistory page h.settled
  rw [heq] at hk ⊢
  exact h.of_kept hk rfl rfl rfl rfl rfl

theorem clearHistory (h : g.Held cols rows) : g.clearHistory.Held cols rows := by
  obtain ⟨hc, hr, _⟩ := frame_clearHistory g
  refine h.of_kept h.kept.clearHistory hc hr ?_ ?_ ?_
  · unfold Grid.clearHistory
    dsimp only
    split <;> rfl
  · unfold Grid.clearHistory
    dsimp only
    split <;> rfl
  · unfold Grid.clearHistory
    dsimp only
    split <;> rfl

theorem bankViewportTop (h : g.Held cols rows) (n : Nat) (t : Cell) :
    (g.bankViewportTop n t).Held cols rows := by
  have he := evolves_bankViewportTop g n t h.settled
  by_cases hn : n = 0
  · unfold Grid.bankViewportTop
    rw [if_pos hn]
    exact h
  · obtain ⟨s, sb, heq, _⟩ := g.bankViewportTop_cases hn t
    rw [heq] at he ⊢
    exact h.of_evolves he h.settled h.closed rfl

theorem cancelRestateDebt (h : g.Held cols rows) : g.cancelRestateDebt.Held cols rows :=
  h.of_evolves (evolves_cancelRestateDebt g) rfl rfl rfl

theorem of_edits (h : g.Held cols rows) {s : Storage} (hs : g.storage.Edits s) :
    ({ g with storage := s } : Grid).Held cols rows :=
  h.of_evolves (Evolves.of_edits hs) h.settled h.closed rfl

theorem eraseInRow (h : g.Held cols rows) (row start stop : Nat) (t : Cell) :
    (g.eraseInRow row start stop t).Held cols rows := by
  refine h.of_evolves (evolves_eraseInRow g row start stop t) ?_ ?_ ?_
  · unfold Grid.eraseInRow
    dsimp only
    split <;> exact h.settled
  · unfold Grid.eraseInRow
    dsimp only
    split <;> exact h.closed
  · unfold Grid.eraseInRow
    dsimp only
    split <;> rfl

/-- A scroll of the whole screen is a turn of the ring for each row. -/
theorem scrollUp_eq (h : g.Held cols rows) {n : Nat} (hn : n ≠ 0) (t : Cell) :
    g.scrollUp n t = g.cancelRestateDebt.scrollScreenUp t (min n rows) := by
  have hpos := h.shape.rows_pos
  have hfull : g.region.top = 0 ∧ g.region.bottom = g.rows - 1 := by
    rw [h.region]
    exact ⟨rfl, rfl⟩
  have hrows : g.region.bottom - g.region.top + 1 = rows := by
    rw [hfull.1, hfull.2, ← h.rows]
    omega
  unfold Grid.scrollUp
  rw [if_neg hn, hrows]
  simp [h.closed, hfull.1, hfull.2]

theorem scrollUp (h : g.Held cols rows) (n : Nat) (t : Cell) : (g.scrollUp n t).Held cols rows := by
  by_cases hn : n = 0
  · unfold Grid.scrollUp
    rw [if_pos hn]
    exact h
  · have he := evolves_scrollUp g n t
    rw [h.scrollUp_eq hn] at he ⊢
    obtain ⟨hp, ho, hr⟩ := frame_scrollScreenUp t (min n rows) g.cancelRestateDebt
    exact h.of_evolves he hp ho hr

theorem scrollDown (h : g.Held cols rows) (n : Nat) (t : Cell) :
    (g.scrollDown n t).Held cols rows := by
  by_cases hn : n = 0
  · unfold Grid.scrollDown
    rw [if_pos hn]
    exact h
  · obtain ⟨s, hs, heq⟩ := g.scrollDown_edits hn t
    rw [heq]
    exact h.cancelRestateDebt.of_edits hs

/-- A scroll of less than the screen moves cells in place; the region it
sets for that is put back. -/
theorem scrollPart (h : g.Held cols rows) {top bottom : Nat}
    (hpart : ¬ (top = 0 ∧ bottom + 1 ≥ g.rows)) (n : Nat) (t : Cell) :
    ({ ({ g with region := { top := top, bottom := min bottom (g.rows - 1) } } : Grid).scrollUp n t
        with region := g.region } : Grid).Held cols rows ∧
      ({ ({ g with region := { top := top, bottom := min bottom (g.rows - 1) } } : Grid).scrollDown
        n t with region := g.region } : Grid).Held cols rows := by
  have hpos := h.shape.rows_pos
  by_cases hn : n = 0
  · unfold Grid.scrollUp Grid.scrollDown
    rw [if_pos hn, if_pos hn]
    exact ⟨h, h⟩
  · constructor
    · have hfull : ¬ (top = 0 ∧ min bottom (g.rows - 1) = g.rows - 1) := by omega
      obtain ⟨s, hs, heq⟩ := scrollRegionUp_edits
        ({ g with region := { top := top, bottom := min bottom (g.rows - 1) } } :
          Grid).cancelRestateDebt (min n (min bottom (g.rows - 1) - top + 1)) t
      unfold Grid.scrollUp
      rw [if_neg hn]
      simp only [decide_eq_false hfull, Bool.and_false, Bool.false_eq_true, if_false]
      rw [heq]
      exact h.cancelRestateDebt.of_edits hs
    · obtain ⟨s, hs, heq⟩ := scrollDown_edits
        ({ g with region := { top := top, bottom := min bottom (g.rows - 1) } } : Grid) hn t
      rw [heq]
      exact h.cancelRestateDebt.of_edits hs

end Held

/-! ## Resizing it -/

theorem frame_resizeWidth (g : Grid) (cols : Nat) (t : Cell) :
    (g.resizeWidth cols t).1.restatementOpen = g.restatementOpen ∧
      (g.settledPull = 0 → (g.resizeWidth cols t).1.settledPull = 0) := by
  unfold resizeWidth
  split
  · exact ⟨rfl, id⟩
  · dsimp only
    split
    · exact ⟨rfl, fun _ => rfl⟩
    · unfold reflow
      dsimp only
      split <;> exact ⟨rfl, fun _ => rfl⟩

theorem frame_resizeHeight (g : Grid) (cols rows : Nat) (t : Cell) :
    (g.resizeHeight cols rows t).restatementOpen = g.restatementOpen ∧
      (g.settledPull = 0 → (g.resizeHeight cols rows t).settledPull = 0) := by
  unfold resizeHeight
  split
  · exact ⟨rfl, id⟩
  · dsimp only
    split
    · unfold shrinkRows
      dsimp only
      split
      · split
        · exact ⟨rfl, fun h => by rw [h, Nat.zero_sub]⟩
        · exact ⟨rfl, fun h => by rw [h, Nat.zero_sub]⟩
      · exact ⟨rfl, id⟩
    · split <;> exact ⟨rfl, id⟩

namespace Held

variable {cols rows : Nat} {g g' : Grid}

theorem resize (h : g.Held cols rows) (newCols newRows : Nat) (t : Cell) :
    (g.resize newCols newRows t).1.Held (max newCols 1) (max newRows 1) := by
  have hr := resized_resize g newCols newRows t h.shape
  refine ⟨hr.cols, hr.rows, hr.shape, hr.within h.within, ?_, ?_, ?_⟩
  · unfold Grid.resize
    dsimp only
    split
    · exact h.settled
    · dsimp only
      refine (frame_resizeHeight _ _ _ _).2 ((frame_resizeWidth _ _ _).2 ?_)
      split <;> exact h.settled
  · unfold Grid.resize
    dsimp only
    split
    · exact h.closed
    · dsimp only
      rw [(frame_resizeHeight _ _ _ _).1, (frame_resizeWidth _ _ _).1]
      split <;> exact h.closed
  · unfold Grid.resize
    dsimp only
    split
    · exact h.region
    · rfl

theorem new (cols rows limit : Nat) :
    (Grid.new cols rows limit).Held (max cols 1) (max rows 1) :=
  ⟨rfl, rfl, shape_new _ _ _, within_new _ _ _, rfl, rfl, rfl⟩

theorem clearAll (h : g.Held cols rows) (t : Cell) : (g.clearAll t).Held cols rows := by
  have hrows (l : List Nat) {g : Grid} (hg : g.Held cols rows) :
      (l.foldl (fun g row => g.eraseInRow row 0 (g.cols - 1) t) g).Held cols rows := by
    induction l generalizing g with
    | nil => exact hg
    | cons row l ih => exact ih (hg.eraseInRow row 0 (g.cols - 1) t)
  have he := evolves_clearAll g t
  exact ⟨he.cols.trans h.cols, he.rows.trans h.rows, he.shape h.shape, he.within h.shape h.within,
    rfl, rfl, rfl⟩

end Held

end Grid

/-! ## Both screens -/

namespace TermState

theorem setAltScreen_same {s : TermState} {enable : Bool} (h : enable = s.altGrid.isSome) :
    s.setAltScreen enable = s := by
  unfold setAltScreen
  rw [if_pos h]

theorem setAltScreen_enter {s : TermState} (h : s.altGrid = none) :
    s.setAltScreen true =
      ({ s with altGrid := some s.freshAlt, modes := s.modes.union .altScreen } :
        TermState).syncKittyModes.touchFull := by
  unfold setAltScreen
  rw [h]
  rfl

theorem setAltScreen_leave {s : TermState} (h : s.altGrid ≠ none) :
    s.setAltScreen false =
      ({ s with altGrid := none, modes := s.modes.remove .altScreen } :
        TermState).syncKittyModes.touchFull := by
  unfold setAltScreen
  rw [Option.isSome_iff_ne_none.mpr h]
  rfl

/-- Switching leaves the screen that was asked for. -/
theorem isSome_setAltScreen (s : TermState) (enable : Bool) :
    (s.setAltScreen enable).altGrid.isSome = enable := by
  by_cases hsame : enable = s.altGrid.isSome
  · rw [setAltScreen_same hsame]
    exact hsame.symm
  · cases enable with
    | true =>
      rw [setAltScreen_enter (by simpa using hsame), (screens_syncKittyModes _).2.1]
      rfl
    | false =>
      rw [setAltScreen_leave (by simpa using hsame), (screens_syncKittyModes _).2.1]
      rfl

/-- A terminal that only the remote door writes, of a given size. -/
structure Replica (cols rows : Nat) (s : TermState) : Prop where
  primary : s.grid.Held cols rows
  alt : ∀ g, s.altGrid = some g → g.Held cols rows
  flag : s.AltFlag

namespace Replica

variable {cols rows : Nat} {s s' : TermState}

theorem active (h : s.Replica cols rows) : s.activeGrid.Held cols rows := by
  unfold activeGrid
  cases ha : s.altGrid with
  | none => exact h.primary
  | some g => exact h.alt g ha

/-- The same two screens. -/
theorem of_frame (h : s.Replica cols rows) (hg : s'.grid = s.grid) (ha : s'.altGrid = s.altGrid)
    (hf : s'.modes.contains .altScreen = s.modes.contains .altScreen) : s'.Replica cols rows :=
  ⟨hg ▸ h.primary, fun g hg' => h.alt g (ha ▸ hg'), by
    have := h.flag
    unfold AltFlag at this ⊢
    rw [hf, this, ha]⟩

theorem modifyGrid (h : s.Replica cols rows) {f : Grid → Grid}
    (hf : (f s.activeGrid).Held cols rows) : (s.modifyGrid f).Replica cols rows := by
  cases ha : s.altGrid with
  | none =>
    rw [activeGrid_of_none ha] at hf
    rw [modifyGrid_of_none ha]
    exact ⟨hf, h.alt, h.flag⟩
  | some g =>
    rw [activeGrid_of_some ha] at hf
    rw [modifyGrid_of_some ha]
    refine ⟨h.primary, fun g' hg' => Option.some.inj hg' ▸ hf, ?_⟩
    have := h.flag
    unfold AltFlag at this ⊢
    rw [this, ha]
    rfl

theorem edited (h : s.Replica cols rows) {f : Grid → Grid} (he : s.Edited f s')
    (hf : (f s.activeGrid).Held cols rows) : s'.Replica cols rows := by
  obtain ⟨n, d, rfl⟩ := he
  exact (h.modifyGrid hf).of_frame rfl rfl rfl

theorem touch (h : s.Replica cols rows) : s.touch.Replica cols rows := h.of_frame rfl rfl rfl

theorem touchFull (h : s.Replica cols rows) : s.touchFull.Replica cols rows :=
  h.of_frame rfl rfl rfl

theorem freshAlt (h : s.Replica cols rows) : s.freshAlt.Held cols rows := by
  have hnew := Grid.Held.new s.grid.cols s.grid.rows 0
  have hc : max s.grid.cols 1 = cols := by
    have := h.primary.shape.cols_pos
    have := h.primary.cols
    omega
  have hr : max s.grid.rows 1 = rows := by
    have := h.primary.shape.rows_pos
    have := h.primary.rows
    omega
  rw [hc, hr] at hnew
  exact (hnew.clearAll s.template).setViewportRestatedElsewhere _

/-- The keyboard flags are no part of a screen. -/
theorem syncKittyModes (h : s.Replica cols rows) : s.syncKittyModes.touchFull.Replica cols rows := by
  obtain ⟨hg, ha, _⟩ := screens_syncKittyModes s
  exact ⟨by rw [hg]; exact h.primary, fun g hg' => h.alt g (by rw [← ha]; exact hg'),
    flag_syncKittyModes h.flag⟩

theorem setAltScreen (h : s.Replica cols rows) (enable : Bool) :
    (s.setAltScreen enable).Replica cols rows := by
  by_cases hsame : enable = s.altGrid.isSome
  · rw [setAltScreen_same hsame]
    exact h
  · cases enable with
    | true =>
      rw [setAltScreen_enter (by simpa using hsame)]
      refine Replica.syncKittyModes ⟨h.primary, fun g hg => ?_, ?_⟩
      · exact Option.some.inj hg ▸ h.freshAlt
      · exact (contains_set_altScreen s.modes).1
    | false =>
      rw [setAltScreen_leave (by simpa using hsame)]
      refine Replica.syncKittyModes ⟨h.primary, fun g hg => ?_, ?_⟩
      · cases hg
      · exact (contains_set_altScreen s.modes).2

theorem resizeScreens (h : s.Replica cols rows) (newCols newRows : Nat) :
    (s.resizeScreens newCols newRows).1.Replica (max newCols 1) (max newRows 1) := by
  refine ⟨h.primary.resize _ _ _, fun g hg => ?_, ?_⟩
  · obtain ⟨a, ha, rfl⟩ := Option.map_eq_some_iff.mp hg
    exact (h.alt a ha).resize _ _ _
  · have := h.flag
    unfold AltFlag at this ⊢
    simpa [TermState.resizeScreens] using this

theorem resize (h : s.Replica cols rows) (newCols newRows : Nat) :
    (s.resize newCols newRows).Replica (max newCols 1) (max newRows 1) := by
  have hscreens := h.resizeScreens newCols newRows
  have hrebase (k : Nat) :
      ((s.resizeScreens newCols newRows).1.rebase k).Replica (max newCols 1) (max newRows 1) := by
    unfold TermState.rebase
    split
    · exact ⟨hscreens.primary.bankViewportTop _ _, hscreens.alt, hscreens.flag⟩
    · exact hscreens
  have hanchor {s : TermState} (hs : s.Replica (max newCols 1) (max newRows 1)) (x : Reindex) :
      (s.reanchorBlocks x).Replica (max newCols 1) (max newRows 1) := by
    unfold TermState.reanchorBlocks
    split
    · exact hs.of_frame rfl rfl rfl
    · exact hs
  exact (hanchor (hrebase _) _).of_frame rfl rfl rfl

end Replica

end TermState

namespace RemoteWriter

variable {cols rows : Nat} {s : TermState}

/-! ## Every method keeps both screens -/

theorem replica_scroll (h : s.Replica cols rows) (top bottom : Nat) (lines : Int) :
    (scroll s top bottom lines).Replica cols rows := by
  unfold scroll
  split
  · exact h
  · dsimp only
    refine (h.modifyGrid ?_).touchFull
    by_cases hfull : top = 0 ∧ bottom + 1 ≥ s.activeGrid.rows
    · simp only [decide_eq_true hfull, if_true]
      split
      · exact h.active.scrollUp _ _
      · exact h.active.scrollDown _ _
    · simp only [decide_eq_false hfull, Bool.false_eq_true, if_false]
      obtain ⟨hup, hdown⟩ := h.active.scrollPart hfull lines.toNat s.template
      obtain ⟨hup', hdown'⟩ := h.active.scrollPart hfull (-lines).toNat s.template
      split
      · exact hup
      · exact hdown'

theorem replica_erase (h : s.Replica cols rows) (top left bottom right : Nat) (template : Cell) :
    (erase s top left bottom right template).Replica cols rows := by
  have hfold (l : List Nat) (start stop : Nat) {g : Grid} (hg : g.Held cols rows) :
      (l.foldl (fun g row => g.eraseInRow row start stop template) g).Held cols rows := by
    induction l generalizing g with
    | nil => exact hg
    | cons row l ih => exact ih (hg.eraseInRow row start stop template)
  unfold erase
  dsimp only
  split
  · exact h
  · exact (h.modifyGrid (hfold _ _ _ h.active)).touch

theorem replica_prependHistory (h : s.Replica cols rows)
    (page : List (LineId × List Cell × Bool)) : (prependHistory s page).Replica cols rows := by
  unfold prependHistory
  split
  · exact h
  · exact (h.modifyGrid (h.active.pushHistory page)).touchFull

theorem replica_dropHistory (h : s.Replica cols rows) (named : List LineId) :
    (dropHistory s named).Replica cols rows := by
  have hs := h.modifyGrid (f := fun g => (g.dropScrollbackRows named).1)
    (h.active.dropScrollbackRows named)
  unfold dropHistory
  dsimp only
  split
  · exact hs.touchFull
  · exact hs

theorem replica_bankDisplaced (h : s.Replica cols rows) (n : Nat) :
    (bankDisplaced s n).Replica cols rows := by
  unfold bankDisplaced
  split
  · exact h
  · exact (h.modifyGrid (h.active.bankViewportTop _ _)).touchFull

theorem replica_clearHistory (h : s.Replica cols rows) : (clearHistory s).Replica cols rows :=
  TermState.Replica.touchFull ⟨h.primary.clearHistory, h.alt, h.flag⟩

theorem replica_syncNextLineId (h : s.Replica cols rows) (next : LineId) :
    (syncNextLineId s next).Replica cols rows := h.modifyGrid (h.active.setNextLineId next)

theorem replica_setCursor (h : s.Replica cols rows) (row col : Nat) :
    (setCursor s row col).Replica cols rows := by
  have hr := h.active.shape.rows_pos
  have hc := h.active.shape.cols_pos
  refine (h.modifyGrid (h.active.setCursor _ ?_ ?_)).touch
  · rw [← h.active.rows]
    exact (Nat.min_le_right _ _).trans_lt (Nat.sub_lt hr Nat.one_pos)
  · rw [← h.active.cols]
    exact (Nat.min_le_right _ _).trans_lt (Nat.sub_lt hc Nat.one_pos)

theorem replica_setCursorStyle (h : s.Replica cols rows) (style : CursorStyle) :
    (setCursorStyle s style).Replica cols rows := h.of_frame rfl rfl rfl

theorem replica_setTitle (h : s.Replica cols rows) (title : Str) :
    (setTitle s title).Replica cols rows := h.of_frame rfl rfl rfl

/-- Entering and leaving, the flag and the screen go together. -/
theorem replica_setModes (h : s.Replica cols rows) (modes : Modes) :
    (setModes s modes).Replica cols rows := by
  have hflag := h.flag
  unfold TermState.AltFlag at hflag
  unfold setModes
  dsimp only
  split
  · have hset := h.setAltScreen (modes.contains .altScreen)
    refine ⟨hset.primary, hset.alt, ?_⟩
    have halt : (s.setAltScreen (modes.contains .altScreen)).altGrid.isSome =
        modes.contains .altScreen := TermState.isSome_setAltScreen s _
    exact halt.symm
  · next hsame =>
    have hsame : modes.contains .altScreen = s.modes.contains .altScreen := not_not.mp hsame
    refine ⟨h.primary, h.alt, ?_⟩
    show modes.contains .altScreen = s.altGrid.isSome
    rw [hsame, hflag]

theorem replica_resize (h : s.Replica cols rows) (newCols newRows : Nat) :
    (resize s newCols newRows).Replica (max newCols 1) (max newRows 1) := by
  have hmarked : (s.setViewportRestatedElsewhere true).Replica cols rows := by
    refine ⟨h.primary.setViewportRestatedElsewhere _, fun g hg => ?_, ?_⟩
    · obtain ⟨a, ha, rfl⟩ := Option.map_eq_some_iff.mp hg
      exact (h.alt a ha).setViewportRestatedElsewhere _
    · have := h.flag
      unfold TermState.AltFlag at this ⊢
      simpa [TermState.setViewportRestatedElsewhere] using this
  exact hmarked.resize newCols newRows

theorem replica_upsertBlock (h : s.Replica cols rows) (block : Block) :
    (upsertBlock s block).Replica cols rows := h.of_frame rfl rfl rfl

theorem replica_dropBlocksFrom (h : s.Replica cols rows) (first : BlockId) :
    (dropBlocksFrom s first).Replica cols rows := h.of_frame rfl rfl rfl

theorem replica_setSeq (h : s.Replica cols rows) (seq : Nat) : (setSeq s seq).Replica cols rows :=
  h.of_frame rfl rfl rfl

theorem replica_markFull (h : s.Replica cols rows) : (markFull s).Replica cols rows :=
  h.touchFull

end RemoteWriter

end Zesterm
