/-
Zesterm.Core.OriginTheorems — origin mode and the region.

In origin mode rows are counted from the top of the scroll region, and the
cursor is meant to stay in it: `goto` clamps to it, a line feed stops at its
bottom, and a cursor position report subtracts its top. `Inside` says that
it does, and each operation is asked what it takes to keep that.

Four things can carry the cursor out. DECRC brings back a row and the mode
without a look at the region; leaving the alternate screen brings back the
primary's cursor beside a mode that was set since; and on a restating pty a
pull taken back or paid out moves the cursor with its rows.
`Action.OriginSafe` is what keeps an action from that, and `origin_inside`
the run.
-/
import Zesterm.Core.CommandTheorems
import Zesterm.Core.OscTheorems

namespace Zesterm

namespace Grid

/-- A row of the region. -/
def InRegion (g : Grid) (row : Nat) : Prop := g.region.top ≤ row ∧ row ≤ g.region.bottom

/-- The cursor's row and the region stay, and no pull becomes provisional. -/
structure Rests (g g' : Grid) : Prop where
  region : g'.region = g.region
  row : g'.cursor.row = g.cursor.row
  pull : g'.needsStrand = true → g.needsStrand = true ∧ g'.settledPull = g.settledPull

namespace Rests

variable {g g' g'' : Grid}

theorem refl (g : Grid) : g.Rests g := ⟨rfl, rfl, fun h => ⟨h, rfl⟩⟩

theorem trans (h : g.Rests g') (h' : g'.Rests g'') : g.Rests g'' := by
  refine ⟨h'.region.trans h.region, h'.row.trans h.row, fun hs => ?_⟩
  obtain ⟨hs', hp'⟩ := h'.pull hs
  obtain ⟨hs, hp⟩ := h.pull hs'
  exact ⟨hs, hp'.trans hp⟩

/-- The fields in question are the same. -/
theorem of_frame (hr : g'.region = g.region) (hc : g'.cursor.row = g.cursor.row)
    (hp : g'.settledPull = g.settledPull) (ho : g'.restatementOpen = g.restatementOpen) :
    g.Rests g' := by
  refine ⟨hr, hc, fun h => ⟨?_, hp⟩⟩
  rwa [needsStrand, hp, ho] at h

/-- Nothing is owed afterwards. -/
theorem of_paid (hr : g'.region = g.region) (hc : g'.cursor.row = g.cursor.row)
    (hp : g'.settledPull = 0) : g.Rests g' := by
  refine ⟨hr, hc, fun h => ?_⟩
  simp [needsStrand, hp] at h

theorem foldl {β : Type} (f : Grid → β → Grid) (hf : ∀ (g : Grid) b, g.Rests (f g b)) :
    ∀ (l : List β) (g : Grid), g.Rests (l.foldl f g)
  | [], g => refl g
  | b :: l, g => (hf g b).trans (foldl f hf l (f g b))

end Rests

variable (g : Grid)

theorem rests_modifyRow (row : Nat) (f : Row → Row) : g.Rests (g.modifyRow row f) :=
  .of_frame rfl rfl rfl rfl

theorem rests_setCell (row col : Nat) (c : Cell) : g.Rests (g.setCell row col c) :=
  rests_modifyRow g row _

theorem rests_setWrapped (row : Nat) (w : Bool) : g.Rests (g.setWrapped row w) :=
  rests_modifyRow g row _

theorem rests_eraseInRow (row start stop : Nat) (t : Cell) :
    g.Rests (g.eraseInRow row start stop t) := by
  unfold eraseInRow
  dsimp only
  split
  · have hseen : g.Rests { g with restateRowsSeen := max g.restateRowsSeen (row + 1) } :=
      .of_frame rfl rfl rfl rfl
    exact hseen.trans (rests_modifyRow _ row _)
  · exact rests_modifyRow g row _

theorem rests_eraseRows (first last : Nat) (t : Cell) : g.Rests (g.eraseRows first last t) :=
  Rests.foldl _ (fun g row => rests_eraseInRow g row _ _ t) _ g

theorem rests_insertCells (n : Nat) (t : Cell) : g.Rests (g.insertCells n t) :=
  rests_modifyRow g _ _

theorem rests_deleteCells (n : Nat) (t : Cell) : g.Rests (g.deleteCells n t) :=
  rests_modifyRow g _ _

theorem rests_cancelRestateDebt : g.Rests g.cancelRestateDebt := .of_paid rfl rfl rfl

theorem rests_clearHistory : g.Rests g.clearHistory := by
  unfold clearHistory
  dsimp only
  split <;> exact .of_frame rfl rfl rfl rfl

theorem rests_scrollScreenUp1 (t : Cell) : g.Rests (g.scrollScreenUp1 t) := by
  unfold scrollScreenUp1
  dsimp only
  split <;> split <;> try split
  all_goals exact .of_frame rfl rfl rfl rfl

theorem rests_scrollScreenUp (t : Cell) : ∀ (n : Nat) (g : Grid), g.Rests (g.scrollScreenUp t n)
  | 0, g => Rests.refl g
  | n + 1, g => (rests_scrollScreenUp1 g t).trans (rests_scrollScreenUp t n (g.scrollScreenUp1 t))

theorem rests_scrollUp (n : Nat) (t : Cell) : g.Rests (g.scrollUp n t) := by
  unfold scrollUp
  split
  · exact Rests.refl g
  · dsimp only
    split
    · exact .of_frame rfl rfl rfl rfl
    · have hcancel := rests_cancelRestateDebt g
      split
      · exact hcancel.trans (rests_scrollScreenUp t _ _)
      · exact hcancel.trans (.of_frame rfl rfl rfl rfl)

theorem rests_scrollDown (n : Nat) (t : Cell) : g.Rests (g.scrollDown n t) := by
  unfold scrollDown
  split
  · exact Rests.refl g
  · exact (rests_cancelRestateDebt g).trans (.of_frame rfl rfl rfl rfl)

/-- An operation done with another region, which is put back. -/
theorem Rests.within_region {g g' : Grid} (r : ScrollRegion)
    (h : { g with region := r }.Rests g') : g.Rests { g' with region := g.region } :=
  ⟨rfl, h.row, h.pull⟩

theorem rests_insertLines (n : Nat) (t : Cell) : g.Rests (g.insertLines n t) := by
  unfold insertLines
  split
  · exact Rests.within_region _ (rests_scrollDown _ n t)
  · exact Rests.refl g

theorem rests_deleteLines (n : Nat) (t : Cell) : g.Rests (g.deleteLines n t) := by
  unfold deleteLines
  split
  · exact Rests.within_region _ (rests_scrollUp _ n t)
  · exact Rests.refl g

/-! ## A pull paid out and taken back -/

/-- The rows a settle brings down. -/
def pulled (g : Grid) : Nat :=
  if g.restateRowsSeen ≥ g.rows then
    min (min (min g.pendingRestate g.blankTail) (g.rows - 1 - min g.cursor.row (g.rows - 1)))
      g.scrollbackLen
  else 0

theorem settleRestate_lowers :
    g.settleRestate.1.region = g.region ∧
      g.settleRestate.1.cursor.row = g.cursor.row + g.pulled := by
  unfold settleRestate pulled
  by_cases hcovered : g.restateRowsSeen ≥ g.rows
  · rw [if_pos hcovered]
    simp only [hcovered, decide_true, Bool.not_true, Bool.false_eq_true, if_false]
    generalize hk : min (min (min g.endRestatementWindow.pendingRestate
      g.endRestatementWindow.blankTail) (g.endRestatementWindow.rows - 1 -
        min g.endRestatementWindow.cursor.row (g.endRestatementWindow.rows - 1)))
      g.endRestatementWindow.scrollbackLen = k
    have hk' : min (min (min g.pendingRestate g.blankTail)
        (g.rows - 1 - min g.cursor.row (g.rows - 1))) g.scrollbackLen = k := hk
    rw [hk']
    split
    · next h0 => exact ⟨rfl, by rw [h0]; rfl⟩
    · exact ⟨rfl, rfl⟩
  · rw [if_neg hcovered]
    simp only [hcovered, decide_false, Bool.not_false, if_true]
    exact ⟨rfl, rfl⟩

theorem strandSettled_moves (t : Cell) :
    (g.strandSettled t).1.region = g.region ∧
      (g.strandSettled t).1.cursor.row = g.cursor.row - g.settledPull ∧
      (g.strandSettled t).1.settledPull = 0 := by
  unfold strandSettled
  dsimp only
  split
  · next h0 => exact ⟨rfl, by rw [h0]; rfl, rfl⟩
  · split <;> exact ⟨rfl, rfl, rfl⟩

theorem rebankSettled_moves (t : Cell) :
    (g.rebankSettled t).region = g.region ∧
      (g.rebankSettled t).cursor.row = g.cursor.row - g.settledPull := by
  unfold rebankSettled
  dsimp only
  split
  · next h0 => exact ⟨rfl, by rw [h0]; rfl⟩
  · exact ⟨rfl, rfl⟩

theorem noteRestatementBegan_moves (cols rows : Nat) (t : Cell) :
    (g.noteRestatementBegan cols rows t).region = g.region ∧
      (g.noteRestatementBegan cols rows t).cursor.row = g.cursor.row - g.settledPull := by
  have h := rebankSettled_moves { g with restatementOpen := true } t
  unfold noteRestatementBegan
  dsimp only
  split
  · exact h
  · split
    · split
      · exact h
      · exact h
    · exact h

theorem region_noteCursorHomedWhileHidden (t : Cell) :
    (g.noteCursorHomedWhileHidden t).region = g.region := by
  have h := (rebankSettled_moves { g with restatementOpen := true } t).1
  unfold noteCursorHomedWhileHidden
  dsimp only
  split
  · split
    · exact h
    · exact h
  · split <;> rfl

end Grid

namespace TermState

/-! ## The cursor inside the region -/

/-- In origin mode the cursor is in the region. -/
def Inside (s : TermState) : Prop :=
  s.modes.contains .origin = true → s.activeGrid.InRegion s.activeGrid.cursor.row

/-- In origin mode the cursor is where stranding a provisional pull leaves
it in the region. -/
def StrandsInside (s : TermState) : Prop :=
  s.modes.contains .origin = true → s.activeGrid.needsStrand = true →
    s.activeGrid.InRegion (s.activeGrid.cursor.row - s.activeGrid.settledPull)

instance (s : TermState) : Decidable s.StrandsInside :=
  inferInstanceAs (Decidable (_ → _ → _ ∧ _))

/-- Inside, and nothing is left to strand. -/
structure Calm (s : TermState) : Prop where
  inside : s.Inside
  calm : s.activeGrid.needsStrand = false

/-- `s'` is `s` with the cursor on its row and the region as it was. -/
structure Rests (s s' : TermState) : Prop where
  grid : s.activeGrid.Rests s'.activeGrid
  origin : s'.modes.contains .origin = s.modes.contains .origin

namespace Rests

variable {s s' s'' : TermState}

theorem refl (s : TermState) : s.Rests s := ⟨Grid.Rests.refl _, rfl⟩

theorem trans (h : s.Rests s') (h' : s'.Rests s'') : s.Rests s'' :=
  ⟨h.grid.trans h'.grid, h'.origin.trans h.origin⟩

theorem of_frame (hg : s'.grid = s.grid) (ha : s'.altGrid = s.altGrid)
    (hm : s'.modes.contains .origin = s.modes.contains .origin) : s.Rests s' := by
  refine ⟨?_, hm⟩
  rw [activeGrid, activeGrid, hg, ha]
  exact Grid.Rests.refl _

theorem of_screens (h : s'.screens = s.screens) : s.Rests s' := by
  injection h with hg ha _ hm
  exact of_frame hg ha (by rw [hm])

theorem modifyGrid (s : TermState) (f : Grid → Grid) (hf : s.activeGrid.Rests (f s.activeGrid)) :
    s.Rests (s.modifyGrid f) :=
  ⟨by rw [activeGrid_modifyGrid]; exact hf, by rw [modes_modifyGrid]⟩

theorem modifyCursor (s : TermState) (f : Cursor → Cursor)
    (hf : (f s.activeGrid.cursor).row = s.activeGrid.cursor.row) : s.Rests (s.modifyCursor f) :=
  modifyGrid s _ (.of_frame rfl hf rfl rfl)

theorem touch (s : TermState) : s.Rests s.touch := of_frame rfl rfl rfl

theorem touchFull (s : TermState) : s.Rests s.touchFull := of_frame rfl rfl rfl

theorem pushEvent (s : TermState) (e : TermEvent) : s.Rests (s.pushEvent e) := of_frame rfl rfl rfl

theorem ite {a b : TermState} {c : Prop} [Decidable c] (ha : s.Rests a) (hb : s.Rests b) :
    s.Rests (if c then a else b) := by
  split
  · exact ha
  · exact hb

theorem foldl {β : Type} (f : TermState → β → TermState)
    (hf : ∀ (s : TermState) b, s.Rests (f s b)) :
    ∀ (l : List β) (s : TermState), s.Rests (l.foldl f s)
  | [], s => refl s
  | b :: l, s => (hf s b).trans (foldl f hf l (f s b))

theorem inside (h : s.Rests s') (hs : s.Inside) : s'.Inside := by
  intro ho
  unfold Grid.InRegion
  rw [h.grid.region, h.grid.row]
  exact hs (h.origin ▸ ho)

theorem strandsInside (h : s.Rests s') (hst : s.StrandsInside) :
    s'.StrandsInside := by
  intro ho hne
  obtain ⟨hne, hpull⟩ := h.grid.pull hne
  unfold Grid.InRegion
  rw [h.grid.region, h.grid.row, hpull]
  exact hst (h.origin ▸ ho) hne

theorem calm (h : s.Rests s') (hs : s.Calm) : s'.Calm := by
  refine ⟨h.inside hs.inside, ?_⟩
  by_contra hne
  rw [Bool.not_eq_false] at hne
  have := (h.grid.pull hne).1
  rw [hs.calm] at this
  exact Bool.false_ne_true this

end Rests

variable (s : TermState)

/-- The cursor moves to a row of the region. -/
theorem Calm.modifyCursor {s : TermState} (hs : s.Calm) (f : Cursor → Cursor)
    (hf : s.modes.contains .origin = true → s.activeGrid.InRegion (f s.activeGrid.cursor).row) :
    (s.modifyCursor f).Calm := by
  constructor
  · intro ho
    rw [TermState.modifyCursor, modes_modifyGrid] at ho
    rw [TermState.modifyCursor, activeGrid_modifyGrid]
    exact hf ho
  · rw [TermState.modifyCursor, activeGrid_modifyGrid]
    exact hs.calm

/-! ## Modes -/

theorem contains_origin_set (modes m : Modes) (on : Bool) (h : m.bits.getLsbD 1 = false) :
    (modes.set m on).contains .origin = modes.contains .origin :=
  contains_set_bit (i := 1) (by decide) (by decide) modes m on h

theorem rests_setModes (m : Modes) (on : Bool) (h : m.bits.getLsbD 1 = false) :
    s.Rests (s.setModes m on) :=
  .of_frame rfl rfl (contains_origin_set s.modes m on h)

theorem contains_origin_withKittyFlags (m : Modes) (flags : BitVec 8) :
    (m.withKittyFlags flags).contains .origin = m.contains .origin :=
  contains_withKittyFlags_bit (i := 1) (by decide) (by decide) (by decide) m flags

/-- Setting or clearing the mode itself. -/
theorem contains_origin_self (m : Modes) (on : Bool) : (m.set .origin on).contains .origin = on := by
  rw [contains_bit (i := 1) (by decide) (by decide)]
  cases on with
  | true => simp [Modes.set, Modes.union, Modes.origin]
  | false => simp [Modes.set, Modes.remove, Modes.origin]

theorem rests_syncKittyModes : s.Rests s.syncKittyModes := by
  unfold syncKittyModes
  dsimp only
  split
  · exact .of_frame rfl rfl (contains_origin_withKittyFlags _ _)
  · exact Rests.refl s

theorem rests_setKittyStack (stack : List (BitVec 8)) : s.Rests (s.setKittyStack stack) := by
  unfold setKittyStack
  split <;> exact .of_frame rfl rfl rfl

theorem rests_kittyPush (flags : BitVec 8) : s.Rests (s.kittyPush flags) :=
  (rests_setKittyStack s _).trans (rests_syncKittyModes _)

theorem rests_kittyPop (n : Nat) : s.Rests (s.kittyPop n) :=
  (rests_setKittyStack s _).trans (rests_syncKittyModes _)

theorem rests_kittySet (flags : BitVec 8) (mode : Nat) : s.Rests (s.kittySet flags mode) :=
  (rests_setKittyStack s _).trans (rests_syncKittyModes _)

theorem rests_kittyReset : s.Rests s.kittyReset :=
  (Rests.of_frame rfl rfl rfl : s.Rests { s with kittyStack := [], kittyStackAlt := [] }).trans
    (rests_syncKittyModes _)

theorem rests_saveCursor : s.Rests s.saveCursor := by
  unfold saveCursor
  dsimp only
  split <;> exact .of_frame rfl rfl rfl

theorem rests_setAnsiModes (params : Params) (enable : Bool) :
    s.Rests (s.setAnsiModes params enable) := by
  refine (Rests.foldl _ (fun s mode => ?_) _ s).trans (Rests.touch _)
  unfold setAnsiMode
  split
  · exact rests_setModes _ _ _ (by decide)
  · exact rests_setModes _ _ _ (by decide)
  · exact Rests.refl _

/-! ## Moves from where the cursor is -/

theorem strandIfDiverged_of_calm {s : TermState} (h : s.activeGrid.needsStrand = false) :
    s.strandIfDiverged = s := by
  unfold strandIfDiverged
  rw [h]
  rfl

/-- Stranding a pull is the grid's stranding, and news of it. -/
theorem activeGrid_strandIfDiverged {s : TermState} (h : s.activeGrid.needsStrand = true) :
    s.strandIfDiverged.activeGrid = (s.activeGrid.strandSettled s.template).1 ∧
      s.strandIfDiverged.modes = s.modes := by
  have hactive := activeGrid_modifyGrid s fun g => (g.strandSettled s.template).1
  have hmodes := modes_modifyGrid s fun g => (g.strandSettled s.template).1
  unfold strandIfDiverged
  rw [h]
  simp only [Bool.not_true, Bool.false_eq_true, if_false]
  split
  · exact ⟨hactive, hmodes⟩
  · exact ⟨hactive, hmodes⟩

theorem needsStrand_strandIfDiverged : s.strandIfDiverged.activeGrid.needsStrand = false := by
  cases h : s.activeGrid.needsStrand with
  | false => rw [strandIfDiverged_of_calm h, h]
  | true =>
    rw [(activeGrid_strandIfDiverged h).1]
    simp [Grid.needsStrand, (s.activeGrid.strandSettled_moves s.template).2.2]

/-- Stranding keeps the mode and the region, and never moves the cursor
down. -/
theorem strandIfDiverged_keeps :
    s.strandIfDiverged.modes = s.modes ∧
      s.strandIfDiverged.activeGrid.region = s.activeGrid.region ∧
      s.strandIfDiverged.activeGrid.cursor.row ≤ s.activeGrid.cursor.row := by
  cases h : s.activeGrid.needsStrand with
  | false => rw [strandIfDiverged_of_calm h]; exact ⟨rfl, rfl, le_refl _⟩
  | true =>
    obtain ⟨hactive, hmodes⟩ := activeGrid_strandIfDiverged h
    obtain ⟨hregion, hrow, _⟩ := s.activeGrid.strandSettled_moves s.template
    rw [hactive, hregion, hrow]
    exact ⟨hmodes, rfl, Nat.sub_le _ _⟩

/-- Stranding leaves the cursor in the region exactly when the condition on
the state before says so. -/
theorem inside_strandIfDiverged {s : TermState} (hs : s.Inside) :
    s.strandIfDiverged.Inside ↔ s.StrandsInside := by
  unfold Inside StrandsInside
  cases h : s.activeGrid.needsStrand with
  | false =>
    rw [strandIfDiverged_of_calm h]
    exact ⟨fun _ _ hne => absurd hne (by simp), fun _ => hs⟩
  | true =>
    obtain ⟨hactive, hmodes⟩ := activeGrid_strandIfDiverged h
    obtain ⟨hregion, hrow, _⟩ := s.activeGrid.strandSettled_moves s.template
    unfold Grid.InRegion
    rw [hactive, hmodes, hregion, hrow]
    exact ⟨fun hi ho _ => hi ho, fun hi ho => hi ho rfl⟩

theorem calm_strandIfDiverged {s : TermState} (hs : s.Inside) (hst : s.StrandsInside) :
    s.strandIfDiverged.Calm :=
  ⟨(inside_strandIfDiverged hs).mpr hst, needsStrand_strandIfDiverged s⟩

/-- A calm state has nothing to strand. -/
theorem Calm.strandsInside {s : TermState} (hs : s.Calm) : s.StrandsInside := fun _ hne =>
  absurd hne (by simp [hs.calm])

theorem rests_evictBlocks : s.Rests s.evictBlocks := by
  unfold evictBlocks
  dsimp only
  exact Rests.ite (.of_frame rfl rfl rfl) (Rests.refl s)

theorem rests_writeMark (ch : Char) : s.Rests (s.writeMark ch) := by
  unfold writeMark
  dsimp only
  exact Rests.ite ((Rests.modifyGrid s _ (Grid.rests_modifyRow _ _ _)).trans (Rests.touch _))
    (Rests.refl s)

theorem rests_putChar (ch : Char) (width : Nat) : s.Rests (s.putChar ch width) := by
  have hset (s : TermState) (row col : Nat) (c : Cell) :
      s.Rests (s.modifyGrid fun g => g.setCell row col c) :=
    Rests.modifyGrid s _ (Grid.rests_setCell _ _ _ _)
  have hins : s.Rests (if s.modes.contains .insert then
      s.modifyGrid fun g => g.insertCells width s.template else s) :=
    Rests.ite (Rests.modifyGrid s _ (Grid.rests_insertCells _ _ _)) (Rests.refl s)
  unfold putChar
  dsimp only
  refine Rests.trans (hins.trans ?_) (Rests.touch _)
  generalize (if s.modes.contains .insert then
    s.modifyGrid fun g => g.insertCells width s.template else s) = s₁
  refine Rests.trans ((hset s₁ s₁.activeGrid.cursor.row s₁.activeGrid.cursor.col _).trans
    (Rests.ite (hset _ s₁.activeGrid.cursor.row (s₁.activeGrid.cursor.col + 1) _) (Rests.refl _)))
    (Rests.ite (Rests.modifyCursor _ _ rfl) (Rests.modifyCursor _ _ rfl))

theorem rests_eraseInRow (row start stop : Nat) : s.Rests (s.eraseInRow row start stop) :=
  Rests.modifyGrid s _ (Grid.rests_eraseInRow _ _ _ _ _)

theorem rests_eraseRows (first last : Nat) : s.Rests (s.eraseRows first last) :=
  Rests.modifyGrid s _ (Grid.rests_eraseRows _ _ _ _)

theorem rests_eraseScreenBlocks : s.Rests s.eraseScreenBlocks := by
  unfold eraseScreenBlocks
  split
  · dsimp only
    split <;> exact .of_frame rfl rfl rfl
  · exact Rests.refl s

theorem rests_decaln : s.Rests s.decaln :=
  (Rests.foldl _ (fun s row => Rests.modifyGrid s _ (Grid.rests_modifyRow _ row _)) _ s).trans
    (Rests.touchFull _)

/-- Losing history moves nothing on the screen in use. -/
theorem rests_eraseHistory : s.Rests s.eraseHistory := by
  refine ⟨?_, rfl⟩
  unfold eraseHistory activeGrid
  show Grid.Rests (s.altGrid.getD s.grid) (s.altGrid.getD s.grid.clearHistory)
  cases s.altGrid with
  | some alt => exact Grid.Rests.refl alt
  | none => exact Grid.rests_clearHistory s.grid

section Relative

variable {s : TermState} (hs : s.Inside) (hst : s.StrandsInside)
include hs hst

theorem calm_carriageReturn : s.carriageReturn.Calm :=
  ((Rests.modifyCursor _ _ rfl).trans (Rests.touch _)).calm (calm_strandIfDiverged hs hst)

theorem calm_backspace : s.backspace.Calm :=
  ((Rests.modifyCursor _ _ rfl).trans (Rests.touch _)).calm (calm_strandIfDiverged hs hst)

theorem calm_moveLeft (n : Nat) : (s.moveLeft n).Calm :=
  ((Rests.modifyCursor _ _ rfl).trans (Rests.touch _)).calm (calm_strandIfDiverged hs hst)

theorem calm_moveRight (n : Nat) : (s.moveRight n).Calm :=
  ((Rests.modifyCursor _ _ rfl).trans (Rests.touch _)).calm (calm_strandIfDiverged hs hst)

theorem calm_tab (n : Nat) : (s.tab n).Calm :=
  ((Rests.modifyCursor _ _ rfl).trans (Rests.touch _)).calm (calm_strandIfDiverged hs hst)

theorem calm_backTab (n : Nat) : (s.backTab n).Calm :=
  ((Rests.modifyCursor _ _ rfl).trans (Rests.touch _)).calm (calm_strandIfDiverged hs hst)

/-- A line feed stops at the region's bottom. -/
theorem calm_linefeed : s.linefeed.Calm := by
  have hcalm := calm_strandIfDiverged hs hst
  unfold linefeed
  dsimp only
  refine (Rests.modifyCursor _ _ rfl).calm ?_
  split
  · have hscroll := Rests.modifyGrid s.strandIfDiverged
      (fun g => g.scrollUp 1 s.strandIfDiverged.template) (Grid.rests_scrollUp _ _ _)
    exact ((hscroll.trans (rests_evictBlocks _)).trans (Rests.touchFull _)).calm hcalm
  · next hbottom =>
    split
    · refine (Rests.touch _).calm (hcalm.modifyCursor _ fun ho => ?_)
      obtain ⟨htop, hrow⟩ := hcalm.inside ho
      exact ⟨Nat.le_succ_of_le htop, Nat.lt_of_le_of_ne hrow hbottom⟩
    · exact hcalm

/-- A reverse line feed stops at its top. -/
theorem inside_reverseIndex : s.reverseIndex.Inside := by
  have hcalm := calm_strandIfDiverged hs hst
  unfold reverseIndex
  dsimp only
  split
  · exact ((Rests.modifyGrid _ _ (Grid.rests_scrollDown _ _ _)).trans
      (Rests.touchFull _)).inside hcalm.inside
  · next htop =>
    split
    · refine (Rests.touch _).inside (hcalm.modifyCursor _ fun ho => ?_).inside
      obtain ⟨hle, hbottom⟩ := hcalm.inside ho
      show _ ≤ _ - 1 ∧ _ - 1 ≤ _
      omega
    · exact hcalm.inside

theorem calm_moveDown (n : Nat) : (s.moveDown n).Calm := by
  have hcalm := calm_strandIfDiverged hs hst
  unfold moveDown
  dsimp only
  refine (Rests.touch _).calm (hcalm.modifyCursor _ fun ho => ?_)
  obtain ⟨htop, hbottom⟩ := hcalm.inside ho
  rw [if_pos ho]
  show _ ≤ min _ _ ∧ min _ _ ≤ _
  omega

/-! ## Writing and erasing -/

theorem calm_wrapRow : s.wrapRow.Calm := by
  have hwrapped : s.Rests (s.modifyGrid fun g => g.setWrapped s.activeGrid.cursor.row true) :=
    Rests.modifyGrid s _ (Grid.rests_setWrapped _ _ _)
  have hfed := calm_linefeed (hwrapped.inside hs) (hwrapped.strandsInside hst)
  exact (Rests.modifyCursor _ (fun c => { c with col := 0 }) rfl).calm hfed

theorem calm_writeChar (vt : Vt) (ch : Char) : (s.writeChar vt ch).Calm := by
  have hcalm := calm_strandIfDiverged hs hst
  unfold writeChar
  dsimp only
  split
  · exact (rests_writeMark _ _).calm hcalm
  · have hwrapped : (if s.strandIfDiverged.activeGrid.cursor.pendingWrap &&
        s.strandIfDiverged.modes.contains .autoWrap then
        s.strandIfDiverged.wrapRow.modifyCursor fun c => { c with pendingWrap := false }
        else s.strandIfDiverged).Calm := by
      split
      · exact (Rests.modifyCursor _ _ rfl).calm (calm_wrapRow hcalm.inside hcalm.strandsInside)
      · exact hcalm
    generalize (if s.strandIfDiverged.activeGrid.cursor.pendingWrap &&
        s.strandIfDiverged.modes.contains .autoWrap then
        s.strandIfDiverged.wrapRow.modifyCursor fun c => { c with pendingWrap := false }
        else s.strandIfDiverged) = s₁ at hwrapped ⊢
    split
    · split
      · exact (rests_putChar _ _ _).calm (calm_wrapRow hwrapped.inside hwrapped.strandsInside)
      · exact hwrapped
    · exact (rests_putChar _ _ _).calm hwrapped

theorem inside_eraseInDisplay (mode : Nat) : (s.eraseInDisplay mode).Inside := by
  have hcalm := calm_strandIfDiverged hs hst
  have hscreen : s.strandIfDiverged.Rests
      (((s.strandIfDiverged.eraseRows 0 (s.strandIfDiverged.activeGrid.rows - 1)).eraseScreenBlocks
        ).modifyGrid Grid.cancelRestateDebt) :=
    ((rests_eraseRows _ _ _).trans (rests_eraseScreenBlocks _)).trans
      (Rests.modifyGrid _ _ (Grid.rests_cancelRestateDebt _))
  unfold eraseInDisplay
  dsimp only
  refine (Rests.touchFull _).inside (Rests.inside ?_ hcalm.inside)
  split
  · exact (rests_eraseInRow _ _ _ _).trans (Rests.ite (rests_eraseRows _ _ _) (Rests.refl _))
  · exact (Rests.ite (rests_eraseRows _ _ _) (Rests.refl _)).trans (rests_eraseInRow _ _ _ _)
  · exact hscreen
  · exact hscreen.trans (rests_eraseHistory _)
  · exact Rests.refl _

theorem inside_eraseInLine (mode : Nat) : (s.eraseInLine mode).Inside := by
  have hcalm := calm_strandIfDiverged hs hst
  unfold eraseInLine
  dsimp only
  refine (Rests.touch _).inside (Rests.inside ?_ hcalm.inside)
  split <;> first | exact rests_eraseInRow _ _ _ _ | exact Rests.refl _

theorem inside_eraseChars (n : Nat) : (s.eraseChars n).Inside :=
  ((rests_eraseInRow _ _ _ _).trans (Rests.touch _)).inside (calm_strandIfDiverged hs hst).inside

end Relative

/-! ## Moves to a given row -/

section Absolute

variable {s : TermState}

/-- A move into the region, whatever row is named. -/
theorem calm_goto (hord : s.activeGrid.region.top ≤ s.activeGrid.region.bottom) (row col : Nat) :
    (s.goto row col).Calm := by
  obtain ⟨hmodes, hregion, _⟩ := s.strandIfDiverged_keeps
  unfold goto
  dsimp only
  refine (Rests.touch _).calm ⟨fun ho => ?_, ?_⟩
  · rw [modifyCursor, modes_modifyGrid] at ho
    rw [modifyCursor, activeGrid_modifyGrid]
    unfold Grid.InRegion
    rw [hregion, if_pos ho, if_pos ho]
    dsimp only
    omega
  · rw [modifyCursor, activeGrid_modifyGrid]
    exact s.needsStrand_strandIfDiverged

/-- A move up stops at the region's top, and a pull that is stranded on the
way cannot take the cursor below its bottom. -/
theorem calm_moveUp (hs : s.Inside) (hord : s.activeGrid.region.top ≤ s.activeGrid.region.bottom)
    (n : Nat) : (s.moveUp n).Calm := by
  obtain ⟨hmodes, hregion, hrow⟩ := s.strandIfDiverged_keeps
  unfold moveUp
  dsimp only
  refine (Rests.touch _).calm ⟨fun ho => ?_, ?_⟩
  · rw [modifyCursor, modes_modifyGrid] at ho
    have hin := hs (hmodes ▸ ho)
    rw [modifyCursor, activeGrid_modifyGrid]
    unfold Grid.InRegion at hin ⊢
    rw [hregion, if_pos ho]
    dsimp only
    omega
  · rw [modifyCursor, activeGrid_modifyGrid]
    exact s.needsStrand_strandIfDiverged

/-- The row a column move names is the cursor's own. -/
theorem inside_gotoAbsolute (hs : s.Inside) (col : Nat) :
    (s.gotoAbsolute s.activeGrid.cursor.row col).Inside := by
  obtain ⟨hmodes, hregion, _⟩ := s.strandIfDiverged_keeps
  refine (Rests.touch _).inside fun ho => ?_
  rw [modifyCursor, modes_modifyGrid, hmodes] at ho
  rw [modifyCursor, activeGrid_modifyGrid]
  unfold Grid.InRegion
  rw [hregion]
  exact hs ho

theorem inside_moveTo (hord : s.activeGrid.region.top ≤ s.activeGrid.region.bottom) (row col : Nat) :
    (s.moveTo row col).Inside := by
  unfold moveTo
  dsimp only
  split
  · refine (calm_goto ?_ _ _).inside
    rw [activeGrid_modifyGrid, Grid.region_noteCursorHomedWhileHidden]
    exact hord
  · exact (calm_goto hord _ _).inside

theorem inside_setScrollRegion (top bottom : Nat) : (s.setScrollRegion top bottom).Inside := by
  refine (Rests.touchFull _).inside (calm_goto ?_ _ _).inside
  rw [activeGrid_modifyGrid]
  dsimp only
  split
  · next h => exact h.1.le
  · exact Nat.zero_le _

end Absolute

/-! ## What can carry the cursor out -/

/-- The slot of the screen in use. -/
def savedSlot (s : TermState) : SavedCursor :=
  if s.altGrid.isSome then s.savedCursorAlt else s.savedCursor

/-- The saved row is in the region there is now, if the saved mode counts
from it. -/
def RestoresInside (s : TermState) : Prop :=
  s.savedSlot.originMode = true →
    s.activeGrid.InRegion (min s.savedSlot.cursor.row (s.activeGrid.rows - 1))

/-- The primary screen's cursor, if that is where this goes, is in the
primary's region. -/
def LeavesInside (s : TermState) : Prop :=
  s.altGrid.isSome = true → s.modes.contains .origin = true →
    s.grid.InRegion s.grid.cursor.row

/-- The rows a repaint's close pulls down leave the cursor in the region. -/
def SettlesInside (s : TermState) : Prop :=
  s.modes.contains .origin = true → s.activeGrid.restating = true →
    s.activeGrid.InRegion (s.activeGrid.cursor.row + s.activeGrid.pulled)

/-- The rows a repaint's opening takes back do. -/
def RebanksInside (s : TermState) : Prop :=
  s.modes.contains .origin = true →
    s.activeGrid.InRegion (s.activeGrid.cursor.row - s.activeGrid.settledPull)

section Carries

variable {s : TermState}

theorem inside_restoreCursor : s.restoreCursor.Inside ↔ s.RestoresInside := by
  have hrow : s.restoreCursor.activeGrid =
      { s.activeGrid with cursor :=
          { row := min s.savedSlot.cursor.row (s.activeGrid.rows - 1)
            col := min s.savedSlot.cursor.col (s.activeGrid.cols - 1)
            pendingWrap := false } } :=
    activeGrid_modifyGrid _ _
  have hmode : s.restoreCursor.modes.contains .origin = s.savedSlot.originMode :=
    (congrArg (Modes.contains · .origin) (modes_modifyGrid _ _)).trans (contains_origin_self _ _)
  unfold Inside RestoresInside Grid.InRegion
  rw [hrow, hmode]

theorem rests_showCursor (on : Bool) : s.Rests (s.setModes .showCursor on) :=
  rests_setModes s .showCursor on (by decide)

/-- A repaint's close. -/
theorem inside_setShowCursor (hs : s.Inside) (on : Bool) :
    (s.setShowCursor on).Inside ↔ s.SettlesInside := by
  have hshow := rests_showCursor (s := s) on
  have hactive : (s.setModes .showCursor on).activeGrid = s.activeGrid := rfl
  unfold setShowCursor Inside SettlesInside
  dsimp only
  rw [hactive]
  cases hr : s.activeGrid.restating with
  | false =>
    rw [if_neg Bool.false_ne_true, modes_modifyGrid, hshow.origin, activeGrid_modifyGrid]
    exact ⟨fun _ _ h => absurd h Bool.false_ne_true, fun _ ho => hs ho⟩
  | true =>
    obtain ⟨hregion, hrow⟩ := s.activeGrid.settleRestate_lowers
    have hgrid : (s.setModes .showCursor on).settleRestate.activeGrid =
        s.activeGrid.settleRestate.1 := by
      unfold settleRestate
      dsimp only
      split
      · exact activeGrid_modifyGrid _ _
      · exact activeGrid_modifyGrid _ _
    have hmodes : (s.setModes .showCursor on).settleRestate.modes =
        (s.setModes .showCursor on).modes := by
      unfold settleRestate
      dsimp only
      split
      · exact modes_modifyGrid _ _
      · exact modes_modifyGrid _ _
    rw [if_pos rfl, hmodes, hshow.origin, hgrid]
    unfold Grid.InRegion
    rw [hregion, hrow]
    exact ⟨fun h ho _ => h ho, fun h ho => h ho rfl⟩

/-- A repaint's opening. -/
theorem inside_noteRestatementBegan (cols rows : Nat) (t : Cell) :
    (s.modifyGrid fun g => g.noteRestatementBegan cols rows t).Inside ↔ s.RebanksInside := by
  obtain ⟨hregion, hrow⟩ := s.activeGrid.noteRestatementBegan_moves cols rows t
  unfold Inside RebanksInside Grid.InRegion
  rw [modes_modifyGrid, activeGrid_modifyGrid, hregion, hrow]

/-- The alternate screen is entered with its cursor home. -/
theorem inside_enterAlt (hs : s.Inside) : (s.setAltScreen true).Inside := by
  unfold setAltScreen
  split
  · exact hs
  · refine ((rests_syncKittyModes _).trans (Rests.touchFull _)).inside fun _ => ?_
    exact ⟨Nat.zero_le _, Nat.zero_le _⟩

theorem inside_leaveAlt (hs : s.Inside) : (s.setAltScreen false).Inside ↔ s.LeavesInside := by
  unfold setAltScreen LeavesInside
  cases ha : s.altGrid.isSome with
  | false => exact ⟨fun _ h => absurd h Bool.false_ne_true, fun _ => hs⟩
  | true =>
    rw [if_neg Bool.false_ne_true]
    simp only [Bool.false_eq_true, if_false]
    generalize hs₁ : ({ s with altGrid := none, modes := s.modes.remove .altScreen } :
      TermState) = s₁
    have hmode : s₁.modes.contains .origin = s.modes.contains .origin := by
      rw [← hs₁]
      exact contains_origin_set s.modes .altScreen false (by decide)
    have hgrid : s₁.activeGrid = s.grid := by
      rw [← hs₁]
      rfl
    have hsync := (rests_syncKittyModes s₁).trans (Rests.touchFull _)
    unfold Inside Grid.InRegion
    rw [hsync.origin, hsync.grid.region, hsync.grid.row, hmode, hgrid]
    exact ⟨fun h _ => h, fun h => h trivial⟩

theorem contains_origin_setAltScreen (s : TermState) (enable : Bool) :
    (s.setAltScreen enable).modes.contains .origin = s.modes.contains .origin := by
  unfold setAltScreen
  split
  · rfl
  · cases enable with
    | true =>
      exact (rests_syncKittyModes _).origin.trans
        (contains_origin_set s.modes .altScreen true (by decide))
    | false =>
      exact (rests_syncKittyModes _).origin.trans
        (contains_origin_set s.modes .altScreen false (by decide))

/-- RIS leaves the mode. -/
theorem inside_fullReset : s.fullReset.Inside := by
  have hinit : Modes.initial.contains .origin = false := by decide
  intro ho
  refine absurd ho ?_
  unfold fullReset
  dsimp only
  show ¬ (modifyGrid _ _).modes.contains .origin = true
  rw [modes_modifyGrid, contains_origin_setAltScreen, (rests_kittyReset _).origin]
  simp [hinit]

end Carries

/-! ## One action -/

/-- What a private mode asks for. -/
def PrivateSafe (s : TermState) (enable : Bool) : Nat → Prop
  | 25 => s.SettlesInside
  | 47 => enable = false → s.LeavesInside
  | 1047 => enable = false → s.LeavesInside
  | 1048 => enable = false → s.RestoresInside
  | 1049 => enable = false → (s.setAltScreen false).RestoresInside
  | _ => True

/-- What each of several modes asks for where it is set. -/
def PrivatesSafe (enable : Bool) : List Nat → TermState → Prop
  | [], _ => True
  | mode :: modes, s =>
    s.PrivateSafe enable mode ∧ PrivatesSafe enable modes (s.setPrivateMode enable mode)

/-- An action that works from where the cursor is, once a provisional pull
is stranded. -/
def worksInPlace : Action → Bool
  | .print _ => true
  | .execute byte => 8 ≤ byte.toNat && byte.toNat ≤ 13
  | .csi _ _ ignore c => !ignore && ['B', 'e', 'C', 'a', 'D', 'E', 'I', 'Z', 'J', 'K', 'X'].contains c
  | .esc _ _ byte => [0x44, 0x45, 0x4d].contains byte.toNat
  | .osc _ _ => false

/-- What an action asks for beyond that. -/
def CarriesInside (s : TermState) : Action → Prop
  | .csi params intermediates false 't' =>
    (intermediates.head?.map UInt8.toNat == some 0x3f) = false → arg params 0 0 = 8 →
      s.RebanksInside
  | .csi params intermediates false 'h' =>
    (intermediates.head?.map UInt8.toNat == some 0x3f) = true →
      PrivatesSafe true (firsts params) s
  | .csi params intermediates false 'l' =>
    (intermediates.head?.map UInt8.toNat == some 0x3f) = true →
      PrivatesSafe false (firsts params) s
  | .csi _ intermediates false 'u' =>
    intermediates.head?.map UInt8.toNat = none → s.RestoresInside
  | .esc intermediates _ byte =>
    byte.toNat = 0x38 → intermediates.head?.map UInt8.toNat = none → s.RestoresInside
  | _ => True

/-- The action finds nothing that carries the cursor out of the region. -/
structure OriginSafe (s : TermState) (a : Action) : Prop where
  strands : worksInPlace a = true → s.StrandsInside
  carries : s.CarriesInside a

section Actions

variable {s : TermState} {cols rows : Nat}

theorem Sound.ordered (h : s.Sound cols rows) :
    s.activeGrid.region.top ≤ s.activeGrid.region.bottom := h.active.within.ordered

theorem inside_setPrivateMode (hsound : s.Sound cols rows) (hs : s.Inside) (enable : Bool)
    (mode : Nat) (hsafe : s.PrivateSafe enable mode) : (s.setPrivateMode enable mode).Inside := by
  have hset (m : Modes) (h : m.bits.getLsbD 1 = false) : (s.setModes m enable).Inside :=
    (rests_setModes s m enable h).inside hs
  unfold setPrivateMode
  unfold PrivateSafe at hsafe
  split
  · exact hset _ (by decide)
  · have hord : (s.setModes .origin enable).activeGrid.region.top ≤
        (s.setModes .origin enable).activeGrid.region.bottom := hsound.ordered
    exact (calm_goto hord 0 0).inside
  · exact hset _ (by decide)
  · exact (inside_setShowCursor hs enable).mpr hsafe
  · exact hset _ (by decide)
  · exact hset _ (by decide)
  · exact hset _ (by decide)
  · exact hset _ (by decide)
  · exact hset _ (by decide)
  · exact hset _ (by decide)
  · cases enable with
    | true => exact inside_enterAlt hs
    | false => exact (inside_leaveAlt hs).mpr (hsafe rfl)
  · cases enable with
    | true => exact inside_enterAlt hs
    | false => exact (inside_leaveAlt hs).mpr (hsafe rfl)
  · cases enable with
    | true => exact (rests_saveCursor s).inside hs
    | false => exact inside_restoreCursor.mpr (hsafe rfl)
  · cases enable with
    | true => exact inside_enterAlt ((rests_saveCursor s).inside hs)
    | false => exact inside_restoreCursor.mpr (hsafe rfl)
  · exact hset _ (by decide)
  · exact (Rests.pushEvent _ _).inside (hset .syncUpdate (by decide))
  · exact hset _ (by decide)
  · exact hs

theorem inside_setPrivateModes (enable : Bool) (params : Params) (hsound : s.Sound cols rows)
    (hs : s.Inside) (hsafe : PrivatesSafe enable (firsts params) s) :
    (s.setPrivateModes params enable).Inside := by
  unfold setPrivateModes
  refine (Rests.touch _).inside ?_
  generalize firsts params = modes at hsafe ⊢
  induction modes generalizing s with
  | nil => exact hs
  | cons mode modes ih =>
    exact ih (hsound.steps (steps_setPrivateMode (G := Guards.any) s enable mode))
      (inside_setPrivateMode hsound hs enable mode hsafe.1) hsafe.2

theorem inside_execute (hs : s.Inside) (byte : UInt8)
    (hst : worksInPlace (.execute byte) = true → s.StrandsInside) : (s.execute byte).Inside := by
  unfold execute
  unfold worksInPlace at hst
  split
  · exact ((Rests.pushEvent _ _).trans (Rests.pushEvent _ _)).inside hs
  · next h => exact (calm_backspace hs (hst (by simp [h]))).inside
  · next h => exact (calm_tab hs (hst (by simp [h])) 1).inside
  · next h => exact (calm_carriageReturn hs (hst (by simp [h]))).inside
  · split
    · next h =>
      have hfed := calm_linefeed hs (hst (by simp; omega))
      dsimp only
      split
      · exact (calm_carriageReturn hfed.inside hfed.strandsInside).inside
      · exact hfed.inside
    · exact hs

theorem inside_escDispatch (hs : s.Inside) (intermediates : List UInt8) (ignore : Bool)
    (byte : UInt8) (hsafe : s.OriginSafe (.esc intermediates ignore byte)) :
    (s.escDispatch intermediates byte).Inside := by
  obtain ⟨hst, hcarries⟩ := hsafe
  unfold escDispatch
  unfold worksInPlace at hst
  unfold CarriesInside at hcarries
  dsimp only at hst hcarries ⊢
  split
  · exact (rests_saveCursor s).inside hs
  · next h =>
    split
    · next hi => exact inside_restoreCursor.mpr (hcarries h hi)
    · exact (rests_decaln s).inside hs
    · exact hs
  · next h => exact (calm_linefeed hs (hst (by simp [h]))).inside
  · next h =>
    have hfed := calm_linefeed hs (hst (by simp [h]))
    exact (calm_carriageReturn hfed.inside hfed.strandsInside).inside
  · next h => exact inside_reverseIndex hs (hst (by simp [h]))
  · exact (Rests.of_frame rfl rfl rfl : s.Rests (s.setTab true)).inside hs
  · exact inside_fullReset
  · exact hs

theorem inside_keyboardDispatch (hs : s.Inside) (params : Params) (inter : Option Nat)
    (hsafe : inter = none → s.RestoresInside) : (s.keyboardDispatch params inter).Inside := by
  unfold keyboardDispatch
  split
  · exact (Rests.pushEvent _ _).inside hs
  · exact (rests_kittyPush s _).inside hs
  · exact (rests_kittyPop s _).inside hs
  · exact (rests_kittySet s _ _).inside hs
  · exact hs
  · exact inside_restoreCursor.mpr (hsafe rfl)

theorem inside_csiDispatch (hsound : s.Sound cols rows) (hs : s.Inside) (params : Params)
    (intermediates : List UInt8) (ignore : Bool) (c : Char)
    (hsafe : s.OriginSafe (.csi params intermediates ignore c)) :
    (s.csiDispatch params intermediates ignore c).Inside := by
  have hgrid (f : Grid → Grid) (hf : s.activeGrid.Rests (f s.activeGrid)) :
      (s.modifyGrid f).touch.Inside :=
    ((Rests.modifyGrid s f hf).trans (Rests.touch _)).inside hs
  have hgridFull (f : Grid → Grid) (hf : s.activeGrid.Rests (f s.activeGrid)) :
      (s.modifyGrid f).touchFull.Inside :=
    ((Rests.modifyGrid s f hf).trans (Rests.touchFull _)).inside hs
  obtain ⟨hst, hcarries⟩ := hsafe
  cases ignore with
  | true => exact hs
  | false =>
    unfold csiDispatch
    dsimp only
    rw [if_neg Bool.false_ne_true]
    split
    · exact (calm_moveUp hs hsound.ordered _).inside
    · exact (calm_moveDown hs (hst rfl) _).inside
    · exact (calm_moveDown hs (hst rfl) _).inside
    · exact (calm_moveRight hs (hst rfl) _).inside
    · exact (calm_moveRight hs (hst rfl) _).inside
    · exact (calm_moveLeft hs (hst rfl) _).inside
    · have hdown := calm_moveDown hs (hst rfl) (arg params 0 1)
      exact (calm_carriageReturn hdown.inside hdown.strandsInside).inside
    · have hup := calm_moveUp hs hsound.ordered (arg params 0 1)
      exact (calm_carriageReturn hup.inside hup.strandsInside).inside
    · exact inside_gotoAbsolute hs _
    · exact inside_gotoAbsolute hs _
    · exact (calm_goto hsound.ordered _ _).inside
    · exact inside_moveTo hsound.ordered _ _
    · exact inside_moveTo hsound.ordered _ _
    · exact (calm_tab hs (hst rfl) _).inside
    · exact (calm_backTab hs (hst rfl) _).inside
    · exact inside_eraseInDisplay hs (hst rfl) _
    · exact inside_eraseInLine hs (hst rfl) _
    · exact inside_eraseChars hs (hst rfl) _
    · exact hgrid _ (Grid.rests_insertCells _ _ _)
    · exact hgrid _ (Grid.rests_deleteCells _ _ _)
    · exact hgridFull _ (Grid.rests_insertLines _ _ _)
    · exact hgridFull _ (Grid.rests_deleteLines _ _ _)
    · exact (((Rests.modifyGrid s _ (Grid.rests_scrollUp _ _ _)).trans (rests_evictBlocks _)).trans
        (Rests.touchFull _)).inside hs
    · exact hgridFull _ (Grid.rests_scrollDown _ _ _)
    · split
      · next h => exact (inside_noteRestatementBegan _ _ _).mpr (hcarries (by simpa using h.1) h.2)
      · exact hs
    · split
      · next h => exact inside_setPrivateModes true params hsound hs (hcarries h)
      · exact (rests_setAnsiModes s params true).inside hs
    · split
      · next h => exact inside_setPrivateModes false params hsound hs (hcarries h)
      · exact (rests_setAnsiModes s params false).inside hs
    · split
      · exact (Rests.of_frame rfl rfl rfl : s.Rests (s.applySgr params)).inside hs
      · exact hs
    · split
      · exact (Rests.of_frame rfl rfl rfl : s.Rests (s.setCursorStyle _)).inside hs
      · exact hs
    · split
      · exact hs
      · exact inside_setScrollRegion _ _
    · split
      · exact (Rests.of_frame rfl rfl rfl : s.Rests (s.setTab false)).inside hs
      · exact (Rests.of_frame rfl rfl rfl :
          s.Rests { s with tabs := s.tabs.map fun _ => false }).inside hs
      · exact hs
    · exact (Rests.pushEvent s _).inside hs
    · split
      · exact (Rests.pushEvent s _).inside hs
      · exact (Rests.pushEvent s _).inside hs
      · exact hs
    · exact (rests_saveCursor s).inside hs
    · exact inside_keyboardDispatch hs params _ hcarries
    · exact hs

/-- **One action.** It leaves the cursor inside if nothing it does carries
the cursor out. -/
theorem inside_perform (vt : Vt) (hsound : s.Sound cols rows) (hs : s.Inside) (a : Action)
    (hsafe : s.OriginSafe a) : (s.perform vt a).Inside := by
  cases a with
  | print ch => exact (calm_writeChar hs (hsafe.strands rfl) vt ch).inside
  | execute byte => exact inside_execute hs byte hsafe.strands
  | csi params intermediates ignore c =>
    exact inside_csiDispatch hsound hs params intermediates ignore c hsafe
  | esc intermediates ignore byte => exact inside_escDispatch hs intermediates ignore byte hsafe
  | osc params => exact (Rests.of_screens (screens_oscDispatch s params)).inside hs

end Actions

/-! ## A chunk of output -/

/-- No action of a run finds anything that carries the cursor out. -/
def OriginSafes (vt : Vt) : TermState → List Action → Prop
  | _, [] => True
  | s, a :: actions => s.OriginSafe a ∧ OriginSafes vt (s.perform vt a) actions

theorem sound_perform (vt : Vt) {s : TermState} {cols rows : Nat} (hsound : s.Sound cols rows)
    (a : Action) : (s.perform vt a).Sound cols rows :=
  hsound.steps (steps_perform (G := Guards.any) vt s a (fun _ _ => trivial) fun _ => trivial)

theorem inside_foldl (vt : Vt) {cols rows : Nat} :
    ∀ (actions : List Action) (s : TermState), OriginSafes vt s actions →
      s.Sound cols rows → s.Inside →
      (actions.foldl (perform vt) s).Sound cols rows ∧ (actions.foldl (perform vt) s).Inside
  | [], _, _, hsound, hs => ⟨hsound, hs⟩
  | a :: actions, s, hsafe, hsound, hs =>
    inside_foldl vt actions (s.perform vt a) hsafe.2 (sound_perform vt hsound a)
      (inside_perform vt hsound hs a hsafe.1)

/-! ## What a report says -/

/-- The cursor is in the region, a cursor position report says which of its
rows it is on, and going to what it says comes back. -/
structure Reports (s : TermState) : Prop where
  inRegion : s.activeGrid.InRegion s.activeGrid.cursor.row
  reply : s.activeGrid.rows < 2 ^ 64 → s.reportCursor = s.csiReply
    (showNat (s.activeGrid.cursor.row - s.activeGrid.region.top + 1) ++
      ';' :: showNat (s.activeGrid.cursor.col + 1) ++ ['R'])
  returns :
    (s.goto (s.activeGrid.cursor.row - s.activeGrid.region.top) s.activeGrid.cursor.col
      ).activeGrid.cursor =
        { row := s.activeGrid.cursor.row, col := s.activeGrid.cursor.col, pendingWrap := false }

theorem cols_strandIfDiverged (s : TermState) :
    s.strandIfDiverged.activeGrid.cols = s.activeGrid.cols :=
  (draws_strandIfDiverged s).active.cols

theorem reports_of_inside {s : TermState} {cols rows : Nat} (hsound : s.Sound cols rows)
    (hs : s.Inside) (ho : s.modes.contains .origin = true) : s.Reports := by
  obtain ⟨htop, hbottom⟩ := hs ho
  have hrow := hsound.active.within.row
  have hcol := hsound.active.within.col
  refine ⟨⟨htop, hbottom⟩, fun hrows => ?_, ?_⟩
  · have hborrow : ((s.activeGrid.cursor.row + 2 ^ 64 - s.activeGrid.region.top) % 2 ^ 64 + 1) %
        2 ^ 64 = s.activeGrid.cursor.row - s.activeGrid.region.top + 1 := by omega
    unfold reportCursor
    dsimp only
    rw [if_pos ho, hborrow]
  · obtain ⟨hmodes, hregion, _⟩ := s.strandIfDiverged_keeps
    unfold goto
    dsimp only
    show (modifyCursor _ _).activeGrid.cursor = _
    rw [modifyCursor, activeGrid_modifyGrid, hmodes, if_pos ho, if_pos ho, hregion,
      cols_strandIfDiverged]
    dsimp only
    congr 1
    · omega
    · omega

end TermState

namespace Grid

/-- After a resize the region is the screen, or nothing has changed. -/
theorem inRegion_resize {g : Grid} (hs : g.InRegion g.cursor.row) (cols rows : Nat) (t : Cell) :
    (g.resize cols rows t).1.InRegion (g.resize cols rows t).1.cursor.row := by
  unfold resize
  dsimp only
  split
  · exact hs
  · exact ⟨Nat.zero_le _, Nat.min_le_right _ _⟩

theorem rests_bankViewportTop (g : Grid) (n : Nat) (t : Cell) : g.Rests (g.bankViewportTop n t) := by
  by_cases hn : n = 0
  · unfold bankViewportTop
    rw [if_pos hn]
    exact Rests.refl g
  · obtain ⟨s, sb, heq, _⟩ := g.bankViewportTop_cases hn t
    rw [heq]
    exact .of_frame rfl rfl rfl rfl

theorem rests_scrollToLine (g : Grid) (line : LineId) : g.Rests (g.scrollToLine line).1 := by
  unfold scrollToLine
  split
  · exact Rests.refl g
  · exact .of_frame rfl rfl rfl rfl

end Grid

namespace TermState

theorem inside_resizeScreens {s : TermState} (hs : s.Inside) (cols rows : Nat) :
    (s.resizeScreens cols rows).1.Inside := by
  intro ho
  have hin := hs ho
  have halt : (s.resizeScreens cols rows).1.altGrid =
      s.altGrid.map fun alt => (alt.resize cols rows s.template).1 := rfl
  unfold activeGrid at hin ⊢
  rw [halt]
  cases ha : s.altGrid with
  | some | none =>
    rw [ha] at hin
    exact Grid.inRegion_resize hin cols rows s.template

/-- An edit of the primary screen that moves nothing on it. -/
theorem rests_primary {s s' : TermState} (hg : s.grid.Rests s'.grid) (ha : s'.altGrid = s.altGrid)
    (hm : s'.modes = s.modes) : s.Rests s' := by
  refine ⟨?_, by rw [hm]⟩
  unfold activeGrid
  rw [ha]
  cases s.altGrid with
  | some alt => exact Grid.Rests.refl alt
  | none => exact hg

theorem inside_resize {s : TermState} (hs : s.Inside) (cols rows : Nat) :
    (s.resize cols rows).Inside := by
  have hrebase (s : TermState) (k : Nat) : s.Rests (s.rebase k) := by
    unfold rebase
    split
    · exact rests_primary (Grid.rests_bankViewportTop s.grid k s.template) rfl rfl
    · exact Rests.refl s
  have hanchor (s : TermState) (reindex : Reindex) : s.Rests (s.reanchorBlocks reindex) := by
    unfold reanchorBlocks
    split
    · exact .of_frame rfl rfl rfl
    · exact Rests.refl s
  unfold resize
  dsimp only
  have hmoved := (hrebase (s.resizeScreens cols rows).1 (anchorDepth (s.resizeScreens cols rows).1.grid
    (s.resizeScreens cols rows).2 (s.resizeAnchor cols))).trans
      (hanchor _ (s.resizeScreens cols rows).2)
  exact (Rests.of_frame rfl rfl rfl).inside (hmoved.inside (inside_resizeScreens hs cols rows))

theorem inside_setViewportRestatedElsewhere {s : TermState} (hs : s.Inside) (yes : Bool) :
    (s.setViewportRestatedElsewhere yes).Inside := by
  intro ho
  have hin := hs ho
  unfold setViewportRestatedElsewhere activeGrid at *
  cases ha : s.altGrid with
  | some alt => rwa [ha] at hin
  | none => rwa [ha] at hin

end TermState

namespace Terminal

variable {vt : Vt}

/-! ## Runs of a terminal -/

/-- A call whose output finds nothing that carries the cursor out. -/
def Call.OriginSafe (t : Terminal vt) : Call → Prop
  | .advance bytes => TermState.OriginSafes vt t.state (t.actions bytes)
  | _ => True

theorem rests_scrollToLine (t : Terminal vt) (line : LineId) :
    t.state.Rests (t.scrollToLine line).1.state := by
  unfold scrollToLine
  split
  · exact TermState.Rests.refl _
  · have h := Grid.rests_scrollToLine t.state.grid line
    dsimp only
    split
    · exact TermState.rests_primary h rfl rfl
    · exact TermState.rests_primary h rfl rfl

theorem inside_call {t : Terminal vt} {cols rows : Nat} (hsound : t.state.Sound cols rows)
    (hs : t.state.Inside) (c : Call) (hc : c.OriginSafe t) : (t.call c).state.Inside := by
  have hoffset (s : TermState) (n : Grid → Nat) :
      s.Rests (s.modifyGrid fun g => { g with displayOffset := n g }) :=
    TermState.Rests.modifyGrid s _ (.of_frame rfl rfl rfl rfl)
  have hframe {s : TermState} (hg : s.grid = t.state.grid) (ha : s.altGrid = t.state.altGrid)
      (hm : s.modes = t.state.modes) : s.Inside :=
    (TermState.Rests.of_frame hg ha (by rw [hm])).inside hs
  cases c with
  | advance bytes => exact (TermState.inside_foldl vt _ _ hc hsound hs).2
  | resize newCols newRows => exact TermState.inside_resize hs newCols newRows
  | setNowMs | setInputAuthor | setBlockContext | setDefaultCursorStyle | setPalette
    | takeEvents | takeDamage => exact hframe rfl rfl rfl
  | setPtyRestatesViewport yes => exact TermState.inside_setViewportRestatedElsewhere hs yes
  | scrollDisplay delta =>
    exact ((hoffset t.state _).trans (.of_frame rfl rfl rfl)).inside hs
  | scrollToBottom => exact ((hoffset t.state fun _ => 0).trans (.of_frame rfl rfl rfl)).inside hs
  | scrollToLine line => exact (rests_scrollToLine t line).inside hs

/-- A run in which nothing carries the cursor out of the region. -/
abbrev RunsInside : Terminal vt → Terminal vt → Prop := Runs fun t c => c.OriginSafe t

/-- **Origin mode keeps the cursor inside the region.** In a run in which
nothing carries the cursor out, in every state reached, between two calls or
between two actions of one: in origin mode the cursor is in the region, a
report says where, and going there comes back. -/
theorem origin_inside {vt : Vt} (cols rows scrollback : Nat) (t : Terminal vt)
    (ht : (Terminal.new vt cols rows scrollback).RunsInside t) :
    (t.state.modes.contains .origin = true → t.state.Reports) ∧
    ∀ bytes before after, t.actions bytes = before ++ after →
      TermState.OriginSafes vt t.state before →
      (before.foldl (TermState.perform vt) t.state).modes.contains .origin = true →
      (before.foldl (TermState.perform vt) t.state).Reports := by
  have hnew : (Terminal.new vt cols rows scrollback).state.Inside := fun ho =>
    absurd (show Modes.initial.contains .origin = true from ho) (by decide)
  obtain ⟨⟨_, _, hsound⟩, hs⟩ := ht.keeps
    (Q := fun u => (∃ cols rows, u.state.Sound cols rows) ∧ u.state.Inside)
    (fun u c hc hu => by
      obtain ⟨⟨_, _, hsound⟩, hs⟩ := hu
      exact ⟨sound_call hsound c, inside_call hsound hs c hc⟩)
    ⟨⟨_, _, sound_new cols rows scrollback⟩, hnew⟩
  refine ⟨TermState.reports_of_inside hsound hs, fun bytes before after _ hsafe => ?_⟩
  obtain ⟨hsound, hs⟩ := TermState.inside_foldl vt before t.state hsafe hsound hs
  exact TermState.reports_of_inside hsound hs

/-- A region, origin mode and the cursor saved in it; a region further down,
and the cursor restored. -/
def restoredBytes : List UInt8 :=
  [0x1b, 0x5b, 0x32, 0x3b, 0x34, 0x72, 0x1b, 0x5b, 0x3f, 0x36, 0x68, 0x1b, 0x37,
    0x1b, 0x5b, 0x35, 0x3b, 0x36, 0x72, 0x1b, 0x38]

/-- Where those bytes leave a terminal of six rows. -/
def restored : Terminal asciiVt := (Terminal.new asciiVt 8 6 10).advance restoredBytes

/-- DECRC puts the cursor three rows above a region that has moved since,
with origin mode on: the report wraps below zero, and going to a row of the
region does not come back. -/
theorem origin_escaped :
    restored.Reachable ∧ restored.state.modes.contains .origin = true ∧
      restored.state.activeGrid.region = ⟨4, 5⟩ ∧ restored.state.activeGrid.cursor.row = 1 ∧
      ¬ restored.state.Reports ∧
      restored.state.reportCursor = restored.state.csiReply (showNat (2 ^ 64 - 2) ++ [';', '1', 'R']) := by
  have hregion : restored.state.activeGrid.region = ⟨4, 5⟩ := by decide
  have hrow : restored.state.activeGrid.cursor.row = 1 := by decide
  refine ⟨(Reachable.new 8 6 10).call (.advance restoredBytes), by decide, hregion, hrow,
    fun h => ?_, ?_⟩
  · have hin := h.inRegion.1
    rw [hregion, hrow] at hin
    exact absurd hin (by decide)
  · have hmode : restored.state.modes.contains .origin = true := by decide
    have hcol : restored.state.activeGrid.cursor.col = 0 := by decide
    unfold TermState.reportCursor
    dsimp only
    rw [if_pos hmode, hregion, hrow, hcol]
    rfl

/-- Origin mode, and line feeds past the bottom of the region. -/
def scrolledBytes : List UInt8 :=
  [0x1b, 0x5b, 0x32, 0x3b, 0x34, 0x72, 0x1b, 0x5b, 0x3f, 0x36, 0x68, 0x0a, 0x0a, 0x0a, 0x0a]

theorem originSafe_scrolled :
    (Call.advance scrolledBytes).OriginSafe (Terminal.new asciiVt 8 6 10) := by
  have hactions : (Terminal.new asciiVt 8 6 10).actions scrolledBytes =
      [.csi [[2], [4]] [] false 'r', .csi [[6]] [0x3f] false 'h', .execute 0x0a, .execute 0x0a,
        .execute 0x0a, .execute 0x0a] := rfl
  show TermState.OriginSafes asciiVt _ _
  rw [hactions]
  refine ⟨⟨fun h => absurd h (by decide), trivial⟩,
    ⟨fun h => absurd h (by decide), fun _ => ⟨trivial, trivial⟩⟩,
    ⟨fun _ => ?_, trivial⟩, ⟨fun _ => ?_, trivial⟩, ⟨fun _ => ?_, trivial⟩, ⟨fun _ => ?_, trivial⟩,
    trivial⟩
  all_goals decide

/-- The cursor stops at the bottom of the region, and says so. -/
theorem origin_inside_scrolled :
    (((Terminal.new asciiVt 8 6 10).advance scrolledBytes).state.modes.contains .origin = true) ∧
      ((Terminal.new asciiVt 8 6 10).advance scrolledBytes).state.Reports := by
  have hmode : ((Terminal.new asciiVt 8 6 10).advance scrolledBytes).state.modes.contains
      .origin = true := by decide +kernel
  exact ⟨hmode, (origin_inside 8 6 10 ((Terminal.new asciiVt 8 6 10).advance scrolledBytes)
    (Runs.call (.advance scrolledBytes) originSafe_scrolled Runs.refl)).1 hmode⟩

end Terminal

end Zesterm
