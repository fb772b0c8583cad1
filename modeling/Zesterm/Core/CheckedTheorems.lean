/-
Zesterm.Core.CheckedTheorems — where the checks of a delta's operations
pass.

`Grid.Framed` is what the checks rest on: rows of one width, a ring with a
viewport in it, a cursor and a region inside the viewport and a reader
inside history. On a framed grid every checked operation is the model's own
(`…Checked_eq`) and leaves it framed (`Framed.…`). A scroll of rows below
the viewport is the exception: its region ends above its top, and the
difference of the two is what stops the program (`scrollChecked_eq_none`).
-/
import Zesterm.Lib.Fallible
import Zesterm.Core.Checked
import Zesterm.Core.ReplicaTheorems

namespace Zesterm

theorem checkedSub_eq {a b : Nat} (h : b ≤ a) : checkedSub a b = some (a - b) := if_pos h

/-! ## The ring -/

namespace Storage

variable {s : Storage} {n : Nat}

theorem rowChecked_eq {i : Nat} (hi : i < s.len) : s.rowChecked i = some (s.row i) := if_pos hi

theorem modifyRowChecked_eq {i : Nat} (hi : i < s.len) (f : Row → Row) :
    s.modifyRowChecked i f = some (s.modifyRow i f) := if_pos hi

/-- In a ring of rows of one width any row can be copied over any other. -/
theorem copyRowChecked_eq {src dst : Nat} (hsrc : src < s.len) (hdst : dst < s.len)
    (hw : ∀ r ∈ s.logical, r.cells.length = n) :
    s.copyRowChecked src dst = some (s.modifyRow dst fun r => { r with cells := (s.row src).cells }) := by
  have hpos : 0 < s.len := Nat.zero_lt_of_lt hsrc
  have hlen : (s.row dst).cells.length = (s.row src).cells.length := by
    rw [hw _ (s.row_mem dst hpos), hw _ (s.row_mem src hpos)]
  unfold copyRowChecked
  rw [rowChecked_eq hsrc, rowChecked_eq hdst]
  simp only [Option.bind_eq_bind, Option.bind_some]
  rw [if_pos hlen, modifyRowChecked_eq hdst]

end Storage

namespace Grid

/-! ## What the checks rest on -/

/-- Every place a program may ask for is inside the grid. -/
structure Framed (cols rows : Nat) (g : Grid) : Prop where
  cols : g.cols = cols
  rows : g.rows = rows
  shape : g.Shape
  offset : g.displayOffset ≤ g.scrollbackLen
  row : g.cursor.row < g.rows
  col : g.cursor.col < g.cols
  ordered : g.region.top ≤ g.region.bottom
  bottom : g.region.bottom < g.rows

namespace Framed

variable {cols rows : Nat} {g g' : Grid}

theorem of_within (hs : g.Shape) (hw : g.Within) : g.Framed g.cols g.rows :=
  ⟨rfl, rfl, hs, hw.offset, hw.row, hw.col, hw.ordered, hw.bottom⟩

/-- The same cursor and the same region, over rows that evolved. -/
theorem of_evolves (h : g.Framed cols rows) (he : g.Evolves g')
    (hd : g'.displayOffset ≤ g'.scrollbackLen) (hc : g'.cursor = g.cursor)
    (hr : g'.region = g.region) : g'.Framed cols rows :=
  ⟨he.cols.trans h.cols, he.rows.trans h.rows, he.shape h.shape, hd, by rw [hc, he.rows]; exact h.row,
    by rw [hc, he.cols]; exact h.col, by rw [hr]; exact h.ordered, by rw [hr, he.rows]; exact h.bottom⟩

theorem of_edits (h : g.Framed cols rows) {s : Storage} (hs : g.storage.Edits s) :
    ({ g with storage := s } : Grid).Framed cols rows :=
  h.of_evolves (Evolves.of_edits hs) h.offset rfl rfl

/-- A row of the viewport is a row of the ring. -/
theorem place (h : g.Framed cols rows) {row : Nat} (hrow : row < rows) :
    g.activeBase + row < g.storage.len := by
  have hlen := h.shape.len
  have hrows := h.rows
  unfold activeBase
  omega

theorem cancelRestateDebt (h : g.Framed cols rows) : g.cancelRestateDebt.Framed cols rows :=
  h.of_evolves (evolves_cancelRestateDebt g) h.offset rfl rfl

/-! ## Rows -/

theorem modifyRowChecked_eq (h : g.Framed cols rows) {row : Nat} (hrow : row < rows)
    (f : Row → Row) : g.modifyRowChecked row f = some (g.modifyRow row f) := by
  unfold modifyRowChecked
  rw [Storage.modifyRowChecked_eq (h.place hrow)]
  rfl

theorem modifyRow (h : g.Framed cols rows) (row : Nat) (f : Row → Row)
    (hf : ∀ r, (f r).cells.length = r.cells.length) : (g.modifyRow row f).Framed cols rows := by
  refine ⟨h.cols, h.rows, ⟨h.shape.rows_pos, h.shape.cols_pos, ?_, fun r hr => ?_⟩, h.offset, h.row,
    h.col, h.ordered, h.bottom⟩
  · exact (Storage.len_modifyRow _ _ _).trans h.shape.len
  · simp only [lines, Grid.modifyRow, Storage.logical_modifyRow] at hr
    rcases Storage.mem_modify _ r _ _ hr with hr | ⟨a, ha, rfl⟩
    · exact h.shape.width r hr
    · exact (hf a).trans (h.shape.width a ha)

theorem eraseInRowChecked_eq (h : g.Framed cols rows) {row : Nat} (hrow : row < rows)
    (start stop : Nat) (t : Cell) :
    g.eraseInRowChecked row start stop t = some (g.eraseInRow row start stop t) := by
  unfold eraseInRowChecked eraseInRow
  dsimp only
  split
  · have hseen : ({ g with restateRowsSeen := max g.restateRowsSeen (row + 1) } : Grid).Framed
        cols rows := h.of_evolves (evolves_repaint g _ _ _ _ _ _) h.offset rfl rfl
    exact hseen.modifyRowChecked_eq hrow _
  · exact h.modifyRowChecked_eq hrow _

theorem eraseInRow (h : g.Framed cols rows) (row start stop : Nat) (t : Cell) :
    (g.eraseInRow row start stop t).Framed cols rows := by
  have he := evolves_eraseInRow g row start stop t
  unfold Grid.eraseInRow at he ⊢
  dsimp only at he ⊢
  split at he
  · next hv =>
    rw [if_pos hv]
    exact h.of_evolves he h.offset rfl rfl
  · next hv =>
    rw [if_neg hv]
    exact h.of_evolves he h.offset rfl rfl

/-- A span erased from rows of the viewport. -/
theorem eraseRowsChecked_eq {l : List Nat} (hl : ∀ row ∈ l, row < rows) (start stop : Nat)
    (t : Cell) (h : g.Framed cols rows) :
    l.foldlM (fun g row => g.eraseInRowChecked row start stop t) g =
        some (l.foldl (fun g row => g.eraseInRow row start stop t) g) ∧
      (l.foldl (fun g row => g.eraseInRow row start stop t) g).Framed cols rows :=
  Fallible.foldlM_eq_foldl (P := Framed cols rows)
    (fun _ row hrow hg => ⟨hg.eraseInRowChecked_eq (hl row hrow) start stop t,
      hg.eraseInRow row start stop t⟩) g h

theorem clearAllChecked_eq (h : g.Framed cols rows) (t : Cell) :
    g.clearAllChecked t = some (g.clearAll t) ∧ (g.clearAll t).Framed cols rows := by
  have hpos := h.shape.rows_pos
  have hloop := Fallible.foldlM_eq_foldl (P := Framed cols rows) (l := List.range g.rows)
    (f := fun g row => (checkedSub g.cols 1).bind fun last => g.eraseInRowChecked row 0 last t)
    (g := fun g row => g.eraseInRow row 0 (g.cols - 1) t) (fun u row hrow hu => by
      have hrow : row < rows := h.rows ▸ List.mem_range.mp hrow
      rw [checkedSub_eq hu.shape.cols_pos]
      exact ⟨hu.eraseInRowChecked_eq hrow _ _ _, hu.eraseInRow _ _ _ _⟩) g h
  constructor
  · unfold clearAllChecked clearAll
    simp only [Option.bind_eq_bind]
    rw [hloop.1]
    rfl
  · have hg := hloop.2
    have hrows := hg.shape.rows_pos
    exact Framed.cancelRestateDebt ⟨hg.cols, hg.rows,
      ⟨hg.shape.1, hg.shape.2, hg.shape.3, hg.shape.4⟩, hg.offset, hrows, hg.shape.cols_pos,
      Nat.zero_le _, Nat.sub_lt hrows Nat.one_pos⟩

/-! ## Scrolling -/

/-- One turn of a scroll of the whole screen recycles a row of the ring. -/
theorem scrollScreenUp1Checked_eq (h : g.Framed cols rows) (t : Cell) :
    g.scrollScreenUp1Checked t = some (g.scrollScreenUp1 t) := by
  have hpos := h.shape.rows_pos
  have hlen := h.shape.len
  have hrot : (g.storage.rotateUp 1).len = g.storage.len := by
    unfold Storage.rotateUp
    split <;> rfl
  have hlast : checkedSub (g.storage.rotateUp 1).len 1 = some ((g.storage.rotateUp 1).len - 1) :=
    if_pos (by omega)
  have hrecycle : (g.storage.rotateUp 1).recycleChecked ((g.storage.rotateUp 1).len - 1) t =
      some ((g.storage.rotateUp 1).recycle ((g.storage.rotateUp 1).len - 1) t) :=
    if_pos (by omega)
  unfold scrollScreenUp1Checked scrollScreenUp1
  dsimp only
  split
  · simp only [Option.bind_eq_bind, Option.bind_some]
    split <;> rfl
  · split
    · simp only [Option.bind_eq_bind, hlast, hrecycle, Option.bind_some]
      split <;> rfl
    · simp only [Option.bind_eq_bind, hlast, hrecycle, Option.bind_some]
      split <;> rfl

theorem scrollScreenUp1 (h : g.Framed cols rows) (hp : g.settledPull = 0) (t : Cell) :
    (g.scrollScreenUp1 t).Framed cols rows := by
  have he := evolves_scrollScreenUp1 g t hp
  obtain ⟨_, _, _, _, _, hd⟩ := scrollScreenUp1_spec h.shape t
  refine h.of_evolves he ?_ ?_ (g.frame_scrollScreenUp1 t).2.2
  · rw [hd]
    split
    · exact Nat.zero_le _
    · exact Nat.min_le_right _ _
  · unfold Grid.scrollScreenUp1
    dsimp only
    split <;> split <;> first | rfl | split <;> rfl

theorem scrollScreenUpChecked_eq (t : Cell) (n : Nat) (h : g.Framed cols rows)
    (hp : g.settledPull = 0) :
    g.scrollScreenUpChecked t n = some (g.scrollScreenUp t n) ∧
      (g.scrollScreenUp t n).Framed cols rows := by
  induction n generalizing g with
  | zero => exact ⟨rfl, h⟩
  | succ n ih =>
    unfold scrollScreenUpChecked Grid.scrollScreenUp
    rw [h.scrollScreenUp1Checked_eq t]
    exact ih (h.scrollScreenUp1 hp t) ((settledPull_scrollScreenUp1 g t).trans hp)

/-- One turn of a move within the region: a row is copied from the viewport,
or blanked. -/
theorem moveChecked_eq (h : g.Framed cols rows) {s : Storage} (hs : g.storage.Edits s)
    (src : Nat) {dst : Nat} (hdst : dst < g.storage.len) (t : Cell) (c : Prop) [Decidable c]
    (hsrc : c → src < g.storage.len) :
    (if c then s.copyRowChecked src dst
      else s.modifyRowChecked dst fun r => r.reset t r.id) =
        some (if c then s.modifyRow dst fun r => { r with cells := (s.row src).cells }
          else s.modifyRow dst fun r => r.reset t r.id) ∧
      g.storage.Edits (if c then s.modifyRow dst fun r => { r with cells := (s.row src).cells }
        else s.modifyRow dst fun r => r.reset t r.id) := by
  have hlen := hs.len
  split
  · next hc =>
    exact ⟨Storage.copyRowChecked_eq (by have := hsrc hc; omega) (by omega)
      (hs.widths g.cols h.shape.width), hs.trans (Storage.edits_copyRow s dst src)⟩
  · exact ⟨Storage.modifyRowChecked_eq (by omega) _, hs.trans
      (Storage.edits_modifyRow_of_length _ _ _ (fun _ => rfl) fun r => by simp)⟩

theorem scrollRegionUpChecked_eq (h : g.Framed cols rows) (n : Nat) (t : Cell) :
    g.scrollRegionUpChecked n t = some (g.scrollRegionUp n t) := by
  have hbottom := h.bottom
  have hplace (row : Nat) (hrow : row < g.rows) : g.activeBase + row < g.storage.len :=
    h.place (h.rows ▸ hrow)
  have hloop := Fallible.foldlM_eq_foldl (P := fun s => g.storage.Edits s)
    (l := List.range' g.region.top (g.region.bottom + 1 - g.region.top))
    (fun s row hrow hs => h.moveChecked_eq hs (g.activeBase + (row + n))
      (hplace row (by rw [List.mem_range'_1] at hrow; omega)) t
      (row + n ≤ g.region.bottom) fun hle => hplace (row + n) (by omega))
    g.storage (Storage.Edits.refl _)
  unfold scrollRegionUpChecked scrollRegionUp
  simp only [Option.bind_eq_bind]
  rw [hloop.1]
  rfl

theorem scrollUp (h : g.Framed cols rows) (n : Nat) (t : Cell) :
    (g.scrollUp n t).Framed cols rows := by
  have he := evolves_scrollUp g n t
  by_cases hn : n = 0
  · unfold Grid.scrollUp
    rwa [if_pos hn]
  · unfold Grid.scrollUp at he ⊢
    rw [if_neg hn] at he ⊢
    dsimp only at he ⊢
    split at he
    · next hopen =>
      rw [if_pos hopen]
      exact h.of_evolves he h.offset rfl rfl
    · next hopen =>
      rw [if_neg hopen]
      split at he
      · next hfull =>
        rw [if_pos hfull]
        exact (h.cancelRestateDebt.scrollScreenUpChecked_eq t _ rfl).2
      · next hpart =>
        rw [if_neg hpart]
        obtain ⟨s, hs, heq⟩ := g.cancelRestateDebt.scrollRegionUp_edits
          (min n (g.region.bottom - g.region.top + 1)) t
        rw [heq]
        exact h.cancelRestateDebt.of_edits hs

/-- The rows that join the ring at its end leave it again above the
viewport. -/
theorem overflowChecked_eq (h : g.Framed cols rows) (n : Nat) (t : Cell) :
    (g.storage.resizeRows (g.storage.len + n) g.cols t).removeRangeChecked g.scrollbackLen n =
      some ((g.storage.resizeRows (g.storage.len + n) g.cols t).removeRange g.scrollbackLen n) := by
  have hrows := h.shape.rows_pos
  have hlen := h.shape.len
  have hgrown := g.storage.len_resizeRows (g.storage.len + n) g.cols t
  unfold Storage.removeRangeChecked
  split
  · next hnone =>
    unfold Storage.removeRange
    exact congrArg some (if_pos hnone).symm
  · rw [if_pos (by omega)]

theorem scrollUpChecked_eq (h : g.Framed cols rows) (n : Nat) (t : Cell) :
    g.scrollUpChecked n t = some (g.scrollUp n t) := by
  have hheight := checkedSub_eq h.ordered
  have hfull : g.fullScreenChecked =
      some (decide (g.region.top = 0 ∧ g.region.bottom = g.rows - 1)) := by
    unfold fullScreenChecked
    rw [checkedSub_eq h.shape.rows_pos]
    by_cases htop : g.region.top = 0 <;> simp [htop]
  unfold scrollUpChecked Grid.scrollUp
  split
  · rfl
  · simp only [Option.bind_eq_bind, hheight, hfull, Option.bind_some]
    split
    · rw [h.overflowChecked_eq]
      rfl
    · split
      · exact (h.cancelRestateDebt.scrollScreenUpChecked_eq t _ rfl).1
      · exact h.cancelRestateDebt.scrollRegionUpChecked_eq _ t

theorem scrollDown (h : g.Framed cols rows) (n : Nat) (t : Cell) :
    (g.scrollDown n t).Framed cols rows := by
  by_cases hn : n = 0
  · unfold Grid.scrollDown
    rwa [if_pos hn]
  · obtain ⟨s, hs, heq⟩ := g.scrollDown_edits hn t
    rw [heq]
    exact h.cancelRestateDebt.of_edits hs

theorem scrollDownChecked_eq (h : g.Framed cols rows) (n : Nat) (t : Cell) :
    g.scrollDownChecked n t = some (g.scrollDown n t) := by
  have hbottom := h.bottom
  have hc := h.cancelRestateDebt
  have hheight : checkedSub g.cancelRestateDebt.region.bottom g.cancelRestateDebt.region.top =
      some (g.region.bottom - g.region.top) := checkedSub_eq h.ordered
  have hplace (row : Nat) (hrow : row < g.rows) :
      g.cancelRestateDebt.activeBase + row < g.cancelRestateDebt.storage.len :=
    hc.place (h.rows ▸ hrow)
  unfold scrollDownChecked Grid.scrollDown
  split
  · rfl
  · simp only [Option.bind_eq_bind, hheight, Option.bind_some]
    have hloop (m : Nat) := Fallible.foldlM_eq_foldl (P := fun s => g.cancelRestateDebt.storage.Edits s)
      (l := (List.range' g.region.top (g.region.bottom + 1 - g.region.top)).reverse)
      (f := fun s row =>
        if row ≥ g.region.top + m then
          (checkedSub (g.cancelRestateDebt.activeBase + row) m).bind fun src =>
            s.copyRowChecked src (g.cancelRestateDebt.activeBase + row)
        else s.modifyRowChecked (g.cancelRestateDebt.activeBase + row) fun r => r.reset t r.id)
      (fun s row hrow hs => by
        rw [List.mem_reverse, List.mem_range'_1] at hrow
        have hdst := hplace row (by omega)
        have hmove := hc.moveChecked_eq hs (g.cancelRestateDebt.activeBase + row - m) hdst t
          (row ≥ g.region.top + m) fun _ => (Nat.sub_le _ _).trans_lt hdst
        by_cases hrows : row ≥ g.region.top + m
        · rw [if_pos hrows, checkedSub_eq (by omega)]
          rw [if_pos hrows] at hmove
          exact hmove
        · rw [if_neg hrows]
          rw [if_neg hrows] at hmove
          exact hmove)
      g.storage (Storage.Edits.refl _)
    exact congrArg (Option.bind · _) (hloop _).1

theorem scrollByChecked_eq (h : g.Framed cols rows) (lines : Int) (t : Cell) :
    g.scrollByChecked lines t =
        some (if lines > 0 then g.scrollUp lines.toNat t else g.scrollDown (-lines).toNat t) ∧
      (if lines > 0 then g.scrollUp lines.toNat t
        else g.scrollDown (-lines).toNat t).Framed cols rows := by
  unfold scrollByChecked
  split
  · exact ⟨h.scrollUpChecked_eq _ t, h.scrollUp _ t⟩
  · exact ⟨h.scrollDownChecked_eq _ t, h.scrollDown _ t⟩

/-- A region that ends above its top stops every scroll. -/
theorem scrollByChecked_eq_none {g : Grid} (hregion : g.region.bottom < g.region.top) {lines : Int}
    (hlines : lines ≠ 0) (t : Cell) : g.scrollByChecked lines t = none := by
  have hheight : checkedSub g.region.bottom g.region.top = none := if_neg (Nat.not_le.mpr hregion)
  unfold scrollByChecked
  split
  · unfold scrollUpChecked
    rw [if_neg (by omega), hheight]
    rfl
  · unfold scrollDownChecked
    rw [if_neg (by omega)]
    exact congrArg (Option.bind · _) hheight

/-- The region set for one scroll, or put back after it. -/
theorem setRegion (h : g.Framed cols rows) (r : ScrollRegion) (hordered : r.top ≤ r.bottom)
    (hbottom : r.bottom < rows) : ({ g with region := r } : Grid).Framed cols rows :=
  ⟨h.cols, h.rows, ⟨h.shape.1, h.shape.2, h.shape.3, h.shape.4⟩, h.offset, h.row, h.col, hordered, by
    rw [← h.rows] at hbottom
    exact hbottom⟩

theorem setCursor (h : g.Framed cols rows) (c : Cursor) (hr : c.row < g.rows) (hc : c.col < g.cols) :
    ({ g with cursor := c } : Grid).Framed cols rows :=
  ⟨h.cols, h.rows, ⟨h.shape.1, h.shape.2, h.shape.3, h.shape.4⟩, h.offset, hr, hc, h.ordered,
    h.bottom⟩

/-! ## History -/

/-- A ring of another length, its viewport the same. -/
theorem of_shape (h : g.Framed cols rows) {s : Storage} {sb d : Nat}
    (hs : ({ g with storage := s, scrollbackLen := sb, displayOffset := d } : Grid).Shape)
    (hd : d ≤ sb) :
    ({ g with storage := s, scrollbackLen := sb, displayOffset := d } : Grid).Framed cols rows :=
  ⟨h.cols, h.rows, hs, hd, h.row, h.col, h.ordered, h.bottom⟩

theorem setNextLineId (h : g.Framed cols rows) (id : LineId) :
    (g.setNextLineId id).Framed cols rows :=
  h.of_shape ⟨h.shape.1, h.shape.2, h.shape.3, h.shape.4⟩ h.offset

theorem pushHistoryChecked_eq (g : Grid) (page : List (LineId × List Cell × Bool)) :
    g.pushHistoryChecked page = some (g.pushHistory page) := by
  unfold pushHistoryChecked pushHistory
  dsimp only
  split
  · rfl
  · rw [checkedSub_eq (Nat.min_le_left _ _)]
    rfl

theorem pushHistory (h : g.Framed cols rows) (page : List (LineId × List Cell × Bool)) :
    (g.pushHistory page).Framed cols rows := by
  have hs := shape_pushHistory h.shape page
  obtain ⟨s, n, heq, -⟩ := g.pushHistory_spec page
  have hoffset := h.offset
  rw [heq] at hs ⊢
  exact h.of_shape hs (by omega)

theorem dropScrollbackRows (h : g.Framed cols rows) (named : List LineId) :
    (g.dropScrollbackRows named).1.Framed cols rows := by
  have hs := (evolves_dropScrollbackRows h.shape h.offset named).shape h.shape
  obtain ⟨s, kept, -, heq, -⟩ := g.dropScrollbackRows_spec named h.shape h.offset
  rw [heq] at hs ⊢
  exact h.of_shape hs (Nat.min_le_right _ _)

theorem clearHistory (h : g.Framed cols rows) : g.clearHistory.Framed cols rows := by
  have hs := shape_clearHistory g h.shape
  unfold Grid.clearHistory at hs ⊢
  dsimp only at hs ⊢
  split at hs
  · next hpos =>
    rw [if_pos hpos]
    exact ⟨h.cols, h.rows, hs, Nat.zero_le _, h.row, h.col, h.ordered, h.bottom⟩
  · next hnone =>
    rw [if_neg hnone]
    exact ⟨h.cols, h.rows, hs, Nat.zero_le _, h.row, h.col, h.ordered, h.bottom⟩

theorem bankViewportTop (h : g.Framed cols rows) (n : Nat) (t : Cell) :
    (g.bankViewportTop n t).Framed cols rows := by
  have hs := shape_bankViewportTop h.shape n t
  have hoffset := h.offset
  by_cases hn : n = 0
  · unfold Grid.bankViewportTop
    rwa [if_pos hn]
  · obtain ⟨s, sb, heq, hcases⟩ := g.bankViewportTop_cases hn t
    rw [heq] at hs ⊢
    refine h.of_shape hs ?_
    split
    · exact Nat.min_le_right _ _
    · omega

/-- A resize puts the cursor, the region and the reader where the new grid
has room for them. -/
theorem resize (h : g.Framed cols rows) (newCols newRows : Nat) (t : Cell) :
    (g.resize newCols newRows t).1.Framed (max newCols 1) (max newRows 1) := by
  have hr := resized_resize g newCols newRows t h.shape
  have hrows := hr.shape.rows_pos
  have hcols := hr.shape.cols_pos
  have hcase : g.cols = max newCols 1 ∧ (g.resize newCols newRows t).1 = g ∨
      (g.resize newCols newRows t).1.region = ScrollRegion.full (g.resize newCols newRows t).1.rows ∧
      (g.resize newCols newRows t).1.cursor.row ≤ (g.resize newCols newRows t).1.rows - 1 ∧
      (g.resize newCols newRows t).1.cursor.col ≤ (g.resize newCols newRows t).1.cols - 1 ∧
      (g.resize newCols newRows t).1.displayOffset ≤
        (g.resize newCols newRows t).1.scrollbackLen := by
    unfold Grid.resize
    dsimp only
    split
    · next hsame => exact .inl ⟨hsame.1.symm, rfl⟩
    · exact .inr ⟨rfl, Nat.min_le_right _ _, Nat.min_le_right _ _, Nat.min_le_right _ _⟩
  rcases hcase with ⟨-, hsame⟩ | ⟨hregion, hrow, hcol, hoffset⟩
  · refine ⟨hr.cols, hr.rows, hr.shape, ?_, ?_, ?_, ?_, ?_⟩
    all_goals rw [hsame]
    · exact h.offset
    · exact h.row
    · exact h.col
    · exact h.ordered
    · exact h.bottom
  · refine ⟨hr.cols, hr.rows, hr.shape, hoffset, by omega, by omega, ?_, ?_⟩
    · rw [hregion]
      exact Nat.zero_le _
    · rw [hregion]
      exact Nat.sub_lt hrows Nat.one_pos

end Framed

end Grid

/-! ## Both screens -/

namespace TermState

/-- Both screens are framed at one size. -/
structure Framed (cols rows : Nat) (s : TermState) : Prop where
  primary : s.grid.Framed cols rows
  alt : ∀ g, s.altGrid = some g → g.Framed cols rows

namespace Framed

variable {cols rows : Nat} {s s' : TermState}

theorem of_sound (h : s.Sound cols rows) : s.Framed cols rows := by
  have hscreen {g : Grid} (hg : Screen cols rows g) : g.Framed cols rows :=
    hg.rows ▸ hg.cols ▸ Grid.Framed.of_within hg.shape hg.within
  exact ⟨hscreen h.primary, fun g hg => hscreen (h.alt g hg)⟩

theorem active (h : s.Framed cols rows) : s.activeGrid.Framed cols rows := by
  unfold activeGrid
  cases ha : s.altGrid with
  | none => exact h.primary
  | some g => exact h.alt g ha

/-- The same two screens. -/
theorem of_frame (h : s.Framed cols rows) (hg : s'.grid = s.grid) (ha : s'.altGrid = s.altGrid) :
    s'.Framed cols rows := ⟨hg ▸ h.primary, fun g hg' => h.alt g (ha ▸ hg')⟩

theorem modifyGrid (h : s.Framed cols rows) {f : Grid → Grid}
    (hf : (f s.activeGrid).Framed cols rows) : (s.modifyGrid f).Framed cols rows := by
  cases ha : s.altGrid with
  | none =>
    rw [activeGrid_of_none ha] at hf
    rw [modifyGrid_of_none ha]
    exact ⟨hf, h.alt⟩
  | some g =>
    rw [activeGrid_of_some ha] at hf
    rw [modifyGrid_of_some ha]
    exact ⟨h.primary, fun g' hg' => Option.some.inj hg' ▸ hf⟩

theorem edited (h : s.Framed cols rows) {f : Grid → Grid} (he : s.Edited f s')
    (hf : (f s.activeGrid).Framed cols rows) : s'.Framed cols rows := by
  obtain ⟨n, d, rfl⟩ := he
  exact (h.modifyGrid hf).of_frame rfl rfl

end Framed

/-- An edit that passes its checks on the live grid passes them. -/
theorem modifyGridChecked_eq (s : TermState) {f : Grid → Grid} {fc : Grid → Option Grid}
    (hf : fc s.activeGrid = some (f s.activeGrid)) :
    s.modifyGridChecked fc = some (s.modifyGrid f) := by
  unfold modifyGridChecked
  split
  · next g ha =>
    rw [activeGrid_of_some ha] at hf
    rw [modifyGrid_of_some ha, hf]
    rfl
  · next ha =>
    rw [activeGrid_of_none ha] at hf
    rw [modifyGrid_of_none ha, hf]
    rfl

theorem modifyGridChecked_eq_none (s : TermState) {fc : Grid → Option Grid}
    (hf : fc s.activeGrid = none) : s.modifyGridChecked fc = none := by
  unfold modifyGridChecked
  split
  · next g ha =>
    rw [activeGrid_of_some ha] at hf
    rw [hf]
    rfl
  · next ha =>
    rw [activeGrid_of_none ha] at hf
    rw [hf]
    rfl

namespace Framed

variable {cols rows : Nat} {s : TermState}

/-- The alternate screen is entered as large as the primary one. -/
theorem freshAltChecked_eq (h : s.Framed cols rows) :
    s.freshAltChecked = some s.freshAlt ∧ s.freshAlt.Framed cols rows := by
  have hc : max s.grid.cols 1 = cols := by
    rw [← h.primary.cols]
    exact Nat.max_eq_left h.primary.shape.cols_pos
  have hr : max s.grid.rows 1 = rows := by
    rw [← h.primary.rows]
    exact Nat.max_eq_left h.primary.shape.rows_pos
  have hnew : (Grid.new s.grid.cols s.grid.rows 0).Framed cols rows := by
    have hwithin := Grid.Framed.of_within (Grid.shape_new s.grid.cols s.grid.rows 0)
      (Grid.within_new _ _ _)
    exact hr ▸ hc ▸ hwithin
  obtain ⟨heq, hclear⟩ := hnew.clearAllChecked_eq s.template
  constructor
  · unfold freshAltChecked
    rw [heq]
    rfl
  · exact ⟨hclear.cols, hclear.rows, ⟨hclear.shape.1, hclear.shape.2, hclear.shape.3, hclear.shape.4⟩,
      hclear.offset, hclear.row, hclear.col, hclear.ordered, hclear.bottom⟩

theorem setAltScreenChecked_eq (h : s.Framed cols rows) (enable : Bool) :
    s.setAltScreenChecked enable = some (s.setAltScreen enable) ∧
      (s.setAltScreen enable).Framed cols rows := by
  obtain ⟨halt, hfresh⟩ := h.freshAltChecked_eq
  have hsync {u : TermState} (hu : u.Framed cols rows) :
      u.syncKittyModes.touchFull.Framed cols rows :=
    hu.of_frame (screens_syncKittyModes u).1 (screens_syncKittyModes u).2.1
  unfold setAltScreenChecked setAltScreen
  split
  · exact ⟨rfl, h⟩
  · cases enable with
    | true =>
      refine ⟨?_, hsync ⟨h.primary, fun g hg => Option.some.inj hg ▸ hfresh⟩⟩
      simp only [if_true, halt, Option.bind_eq_bind, Option.bind_some]
    | false => exact ⟨rfl, hsync ⟨h.primary, fun g hg => by cases hg⟩⟩

theorem resize (h : s.Framed cols rows) (newCols newRows : Nat) :
    (s.resize newCols newRows).Framed (max newCols 1) (max newRows 1) := by
  have hscreens : (s.resizeScreens newCols newRows).1.Framed (max newCols 1) (max newRows 1) := by
    refine ⟨h.primary.resize _ _ _, fun g hg => ?_⟩
    obtain ⟨a, ha, rfl⟩ := Option.map_eq_some_iff.mp hg
    exact (h.alt a ha).resize _ _ _
  have hrebase (k : Nat) :
      ((s.resizeScreens newCols newRows).1.rebase k).Framed (max newCols 1) (max newRows 1) := by
    unfold TermState.rebase
    split
    · exact ⟨hscreens.primary.bankViewportTop _ _, hscreens.alt⟩
    · exact hscreens
  have hanchor {u : TermState} (hu : u.Framed (max newCols 1) (max newRows 1)) (x : Reindex) :
      (u.reanchorBlocks x).Framed (max newCols 1) (max newRows 1) := by
    unfold TermState.reanchorBlocks
    split
    · exact hu.of_frame rfl rfl
    · exact hu
  exact (hanchor (hrebase _) _).of_frame rfl rfl

end Framed

end TermState

/-! ## The remote door -/

namespace RemoteWriter

variable {cols rows : Nat} {s : TermState}

theorem writeRowChecked_eq (h : s.Framed cols rows) (row : Nat) (id : LineId) (cells : List Cell)
    (wrapped : Bool) :
    writeRowChecked s row id cells wrapped = some (writeRow s row id cells wrapped) ∧
      (writeRow s row id cells wrapped).Framed cols rows := by
  unfold writeRowChecked writeRow
  dsimp only
  split
  · exact ⟨rfl, h⟩
  · next hrow =>
    have hrow : row < rows := h.active.rows ▸ Nat.lt_of_not_ge hrow
    constructor
    · rw [s.modifyGridChecked_eq (f := fun g => g.modifyRow row _)
        (h.active.modifyRowChecked_eq hrow _)]
      rfl
    · exact (h.modifyGrid (h.active.modifyRow _ _ fun r => by simp)).of_frame rfl rfl

theorem pushMarksChecked_eq (h : s.Framed cols rows) (row col : Nat) (marks : Str) :
    pushMarksChecked s row col marks = some (pushMarks s row col marks) ∧
      (pushMarks s row col marks).Framed cols rows := by
  unfold pushMarksChecked pushMarks
  split
  · exact ⟨rfl, h⟩
  · next hout =>
    have hrow : row < rows := h.active.rows ▸ Nat.lt_of_not_ge fun hge => hout (.inr hge)
    exact ⟨s.modifyGridChecked_eq (h.active.modifyRowChecked_eq hrow _),
      h.modifyGrid (h.active.modifyRow _ _ fun r => Row.length_pushMarks r col marks)⟩

/-- A scroll whose rows begin inside the viewport. -/
theorem scrollChecked_eq (h : s.Framed cols rows) {top bottom : Nat} {lines : Int}
    (htop : lines ≠ 0 → top ≤ bottom → top < rows) :
    scrollChecked s top bottom lines = some (scroll s top bottom lines) ∧
      (scroll s top bottom lines).Framed cols rows := by
  have hrows := h.active.rows
  have hpos := h.active.shape.rows_pos
  unfold scrollChecked scroll
  split
  · exact ⟨rfl, h⟩
  · next hscroll =>
    have hin := htop (fun h0 => hscroll (.inl h0)) (Nat.le_of_not_lt fun hlt => hscroll (.inr hlt))
    have hordered : top ≤ min bottom (s.activeGrid.rows - 1) := by omega
    have hbottom : min bottom (s.activeGrid.rows - 1) < rows := by omega
    by_cases hfull : top = 0 ∧ bottom + 1 ≥ s.activeGrid.rows
    · obtain ⟨heq, hg⟩ := h.active.scrollByChecked_eq lines s.template
      simp only [decide_eq_true hfull, if_true]
      refine ⟨?_, (h.modifyGrid hg).of_frame rfl rfl⟩
      rw [s.modifyGridChecked_eq (f := fun g => if lines > 0 then g.scrollUp lines.toNat s.template
        else g.scrollDown (-lines).toNat s.template)]
      · rfl
      · rw [heq]
        rfl
    · obtain ⟨heq, hg⟩ := (h.active.setRegion { top := top, bottom := min bottom (s.activeGrid.rows - 1) }
        hordered hbottom).scrollByChecked_eq lines s.template
      have hback := hg.setRegion s.activeGrid.region h.active.ordered (hrows ▸ h.active.bottom)
      simp only [decide_eq_false hfull, Bool.false_eq_true, if_false]
      refine ⟨?_, (h.modifyGrid hback).of_frame rfl rfl⟩
      rw [s.modifyGridChecked_eq (f := fun g =>
        { (if lines > 0 then
            ({ g with region := { top := top, bottom := min bottom (s.activeGrid.rows - 1) } } :
              Grid).scrollUp lines.toNat s.template
          else ({ g with region := { top := top, bottom := min bottom (s.activeGrid.rows - 1) } } :
            Grid).scrollDown (-lines).toNat s.template) with region := g.region })]
      · rfl
      · rw [heq]
        rfl

/-- A scroll whose rows begin below the viewport ends above where it
begins. -/
theorem scrollChecked_eq_none (h : s.Framed cols rows) {top bottom : Nat} {lines : Int}
    (hlines : lines ≠ 0) (hle : top ≤ bottom) (htop : rows ≤ top) :
    scrollChecked s top bottom lines = none := by
  have hrows := h.active.rows
  have hpos := h.active.shape.rows_pos
  have hpart : ¬ (top = 0 ∧ bottom + 1 ≥ s.activeGrid.rows) := by omega
  have hmove := Grid.Framed.scrollByChecked_eq_none
    (g := { s.activeGrid with region := { top := top, bottom := min bottom (s.activeGrid.rows - 1) } })
    (show min bottom (s.activeGrid.rows - 1) < top by omega) hlines s.template
  unfold scrollChecked
  rw [if_neg (by omega)]
  simp only [decide_eq_false hpart, Bool.false_eq_true, if_false, Option.bind_eq_bind]
  rw [s.modifyGridChecked_eq_none]
  · rfl
  · rw [hmove]
    rfl

theorem eraseChecked_eq (h : s.Framed cols rows) (top left bottom right : Nat) (template : Cell) :
    eraseChecked s top left bottom right template = some (erase s top left bottom right template) ∧
      (erase s top left bottom right template).Framed cols rows := by
  have hrows := h.active.rows
  unfold eraseChecked erase
  dsimp only
  split
  · exact ⟨rfl, h⟩
  · rw [checkedSub_eq h.active.shape.rows_pos, checkedSub_eq h.active.shape.cols_pos]
    obtain ⟨heq, hg⟩ := Grid.Framed.eraseRowsChecked_eq
      (l := List.range' top (min bottom (s.activeGrid.rows - 1) + 1 - top)) (fun row hrow => by
        rw [List.mem_range'_1] at hrow
        omega) left (min right (s.activeGrid.cols - 1)) template h.active
    refine ⟨?_, (h.modifyGrid (f := fun g => List.foldl _ g _) hg).of_frame rfl rfl⟩
    simp only [Option.bind_eq_bind, Option.bind_some]
    rw [s.modifyGridChecked_eq (f := fun g => List.foldl _ g _) heq]
    rfl

theorem prependHistoryChecked_eq (h : s.Framed cols rows)
    (page : List (LineId × List Cell × Bool)) :
    prependHistoryChecked s page = some (prependHistory s page) ∧
      (prependHistory s page).Framed cols rows := by
  unfold prependHistoryChecked prependHistory
  split
  · exact ⟨rfl, h⟩
  · refine ⟨?_, (h.modifyGrid (h.active.pushHistory page)).of_frame rfl rfl⟩
    rw [s.modifyGridChecked_eq (f := fun g => g.pushHistory page)
      (Grid.Framed.pushHistoryChecked_eq _ page)]
    rfl

theorem setModesChecked_eq (h : s.Framed cols rows) (modes : Modes) :
    setModesChecked s modes = some (setModes s modes) ∧ (setModes s modes).Framed cols rows := by
  obtain ⟨heq, hset⟩ := h.setAltScreenChecked_eq (modes.contains .altScreen)
  unfold setModesChecked setModes
  dsimp only
  split
  · rw [heq]
    exact ⟨rfl, hset.of_frame rfl rfl⟩
  · exact ⟨rfl, h.of_frame rfl rfl⟩

theorem framed_syncNextLineId (h : s.Framed cols rows) (next : LineId) :
    (syncNextLineId s next).Framed cols rows := h.modifyGrid (h.active.setNextLineId next)

theorem framed_setCursor (h : s.Framed cols rows) (row col : Nat) :
    (setCursor s row col).Framed cols rows :=
  TermState.Framed.of_frame (h.modifyGrid (h.active.setCursor _
    ((Nat.min_le_right _ _).trans_lt (Nat.sub_lt h.active.shape.rows_pos Nat.one_pos))
    ((Nat.min_le_right _ _).trans_lt (Nat.sub_lt h.active.shape.cols_pos Nat.one_pos)))) rfl rfl

theorem framed_clearHistory (h : s.Framed cols rows) : (clearHistory s).Framed cols rows :=
  TermState.Framed.of_frame (s := { s with grid := s.grid.clearHistory })
    ⟨h.primary.clearHistory, h.alt⟩ rfl rfl

theorem framed_dropHistory (h : s.Framed cols rows) (named : List LineId) :
    (dropHistory s named).Framed cols rows :=
  h.edited (edited_dropHistory s named) (h.active.dropScrollbackRows named)

theorem framed_bankDisplaced (h : s.Framed cols rows) (n : Nat) :
    (bankDisplaced s n).Framed cols rows :=
  h.edited (edited_bankDisplaced s n) (h.active.bankViewportTop n s.template)

theorem framed_resize (h : s.Framed cols rows) (newCols newRows : Nat) :
    (resize s newCols newRows).Framed (max newCols 1) (max newRows 1) := by
  have hmark {g : Grid} (hg : g.Framed cols rows) :
      (g.setViewportRestatedElsewhere true).Framed cols rows :=
    ⟨hg.cols, hg.rows, ⟨hg.shape.1, hg.shape.2, hg.shape.3, hg.shape.4⟩, hg.offset, hg.row, hg.col,
      hg.ordered, hg.bottom⟩
  have hmarked : (s.setViewportRestatedElsewhere true).Framed cols rows := by
    refine ⟨hmark h.primary, fun g hg => ?_⟩
    obtain ⟨a, ha, rfl⟩ := Option.map_eq_some_iff.mp hg
    exact hmark (h.alt a ha)
  exact hmarked.resize newCols newRows

end RemoteWriter

end Zesterm
