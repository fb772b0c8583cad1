/-
Zesterm.Core.HeightTheorems — dragging a window's height.

A list of height-only resizes of a grid nothing else restates. What each
does to the ring is one lemma (`reheighted_resize`): rows leave from below
the cursor, or blanks join there, and nothing at or above the cursor's line
moves in the ring, so every such line is kept with its text
(`Reheighted.through`). Only the boundary between history and screen moves.

The ring's length is what says where the boundary stands once the window is
back at its height. A shrink takes from it and a grow gives nothing back
while history lasts, so the same rows stand at and above the cursor just
where no history was above the screen to begin with, no row stood below the
cursor, or the height never changed (`heights_iff`).
-/
import Zesterm.Core.ReplicaTheorems

namespace Zesterm

namespace Grid

variable {g : Grid} {rows : Nat}

/-! ## What a reader of the screen sees -/

/-- A row's id and text. -/
def lineText (r : Row) : LineId × Str := (r.id, r.text)

/-- The ring index of the cursor's row. -/
def cursorIndex (g : Grid) : Nat := g.scrollbackLen + g.cursor.row

/-- Every row of the ring up to and including the cursor's. -/
def throughCursor (g : Grid) : List (LineId × Str) := (g.lines.take (g.cursorIndex + 1)).map lineText

/-- The rows of the viewport at and above the cursor. -/
def aboveCursor (g : Grid) : List (LineId × Str) := (g.screen.take (g.cursor.row + 1)).map lineText

/-- The line the cursor is on. -/
def cursorLine (g : Grid) : LineId := (g.activeRow g.cursor.row).id

/-- A list of height-only resizes. -/
def heights (g : Grid) (t : Cell) (hs : List Nat) : Grid :=
  hs.foldl (fun g h => (g.resize g.cols h t).1) g

/-! ## One resize -/

/-- A grid of a steady width that nothing else restates, with room in its
history for all that is above the cursor. -/
structure Steady (g : Grid) : Prop where
  shape : g.Shape
  cursor : g.cursor.row < g.rows
  unrestated : g.viewportRestatedElsewhere = false
  room : g.cursorIndex ≤ g.scrollbackLimit

/-- What one change of the height does: the rows through the cursor's stay
where they are in the ring, and what the ring loses or gains is below them. -/
structure Reheighted (g g' : Grid) (rows : Nat) : Prop where
  steady : g'.Steady
  height : g'.rows = rows
  width : g'.cols = g.cols
  index : g'.cursorIndex = g.cursorIndex
  through : g'.lines.take (g.cursorIndex + 1) = g.lines.take (g.cursorIndex + 1)
  len : g'.storage.len =
    if rows < g.rows then max (g.storage.len - (g.rows - rows)) (g.cursorIndex + 1)
    else max g.storage.len rows

theorem Steady.index_lt (h : g.Steady) : g.cursorIndex < g.storage.len := by
  have hlen := h.shape.len
  have hcursor := h.cursor
  unfold cursorIndex
  omega

/-- A shrink takes the rows below the cursor, and no more of them than it
must; what it still lacks it files as history. -/
theorem shrinkRows_spec (h : g.Steady) (hpos : 0 < rows) (hlt : rows < g.rows) :
    (g.shrinkRows rows).lines =
        g.lines.take (max (g.storage.len - (g.rows - rows)) (g.cursorIndex + 1)) ∧
      (g.shrinkRows rows).scrollbackLen = max g.scrollbackLen (g.cursorIndex + 1 - rows) ∧
      (g.shrinkRows rows).cursor.row = min g.cursor.row (rows - 1) := by
  have hlen := h.shape.len
  have hcursor := h.cursor
  have hroom := h.room
  have hlog := Storage.logical_truncateBottom g.storage
    (min (g.rows - rows) (g.rows - 1 - min g.cursor.row (g.rows - 1)))
  have htake : (g.storage.truncateBottom
      (min (g.rows - rows) (g.rows - 1 - min g.cursor.row (g.rows - 1)))).logical =
        g.lines.take (max (g.storage.len - (g.rows - rows)) (g.cursorIndex + 1)) := by
    rw [hlog]
    unfold cursorIndex
    split
    · rw [List.take_of_length_le]
      · rfl
      · simp only [lines, Storage.length_logical]
        omega
    · unfold lines
      congr 1
      omega
  unfold cursorIndex at hroom htake ⊢
  unfold shrinkRows
  simp only [h.unrestated, Bool.false_eq_true, if_false]
  split
  · refine ⟨htake, ?_, ?_⟩
    · dsimp only
      omega
    · dsimp only
      omega
  · refine ⟨htake, ?_, ?_⟩
    · dsimp only
      omega
    · dsimp only
      omega

/-- A grow takes rows back from history, and mints blanks below for what
history does not hold. -/
theorem reheighted_grow (h : g.Steady) (hlt : g.rows < rows) (t : Cell) :
    (g.resizeHeight g.cols rows t).lines.take (g.cursorIndex + 1) =
        g.lines.take (g.cursorIndex + 1) ∧
      (g.resizeHeight g.cols rows t).storage.len = max g.storage.len rows ∧
      (g.resizeHeight g.cols rows t).scrollbackLen +
        (g.resizeHeight g.cols rows t).cursor.row = g.cursorIndex ∧
      (g.resizeHeight g.cols rows t).cursor.row < rows := by
  have hlen := h.shape.len
  have hcursor := h.cursor
  have hindex := h.index_lt
  unfold cursorIndex at hindex ⊢
  unfold resizeHeight growRows
  rw [if_neg (by omega), if_neg (by omega)]
  simp only [h.unrestated, Bool.false_eq_true, if_false]
  refine ⟨?_, ?_, by omega, by omega⟩
  · unfold lines
    rw [Storage.logical_resizeRows, Nat.sub_eq_zero_of_le (by omega), List.drop_zero,
      List.take_append_of_le_length (by rw [Storage.length_logical]; omega)]
  · rw [Storage.len_resizeRows]
    omega

theorem reheighted_shrink (h : g.Steady) (hpos : 0 < rows) (hlt : rows < g.rows) (t : Cell) :
    (g.resizeHeight g.cols rows t).lines.take (g.cursorIndex + 1) =
        g.lines.take (g.cursorIndex + 1) ∧
      (g.resizeHeight g.cols rows t).storage.len =
        max (g.storage.len - (g.rows - rows)) (g.cursorIndex + 1) ∧
      (g.resizeHeight g.cols rows t).scrollbackLen +
        (g.resizeHeight g.cols rows t).cursor.row = g.cursorIndex ∧
      (g.resizeHeight g.cols rows t).cursor.row < rows := by
  have hlen := h.shape.len
  have hcursor := h.cursor
  have hindex := h.index_lt
  obtain ⟨hlines, hsb, hrow⟩ := shrinkRows_spec h hpos hlt
  have hshrunk := congrArg List.length hlines
  simp only [lines, List.length_take, Storage.length_logical] at hshrunk
  have hkept : max (g.storage.len - (g.rows - rows)) (g.cursorIndex + 1) ≤ g.storage.len := by omega
  unfold resizeHeight
  rw [if_neg (by omega), if_pos hlt]
  unfold cursorIndex at *
  refine ⟨?_, ?_, ?_, ?_⟩
  · unfold lines at *
    rw [Storage.logical_resizeRows, hlines, Nat.sub_eq_zero_of_le (by omega), List.drop_zero,
      List.take_append_of_le_length (by simp; omega), List.take_take]
    congr 1
    omega
  · dsimp only
    rw [Storage.len_resizeRows]
    omega
  · dsimp only
    omega
  · dsimp only
    omega

/-- A resize at the width the grid has is its height half, the cursor put
inside and a repaint in hand set aside. -/
theorem resize_of_width (hs : g.Shape) (hne : max rows 1 ≠ g.rows) (t : Cell) :
    ∃ g₁ : Grid, (g₁ = g ∨ g₁ = { g with restating := false, sittingOut := true }) ∧
      (g.resize g.cols rows t).1.storage = (g₁.resizeHeight g₁.cols (max rows 1) t).storage ∧
      (g.resize g.cols rows t).1.scrollbackLen =
        (g₁.resizeHeight g₁.cols (max rows 1) t).scrollbackLen ∧
      (g.resize g.cols rows t).1.cursor.row =
        min (g₁.resizeHeight g₁.cols (max rows 1) t).cursor.row (max rows 1 - 1) := by
  have hc : max g.cols 1 = g.cols := Nat.max_eq_left hs.cols_pos
  have hwidth (g₁ : Grid) : g₁.resizeWidth g₁.cols t = (g₁, {}) := by
    unfold resizeWidth
    rw [if_pos rfl]
  refine ⟨if g.restating then { g with restating := false, sittingOut := true } else g, ?_, ?_⟩
  · split
    · exact .inr rfl
    · exact .inl rfl
  · unfold resize
    rw [hc, if_neg (by simp [hne])]
    cases g.restating with
    | false =>
      simp only [Bool.false_eq_true, if_false, hwidth g]
      exact ⟨trivial, trivial, by rw [rows_resizeHeight]⟩
    | true =>
      have hmarked := hwidth { g with restating := false, sittingOut := true }
      simp only [if_true] at hmarked ⊢
      rw [hmarked]
      exact ⟨rfl, rfl, by rw [rows_resizeHeight]⟩

/-- One change of the height. -/
theorem reheighted_resize (h : g.Steady) (rows : Nat) (t : Cell) :
    g.Reheighted (g.resize g.cols rows t).1 (max rows 1) := by
  have hr := resized_resize g g.cols rows t h.shape
  have hindex := h.index_lt
  have hlen := h.shape.len
  by_cases hsame : max rows 1 = g.rows
  · have heq : (g.resize g.cols rows t).1 = g := by
      unfold resize
      rw [if_pos ⟨Nat.max_eq_left h.shape.cols_pos, hsame⟩]
    rw [heq, hsame]
    refine ⟨h, rfl, rfl, rfl, rfl, ?_⟩
    rw [if_neg (Nat.lt_irrefl _)]
    omega
  · obtain ⟨g₁, hg₁, hstorage, hsb, hrow⟩ := resize_of_width h.shape hsame t
    have h₁ : g₁.Steady ∧ g₁.rows = g.rows ∧ g₁.cursorIndex = g.cursorIndex ∧ g₁.lines = g.lines ∧
        g₁.storage = g.storage := by
      rcases hg₁ with rfl | rfl
      · exact ⟨h, rfl, rfl, rfl, rfl⟩
      · exact ⟨⟨⟨h.shape.1, h.shape.2, h.shape.3, h.shape.4⟩, h.cursor, h.unrestated, h.room⟩, rfl, rfl,
          rfl, rfl⟩
    obtain ⟨h₁, hrows, hi, hl, hst⟩ := h₁
    have hlines : (g.resize g.cols rows t).1.lines =
        (g₁.resizeHeight g₁.cols (max rows 1) t).lines := by
      unfold lines
      rw [hstorage]
    have hcases : (g₁.resizeHeight g₁.cols (max rows 1) t).lines.take (g.cursorIndex + 1) =
          g.lines.take (g.cursorIndex + 1) ∧
        (g₁.resizeHeight g₁.cols (max rows 1) t).storage.len =
          (if max rows 1 < g.rows then max (g.storage.len - (g.rows - max rows 1)) (g.cursorIndex + 1)
          else max g.storage.len (max rows 1)) ∧
        (g₁.resizeHeight g₁.cols (max rows 1) t).scrollbackLen +
          (g₁.resizeHeight g₁.cols (max rows 1) t).cursor.row = g.cursorIndex ∧
        (g₁.resizeHeight g₁.cols (max rows 1) t).cursor.row < max rows 1 := by
      rw [← hi, ← hl, ← hrows, ← hst]
      rcases Nat.lt_or_gt_of_ne hsame with hlt | hgt
      · rw [if_pos (by omega)]
        exact reheighted_shrink h₁ (by omega) (by omega) t
      · rw [if_neg (by omega)]
        exact reheighted_grow h₁ (by omega) t
    obtain ⟨hthrough, hlen', hboundary, hinside⟩ := hcases
    have hindex' : (g.resize g.cols rows t).1.cursorIndex = g.cursorIndex := by
      unfold cursorIndex at hboundary ⊢
      rw [hsb, hrow]
      omega
    refine ⟨⟨hr.shape, ?_, hr.restated.trans h.unrestated, ?_⟩, hr.rows,
      hr.cols.trans (Nat.max_eq_left h.shape.cols_pos), hindex', ?_, ?_⟩
    · rw [hr.rows, hrow]
      omega
    · rw [hindex', hr.limit]
      exact h.room
    · rw [hlines, hthrough]
    · rw [hstorage, hlen']

/-! ## A list of resizes -/

theorem heights_cons (g : Grid) (t : Cell) (rows : Nat) (hs : List Nat) :
    g.heights t (rows :: hs) = (g.resize g.cols rows t).1.heights t hs := rfl

/-- What every resize keeps, a list of them keeps. -/
theorem heights_kept (h : g.Steady) (t : Cell) (hs : List Nat) :
    (g.heights t hs).Steady ∧ (g.heights t hs).rows = max (hs.getLastD g.rows) 1 ∧
      (g.heights t hs).cursorIndex = g.cursorIndex ∧
      (g.heights t hs).lines.take (g.cursorIndex + 1) = g.lines.take (g.cursorIndex + 1) := by
  induction hs generalizing g with
  | nil =>
    have hpos := h.shape.rows_pos
    exact ⟨h, (Nat.max_eq_left hpos).symm, rfl, rfl⟩
  | cons rows hs ih =>
    have hone := reheighted_resize h rows t
    obtain ⟨hsteady, hrows, hindex, hthrough⟩ := ih hone.steady
    rw [heights_cons]
    refine ⟨hsteady, ?_, hindex.trans hone.index, ?_⟩
    · rw [hrows, hone.height, List.getLastD_cons]
      cases hs with
      | nil => exact max_eq_left (Nat.le_max_right rows 1)
      | cons => rw [List.getLastD_cons, List.getLastD_cons]
    · rw [hone.index] at hthrough
      rw [hthrough, hone.through]

/-- The ring is no longer than the screen and the rows through the cursor's
make it. -/
def Tight (g : Grid) : Prop := g.storage.len = max (g.cursorIndex + 1) g.rows

/-- A tight ring stays tight. -/
theorem Tight.resize (ht : g.Tight) (h : g.Steady) (rows : Nat) (t : Cell) :
    (g.resize g.cols rows t).1.Tight := by
  have hone := reheighted_resize h rows t
  have hindex := h.index_lt
  unfold Tight at ht ⊢
  rw [hone.len, hone.index, hone.height]
  split <;> omega

theorem Tight.heights (ht : g.Tight) (h : g.Steady) (t : Cell) (hs : List Nat) :
    (g.heights t hs).Tight := by
  induction hs generalizing g with
  | nil => exact ht
  | cons rows hs ih => exact ih (ht.resize h rows t) (reheighted_resize h rows t).steady

/-- A ring that has not come back: tight, or shorter than it was, or still
behind a screen taller than it was. -/
def Drifted (len rows : Nat) (g : Grid) : Prop :=
  g.Tight ∨ g.storage.len < len ∨ g.storage.len = len ∧ rows < g.rows

/-- With rows above the screen and rows below the cursor, the first change
of the height drifts. -/
theorem drifted_resize (h : g.Steady) (hne : max rows 1 ≠ g.rows)
    (hbelow : g.cursorIndex + 1 < g.storage.len) (t : Cell) :
    (g.resize g.cols rows t).1.Drifted g.storage.len g.rows := by
  have hone := reheighted_resize h rows t
  have hlen := h.shape.len
  unfold Drifted Tight
  rw [hone.len, hone.index, hone.height]
  split <;> omega

/-- What has drifted does not come back. -/
theorem Drifted.resize {len rows₀ : Nat} (hd : g.Drifted len rows₀) (h : g.Steady)
    (hbelow : g.cursorIndex + 1 < len) (rows : Nat) (t : Cell) :
    (g.resize g.cols rows t).1.Drifted len rows₀ := by
  have hone := reheighted_resize h rows t
  have hlen := h.shape.len
  have hindex := h.index_lt
  unfold Drifted Tight at hd ⊢
  rw [hone.len, hone.index, hone.height]
  split <;> omega

theorem Drifted.heights {len rows₀ : Nat} (hd : g.Drifted len rows₀) (h : g.Steady)
    (hbelow : g.cursorIndex + 1 < len) (t : Cell) (hs : List Nat) :
    (g.heights t hs).Drifted len rows₀ := by
  induction hs generalizing g with
  | nil => exact hd
  | cons rows hs ih =>
    have hone := reheighted_resize h rows t
    exact ih (hd.resize h hbelow rows t) hone.steady (by rw [hone.index]; exact hbelow)

/-! ## Back at the height it had -/

/-- A ring as long as it was, behind a screen as tall as it was, shows the
rows it showed. -/
theorem aboveCursor_of_len {g' : Grid} (h : g.Steady) (h' : g'.Steady) (hrows : g'.rows = g.rows)
    (hindex : g'.cursorIndex = g.cursorIndex)
    (hthrough : g'.lines.take (g.cursorIndex + 1) = g.lines.take (g.cursorIndex + 1)) :
    g'.aboveCursor = g.aboveCursor ↔ g'.storage.len = g.storage.len := by
  have hlen := h.shape.len
  have hlen' := h'.shape.len
  have hcursor := h.cursor
  have hcursor' := h'.cursor
  unfold cursorIndex at hindex hthrough
  constructor
  · intro heq
    have hcount := congrArg List.length heq
    simp only [aboveCursor, screen, List.length_map, List.length_take, List.length_drop, lines,
      Storage.length_logical] at hcount
    omega
  · intro heq
    have hsb : g'.scrollbackLen = g.scrollbackLen := by omega
    have hrow : g'.cursor.row = g.cursor.row := by omega
    -- the rows at and above the cursor are the tail of those through it
    have hpart (x : Grid) : x.screen.take (x.cursor.row + 1) =
        (x.lines.take (x.scrollbackLen + x.cursor.row + 1)).drop x.scrollbackLen := by
      unfold screen
      rw [List.drop_take]
      congr 1
      omega
    unfold aboveCursor
    rw [hpart g', hpart g, hsb, hrow, hthrough]

/-- The line the cursor is on is the last of the rows through it. -/
theorem cursorLine_eq (h : g.Steady) :
    g.cursorLine = ((g.lines.take (g.cursorIndex + 1)).getD g.cursorIndex default).id := by
  have hindex := h.index_lt
  have hbase : g.activeBase + g.cursor.row = g.cursorIndex := by
    have hlen := h.shape.len
    unfold activeBase cursorIndex
    omega
  unfold cursorLine activeRow
  rw [hbase, Storage.row_eq _ _ hindex, List.getD_eq_getElem?_getD, List.getD_eq_getElem?_getD,
    List.getElem?_take_of_lt (by omega), lines]

theorem cursorLine_of_through {g' : Grid} (h : g.Steady) (h' : g'.Steady)
    (hindex : g'.cursorIndex = g.cursorIndex)
    (hthrough : g'.lines.take (g.cursorIndex + 1) = g.lines.take (g.cursorIndex + 1)) :
    g'.cursorLine = g.cursorLine := by
  rw [cursorLine_eq h, cursorLine_eq h', hindex, hthrough]

theorem throughCursor_of_through {g' : Grid} (hindex : g'.cursorIndex = g.cursorIndex)
    (hthrough : g'.lines.take (g.cursorIndex + 1) = g.lines.take (g.cursorIndex + 1)) :
    g'.throughCursor = g.throughCursor := by
  unfold throughCursor
  rw [hindex, hthrough]

/-- A resize to the height the grid has changes nothing. -/
theorem resize_same (h : g.Steady) (heq : max rows 1 = g.rows) (t : Cell) :
    (g.resize g.cols rows t).1 = g := by
  unfold resize
  rw [if_pos ⟨Nat.max_eq_left h.shape.cols_pos, heq⟩]

/-- With rows above the screen and rows below the cursor, any change of the
height leaves the ring drifted. -/
theorem heights_drifted (h : g.Steady) (hbelow : g.cursorIndex + 1 < g.storage.len) (t : Cell)
    {hs : List Nat} (hchange : ¬∀ rows ∈ hs, max rows 1 = g.rows) :
    (g.heights t hs).Drifted g.storage.len g.rows := by
  induction hs with
  | nil => exact absurd (fun _ hmem => nomatch hmem) hchange
  | cons rows hs ih =>
    rw [heights_cons]
    by_cases heq : max rows 1 = g.rows
    · rw [resize_same h heq]
      refine ih fun hrest => hchange fun x hx => ?_
      rcases List.mem_cons.1 hx with rfl | hx
      · exact heq
      · exact hrest x hx
    · have hone := reheighted_resize h rows t
      exact (drifted_resize h heq hbelow t).heights hone.steady (by rw [hone.index]; exact hbelow) t hs

/-- The heights the grid has already change nothing. -/
theorem heights_same (h : g.Steady) (t : Cell) {hs : List Nat}
    (hsame : ∀ rows ∈ hs, max rows 1 = g.rows) : g.heights t hs = g := by
  induction hs with
  | nil => rfl
  | cons rows hs ih =>
    rw [heights_cons, resize_same h (hsame rows (List.mem_cons_self ..))]
    exact ih fun x hx => hsame x (List.mem_cons_of_mem _ hx)

/-- The ring is as long as it was, back at the height it had, just where
there was nothing to drift. -/
theorem len_heights_iff (h : g.Steady) (t : Cell) (hs : List Nat)
    (hback : (g.heights t hs).rows = g.rows) :
    (g.heights t hs).storage.len = g.storage.len ↔
      g.scrollbackLen = 0 ∨ g.cursor.row + 1 = g.rows ∨ ∀ rows ∈ hs, max rows 1 = g.rows := by
  obtain ⟨hsteady, -, hindex, -⟩ := heights_kept h t hs
  have hlen := h.shape.len
  have hlen' := hsteady.shape.len
  have hcursor := h.cursor
  have hcount : g.cursorIndex = g.scrollbackLen + g.cursor.row := rfl
  constructor
  · intro heq
    by_contra hnone
    have hbelow : g.cursorIndex + 1 < g.storage.len := by omega
    have hdrift := heights_drifted h hbelow t fun hall => hnone (.inr (.inr hall))
    unfold Drifted Tight at hdrift
    omega
  · intro hnone
    by_cases hall : ∀ rows ∈ hs, max rows 1 = g.rows
    · rw [heights_same h t hall]
    · have hnone : g.scrollbackLen = 0 ∨ g.cursor.row + 1 = g.rows := by
        rcases hnone with h | h | h
        · exact .inl h
        · exact .inr h
        · exact absurd h hall
      have htight : g.Tight := by
        unfold Tight
        omega
      have htight' := htight.heights h t hs
      unfold Tight at htight htight'
      omega

/-- A list of height-only resizes of a grid nothing else restates keeps every
row through the cursor's and the line the cursor is on, and gives the rows
above the cursor back at the height it had, just where no row was above the
screen to begin with, none was below the cursor, the height never changed, or
it does not come back to what it was. -/
theorem heights_iff {g : Grid} (h : g.Steady) (t : Cell) (hs : List Nat) :
    ((g.heights t hs).throughCursor = g.throughCursor ∧ (g.heights t hs).cursorLine = g.cursorLine ∧
        ((g.heights t hs).rows = g.rows → (g.heights t hs).aboveCursor = g.aboveCursor)) ↔
      (max (hs.getLastD g.rows) 1 = g.rows → g.scrollbackLen = 0 ∨ g.cursor.row + 1 = g.rows ∨
        ∀ rows ∈ hs, max rows 1 = g.rows) := by
  obtain ⟨hsteady, hrows, hindex, hthrough⟩ := heights_kept h t hs
  constructor
  · intro ⟨_, _, hrestored⟩ hback
    have hheight := hrows.trans hback
    have habove := hrestored hheight
    rw [aboveCursor_of_len h hsteady hheight hindex hthrough] at habove
    exact (len_heights_iff h t hs hheight).1 habove
  · intro hcond
    refine ⟨throughCursor_of_through hindex hthrough, cursorLine_of_through h hsteady hindex hthrough,
      fun hheight => ?_⟩
    rw [aboveCursor_of_len h hsteady hheight hindex hthrough, len_heights_iff h t hs hheight]
    exact hcond (hrows.symm.trans hheight)

/-- Three rows that have scrolled by one, the cursor sent back to the top. -/
def scrolledByOne : Grid :=
  ((Terminal.new asciiVt 4 3 10).advance
    [0x61, 0x0d, 0x0a, 0x62, 0x0d, 0x0a, 0x63, 0x0d, 0x0a, 0x64, 0x1b, 0x5b, 0x48]).state.grid

theorem steady_scrolledByOne : scrolledByOne.Steady :=
  ⟨⟨by decide +kernel, by decide +kernel, by decide +kernel, by decide +kernel⟩, by decide +kernel,
    by decide +kernel, by decide +kernel⟩

theorem heights_iff_scrolledByOne :
    ((scrolledByOne.heights Cell.blank [2, 1]).throughCursor = scrolledByOne.throughCursor ∧
        (scrolledByOne.heights Cell.blank [2, 1]).cursorLine = scrolledByOne.cursorLine ∧
        ((scrolledByOne.heights Cell.blank [2, 1]).rows = scrolledByOne.rows →
          (scrolledByOne.heights Cell.blank [2, 1]).aboveCursor = scrolledByOne.aboveCursor)) ↔
      (max ([2, 1].getLastD scrolledByOne.rows) 1 = scrolledByOne.rows →
        scrolledByOne.scrollbackLen = 0 ∨ scrolledByOne.cursor.row + 1 = scrolledByOne.rows ∨
        ∀ rows ∈ [2, 1], max rows 1 = scrolledByOne.rows) :=
  heights_iff steady_scrolledByOne Cell.blank [2, 1]

/-- A row shorter and back, the row that had scrolled away stands above the
cursor. -/
theorem not_heights_scrolledByOne :
    ¬ ∀ g : Grid, g.Steady → ∀ (t : Cell) (hs : List Nat),
      (g.heights t hs).throughCursor = g.throughCursor ∧ (g.heights t hs).cursorLine = g.cursorLine ∧
        ((g.heights t hs).rows = g.rows → (g.heights t hs).aboveCursor = g.aboveCursor) := by
  intro h
  have hback := (h scrolledByOne steady_scrolledByOne Cell.blank [2, 3]).2.2 (by decide +kernel)
  exact absurd hback (by decide +kernel)

end Grid

end Zesterm
