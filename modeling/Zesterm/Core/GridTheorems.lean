/-
Zesterm.Core.GridTheorems — what the operations of a grid keep.

Three things are kept by everything a program can do to a grid. Its shape
(`Grid.Shape`): the ring holds exactly the scrollback and the viewport,
and every row is as wide as the grid. Its bounds (`Grid.Within`): the
scrollback is within its limit, also once a provisional settle is taken
back, and the cursor, the region and the display stay inside the grid. And
its numbering: the line ids only ever evolve in the sense of `Ledger`, old
rows leaving and fresh ones joining at the bottom, under ids the counter
has not given out before. `Grid.Evolves` is all of them at once, together
with the dimensions that stay put; it is a preorder, and every operation
below has one lemma.

Operations that edit rows in place satisfy the stronger `Storage.Edits`:
the same ids in the same places.
-/
import Zesterm.Core.StorageTheorems
import Zesterm.Core.Resize
import Zesterm.Lib.Ledger

namespace Zesterm

/-! ## Editing rows in place -/

/-- `s'` has the rows of `s` under the same ids and of the same widths. -/
structure Storage.Edits (s s' : Storage) : Prop where
  ids : s'.logical.map Row.id = s.logical.map Row.id
  widths : ∀ w, (∀ r ∈ s.logical, r.cells.length = w) → ∀ r ∈ s'.logical, r.cells.length = w
  nextId : s'.nextId = s.nextId

namespace Storage

theorem Edits.refl (s : Storage) : s.Edits s := ⟨rfl, fun _ h => h, rfl⟩

theorem Edits.trans {s s' s'' : Storage} (h : s.Edits s') (h' : s'.Edits s'') : s.Edits s'' :=
  ⟨h'.ids.trans h.ids, fun w hw => h'.widths w (h.widths w hw), h'.nextId.trans h.nextId⟩

theorem Edits.len {s s' : Storage} (h : s.Edits s') : s'.len = s.len := by
  have := congrArg List.length h.ids
  simpa using this

/-- A row read by index is one of the rows, if there are any. -/
theorem row_mem (s : Storage) (i : Nat) (h : 0 < s.len) : s.row i ∈ s.logical := by
  have hr : 0 < s.rows.length := h
  have hlt : s.physical i < s.rows.length := Nat.mod_lt _ hr
  have : s.row i = s.rows[s.physical i] := by simp [row, List.getD, hlt]
  rw [this, logical, List.mem_rotate]
  exact List.getElem_mem hlt

/-- Mapping an edit that keeps `g` of every element keeps the list of
`g`s. -/
theorem map_modify_of_eq {α β : Type} (g : α → β) (f : α → α) (hf : ∀ a, g (f a) = g a) :
    ∀ (l : List α) (i : Nat), (l.modify i f).map g = l.map g
  | [], i => by simp
  | a :: l, 0 => by simp [hf]
  | a :: l, i + 1 => by simpa using map_modify_of_eq g f hf l i

/-- Every element of an edited list is an old one or an edited old one. -/
theorem mem_modify {α : Type} (f : α → α) (b : α) :
    ∀ (l : List α) (i : Nat), b ∈ l.modify i f → b ∈ l ∨ ∃ a ∈ l, b = f a
  | [], i, h => by simp at h
  | a :: l, 0, h => by
    simp only [List.modify_zero_cons, List.mem_cons] at h
    rcases h with h | h
    · exact Or.inr ⟨a, by simp, h⟩
    · exact Or.inl (by simp [h])
  | a :: l, i + 1, h => by
    simp only [List.modify_succ_cons, List.mem_cons] at h
    rcases h with h | h
    · exact Or.inl (by simp [h])
    · rcases mem_modify f b l i h with h | ⟨a', ha', h⟩
      · exact Or.inl (by simp [h])
      · exact Or.inr ⟨a', by simp [ha'], h⟩

theorem edits_modifyRow (s : Storage) (i : Nat) (f : Row → Row) (hid : ∀ r, (f r).id = r.id)
    (hw : ∀ w, (∀ r ∈ s.logical, r.cells.length = w) → ∀ r ∈ s.logical, (f r).cells.length = w) :
    s.Edits (s.modifyRow i f) := by
  refine ⟨?_, ?_, rfl⟩
  · rw [logical_modifyRow]
    exact map_modify_of_eq Row.id f hid _ _
  · intro w h r hr
    rw [logical_modifyRow] at hr
    rcases mem_modify f r _ _ hr with hr | ⟨a, ha, rfl⟩
    · exact h r hr
    · exact hw w h a ha

/-- An edit that keeps a row's id and its width. -/
theorem edits_modifyRow_of_length (s : Storage) (i : Nat) (f : Row → Row)
    (hid : ∀ r, (f r).id = r.id) (hlen : ∀ r, (f r).cells.length = r.cells.length) :
    s.Edits (s.modifyRow i f) :=
  edits_modifyRow s i f hid fun _ h r hr => (hlen r).trans (h r hr)

/-- Copying another row's cells over a row. -/
theorem edits_copyRow (s : Storage) (i j : Nat) :
    s.Edits (s.modifyRow i fun dst => { dst with cells := (s.row j).cells }) := by
  refine edits_modifyRow s i _ (fun _ => rfl) fun w h r hr => ?_
  have hpos : 0 < s.len := by
    rw [← length_logical]; exact List.length_pos_of_mem hr
  exact h (s.row j) (row_mem s j hpos)

theorem edits_foldl {β : Type} (f : Storage → β → Storage)
    (hf : ∀ (s : Storage) b, s.Edits (f s b)) :
    ∀ (l : List β) (s : Storage), s.Edits (l.foldl f s)
  | [], s => Edits.refl s
  | b :: l, s => (hf s b).trans (edits_foldl f hf l (f s b))

end Storage

/-! ## Shape and numbering -/

namespace Grid

/-- The rows of a grid, history first. -/
def lines (g : Grid) : List Row := g.storage.logical

/-- The line ids of a grid, oldest first. -/
def ids (g : Grid) : List LineId := g.lines.map Row.id

/-- The ring holds the scrollback and the viewport and nothing else. -/
structure Shape (g : Grid) : Prop where
  rows_pos : 0 < g.rows
  cols_pos : 0 < g.cols
  len : g.storage.len = g.scrollbackLen + g.rows
  width : ∀ r ∈ g.lines, r.cells.length = g.cols

/-- Every place a grid keeps is inside it. The rows of a provisional settle
are counted with the scrollback they came from. -/
structure Within (g : Grid) : Prop where
  limit : g.scrollbackLen + g.settledPull ≤ g.scrollbackLimit
  offset : g.displayOffset ≤ g.scrollbackLen
  row : g.cursor.row < g.rows
  col : g.cursor.col < g.cols
  ordered : g.region.top ≤ g.region.bottom
  bottom : g.region.bottom < g.rows

/-- What a program drawing on `g` can have made of it. -/
structure Evolves (g g' : Grid) : Prop where
  cols : g'.cols = g.cols
  rows : g'.rows = g.rows
  limit : g'.scrollbackLimit = g.scrollbackLimit
  restated : g'.viewportRestatedElsewhere = g.viewportRestatedElsewhere
  clears : g'.historyClears = g.historyClears
  ledger : Ledger.Evolves g.ids g.storage.nextId g'.ids g'.storage.nextId
  shape : g.Shape → g'.Shape
  within : g.Shape → g.Within → g'.Within

namespace Evolves

theorem refl (g : Grid) : g.Evolves g :=
  ⟨rfl, rfl, rfl, rfl, rfl, Ledger.Evolves.refl _ _, id, fun _ hw => hw⟩

theorem trans {g g' g'' : Grid} (h : g.Evolves g') (h' : g'.Evolves g'') : g.Evolves g'' :=
  ⟨h'.cols.trans h.cols, h'.rows.trans h.rows, h'.limit.trans h.limit,
    h'.restated.trans h.restated, h'.clears.trans h.clears, h.ledger.trans h'.ledger,
    fun hs => h'.shape (h.shape hs), fun hs hw => h'.within (h.shape hs) (h.within hs hw)⟩

/-- The rows, their number and the width are the same. -/
theorem of_frame {g g' : Grid} (hs : g'.storage = g.storage) (hc : g'.cols = g.cols)
    (hr : g'.rows = g.rows) (hl : g'.scrollbackLimit = g.scrollbackLimit)
    (hv : g'.viewportRestatedElsewhere = g.viewportRestatedElsewhere)
    (hh : g'.historyClears = g.historyClears) (hb : g'.scrollbackLen = g.scrollbackLen)
    (hw : g.Shape → g.Within → g'.Within) : g.Evolves g' := by
  refine ⟨hc, hr, hl, hv, hh, ?_, fun h => ?_, hw⟩
  · simp only [ids, lines, hs]
    exact Ledger.Evolves.refl _ _
  · refine ⟨hr ▸ h.rows_pos, hc ▸ h.cols_pos, ?_, ?_⟩
    · rw [hs, hb, hr]; exact h.len
    · simp only [lines, hs, hc]
      exact h.width

/-- Rows were edited in place. -/
theorem of_edits {g : Grid} {s : Storage} (h : g.storage.Edits s) :
    g.Evolves { g with storage := s } := by
  refine ⟨rfl, rfl, rfl, rfl, rfl, ?_, fun hs => ?_, fun _ hw => { hw with }⟩
  · simp only [ids, lines, h.ids, h.nextId]
    exact Ledger.Evolves.refl _ _
  · exact ⟨hs.rows_pos, hs.cols_pos, h.len.trans hs.len, h.widths _ hs.width⟩

theorem foldl {β : Type} (f : Grid → β → Grid) (hf : ∀ (g : Grid) b, g.Evolves (f g b)) :
    ∀ (l : List β) (g : Grid), g.Evolves (l.foldl f g)
  | [], g => refl g
  | b :: l, g => (hf g b).trans (foldl f hf l (f g b))

end Evolves

variable (g : Grid)
variable (n : Nat)

/-! ## Storage operations as evolutions -/

theorem pairwise_range' (start n : Nat) : (List.range' start n).Pairwise (· < ·) :=
  List.pairwise_lt_range'

/-- Growing or cutting the ring evolves its numbering. -/
theorem ledger_resizeRows (s : Storage) (n cols : Nat) (t : Cell) :
    Ledger.Evolves (s.logical.map Row.id) s.nextId
      ((s.resizeRows n cols t).logical.map Row.id) (s.resizeRows n cols t).nextId := by
  have hids : (s.resizeRows n cols t).logical.map Row.id =
      (s.logical.map Row.id).drop (s.len - n) ++ List.range' s.nextId (n - s.len) := by
    rw [Storage.logical_resizeRows, List.map_append, List.map_drop, List.map_map]
    congr 1
    exact (List.map_congr_left fun _ _ => rfl).trans (List.map_id _)
  rw [hids, Storage.nextId_resizeRows]
  have hdrop : Ledger.Evolves _ s.nextId _ s.nextId :=
    Ledger.Evolves.of_sublist (List.drop_sublist (s.len - n) (s.logical.map Row.id))
  refine hdrop.trans (Ledger.Evolves.append (Nat.le_add_right _ _) (pairwise_range' _ _) ?_)
  intro x hx
  rw [List.mem_range'_1] at hx
  exact hx

theorem width_resizeRows (s : Storage) (n cols : Nat) (t : Cell)
    (h : ∀ r ∈ s.logical, r.cells.length = cols) :
    ∀ r ∈ (s.resizeRows n cols t).logical, r.cells.length = cols := by
  intro r hr
  rw [Storage.logical_resizeRows] at hr
  rcases List.mem_append.mp hr with hr | hr
  · exact h r (List.mem_of_mem_drop hr)
  · obtain ⟨id, _, rfl⟩ := List.mem_map.mp hr
    simp

/-- The boundary moved over a ring resized to fit. -/
theorem Evolves.of_resizeRows {g g' : Grid} {n : Nat} {t : Cell}
    (hs : g'.storage = g.storage.resizeRows n g.cols t) (hc : g'.cols = g.cols)
    (hr : g'.rows = g.rows) (hl : g'.scrollbackLimit = g.scrollbackLimit)
    (hv : g'.viewportRestatedElsewhere = g.viewportRestatedElsewhere)
    (hh : g'.historyClears = g.historyClears) (hlen : g.Shape → n = g'.scrollbackLen + g.rows)
    (hw : g.Shape → g.Within → g'.Within) : g.Evolves g' := by
  refine ⟨hc, hr, hl, hv, hh, ?_, fun h => ⟨hr ▸ h.rows_pos, hc ▸ h.cols_pos, ?_, ?_⟩, hw⟩
  · simp only [ids, lines, hs]
    exact ledger_resizeRows _ _ _ _
  · rw [hs, hr, Storage.len_resizeRows]
    exact hlen h
  · rw [hc]
    simp only [lines, hs]
    exact width_resizeRows _ _ _ _ h.width

/-- Rows struck out of a ring, the boundary following. -/
theorem Evolves.of_sublist {g g' : Grid} (hsub : g'.storage.logical.Sublist g.storage.logical)
    (hnext : g'.storage.nextId = g.storage.nextId) (hc : g'.cols = g.cols) (hr : g'.rows = g.rows)
    (hl : g'.scrollbackLimit = g.scrollbackLimit)
    (hv : g'.viewportRestatedElsewhere = g.viewportRestatedElsewhere)
    (hh : g'.historyClears = g.historyClears)
    (hlen : g.Shape → g'.storage.len = g'.scrollbackLen + g.rows)
    (hw : g.Shape → g.Within → g'.Within) : g.Evolves g' := by
  refine ⟨hc, hr, hl, hv, hh, ?_, fun h => ⟨hr ▸ h.rows_pos, hc ▸ h.cols_pos, hr ▸ hlen h, ?_⟩, hw⟩
  · simp only [ids, lines, hnext]
    exact Ledger.Evolves.of_sublist (hsub.map _)
  · rw [hc]
    exact fun r hr => h.width r (hsub.subset hr)

/-! ## Bookkeeping -/

/-- The cursor put inside the grid, after anything else. -/
theorem Evolves.cursor {g g' : Grid} (h : g.Evolves g') (c : Cursor)
    (hc : g.Shape → g.Within → c.row < g.rows ∧ c.col < g.cols) :
    g.Evolves { g' with cursor := c } := by
  refine ⟨h.cols, h.rows, h.limit, h.restated, h.clears, h.ledger,
    fun hs => ⟨(h.shape hs).1, (h.shape hs).2, (h.shape hs).3, (h.shape hs).4⟩, fun hs hw => ?_⟩
  have hw' := h.within hs hw
  exact { hw' with
    row := by rw [h.rows]; exact (hc hs hw).1
    col := by rw [h.cols]; exact (hc hs hw).2 }

theorem evolves_region (r : ScrollRegion)
    (hr : g.Shape → g.Within → r.top ≤ r.bottom ∧ r.bottom < g.rows) :
    g.Evolves { g with region := r } :=
  Evolves.of_frame rfl rfl rfl rfl rfl rfl rfl fun hs hw =>
    { hw with ordered := (hr hs hw).1, bottom := (hr hs hw).2 }

theorem evolves_displayOffset (hn : g.Shape → n ≤ g.scrollbackLen) :
    g.Evolves { g with displayOffset := n } :=
  Evolves.of_frame rfl rfl rfl rfl rfl rfl rfl fun hs hw => { hw with offset := hn hs }

theorem evolves_scrollDisplay (delta : Int) : g.Evolves (g.scrollDisplay delta) :=
  evolves_displayOffset g _ fun _ => by omega

/-- What a grid owes and what it makes of the repaint in hand. -/
theorem evolves_repaint (debt pending seen : Nat) (restating sittingOut isOpen : Bool) :
    g.Evolves { g with
      restateDebt := debt
      pendingRestate := pending
      restating := restating
      sittingOut := sittingOut
      restatementOpen := isOpen
      restateRowsSeen := seen } :=
  Evolves.of_frame rfl rfl rfl rfl rfl rfl rfl fun _ hw => { hw with }

theorem evolves_endRestatementWindow : g.Evolves g.endRestatementWindow :=
  evolves_repaint g _ _ _ _ _ _

theorem evolves_cancelRestateDebt : g.Evolves g.cancelRestateDebt :=
  Evolves.of_frame rfl rfl rfl rfl rfl rfl rfl fun _ hw =>
    { hw with limit := (Nat.le_add_right _ _).trans hw.limit }

/-! ## Editing -/

theorem evolves_modifyRow (i : Nat) (f : Row → Row) (hid : ∀ r, (f r).id = r.id)
    (hlen : ∀ r, (f r).cells.length = r.cells.length) : g.Evolves (g.modifyRow i f) :=
  Evolves.of_edits (Storage.edits_modifyRow_of_length _ _ f hid hlen)

theorem evolves_setCell (row col : Nat) (c : Cell) : g.Evolves (g.setCell row col c) :=
  evolves_modifyRow g row _ (fun _ => rfl) (fun r => Row.length_setCell r col c)

theorem evolves_setWrapped (row : Nat) (w : Bool) : g.Evolves (g.setWrapped row w) :=
  evolves_modifyRow g row _ (fun _ => rfl) (fun r => Row.length_setWrapped r w)

theorem evolves_eraseInRow (row start stop : Nat) (t : Cell) :
    g.Evolves (g.eraseInRow row start stop t) := by
  unfold eraseInRow
  dsimp only
  split
  · have hseen : g.Evolves { g with restateRowsSeen := max g.restateRowsSeen (row + 1) } :=
      Evolves.of_frame rfl rfl rfl rfl rfl rfl rfl fun _ hw => { hw with }
    exact hseen.trans (evolves_modifyRow _ _ _ (fun _ => rfl) (fun r => by simp))
  · exact evolves_modifyRow _ _ _ (fun _ => rfl) (fun r => by simp)

theorem evolves_eraseRows (first last : Nat) (t : Cell) : g.Evolves (g.eraseRows first last t) :=
  Evolves.foldl _ (fun g row => evolves_eraseInRow g row _ _ t) _ g

/-- An edit of the cursor's row that changes its cells keeps the row's
width where the row is as wide as the grid. -/
theorem evolves_editCells (row : Nat) (f : List Cell → List Cell)
    (hf : ∀ cells, cells.length = g.cols → (f cells).length = g.cols) :
    g.Evolves (g.modifyRow row fun r => { r with cells := f r.cells }) := by
  refine ⟨rfl, rfl, rfl, rfl, rfl, ?_, fun h => ⟨h.rows_pos, h.cols_pos, ?_, ?_⟩,
    fun _ hw => { hw with }⟩
  · simp only [ids, lines, modifyRow, Storage.logical_modifyRow, Storage.nextId_modifyRow]
    rw [Storage.map_modify_of_eq Row.id (fun r => { r with cells := f r.cells }) (fun _ => rfl)]
    exact Ledger.Evolves.refl _ _
  · exact (Storage.len_modifyRow _ _ _).trans h.len
  · intro r hr
    simp only [lines, modifyRow, Storage.logical_modifyRow] at hr
    rcases Storage.mem_modify _ r _ _ hr with hr | ⟨a, ha, rfl⟩
    · exact h.width r hr
    · exact hf _ (h.width a ha)

theorem evolves_insertCells (t : Cell) : g.Evolves (g.insertCells n t) :=
  evolves_editCells g g.cursor.row
    (fun cells => cells.take g.cursor.col ++
      List.replicate (min n (g.cols - g.cursor.col)) t.blankWith ++
      (cells.drop g.cursor.col).take
        ((cells.drop g.cursor.col).length - min n (g.cols - g.cursor.col)))
    fun cells h => by simp; omega

theorem evolves_deleteCells (t : Cell) : g.Evolves (g.deleteCells n t) :=
  evolves_editCells g g.cursor.row
    (fun cells => cells.take g.cursor.col ++
      (cells.drop g.cursor.col).drop (min n (g.cols - g.cursor.col)) ++
      List.replicate (min n (g.cols - g.cursor.col)) t.blankWith)
    fun cells h => by simp; omega

/-! ## Scrolling -/

/-- A settle has to be over before rows leave the screen. -/
theorem evolves_scrollScreenUp1 (t : Cell) (hp : g.settledPull = 0) :
    g.Evolves (g.scrollScreenUp1 t) := by
  have hgrow (hlt : g.scrollbackLen < g.scrollbackLimit) : g.Evolves
      { g with
        storage := g.storage.resizeRows (g.storage.len + 1) g.cols t
        scrollbackLen := g.scrollbackLen + 1 } :=
    Evolves.of_resizeRows rfl rfl rfl rfl rfl rfl (fun h => by rw [h.len, Nat.add_right_comm])
      fun _ hw => { hw with
        limit := by rw [hp]; exact hlt
        offset := hw.offset.trans (Nat.le_succ _) }
  have hturn : g.Evolves
      { g with storage := (g.storage.rotateUp 1).recycle ((g.storage.rotateUp 1).len - 1) t } := by
    refine ⟨rfl, rfl, rfl, rfl, rfl, ?_, fun h => ?_, fun _ hw => { hw with }⟩
    · rcases Nat.eq_zero_or_pos g.storage.len with h0 | hpos
      · -- An empty ring stays empty, and only the counter moves.
        have hnil : g.storage.rows = [] := List.length_eq_zero_iff.mp h0
        have : ((g.storage.rotateUp 1).recycle ((g.storage.rotateUp 1).len - 1) t).rows = [] := by
          simp [Storage.recycle, Storage.modifyRow, Storage.rotateUp, hnil]
        simp only [ids, lines, Storage.logical, this, hnil]
        exact Ledger.Evolves.of_le (by simp)
      · simp only [ids, lines, Storage.logical_rotateUp_recycle _ t hpos, Storage.nextId_recycle,
          Storage.nextId_rotateUp, List.map_append]
        have htail : Ledger.Evolves _ g.storage.nextId _ g.storage.nextId :=
          Ledger.Evolves.of_sublist ((List.tail_sublist g.storage.logical).map Row.id)
        refine htail.trans (Ledger.Evolves.append (Nat.le_succ _) ?_ ?_)
        · cases g.storage.logical <;> simp
        · cases g.storage.logical <;> simp
    · have hpos : 0 < g.storage.len := by have := h.len; have := h.rows_pos; omega
      refine ⟨h.rows_pos, h.cols_pos, ?_, ?_⟩
      · rw [← Storage.length_logical, Storage.logical_rotateUp_recycle _ t hpos]
        have hl : 0 < g.storage.logical.length := by simpa using hpos
        cases hc : g.storage.logical with
        | nil => simp [hc] at hl
        | cons a l =>
          have := h.len
          rw [← Storage.length_logical, hc] at this
          simpa using this
      · intro r hr
        simp only [lines, Storage.logical_rotateUp_recycle _ t hpos] at hr
        rcases List.mem_append.mp hr with hr | hr
        · exact h.width r (List.mem_of_mem_tail hr)
        · cases hc : g.storage.logical with
          | nil => simp [hc] at hr
          | cons a l =>
            simp only [hc, List.head?_cons, Option.map_some, Option.toList_some,
              List.mem_singleton] at hr
            subst hr
            rw [Row.length_reset]
            exact h.width a (by simp [lines, hc])
  -- The reader's place follows, as far as the history goes.
  have hoffset {g' : Grid} (hg : g.Evolves g') (n : Nat) :
      g.Evolves { g' with displayOffset := min n (g'.storage.len - g'.rows) } :=
    hg.trans (evolves_displayOffset _ _ fun h => by
      rw [h.len, Nat.add_sub_cancel]
      exact Nat.min_le_right _ _)
  unfold scrollScreenUp1
  dsimp only
  split
  · next hlt =>
    split
    · exact hoffset (hgrow hlt) _
    · exact hgrow hlt
  · split
    · have hevict (e : List Evicted) : g.Evolves { g with
          storage := (g.storage.rotateUp 1).recycle ((g.storage.rotateUp 1).len - 1) t
          evicted := e } :=
        hturn.trans (Evolves.of_frame rfl rfl rfl rfl rfl rfl rfl fun _ hw => { hw with })
      split
      · exact hoffset (hevict _) _
      · exact hevict _
    · split
      · exact hoffset hturn _
      · exact hturn

theorem settledPull_scrollScreenUp1 (t : Cell) :
    (g.scrollScreenUp1 t).settledPull = g.settledPull := by
  unfold scrollScreenUp1
  dsimp only
  split <;> split <;> first | rfl | split <;> rfl

theorem evolves_scrollScreenUp (t : Cell) : ∀ (n : Nat) (g : Grid), g.settledPull = 0 →
    g.Evolves (g.scrollScreenUp t n)
  | 0, g, _ => Evolves.refl g
  | n + 1, g, hp => (evolves_scrollScreenUp1 g t hp).trans
      (evolves_scrollScreenUp t n _ ((settledPull_scrollScreenUp1 g t).trans hp))

/-- A move within the region edits rows in place. -/
theorem scrollRegionUp_edits (t : Cell) :
    ∃ s, g.storage.Edits s ∧ g.scrollRegionUp n t = { g with storage := s } := by
  refine ⟨_, Storage.edits_foldl _ (fun s row => ?_) _ _, rfl⟩
  dsimp only
  split
  · exact Storage.edits_copyRow s _ _
  · exact Storage.edits_modifyRow_of_length _ _ _ (fun _ => rfl) (fun r => by simp)

theorem evolves_scrollRegionUp (t : Cell) : g.Evolves (g.scrollRegionUp n t) := by
  obtain ⟨s, hs, heq⟩ := g.scrollRegionUp_edits n t
  rw [heq]
  exact Evolves.of_edits hs

theorem scrollDown_edits {n : Nat} (hn : n ≠ 0) (t : Cell) :
    ∃ s, g.storage.Edits s ∧ g.scrollDown n t = { g.cancelRestateDebt with storage := s } := by
  unfold scrollDown
  rw [if_neg hn]
  refine ⟨_, Storage.edits_foldl _ (fun s row => ?_) _ _, rfl⟩
  dsimp only
  split
  · exact Storage.edits_copyRow s _ _
  · exact Storage.edits_modifyRow_of_length _ _ _ (fun _ => rfl) (fun r => by simp)

theorem evolves_scrollDown (t : Cell) : g.Evolves (g.scrollDown n t) := by
  by_cases hn : n = 0
  · unfold scrollDown
    rw [if_pos hn]
    exact Evolves.refl g
  · obtain ⟨s, hs, heq⟩ := g.scrollDown_edits hn t
    rw [heq]
    exact (evolves_cancelRestateDebt g).trans (Evolves.of_edits (g := g.cancelRestateDebt) hs)

/-- The overflow of a repaint: blanks join at the bottom, and as many rows
leave from the top of the viewport. -/
theorem evolves_overflow (t : Cell) : g.Evolves { g with storage :=
      (g.storage.resizeRows (g.storage.len + n) g.cols t).removeRange g.scrollbackLen n } := by
  have hsub := Storage.removeRange_sublist
    (g.storage.resizeRows (g.storage.len + n) g.cols t) g.scrollbackLen n
  refine ⟨rfl, rfl, rfl, rfl, rfl, ?_, fun h => ⟨h.rows_pos, h.cols_pos, ?_, ?_⟩,
    fun _ hw => { hw with }⟩
  · refine (ledger_resizeRows g.storage (g.storage.len + n) g.cols t).trans ?_
    simp only [ids, lines, Storage.nextId_removeRange]
    exact Ledger.Evolves.of_sublist (hsub.map _)
  · have hlen := h.len
    have hpos := h.rows_pos
    rw [← Storage.length_logical, Storage.logical_removeRange _ _ _ (by
      rw [Storage.len_resizeRows]; omega)]
    simp only [List.length_append, List.length_take, List.length_drop, Storage.length_logical,
      Storage.len_resizeRows]
    omega
  · exact fun r hr => width_resizeRows _ _ _ _ h.width r (hsub.subset hr)

theorem evolves_scrollUp (t : Cell) : g.Evolves (g.scrollUp n t) := by
  unfold scrollUp
  split
  · exact Evolves.refl g
  · dsimp only
    split
    · exact evolves_overflow g _ t
    · refine (evolves_cancelRestateDebt g).trans ?_
      split
      · exact evolves_scrollScreenUp t _ _ rfl
      · exact evolves_scrollRegionUp _ _ t

/-- An operation inside the region from the cursor's row on. -/
theorem evolves_inRegion {g : Grid} (hin : g.region.contains g.cursor.row = true) {f : Grid → Grid}
    (hf : ∀ g : Grid, g.Evolves (f g)) :
    g.Evolves { f { g with region := { g.region with top := g.cursor.row } } with
      region := g.region } := by
  have hfrom : g.Evolves { g with region := { g.region with top := g.cursor.row } } :=
    evolves_region g _ fun _ hw => ⟨by simp [ScrollRegion.contains] at hin; exact hin.2, hw.bottom⟩
  have hop := hfrom.trans (hf _)
  refine ⟨hop.cols, hop.rows, hop.limit, hop.restated, hop.clears, hop.ledger,
    fun h => ⟨(hop.shape h).1, (hop.shape h).2, (hop.shape h).3, (hop.shape h).4⟩, fun h hw => ?_⟩
  have hw' := hop.within h hw
  exact { hw' with ordered := hw.ordered, bottom := by rw [hop.rows]; exact hw.bottom }

theorem evolves_insertLines (t : Cell) : g.Evolves (g.insertLines n t) := by
  unfold insertLines
  split
  · next hin =>
    exact evolves_inRegion hin fun g' => evolves_scrollDown g' n t
  · exact Evolves.refl g

theorem evolves_deleteLines (t : Cell) : g.Evolves (g.deleteLines n t) := by
  unfold deleteLines
  split
  · next hin =>
    exact evolves_inRegion hin fun g' => evolves_scrollUp g' n t
  · exact Evolves.refl g

theorem evolves_clearAll (t : Cell) : g.Evolves (g.clearAll t) := by
  refine (Evolves.foldl (fun g row => g.eraseInRow row 0 (g.cols - 1) t)
    (fun g row => evolves_eraseInRow g row 0 (g.cols - 1) t) (List.range g.rows) g).trans ?_
  exact Evolves.of_frame rfl rfl rfl rfl rfl rfl rfl fun hs hw =>
    { limit := (Nat.le_add_right _ _).trans hw.limit
      offset := hw.offset
      row := hs.rows_pos
      col := hs.cols_pos
      ordered := Nat.zero_le _
      bottom := Nat.sub_lt hs.rows_pos Nat.one_pos }

/-! ## The restating pty -/

theorem evolves_rebankSettled (t : Cell) : g.Evolves (g.rebankSettled t) := by
  unfold rebankSettled
  dsimp only
  split
  · exact Evolves.of_frame rfl rfl rfl rfl rfl rfl rfl fun _ hw =>
      { hw with limit := (Nat.le_add_right _ _).trans hw.limit }
  · exact Evolves.of_resizeRows rfl rfl rfl rfl rfl rfl (fun _ => rfl) fun _ hw =>
      { hw with
        offset := Nat.min_le_right _ _
        row := (Nat.sub_le _ _).trans_lt hw.row }

theorem evolves_strandSettled (t : Cell) : g.Evolves (g.strandSettled t).1 := by
  unfold strandSettled
  dsimp only
  split
  · exact Evolves.of_frame rfl rfl rfl rfl rfl rfl rfl fun _ hw =>
      { hw with limit := (Nat.le_add_right _ _).trans hw.limit }
  · split
    · exact Evolves.of_resizeRows rfl rfl rfl rfl rfl rfl (fun _ => rfl) fun _ hw =>
        { hw with
          offset := Nat.min_le_right _ _
          row := (Nat.sub_le _ _).trans_lt hw.row }
    · exact Evolves.of_resizeRows rfl rfl rfl rfl rfl rfl (fun _ => rfl) fun _ hw =>
        { hw with
          offset := hw.offset.trans (Nat.le_add_right _ _)
          row := (Nat.sub_le _ _).trans_lt hw.row }

theorem evolves_noteRestatementBegan (cols rows : Nat) (t : Cell) :
    g.Evolves (g.noteRestatementBegan cols rows t) := by
  have hopen : g.Evolves ({ g with restatementOpen := true }.rebankSettled t) :=
    (evolves_repaint g _ _ _ _ _ true).trans (evolves_rebankSettled _ t)
  unfold noteRestatementBegan
  dsimp only
  split
  · exact hopen
  · split
    · split
      · exact hopen
      · exact hopen.trans (evolves_repaint _ _ _ _ _ _ _)
    · exact hopen.trans (evolves_repaint _ _ _ _ _ _ _)

theorem evolves_noteCursorHomedWhileHidden (t : Cell) :
    g.Evolves (g.noteCursorHomedWhileHidden t) := by
  have hopen : g.Evolves { g with restatementOpen := true } := evolves_repaint g _ _ _ _ _ true
  have harm (h : Grid) : h.Evolves { h with restating := true, restateRowsSeen := 0 } :=
    evolves_repaint h _ _ _ _ _ _
  unfold noteCursorHomedWhileHidden
  dsimp only
  split
  · split
    · exact (hopen.trans (evolves_rebankSettled _ t)).trans (harm _)
    · exact hopen.trans (evolves_rebankSettled _ t)
  · split
    · exact hopen.trans (harm _)
    · exact hopen

theorem evolves_settleRestate : g.Evolves g.settleRestate.1 := by
  unfold settleRestate
  dsimp only
  split
  · exact evolves_endRestatementWindow g
  · split
    · exact (evolves_endRestatementWindow g).trans (evolves_repaint _ _ _ _ _ _ _)
    · next hk =>
      generalize hkd : min (min (min g.endRestatementWindow.pendingRestate
        g.endRestatementWindow.blankTail) (g.endRestatementWindow.rows - 1 -
          min g.endRestatementWindow.cursor.row (g.endRestatementWindow.rows - 1)))
        g.endRestatementWindow.scrollbackLen = k at hk ⊢
      -- At most the scrollback's worth of rows goes, and no more than there
      -- are below the cursor.
      have hle : k ≤ g.scrollbackLen := by
        rw [← hkd]
        exact Nat.min_le_right _ g.scrollbackLen
      have hbelow : k ≤ g.rows - 1 - min g.cursor.row (g.rows - 1) := by
        rw [← hkd]
        exact (Nat.min_le_left _ _).trans (Nat.min_le_right _ _)
      refine Evolves.of_sublist ?_ (Storage.nextId_truncateBottom _ _) rfl rfl rfl rfl rfl
        (fun h => ?_) fun _ hw => { hw with limit := ?_, offset := ?_, row := ?_ }
      · show (g.storage.truncateBottom k).logical.Sublist _
        rw [Storage.logical_truncateBottom]
        split
        · exact List.Sublist.refl _
        · exact List.take_sublist _ _
      · have hlen := h.len
        have hpos := h.rows_pos
        show (g.storage.truncateBottom k).len = g.scrollbackLen - k + g.rows
        rw [← Storage.length_logical, Storage.logical_truncateBottom, if_neg hk]
        simp only [List.length_take, Storage.length_logical]
        omega
      · show g.scrollbackLen - k + k ≤ g.scrollbackLimit
        rw [Nat.sub_add_cancel hle]
        exact (Nat.le_add_right _ _).trans hw.limit
      · exact Nat.min_le_right _ _
      · have hrow := hw.row
        show g.cursor.row + k < g.rows
        omega

end Grid

end Zesterm
