/-
Zesterm.Core.MarkTheorems — a row written over another, and its combining
marks.

A row that arrives replaces the cells of the row it lands on and leaves what
that row's side table holds (`Row.overwrite`); its marks are pushed
afterwards, cell by cell (`Row.pushAll`). The side table has 65535 slots, one
for each marked cell, and a mark that finds it full is dropped, so what is
left in the table decides how many of the new marks have room:
`marksAt_pushAll` says exactly which cells get theirs.
-/
import Zesterm.Core.GridTheorems

namespace Zesterm

/-- What a cell shows, its marks apart. -/
def Cell.look (c : Cell) : Char × Color × Color × CellFlags := (c.ch, c.fg, c.bg, c.flags)

namespace Row

/-! ## Marks, read and written -/

/-- The combining marks of a cell. -/
def marksOf (r : Row) (c : Cell) : Str := ((r.extra c).map CellExtra.zerowidth).getD []

/-- The combining marks at a column. -/
def marksAt (r : Row) (i : Nat) : Str := (r.cells[i]?.map r.marksOf).getD []

/-- Push the marks of one cell. -/
def pushMarks (r : Row) (col : Nat) (marks : Str) : Row :=
  marks.foldl (fun r mark => r.pushZerowidth col mark) r

/-- Push the marks of several cells. -/
def pushAll (r : Row) (marked : List (Nat × Str)) : Row :=
  marked.foldl (fun r m => r.pushMarks m.1 m.2) r

/-- Cells off the wire at a width: cut or padded with blanks, and the wrap
recorded on the last. -/
def arrived (cols : Nat) (cells : List Cell) (wrapped : Bool) : List Cell :=
  ((List.range cols).map fun i => cells.getD i Cell.blank).modify (cols - 1) fun c =>
    { c with flags := c.flags.set .wrapline wrapped }

/-- The row written over `r`. -/
def overwrite (r : Row) (id : LineId) (cells : List Cell) (wrapped : Bool) : Row :=
  ({ r with
      id := id
      cells := (List.range r.cells.length).map fun i => cells.getD i Cell.blank } : Row).setWrapped
        wrapped

/-- Every side-table index of a row is in its table. -/
def Tidy (r : Row) : Prop := ∀ c ∈ r.cells, c.extra = noExtra ∨ c.extra < r.extras.length

instance (r : Row) : Decidable r.Tidy := inferInstanceAs (Decidable (∀ c ∈ r.cells, _))

variable {r : Row} {col : Nat} {c : Cell}

theorem marksOf_noExtra (h : c.extra = noExtra) : r.marksOf c = [] := by
  simp [marksOf, extra, h]

theorem marksAt_eq (h : r.cells[col]? = some c) : r.marksAt col = r.marksOf c := by
  simp [marksAt, h]

@[simp] theorem length_pushMarks (r : Row) (col : Nat) (marks : Str) :
    (r.pushMarks col marks).cells.length = r.cells.length := by
  induction marks generalizing r with
  | nil => rfl
  | cons mark marks ih => exact (ih _).trans (length_pushZerowidth r col mark)

@[simp] theorem length_pushAll (r : Row) (marked : List (Nat × Str)) :
    (r.pushAll marked).cells.length = r.cells.length := by
  induction marked generalizing r with
  | nil => rfl
  | cons m marked ih => exact (ih _).trans (length_pushMarks r m.1 m.2)

/-- More marks on a cell that has an entry go to the end of it. -/
theorem pushMarks_held (h : r.cells[col]? = some c) (hx : c.extra ≠ noExtra) (marks : Str) :
    r.pushMarks col marks =
      { r with extras := r.extras.modify c.extra fun e =>
          { e with zerowidth := e.zerowidth ++ marks } } := by
  induction marks generalizing r with
  | nil =>
    have hsame : (r.extras.modify c.extra fun e =>
        { e with zerowidth := e.zerowidth ++ ([] : Str) }) = r.extras := by
      simp only [List.append_nil]
      exact List.modify_id _ _
    rw [hsame]
    rfl
  | cons mark marks ih =>
    have hpush : r.pushZerowidth col mark =
        { r with extras := r.extras.modify c.extra fun e =>
            { e with zerowidth := e.zerowidth ++ [mark] } } := by
      unfold pushZerowidth
      rw [h]
      dsimp only
      rw [if_neg (by simpa using hx)]
    show (r.pushZerowidth col mark).pushMarks col marks = _
    rw [hpush]
    have hrest := ih (r := { r with extras := r.extras.modify c.extra fun e =>
      { e with zerowidth := e.zerowidth ++ [mark] } }) h
    rw [hrest]
    dsimp only
    rw [List.modify_modify_eq]
    simp only [Function.comp_def, List.append_assoc, List.singleton_append]

/-- The first marks of a cell take a slot of their own, where there is one. -/
theorem pushMarks_fresh (h : r.cells[col]? = some c) (hx : c.extra = noExtra) {marks : Str}
    (hm : marks ≠ []) :
    r.pushMarks col marks =
      if r.extras.length < noExtra then
        { r with
          cells := r.cells.set col { c with extra := r.extras.length }
          extras := r.extras ++ [{ zerowidth := marks }] }
      else r := by
  split
  · next hroom =>
    obtain ⟨mark, marks, rfl⟩ := List.exists_cons_of_ne_nil hm
    obtain ⟨hlt, _⟩ := List.getElem?_eq_some_iff.mp h
    have hpush : r.pushZerowidth col mark =
        { r with
          cells := r.cells.set col { c with extra := r.extras.length }
          extras := r.extras ++ [{ zerowidth := [mark] }] } := by
      unfold pushZerowidth
      rw [h]
      dsimp only
      rw [if_pos (by simpa using hx), if_neg (by omega)]
    show (r.pushZerowidth col mark).pushMarks col marks = _
    rw [hpush, pushMarks_held (c := { c with extra := r.extras.length })
      (List.getElem?_set_self (by simpa using hlt)) (by dsimp only; omega)]
    dsimp only
    congr 1
    exact Storage.modify_append_right _ _ 0 r.extras
  · next hfull =>
    have hstuck (mark : Char) : r.pushZerowidth col mark = r := by
      unfold pushZerowidth
      rw [h]
      dsimp only
      rw [if_pos (by simpa using hx), if_pos (by omega)]
    clear hm
    induction marks with
    | nil => rfl
    | cons mark marks ih =>
      show (r.pushZerowidth col mark).pushMarks col marks = r
      rw [hstuck]
      exact ih

/-! ## Every mark of a row -/

/-- What a cell means does not change when the side table grows. -/
theorem marksOf_append {cells : List Cell} {more : List CellExtra}
    (h : c.extra = noExtra ∨ c.extra < r.extras.length) :
    ({ r with cells := cells, extras := r.extras ++ more } : Row).marksOf c = r.marksOf c := by
  unfold marksOf extra
  rcases h with h | h
  · simp [h]
  · dsimp only
    rw [List.getElem?_append_left h]

/-- A cell that took the next slot: its marks, and every other cell's. -/
theorem marksAt_slot (ht : r.Tidy) (h : r.cells[col]? = some c)
    (hroom : r.extras.length < noExtra) (marks : Str) (i : Nat) :
    ({ r with
      cells := r.cells.set col { c with extra := r.extras.length }
      extras := r.extras ++ [{ zerowidth := marks }] } : Row).marksAt i =
      if i = col then marks else r.marksAt i := by
  obtain ⟨hlt, _⟩ := List.getElem?_eq_some_iff.mp h
  split
  · next heq =>
    rw [heq, marksAt_eq (List.getElem?_set_self hlt)]
    simp only [marksOf, extra, beq_iff_eq, Nat.ne_of_lt hroom, if_false]
    rw [List.getElem?_append_right (Nat.le_refl _), Nat.sub_self]
    rfl
  · next hne =>
    unfold marksAt
    dsimp only
    rw [List.getElem?_set_ne (Ne.symm hne)]
    cases hi : r.cells[i]? with
    | none => rfl
    | some d => exact congrArg (Option.getD · []) (congrArg some
        (marksOf_append (ht d (List.mem_of_getElem? hi))))

/-- What pushing the marks of a row's cells comes to. -/
structure Marked (r : Row) (marked : List (Nat × Str)) (r' : Row) : Prop where
  look : r'.cells.map Cell.look = r.cells.map Cell.look
  id : r'.id = r.id
  tidy : r'.Tidy
  /-- A mark that finds a slot is the cell's. -/
  given : ∀ m ∈ marked.take (noExtra - r.extras.length), r'.marksAt m.1 = m.2
  /-- Every other cell keeps the marks it had. -/
  rest : ∀ i, i ∉ (marked.take (noExtra - r.extras.length)).map Prod.fst →
    r'.marksAt i = r.marksAt i

/-- The marks of cells that have none yet, each cell named once: as many of
them as the side table has room for. -/
theorem marked_pushAll (marked : List (Nat × Str)) {r : Row} (ht : r.Tidy)
    (hcols : (marked.map Prod.fst).Nodup)
    (hfresh : ∀ m ∈ marked, m.2 ≠ [] ∧ ∃ c, r.cells[m.1]? = some c ∧ c.extra = noExtra) :
    r.Marked marked (r.pushAll marked) := by
  induction marked generalizing r with
  | nil => exact ⟨rfl, rfl, ht, by simp, fun _ _ => rfl⟩
  | cons m marked ih =>
    obtain ⟨hne, c, hc, hx⟩ := hfresh m (List.mem_cons_self ..)
    obtain ⟨hnotin, hcols⟩ := List.nodup_cons.mp hcols
    have hrest (m' : Nat × Str) (hm' : m' ∈ marked) := hfresh m' (List.mem_cons_of_mem _ hm')
    show r.Marked (m :: marked) ((r.pushMarks m.1 m.2).pushAll marked)
    rw [pushMarks_fresh hc hx hne]
    by_cases hroom : r.extras.length < noExtra
    · rw [if_pos hroom]
      have hslot := marksAt_slot ht hc hroom m.2
      generalize hr' : ({ r with
        cells := r.cells.set m.1 { c with extra := r.extras.length }
        extras := r.extras ++ [{ zerowidth := m.2 }] } : Row) = r' at hslot
      have hlen : r'.extras.length = r.extras.length + 1 := by simp [← hr']
      have hcells : r'.cells = r.cells.set m.1 { c with extra := r.extras.length } := by rw [← hr']
      have ht' : r'.Tidy := by
        intro d hd
        rw [hcells] at hd
        rw [hlen]
        rcases List.mem_or_eq_of_mem_set hd with hd | rfl
        · exact (ht d hd).imp_right fun h => h.trans (Nat.lt_succ_self _)
        · exact .inr (Nat.lt_succ_self _)
      have hih := ih ht' hcols fun m' hm' => by
        obtain ⟨hne', c', hc', hx'⟩ := hrest m' hm'
        refine ⟨hne', c', ?_, hx'⟩
        rw [hcells, List.getElem?_set_ne]
        · exact hc'
        · exact fun heq => hnotin (heq ▸ List.mem_map_of_mem hm')
      have htake : (m :: marked).take (noExtra - r.extras.length) =
          m :: marked.take (noExtra - r'.extras.length) := by
        rw [hlen, show noExtra - r.extras.length = noExtra - (r.extras.length + 1) + 1 by omega]
        rfl
      have hout : m.1 ∉ (marked.take (noExtra - r'.extras.length)).map Prod.fst := fun hin =>
        hnotin (List.map_subset _ (List.take_subset _ _) hin)
      refine ⟨hih.look.trans ?_, hih.id.trans (by rw [← hr']), hih.tidy, ?_, ?_⟩
      · -- The slot is not part of what the cell shows.
        obtain ⟨hlt, hget⟩ := List.getElem?_eq_some_iff.mp hc
        have hlt' : m.1 < (r.cells.map Cell.look).length := by simpa using hlt
        have hlook : Cell.look { c with extra := r.extras.length } =
            (r.cells.map Cell.look)[m.1] := by
          rw [List.getElem_map, hget]
          rfl
        rw [hcells, List.map_set, hlook, List.set_getElem_self]
      · intro m' hm'
        rw [htake] at hm'
        rcases List.mem_cons.mp hm' with rfl | hm'
        · rw [hih.rest _ hout, hslot, if_pos rfl]
        · exact hih.given m' hm'
      · intro i hi
        rw [htake, List.map_cons, List.mem_cons, not_or] at hi
        rw [hih.rest i hi.2, hslot, if_neg hi.1]
    · -- The table is full: this mark and every later one are dropped.
      rw [if_neg hroom]
      have hnone : noExtra - r.extras.length = 0 := by omega
      have hih := ih ht hcols hrest
      refine ⟨hih.look, hih.id, hih.tidy, ?_, ?_⟩
      · rw [hnone]
        simp
      · intro i _
        exact hih.rest i (by rw [hnone]; simp)

/-- The marks are all there if and only if the table has room for them. -/
theorem Marked.all_iff {marked : List (Nat × Str)} {r' : Row} (h : r.Marked marked r')
    (hcols : (marked.map Prod.fst).Nodup)
    (hfresh : ∀ m ∈ marked, m.2 ≠ [] ∧ ∃ c, r.cells[m.1]? = some c ∧ c.extra = noExtra) :
    (∀ m ∈ marked, r'.marksAt m.1 = m.2) ↔ marked.length ≤ noExtra - r.extras.length := by
  constructor
  · intro hall
    by_contra hlong
    have hin : noExtra - r.extras.length < marked.length := by omega
    have hmem := List.getElem_mem hin
    obtain ⟨hne, c, hc, hx⟩ := hfresh _ hmem
    have hout : (marked[noExtra - r.extras.length]).1 ∉
        (marked.take (noExtra - r.extras.length)).map Prod.fst := by
      rw [← List.take_append_drop (noExtra - r.extras.length) marked, List.map_append,
        List.nodup_append] at hcols
      refine fun hdup => hcols.2.2 _ hdup _ (List.mem_map_of_mem ?_) rfl
      rw [List.drop_eq_getElem_cons hin]
      exact List.mem_cons_self ..
    have hlost := h.rest _ hout
    rw [hall _ hmem, marksAt_eq hc, marksOf_noExtra hx] at hlost
    exact hne hlost
  · intro hroom m hm
    exact h.given m (by rw [List.take_of_length_le hroom]; exact hm)

/-! ## The row written over another -/

theorem tidy_setWrapped {r : Row} (h : r.Tidy) (on : Bool) : (r.setWrapped on).Tidy := by
  intro c hc
  rcases Storage.mem_modify _ c _ _ hc with hc | ⟨c', hc', rfl⟩
  · exact h c hc
  · exact h c' hc'

theorem wrapped_setWrapped {r : Row} (h : 0 < r.cells.length) (on : Bool) :
    (r.setWrapped on).wrapped = on := by
  unfold wrapped setWrapped
  dsimp only
  rw [List.getLast?_eq_getElem?, List.length_modify, List.getElem?_modify_eq,
    List.getElem?_eq_getElem (by omega)]
  exact CellFlags.contains_set _ _ _ (by decide)

variable (r) (id : LineId) (cells : List Cell) (wrapped : Bool)

@[simp] theorem length_overwrite : (r.overwrite id cells wrapped).cells.length = r.cells.length := by
  simp [overwrite, setWrapped]

theorem cells_overwrite :
    (r.overwrite id cells wrapped).cells = arrived r.cells.length cells wrapped := by
  unfold overwrite setWrapped arrived
  dsimp only
  rw [List.length_map, List.length_range]

/-- Cells that arrive have no marks yet. -/
theorem noExtra_overwrite (h : ∀ c ∈ cells, c.extra = noExtra) :
    ∀ c ∈ (r.overwrite id cells wrapped).cells, c.extra = noExtra := by
  intro c hc
  have hplain : ∀ d ∈ (List.range r.cells.length).map fun i => cells.getD i Cell.blank,
      d.extra = noExtra := by
    intro d hd
    obtain ⟨i, _, rfl⟩ := List.mem_map.mp hd
    rw [List.getD_eq_getElem?_getD]
    cases hi : cells[i]? with
    | none => rfl
    | some e => exact h e (List.mem_of_getElem? hi)
  rcases Storage.mem_modify _ c _ _ hc with hc | ⟨d, hd, rfl⟩
  · exact hplain c hc
  · exact hplain d hd

end Row

end Zesterm
