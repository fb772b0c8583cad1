/-
Zesterm.Core.StorageTheorems — what each operation of the row ring does to
the list of rows it stands for.

`Storage.logical` is the abstraction: the rows, oldest first. Every theorem
below rewrites `logical` of an operation into list operations on `logical`
of its argument, so that the modules above reason about lists and the
origin never leaves this one.
-/
import Zesterm.Core.Storage

namespace Zesterm

namespace Row

variable (r : Row)

@[simp] theorem length_reset (t : Cell) (id : LineId) :
    (r.reset t id).cells.length = r.cells.length := by
  simp [reset]

@[simp] theorem id_reset (t : Cell) (id : LineId) : (r.reset t id).id = id := rfl

@[simp] theorem id_setWrapped (w : Bool) : (r.setWrapped w).id = r.id := rfl

@[simp] theorem length_setWrapped (w : Bool) : (r.setWrapped w).cells.length = r.cells.length := by
  simp [setWrapped]

@[simp] theorem length_setCell (i : Nat) (c : Cell) :
    (r.setCell i c).cells.length = r.cells.length := by
  simp [setCell]

theorem pushZerowidth_id_length (i : Nat) (m : Char) :
    (r.pushZerowidth i m).id = r.id ∧ (r.pushZerowidth i m).cells.length = r.cells.length := by
  unfold pushZerowidth
  split
  · exact ⟨rfl, rfl⟩
  · split
    · split
      · exact ⟨rfl, rfl⟩
      · exact ⟨rfl, by simp⟩
    · exact ⟨rfl, rfl⟩

@[simp] theorem id_pushZerowidth (i : Nat) (m : Char) :
    (r.pushZerowidth i m).id = r.id := (pushZerowidth_id_length r i m).1

@[simp] theorem length_pushZerowidth (i : Nat) (m : Char) :
    (r.pushZerowidth i m).cells.length = r.cells.length := (pushZerowidth_id_length r i m).2

@[simp] theorem length_new (cols : Nat) (id : LineId) : (Row.new cols id).cells.length = cols := by
  simp [new]

end Row

namespace Storage

variable (s : Storage)

@[simp] theorem length_blankRow (cols : Nat) (t : Cell) (id : LineId) :
    (blankRow cols t id).cells.length = cols := by
  simp [blankRow]

@[simp] theorem length_logical : s.logical.length = s.len := by
  simp [logical, len]

theorem logical_new (len cols : Nat) :
    (new len cols).logical = (List.range len).map (Row.new cols) := by
  simp [logical, new]

/-! ## Reading and editing one row -/

/-- A row by logical index is the list's element. -/
theorem row_eq (i : Nat) (h : i < s.len) : s.row i = s.logical.getD i default := by
  have hr : i < s.rows.length := h
  simp [row, logical, physical, List.getD, List.getElem?_rotate hr, Nat.add_comm]

/-- Editing a row of the ring edits that element of the list; an index past
the end wraps. -/
theorem logical_modifyRow (i : Nat) (f : Row → Row) :
    (s.modifyRow i f).logical = s.logical.modify (i % s.len) f := by
  rcases Nat.eq_zero_or_pos s.rows.length with h0 | hpos
  · have : s.rows = [] := List.length_eq_zero_iff.mp h0
    simp [logical, modifyRow, this]
  · apply List.ext_getElem?
    intro j
    have hlen : s.len = s.rows.length := rfl
    rcases Nat.lt_or_ge j s.rows.length with hj | hj
    · simp only [logical, modifyRow, physical, hlen]
      rw [List.getElem?_rotate (by simpa using hj), List.getElem?_modify, List.getElem?_modify,
        List.getElem?_rotate hj, List.length_modify]
      have hiff : (s.origin + i) % s.rows.length = (j + s.origin) % s.rows.length ↔
          i % s.rows.length = j := by
        constructor
        · intro h
          have h' : (i + s.origin) ≡ (j + s.origin) [MOD s.rows.length] := by
            unfold Nat.ModEq; rw [Nat.add_comm i]; exact h
          have := Nat.ModEq.add_right_cancel' s.origin h'
          unfold Nat.ModEq at this
          rwa [Nat.mod_eq_of_lt hj] at this
        · intro h
          subst h
          rw [Nat.add_comm s.origin i, Nat.mod_add_mod]
      simp only [hiff]
    · rw [List.getElem?_eq_none (by simpa [logical, modifyRow] using hj),
        List.getElem?_eq_none (by simpa [logical] using hj)]

@[simp] theorem nextId_modifyRow (i : Nat) (f : Row → Row) :
    (s.modifyRow i f).nextId = s.nextId := rfl

@[simp] theorem len_modifyRow (i : Nat) (f : Row → Row) : (s.modifyRow i f).len = s.len := by
  simp [len, modifyRow]

/-! ## Growing, shrinking and recycling -/

@[simp] theorem logical_normalize : s.normalize.logical = s.logical := by
  simp [normalize, logical]

@[simp] theorem rows_normalize : s.normalize.rows = s.logical := rfl

/-- A ring grows at the bottom, with fresh ids, or is cut at the top. -/
theorem logical_resizeRows (n cols : Nat) (t : Cell) :
    (s.resizeRows n cols t).logical =
      s.logical.drop (s.len - n) ++
        (List.range' s.nextId (n - s.len)).map (blankRow cols t) := by
  unfold resizeRows
  have hlen : s.rows.length = s.len := rfl
  rw [hlen]
  split
  · next h => simp [h]
  · have hn : s.normalize.rows.length = s.len := by simp
    simp only [hn]
    split
    · next h =>
      have h0 : s.len - n = 0 := by omega
      simp [logical, normalize, h0]
    · next h =>
      have h0 : n - s.len = 0 := by omega
      simp [logical, normalize, h0]

theorem nextId_resizeRows (n cols : Nat) (t : Cell) :
    (s.resizeRows n cols t).nextId = s.nextId + (n - s.len) := by
  unfold resizeRows
  have hlen : s.rows.length = s.len := rfl
  rw [hlen]
  have hn : s.normalize.rows.length = s.len := by simp
  simp only [hn]
  split
  · next h => simp [h]
  · split
    · rfl
    · have h0 : n - s.len = 0 := by omega
      simp [normalize, h0]

theorem len_resizeRows (n cols : Nat) (t : Cell) : (s.resizeRows n cols t).len = n := by
  rw [← length_logical, logical_resizeRows]
  simp
  omega

theorem logical_truncateBottom (n : Nat) :
    (s.truncateBottom n).logical = if n = 0 then s.logical else s.logical.take (max (s.len - n) 1) := by
  unfold truncateBottom
  split
  · rfl
  · simp [logical, normalize, len]

@[simp] theorem nextId_truncateBottom (n : Nat) : (s.truncateBottom n).nextId = s.nextId := by
  unfold truncateBottom
  split <;> simp [normalize]

/-- Rows taken out of the middle, unless that would take them all. -/
theorem logical_removeRange (start n : Nat) (h : min (start + n) s.len - start < s.len) :
    (s.removeRange start n).logical = s.logical.take start ++ s.logical.drop (start + n) := by
  unfold removeRange
  have hlen : s.rows.length = s.len := rfl
  have hn : s.normalize.rows.length = s.len := by simp
  simp only [hlen, hn]
  split
  · next hc =>
    rcases hc with rfl | hc
    · simp
    · rw [List.take_of_length_le (by simpa using hc),
        List.drop_of_length_le (by simp only [length_logical]; omega)]
      simp
  · rw [if_neg (by omega)]
    have hdrop : s.logical.drop (min (start + n) s.len) = s.logical.drop (start + n) := by
      rcases Nat.le_total (start + n) s.len with hle | hle
      · rw [Nat.min_eq_left hle]
      · rw [Nat.min_eq_right hle, List.drop_of_length_le (by simp),
          List.drop_of_length_le (by simpa using hle)]
    simp [logical, normalize] at hdrop ⊢
    exact hdrop

@[simp] theorem nextId_removeRange (start n : Nat) : (s.removeRange start n).nextId = s.nextId := by
  unfold removeRange
  split
  · rfl
  · dsimp only
    split <;> rfl

/-- What removing a range leaves is always a sublist. -/
theorem removeRange_sublist (start n : Nat) :
    (s.removeRange start n).logical.Sublist s.logical := by
  by_cases h : min (start + n) s.len - start < s.len
  · rw [logical_removeRange s start n h, ← List.drop_drop]
    have hsub : (s.logical.take start ++ (s.logical.drop start).drop n).Sublist
        (s.logical.take start ++ s.logical.drop start) :=
      List.Sublist.append_left (List.drop_sublist _ _) _
    rwa [List.take_append_drop] at hsub
  · have : s.removeRange start n = s ∨ s.removeRange start n = s.normalize := by
      unfold removeRange
      split
      · exact Or.inl rfl
      · have hn : s.normalize.rows.length = s.len := by simp
        simp only [hn]
        rw [if_pos (by omega)]
        exact Or.inr rfl
    rcases this with h | h
    · rw [h]
    · rw [h, logical_normalize]

/-- Editing an element of the second of two lists. -/
theorem modify_append_right {α : Type} (f : α → α) (m : List α) (i : Nat) :
    ∀ l : List α, (l ++ m).modify (l.length + i) f = l ++ m.modify i f
  | [] => by simp
  | b :: l => by
    have ih := modify_append_right f m i l
    rw [List.cons_append, List.length_cons, Nat.add_right_comm, List.modify_succ_cons, ih]
    rfl

/-- One turn of scrolling at the scrollback limit: the oldest row becomes
the newest, blank and freshly numbered. -/
theorem logical_rotateUp_recycle (t : Cell) (h : 0 < s.len) :
    ((s.rotateUp 1).recycle ((s.rotateUp 1).len - 1) t).logical =
      s.logical.tail ++ (s.logical.head?.map fun r => r.reset t s.nextId).toList := by
  have hr : 0 < s.rows.length := h
  have hne : s.rows.isEmpty = false := by
    cases hrows : s.rows with
    | nil => simp [hrows] at hr
    | cons => rfl
  have hrot : (s.rotateUp 1).logical = s.logical.rotate 1 := by
    simp [rotateUp, hne, logical, List.rotate_rotate, List.rotate_mod]
  have hlen : (s.rotateUp 1).len = s.len := by simp [rotateUp, hne, len]
  have hnext : (s.rotateUp 1).nextId = s.nextId := by simp [rotateUp, hne]
  have hrec : ∀ (u : Storage) (i : Nat), (u.recycle i t).logical =
      (u.modifyRow i fun r => r.reset t u.nextId).logical := fun _ _ => rfl
  rw [hrec, logical_modifyRow, hrot, hlen, hnext, Nat.mod_eq_of_lt (by omega)]
  cases hl : s.logical with
  | nil => have := s.length_logical; rw [hl] at this; simp at this; omega
  | cons a l =>
    have hll : s.len = l.length + 1 := by rw [← length_logical, hl]; rfl
    have hmod := modify_append_right (fun r => r.reset t s.nextId) [a] 0 l
    simpa [hll] using hmod

@[simp] theorem nextId_recycle (i : Nat) (t : Cell) :
    (s.recycle i t).nextId = s.nextId + 1 := rfl

@[simp] theorem nextId_rotateUp (n : Nat) : (s.rotateUp n).nextId = s.nextId := by
  unfold rotateUp
  split <;> rfl

/-! ## Whole-ring rewrites -/

theorem logical_resizeCols (cols : Nat) (t : Cell) :
    (s.resizeCols cols t).logical = s.logical.map fun r => r.resize cols t := by
  simp [resizeCols, logical, List.map_rotate]

@[simp] theorem logical_replaceAll (rows : List Row) : (s.replaceAll rows).logical = rows := by
  simp [replaceAll, logical]

@[simp] theorem logical_setNextId (id : LineId) :
    (s.setNextId id).logical = s.logical := rfl

/-- A row of history as `prepend` builds it. -/
def builtRow (cols : Nat) (row : LineId × List Cell × Bool) : Row :=
  ({ (Row.new cols row.1) with
      cells := (List.range cols).map fun i => row.2.1.getD i Cell.blank } : Row).setWrapped row.2.2

@[simp] theorem length_builtRow (cols : Nat) (row : LineId × List Cell × Bool) :
    (builtRow cols row).cells.length = cols := by
  simp [builtRow]

/-- The ring read out row by row is its rows, oldest first. -/
theorem map_row_range : (List.range s.rows.length).map s.row = s.logical := by
  apply List.ext_getElem
  · simp [len]
  · intro i hi hi'
    have hlt : i < s.len := by simpa using hi'
    simp [row_eq s i hlt, List.getElem?_eq_getElem hi']

/-- History that arrives late goes above the oldest row. -/
theorem logical_prepend (rows : List (LineId × List Cell × Bool)) (cols : Nat) :
    (s.prepend rows cols).logical = rows.map (builtRow cols) ++ s.logical := by
  unfold prepend
  split
  · next h => simp [List.isEmpty_iff.mp h]
  · simp only [logical, List.rotate_zero, map_row_range]
    rfl

@[simp] theorem nextId_prepend (rows : List (LineId × List Cell × Bool)) (cols : Nat) :
    (s.prepend rows cols).nextId = s.nextId := by
  unfold prepend
  split <;> rfl

end Storage

end Zesterm
