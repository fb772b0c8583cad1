/-
Zesterm.Core.RemoteTheorems — what the remote door leaves alone.

Only four of its methods are about blocks; every other one leaves a
replica's blocks as they are (`blocks_…`). The methods that draw edit the
live grid and nothing else that shows (`Edited`), each with an edit of its
own.
-/
import Zesterm.Core.Remote
import Zesterm.Core.TermTheorems
import Zesterm.Core.MarkTheorems

namespace Zesterm

namespace TermState

variable {s : TermState}

/-! ## The live grid and the other one -/

theorem activeGrid_of_none (h : s.altGrid = none) : s.activeGrid = s.grid := by
  unfold activeGrid
  rw [h]
  rfl

theorem activeGrid_of_some {g : Grid} (h : s.altGrid = some g) : s.activeGrid = g := by
  unfold activeGrid
  rw [h]
  rfl

theorem modifyGrid_of_none (h : s.altGrid = none) (f : Grid → Grid) :
    s.modifyGrid f = { s with grid := f s.grid } := by
  unfold modifyGrid
  rw [h]

theorem modifyGrid_of_some {g : Grid} (h : s.altGrid = some g) (f : Grid → Grid) :
    s.modifyGrid f = { s with altGrid := some (f g) } := by
  unfold modifyGrid
  rw [h]

/-- `s'` is `s` with its live grid edited; the count of changes and the
damage apart, nothing else is different. -/
def Edited (s : TermState) (f : Grid → Grid) (s' : TermState) : Prop :=
  ∃ n d, s' = { s.modifyGrid f with seq := n, damage := d }

namespace Edited

variable {s s' s'' : TermState} {f f' : Grid → Grid}

theorem refl (s : TermState) : s.Edited (fun g => g) s := by
  refine ⟨s.seq, s.damage, ?_⟩
  cases ha : s.altGrid with
  | none => rw [modifyGrid_of_none ha]
  | some g =>
    rw [modifyGrid_of_some ha, ← ha]

theorem modifyGrid (s : TermState) (f : Grid → Grid) : s.Edited f (s.modifyGrid f) := by
  refine ⟨s.seq, s.damage, ?_⟩
  unfold TermState.modifyGrid
  split <;> rfl

theorem touch (h : s.Edited f s') : s.Edited f s'.touch := by
  obtain ⟨n, d, rfl⟩ := h
  exact ⟨_, _, rfl⟩

theorem touchFull (h : s.Edited f s') : s.Edited f s'.touchFull := by
  obtain ⟨n, d, rfl⟩ := h
  exact ⟨_, _, rfl⟩

theorem active (h : s.Edited f s') : s'.activeGrid = f s.activeGrid := by
  obtain ⟨n, d, rfl⟩ := h
  exact activeGrid_modifyGrid s f

theorem trans (h : s.Edited f s') (h' : s'.Edited f' s'') :
    s.Edited (fun g => f' (f g)) s'' := by
  obtain ⟨n, d, rfl⟩ := h
  obtain ⟨n', d', rfl⟩ := h'
  refine ⟨n', d', ?_⟩
  cases ha : s.altGrid with
  | none => rw [modifyGrid_of_none ha, modifyGrid_of_none ha, modifyGrid_of_none (by exact ha)]
  | some g =>
    rw [modifyGrid_of_some ha, modifyGrid_of_some ha, modifyGrid_of_some (g := f g) rfl]

/-- Only what an edit makes of the live grid counts. -/
theorem congr (h : s.Edited f s') (hf : f s.activeGrid = f' s.activeGrid) : s.Edited f' s' := by
  obtain ⟨n, d, rfl⟩ := h
  refine ⟨n, d, ?_⟩
  cases ha : s.altGrid with
  | none =>
    rw [activeGrid_of_none ha] at hf
    rw [modifyGrid_of_none ha, modifyGrid_of_none ha, hf]
  | some g =>
    rw [activeGrid_of_some ha] at hf
    rw [modifyGrid_of_some ha, modifyGrid_of_some ha, hf]

theorem isSome_alt (h : s.Edited f s') : s'.altGrid.isSome = s.altGrid.isSome := by
  obtain ⟨n, d, rfl⟩ := h
  exact isSome_altGrid_modifyGrid s f

/-- What is under an alternate screen is not edited. -/
theorem under (h : s.Edited f s') (ha : s.altGrid.isSome) : s'.grid = s.grid := by
  obtain ⟨n, d, rfl⟩ := h
  exact grid_modifyGrid s f ha

theorem frame (h : s.Edited f s') :
    s'.modes = s.modes ∧ s'.title = s.title ∧ s'.blocks = s.blocks ∧
      s'.cursorStyle = s.cursorStyle ∧ s'.template = s.template := by
  obtain ⟨n, d, rfl⟩ := h
  unfold TermState.modifyGrid
  split <;> exact ⟨rfl, rfl, rfl, rfl, rfl⟩

end Edited

/-! ## Blocks -/

@[simp] theorem blocks_touch (s : TermState) : s.touch.blocks = s.blocks := rfl

@[simp] theorem blocks_touchFull (s : TermState) : s.touchFull.blocks = s.blocks := rfl

@[simp] theorem blocks_syncKittyModes (s : TermState) : s.syncKittyModes.blocks = s.blocks := by
  unfold syncKittyModes
  dsimp only
  split <;> rfl

@[simp] theorem blocks_setAltScreen (s : TermState) (enable : Bool) :
    (s.setAltScreen enable).blocks = s.blocks := by
  unfold setAltScreen
  split
  · rfl
  · cases enable <;> simp

end TermState

namespace RemoteWriter

variable (s : TermState)
variable (row : Nat)

/-! ## Blocks -/

@[simp] theorem blocks_writeRow (id : LineId) (cells : List Cell) (wrapped : Bool) :
    (writeRow s row id cells wrapped).blocks = s.blocks := by
  unfold writeRow
  split
  · rfl
  · simp

@[simp] theorem blocks_pushMarks (col : Nat) (marks : Str) :
    (pushMarks s row col marks).blocks = s.blocks := by
  unfold pushMarks
  split <;> simp

@[simp] theorem blocks_scroll (top bottom : Nat) (lines : Int) :
    (scroll s top bottom lines).blocks = s.blocks := by
  unfold scroll
  split <;> simp

@[simp] theorem blocks_erase (top left bottom right : Nat) (template : Cell) :
    (erase s top left bottom right template).blocks = s.blocks := by
  unfold erase
  dsimp only
  split <;> simp

@[simp] theorem blocks_prependHistory (rows : List (LineId × List Cell × Bool)) :
    (prependHistory s rows).blocks = s.blocks := by
  unfold prependHistory
  split <;> simp

@[simp] theorem blocks_dropHistory (named : List LineId) :
    (dropHistory s named).blocks = s.blocks := by
  unfold dropHistory
  dsimp only
  split <;> simp

@[simp] theorem blocks_bankDisplaced (n : Nat) : (bankDisplaced s n).blocks = s.blocks := by
  unfold bankDisplaced
  split <;> simp

@[simp] theorem blocks_clearHistory : (clearHistory s).blocks = s.blocks := rfl

@[simp] theorem blocks_syncNextLineId (next : LineId) :
    (syncNextLineId s next).blocks = s.blocks := by
  simp [syncNextLineId]

@[simp] theorem blocks_setCursor (col : Nat) : (setCursor s row col).blocks = s.blocks := by
  simp [setCursor]

@[simp] theorem blocks_setCursorStyle (style : CursorStyle) :
    (setCursorStyle s style).blocks = s.blocks := rfl

@[simp] theorem blocks_setTitle (title : Str) : (setTitle s title).blocks = s.blocks := rfl

@[simp] theorem blocks_setModes (modes : Modes) : (setModes s modes).blocks = s.blocks := by
  unfold setModes
  dsimp only
  split
  · exact TermState.blocks_setAltScreen s _
  · rfl

/-! ## Edits of the live grid -/

/-- The edit that writes a row. -/
def rowEdit (row : Nat) (f : Row → Row) (g : Grid) : Grid :=
  if row < g.rows then g.modifyRow row f else g

theorem modifyRow_same (g : Grid) (row : Nat) : g.modifyRow row (fun r => r) = g := by
  have hid (rows : List Row) (i : Nat) : rows.modify i (fun r => r) = rows := List.modify_id i rows
  unfold Grid.modifyRow Storage.modifyRow
  rw [hid]

theorem rowEdit_self (g : Grid) : rowEdit row (fun r => r) g = g := by
  unfold rowEdit
  rw [modifyRow_same, ite_self]

/-- Two edits of one row are one edit. -/
theorem rowEdit_rowEdit (f f' : Row → Row) (g : Grid) :
    rowEdit row f' (rowEdit row f g) = rowEdit row (fun r => f' (f r)) g := by
  have hstorage (s : Storage) (i : Nat) :
      (s.modifyRow i f).modifyRow i f' = s.modifyRow i fun r => f' (f r) := by
    unfold Storage.modifyRow Storage.physical
    simp only [List.length_modify, List.modify_modify_eq]
    rfl
  have hbase : (g.modifyRow row f).activeBase = g.activeBase := by
    unfold Grid.activeBase Grid.modifyRow
    dsimp only
    rw [Storage.len_modifyRow]
  have htwice : (g.modifyRow row f).modifyRow row f' = g.modifyRow row fun r => f' (f r) := by
    unfold Grid.modifyRow at hbase ⊢
    dsimp only
    rw [hbase, hstorage]
  unfold rowEdit
  by_cases h : row < g.rows
  · rw [if_pos h, if_pos h, if_pos (show row < (g.modifyRow row f).rows from h), htwice]
  · rw [if_neg h, if_neg h, if_neg h]

/-- The edit of a scroll. -/
def scrollEdit (top bottom : Nat) (lines : Int) (template : Cell) (g : Grid) : Grid :=
  if lines = 0 ∨ top > bottom then g
  else
    let full := decide (top = 0 ∧ bottom + 1 ≥ g.rows)
    let h : Grid :=
      if full then g else { g with region := { top := top, bottom := min bottom (g.rows - 1) } }
    let h := if lines > 0 then h.scrollUp lines.toNat template
      else h.scrollDown (-lines).toNat template
    if full then h else { h with region := g.region }

theorem edited_writeRow (id : LineId) (cells : List Cell) (wrapped : Bool) :
    s.Edited (rowEdit row fun r => r.overwrite id cells wrapped) (writeRow s row id cells wrapped) := by
  unfold writeRow
  split
  · next h =>
    refine (TermState.Edited.refl s).congr ?_
    rw [rowEdit, if_neg (Nat.not_lt.mpr h)]
  · next h =>
    refine (TermState.Edited.touch (TermState.Edited.modifyGrid s _)).congr ?_
    rw [rowEdit, if_pos (Nat.lt_of_not_ge h)]
    rfl

theorem edited_pushMarks (col : Nat) (marks : Str) :
    s.Edited (rowEdit row fun r => r.pushMarks col marks) (pushMarks s row col marks) := by
  unfold pushMarks
  split
  · next h =>
    refine (TermState.Edited.refl s).congr ?_
    rcases h with h | h
    · obtain rfl := List.isEmpty_iff.mp h
      exact (rowEdit_self row s.activeGrid).symm
    · rw [rowEdit, if_neg (Nat.not_lt.mpr h)]
  · next h =>
    refine (TermState.Edited.modifyGrid s _).congr ?_
    rw [rowEdit, if_pos (Nat.lt_of_not_ge fun hge => h (.inr hge))]
    rfl

theorem edited_dropHistory (named : List LineId) :
    s.Edited (fun g => (g.dropScrollbackRows named).1) (dropHistory s named) := by
  unfold dropHistory
  dsimp only
  split
  · exact (TermState.Edited.modifyGrid s _).touchFull
  · exact TermState.Edited.modifyGrid s _

theorem edited_bankDisplaced (n : Nat) :
    s.Edited (fun g => g.bankViewportTop n s.template) (bankDisplaced s n) := by
  unfold bankDisplaced
  split
  · next h =>
    refine (TermState.Edited.refl s).congr ?_
    rw [h]
    unfold Grid.bankViewportTop
    rw [if_pos rfl]
  · exact (TermState.Edited.modifyGrid s _).touchFull

theorem edited_syncNextLineId (next : LineId) :
    s.Edited (fun g => g.setNextLineId next) (syncNextLineId s next) :=
  TermState.Edited.modifyGrid s _

theorem edited_setCursor (col : Nat) : s.Edited (fun g => { g with cursor :=
      { g.cursor with row := min row (g.rows - 1), col := min col (g.cols - 1) } })
      (setCursor s row col) :=
  (TermState.Edited.modifyGrid s _).touch

end RemoteWriter

end Zesterm
