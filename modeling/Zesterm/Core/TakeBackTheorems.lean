/-
Zesterm.Core.TakeBackTheorems — what taking named rows back out of a
replica's history does, and when a reader stays where they were.

`drop_scrollback_rows` removes exactly the history rows a keyframe names:
the walk from the newest row down, its runs and its floor come to a filter
of the history (`HistoryTheorems`). The reader's offset counts from the
bottom of the storage, and the source lowers it by the number of rows
removed, wherever they were. That holds the text still when they lay below
the top line of the view, which is the case the source has in mind. A named
row above it leaves the lines below untouched, and the offset comes down all
the same: the view moves on by that row.
-/
import Zesterm.Core.HistoryTheorems

namespace Zesterm

namespace Grid

/-! ## What is to come of it -/

/-- The named rows leave the history and nothing else does, they are
counted, and a scrolled-back reader whose top line stays keeps it. -/
structure TakesBack (g : Grid) (named : List LineId) : Prop where
  history : (g.dropScrollbackRows named).1.lines.take (g.dropScrollbackRows named).1.scrollbackLen =
    (g.lines.take g.scrollbackLen).filter fun r => r.id ∉ named
  screen : (g.dropScrollbackRows named).1.lines.drop (g.dropScrollbackRows named).1.scrollbackLen =
    g.lines.drop g.scrollbackLen
  returned : (g.dropScrollbackRows named).2 =
    (g.lines.take g.scrollbackLen).countP fun r => r.id ∈ named
  reader : 0 < g.displayOffset → (g.row 0).id ∉ named →
    (g.dropScrollbackRows named).1.row 0 = g.row 0

/-- No history row above the reader's top line is named, where the reader is
scrolled back and the top line is not named itself. -/
def NamedBelow (g : Grid) (named : List LineId) : Prop :=
  0 < g.displayOffset → (g.row 0).id ∉ named →
    ∀ r ∈ g.lines.take (g.scrollbackLen - g.displayOffset), r.id ∉ named

instance (g : Grid) (named : List LineId) : Decidable (g.NamedBelow named) := by
  unfold NamedBelow
  infer_instance

/-! ## The count and the top line -/

/-- As many rows are reported as the storage loses. -/
theorem dropScrollbackRows_returned {g : Grid} (hs : g.Shape) (named : List LineId) :
    (g.dropScrollbackRows named).2 + (g.dropScrollbackRows named).1.storage.len = g.storage.len := by
  have hlen := hs.len
  have hpos := hs.rows_pos
  unfold dropScrollbackRows
  cases named.insertionSort (· ≤ ·) with
  | nil => exact Nat.zero_add _
  | cons floor rest =>
    obtain ⟨-, -, hcount⟩ := logical_dropWalk (floor :: rest) floor g.scrollbackLen none
      g.storage 0 (Nat.le_refl _) (by show g.scrollbackLen < g.storage.len; omega)
    dsimp only
    rw [Nat.zero_add] at hcount
    split
    · exact hcount
    · exact hcount

/-- The top line of a view stands `displayOffset` rows above the screen. -/
theorem row_zero_eq {g : Grid} (hlen : g.storage.len = g.scrollbackLen + g.rows)
    (hpos : 0 < g.rows) (hoff : g.displayOffset ≤ g.scrollbackLen) :
    g.lines[g.scrollbackLen - g.displayOffset]? = some (g.row 0) := by
  have hbase : g.viewportBase + 0 = g.scrollbackLen - g.displayOffset := by
    unfold viewportBase
    omega
  have hlt : g.scrollbackLen - g.displayOffset < g.lines.length := by
    rw [lines, Storage.length_logical]
    omega
  rw [row, hbase, Storage.row_eq _ _ (by rwa [lines, Storage.length_logical] at hlt)]
  change g.lines[g.scrollbackLen - g.displayOffset]? =
    some ((g.lines[g.scrollbackLen - g.displayOffset]?).getD default)
  rw [List.getElem?_eq_getElem hlt]
  rfl

/-! ## Exactly when -/

/-- In a list without doubles, what stands in front of an element tells
where it is. -/
theorem index_of_middle {α : Type*} {front back : List α} {x : α} (hnodup : (front ++ x :: back).Nodup)
    {i : Nat} (h : (front ++ x :: back)[i]? = some x) : i = front.length := by
  have hmid : (front ++ x :: back)[front.length]? = some x := by simp
  obtain ⟨hi, hx⟩ := List.getElem?_eq_some_iff.mp h
  obtain ⟨hf, hx'⟩ := List.getElem?_eq_some_iff.mp hmid
  exact (hnodup.getElem_inj_iff).mp (hx.trans hx'.symm)

/-- Of a history `above ++ top :: below` the rows left over are `kept`, and
the reader comes down by what left. The view then begins with `top` again
exactly when everything above it stayed. -/
theorem reader_stays_iff {g : Grid} {top : Row} {above below kept screen : List Row}
    {p : Row → Bool} (hlen : g.storage.len = g.scrollbackLen + g.rows) (hpos : 0 < g.rows)
    (htop : p top = true) (hkept : kept = (above ++ top :: below).filter p)
    (hlines : g.lines = kept ++ screen) (hnodup : g.lines.Nodup)
    (hscroll : g.scrollbackLen = kept.length)
    (hoff : g.displayOffset =
      min (below.length + 1 - ((above ++ top :: below).length - kept.length)) kept.length) :
    g.row 0 = top ↔ ∀ r ∈ above, p r = true := by
  have hsplit : g.lines = above.filter p ++ top :: (below.filter p ++ screen) := by
    rw [hlines, hkept, List.filter_append, List.filter_cons, if_pos htop]
    simp
  have hrow := row_zero_eq hlen hpos (by rw [hoff, hscroll]; exact Nat.min_le_right _ _)
  have hkeptlen : kept.length = (above.filter p).length + 1 + (below.filter p).length := by
    rw [hkept, List.filter_append, List.filter_cons, if_pos htop]
    simp only [List.length_append, List.length_cons]
    omega
  have habove := List.length_filter_le p above
  have hbelow := List.length_filter_le p below
  simp only [List.length_append, List.length_cons] at hoff
  rw [← List.length_filter_eq_length_iff]
  constructor
  · intro h
    rw [h, hsplit] at hrow
    have hindex := index_of_middle (hsplit ▸ hnodup) hrow
    omega
  · intro h
    have hindex : g.scrollbackLen - g.displayOffset = (above.filter p).length := by omega
    rw [hindex, hsplit, List.getElem?_append_right (Nat.le_refl _), Nat.sub_self] at hrow
    exact (Option.some.inj hrow).symm

/-- Taking rows back does what it is for exactly when none of them lies
above the line a reader keeps. -/
theorem takesBack_iff {g : Grid} (hs : g.Shape) (hoff : g.displayOffset ≤ g.scrollbackLen)
    (hasc : g.lines.Pairwise fun a b => a.id < b.id) (named : List LineId) :
    g.TakesBack named ↔ g.NamedBelow named := by
  obtain ⟨s, kept, hkept, hnew, hlog, -⟩ := g.dropScrollbackRows_spec named hs hoff
  have hcount := dropScrollbackRows_returned hs named
  have hhistory : (g.lines.take g.scrollbackLen).Pairwise fun a b => a.id < b.id :=
    hasc.sublist (List.take_sublist _ _)
  rw [unnamed_eq_filter hhistory] at hkept
  have hlen := hs.len
  have hpos := hs.rows_pos
  have htake : (g.lines.take g.scrollbackLen).length = g.scrollbackLen := by
    simp only [lines, List.length_take, Storage.length_logical]
    omega
  have hslen : s.len = kept.length + g.rows := by
    have := congrArg List.length hlog
    simp only [lines, List.length_append, List.length_drop, Storage.length_logical] at this
    omega
  have hcounted : kept.length + (g.lines.take g.scrollbackLen).countP (fun r => r.id ∈ named) =
      g.scrollbackLen := by
    have hsum := (g.lines.take g.scrollbackLen).length_eq_countP_add_countP
      fun r : Row => decide (r.id ∉ named)
    rw [htake, List.countP_eq_length_filter, ← hkept] at hsum
    have hnot : (g.lines.take g.scrollbackLen).countP (fun r => decide ¬decide (r.id ∉ named) = true) =
        (g.lines.take g.scrollbackLen).countP (fun r => r.id ∈ named) := by
      refine List.countP_congr fun r _ => ?_
      simp
    omega
  have hreturned : (g.dropScrollbackRows named).2 =
      (g.lines.take g.scrollbackLen).countP fun r => r.id ∈ named := by
    rw [hnew] at hcount
    dsimp only at hcount
    omega
  have hreader : (0 < g.displayOffset → (g.row 0).id ∉ named →
      (g.dropScrollbackRows named).1.row 0 = g.row 0) ↔ g.NamedBelow named := by
    refine forall_congr' fun hback => forall_congr' fun hkeeps => ?_
    have htop := row_zero_eq hlen hpos hoff
    obtain ⟨hi, htop⟩ := List.getElem?_eq_some_iff.mp htop
    -- The history, split at the reader's top line.
    have hsplit : g.lines.take g.scrollbackLen =
        g.lines.take (g.scrollbackLen - g.displayOffset) ++ g.row 0 ::
          (g.lines.take g.scrollbackLen).drop (g.scrollbackLen - g.displayOffset + 1) := by
      have hi' : g.scrollbackLen - g.displayOffset < (g.lines.take g.scrollbackLen).length := by
        omega
      conv => lhs; rw [← List.take_append_drop (g.scrollbackLen - g.displayOffset)
        (g.lines.take g.scrollbackLen), List.drop_eq_getElem_cons hi', List.getElem_take, htop,
        List.take_take, Nat.min_eq_left (Nat.sub_le _ _)]
    have hbelow : ((g.lines.take g.scrollbackLen).drop
        (g.scrollbackLen - g.displayOffset + 1)).length + 1 = g.displayOffset := by
      rw [List.length_drop, htake]
      omega
    have hsub : (kept ++ g.lines.drop g.scrollbackLen).Sublist g.lines := by
      conv => rhs; rw [← List.take_append_drop g.scrollbackLen g.lines]
      exact (hkept ▸ List.filter_sublist).append (List.Sublist.refl _)
    have hnodup : g.lines.Nodup := hasc.imp fun hlt heq => by simp [heq] at hlt
    rw [hnew]
    rw [hsplit] at hkept htake
    have hstays := @reader_stays_iff { g with
        storage := s
        scrollbackLen := kept.length
        displayOffset := min (g.displayOffset - (g.scrollbackLen - kept.length)) kept.length }
      _ _ _ _ _ _ hslen hpos (decide_eq_true hkeeps) hkept hlog (by
        show s.logical.Nodup
        rw [hlog]
        exact hnodup.sublist hsub) rfl (by rw [htake, hbelow])
    simpa using hstays
  constructor
  · intro h
    exact hreader.mp h.reader
  · intro h
    refine ⟨?_, ?_, hreturned, hreader.mpr h⟩
    · rw [hnew]
      show s.logical.take kept.length = _
      rw [hlog, List.take_left, hkept]
    · rw [hnew]
      show s.logical.drop kept.length = _
      rw [hlog, List.drop_left]

/-- Three lines of history over two on the screen, and a reader two lines
back. -/
def twoBack : Grid := (((Grid.new 4 2 5).scrollUp 2 default).scrollUp 1 default).scrollDisplay 2

theorem twoBack_held : (twoBack.Shape ∧ twoBack.displayOffset ≤ twoBack.scrollbackLen) ∧
    twoBack.lines.Pairwise fun a b => a.id < b.id :=
  ⟨⟨⟨by decide, by decide, by decide, by decide⟩, by decide⟩, by decide⟩

theorem takesBack_twoBack : twoBack.TakesBack [2, 7, 2] :=
  (takesBack_iff twoBack_held.1.1 twoBack_held.1.2 twoBack_held.2 _).mpr (by decide)

/-- The oldest line is named: the reader of line 1 is left at line 2. -/
theorem reader_moved : (twoBack.row 0).id = 1 ∧ ((twoBack.dropScrollbackRows [0]).1.row 0).id = 2 ∧
    ¬ ∀ (g : Grid), g.Shape → g.displayOffset ≤ g.scrollbackLen →
      (g.lines.Pairwise fun a b => a.id < b.id) → ∀ named, g.TakesBack named := by
  refine ⟨by decide, by decide, fun hall => ?_⟩
  have htakes := hall _ twoBack_held.1.1 twoBack_held.1.2 twoBack_held.2 [0]
  exact absurd (htakes.reader (by decide) (by decide)) (by decide)

end Grid

end Zesterm
