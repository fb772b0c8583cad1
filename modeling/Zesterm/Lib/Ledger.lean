/-
Zesterm.Lib.Ledger — numbered records that come and go.

A ledger holds records in order, each under a number drawn from a counter
that only rises. Records may be struck out anywhere and new ones appended;
none is ever inserted among the old, and no number is used twice.
`Evolves` says that one ledger is what such a history made of another. It
is a preorder, so a run evolves as soon as each of its steps does, and it
keeps a ledger's numbers in order and below its counter.

Nothing here is about terminals: the numbers are any linear order.
-/
import Mathlib.Data.List.Basic
import Mathlib.Order.Basic
import Mathlib.Tactic

namespace Ledger

variable {α : Type*} [LinearOrder α]

/-- Numbers in strict order, all of them below the counter. -/
structure Numbered (ids : List α) (next : α) : Prop where
  sorted : ids.Pairwise (· < ·)
  below : ∀ x ∈ ids, x < next

/-- The second ledger keeps some records of the first, in order, and has
appended records numbered from the first counter up to the second. -/
def Evolves (ids : List α) (next : α) (ids' : List α) (next' : α) : Prop :=
  next ≤ next' ∧ ∃ kept fresh : List α,
    ids' = kept ++ fresh ∧ kept.Sublist ids ∧ fresh.Pairwise (· < ·) ∧
      ∀ x ∈ fresh, next ≤ x ∧ x < next'

namespace Evolves

variable {ids ids' ids'' : List α} {next next' next'' : α}

/-- Striking records out. -/
theorem of_sublist (h : ids'.Sublist ids) : Evolves ids next ids' next :=
  ⟨le_refl _, ids', [], by simp, h, List.Pairwise.nil, by simp⟩

theorem refl (ids : List α) (next : α) : Evolves ids next ids next :=
  of_sublist (List.Sublist.refl _)

/-- Raising the counter. -/
theorem of_le (h : next ≤ next') : Evolves ids next ids next' :=
  ⟨h, ids, [], by simp, List.Sublist.refl _, List.Pairwise.nil, by simp⟩

/-- Appending records drawn from the counter. -/
theorem append {fresh : List α} (hle : next ≤ next') (hs : fresh.Pairwise (· < ·))
    (hb : ∀ x ∈ fresh, next ≤ x ∧ x < next') : Evolves ids next (ids ++ fresh) next' :=
  ⟨hle, ids, fresh, rfl, List.Sublist.refl _, hs, hb⟩

theorem trans (h : Evolves ids next ids' next') (h' : Evolves ids' next' ids'' next'') :
    Evolves ids next ids'' next'' := by
  obtain ⟨hle, kept, fresh, rfl, hk, hs, hb⟩ := h
  obtain ⟨hle', kept', fresh', rfl, hk', hs', hb'⟩ := h'
  -- What the second history kept is what it kept of each half.
  obtain ⟨k₁, k₂, rfl, h₁, h₂⟩ := List.sublist_append_iff.mp hk'
  refine ⟨hle.trans hle', k₁, k₂ ++ fresh', by simp, h₁.trans hk, ?_, ?_⟩
  · rw [List.pairwise_append]
    refine ⟨hs.sublist h₂, hs', ?_⟩
    intro a ha b hb₂
    exact lt_of_lt_of_le (hb a (h₂.subset ha)).2 (hb' b hb₂).1
  · intro x hx
    rcases List.mem_append.mp hx with hx | hx
    · exact ⟨(hb x (h₂.subset hx)).1, lt_of_lt_of_le (hb x (h₂.subset hx)).2 hle'⟩
    · exact ⟨hle.trans (hb' x hx).1, (hb' x hx).2⟩

theorem next_le (h : Evolves ids next ids' next') : next ≤ next' := h.1

/-- A history keeps the numbers in order and below the counter. -/
theorem numbered (h : Evolves ids next ids' next') (hn : Numbered ids next) :
    Numbered ids' next' := by
  obtain ⟨hle, kept, fresh, rfl, hk, hs, hb⟩ := h
  refine ⟨?_, ?_⟩
  · rw [List.pairwise_append]
    exact ⟨hn.sorted.sublist hk, hs, fun a ha b hb' =>
      lt_of_lt_of_le (hn.below a (hk.subset ha)) (hb b hb').1⟩
  · intro x hx
    rcases List.mem_append.mp hx with hx | hx
    · exact lt_of_lt_of_le (hn.below x (hk.subset hx)) hle
    · exact (hb x hx).2

/-- An old number still held was held before: nothing struck out comes
back. -/
theorem mem_of_lt (h : Evolves ids next ids' next') {x : α} (hx : x ∈ ids') (hlt : x < next) :
    x ∈ ids := by
  obtain ⟨_, kept, fresh, rfl, hk, _, hb⟩ := h
  rcases List.mem_append.mp hx with hx | hx
  · exact hk.subset hx
  · exact absurd hlt (not_lt.mpr (hb x hx).1)

end Evolves

end Ledger
