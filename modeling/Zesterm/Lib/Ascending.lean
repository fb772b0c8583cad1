/-
Zesterm.Lib.Ascending — strictly ascending lists of numbers, their gaps,
and cutting one in two.

A strictly ascending list of naturals rises by at least one a place
(`add_le_of_ascending`), so `n` places that rise by less than `n` have no
gap (`eq_add_of_lt`), and a list that misses no number of an interval
counts it off place by place (`eq_add_of_forall_mem`).

Nothing here is about terminals.
-/
import Mathlib.Data.List.Basic
import Mathlib.Tactic

namespace Ascending

/-- Places `i ≤ j` of an ascending list are at least `j - i` apart. -/
theorem add_le_of_ascending {l : List Nat} (h : l.Pairwise (· < ·)) {i : Nat} :
    ∀ {j : Nat} {a b : Nat}, i ≤ j → l[i]? = some a → l[j]? = some b → a + (j - i) ≤ b
  | 0, a, b, hij, ha, hb => by
    obtain rfl : i = 0 := by omega
    rw [ha] at hb
    simpa using (Option.some.inj hb).le
  | j + 1, a, b, hij, ha, hb => by
    rcases Nat.lt_or_ge i (j + 1) with hlt | hge
    · obtain ⟨hj, hbj⟩ := List.getElem?_eq_some_iff.mp hb
      have hprev : l[j]? = some l[j] := List.getElem?_eq_getElem (by omega)
      have ih := add_le_of_ascending h (j := j) (by omega) ha hprev
      have hstep : l[j] < l[j + 1] := List.pairwise_iff_getElem.mp h j (j + 1) _ hj (by omega)
      omega
    · obtain rfl : i = j + 1 := by omega
      rw [ha] at hb
      have := Option.some.inj hb
      omega

/-- Equal values stand in equal places. -/
theorem index_le_of_le {l : List Nat} (h : l.Pairwise (· < ·)) {i j a b : Nat}
    (ha : l[i]? = some a) (hb : l[j]? = some b) (hab : a ≤ b) : i ≤ j := by
  by_contra hlt
  have := add_le_of_ascending h (by omega : j ≤ i) hb ha
  omega

/-- Places that rise by less than their number are counted off. -/
theorem eq_add_of_lt {l : List Nat} (h : l.Pairwise (· < ·)) {first n last : Nat}
    (hfirst : l[0]? = some first) (hlast : l[n]? = some last) (hlt : last < first + (n + 1)) :
    ∀ j ≤ n, l[j]? = some (first + j) := by
  intro j hj
  obtain ⟨hn, _⟩ := List.getElem?_eq_some_iff.mp hlast
  have hget : l[j]? = some l[j] := List.getElem?_eq_getElem (by omega)
  have hlow := add_le_of_ascending h (Nat.zero_le j) hfirst hget
  have hhigh := add_le_of_ascending h hj hget hlast
  rw [hget]
  congr 1
  omega

/-- A list that misses no number below `first + n` counts them off. -/
theorem eq_add_of_forall_mem {l : List Nat} (h : l.Pairwise (· < ·)) {first n : Nat}
    (hfirst : l[0]? = some first) (hmem : ∀ x, first ≤ x → x < first + n → x ∈ l) :
    ∀ j < n, l[j]? = some (first + j)
  | 0, _ => by simpa using hfirst
  | j + 1, hj => by
    have ih := eq_add_of_forall_mem h hfirst hmem j (by omega)
    obtain ⟨i, hi⟩ := List.mem_iff_getElem?.mp (hmem (first + (j + 1)) (by omega) (by omega))
    have hji : j + 1 ≤ i := by
      by_contra hlt
      have := add_le_of_ascending h (by omega : i ≤ j) hi ih
      omega
    obtain ⟨hlen, _⟩ := List.getElem?_eq_some_iff.mp hi
    have hget : l[j + 1]? = some l[j + 1] := List.getElem?_eq_getElem (by omega)
    have hlow := add_le_of_ascending h (by omega : j ≤ j + 1) ih hget
    have hhigh := add_le_of_ascending h hji hget hi
    rw [hget]
    congr 1
    omega

/-- What stands at or after the first number of a tail is in the tail. -/
theorem mem_drop_of_le {α : Type*} [LinearOrder α] {l : List α} (h : l.Pairwise (· < ·)) {n : Nat}
    {first x : α} (hfirst : (l.drop n).head? = some first) (hx : x ∈ l) (hle : first ≤ x) :
    x ∈ l.drop n := by
  have hsplit := List.take_append_drop n l
  rw [← hsplit] at hx
  rcases List.mem_append.mp hx with hx | hx
  · rw [← hsplit] at h
    have hlt := (List.pairwise_append.mp h).2.2 x hx first (List.mem_of_mem_head? hfirst)
    exact absurd hle (not_le.mpr hlt)
  · exact hx

/-- The head of an ascending list is its least number. -/
theorem head_le {α : Type*} [LinearOrder α] {l : List α} (h : l.Pairwise (· < ·)) {first x : α}
    (hfirst : l.head? = some first) (hx : x ∈ l) : first ≤ x := by
  cases l with
  | nil => simp at hx
  | cons a l =>
    simp only [List.head?_cons, Option.some.injEq] at hfirst
    subst hfirst
    rcases List.mem_cons.mp hx with rfl | hx
    · exact le_rfl
    · exact (List.rel_of_pairwise_cons h hx).le

end Ascending
