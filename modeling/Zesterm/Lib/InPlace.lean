/-
Zesterm.Lib.InPlace — loops that change an array where it stands.

A loop over the indices of a range writes each of them once. What it leaves
behind is the array with every entry of the range replaced, read from the
array as it was: at once where each entry is made from itself alone
(`foldl_modify`), and also where it is made from one further on, which the
loop has not come to yet (`foldl_ahead`).

Nothing here is about terminals.
-/
import Mathlib.Tactic

namespace InPlace

variable {α : Type*}

/-- A loop that replaces each entry of the range by a function of it. -/
theorem foldl_modify (f : Nat → α → α) (k start : Nat) (l : List α) :
    (List.range' start k).foldl (fun l i => l.modify i (f i)) l =
      l.mapIdx fun i a => if start ≤ i ∧ i < start + k then f i a else a := by
  induction k generalizing start l with
  | zero =>
    have hnone (i : Nat) : ¬ (start ≤ i ∧ i < start + 0) := by omega
    apply List.ext_getElem?
    intro i
    simp only [List.range'_zero, List.foldl_nil, List.getElem?_mapIdx, if_neg (hnone _), Option.map_id']
  | succ k ih =>
    rw [List.range'_succ, List.foldl_cons, ih]
    apply List.ext_getElem?
    intro i
    rw [List.getElem?_mapIdx, List.getElem?_mapIdx, List.getElem?_modify]
    cases l[i]? with
    | none => simp
    | some a =>
      simp only [Option.map_some, Option.some.injEq, Functor.map]
      by_cases hi : start = i
      · subst hi
        rw [if_pos (show start ≤ start ∧ start < start + (k + 1) by omega)]
        simp
      · rw [if_neg hi]
        by_cases hin : start + 1 ≤ i ∧ i < start + 1 + k
        · rw [if_pos hin, if_pos (by omega)]
        · rw [if_neg hin, if_neg (by omega)]

/-- A loop that replaces each entry of the range by one further on. -/
theorem foldl_ahead {n : Nat} (hn : 0 < n) (last : Nat) (blank : α) (k start : Nat) (l : List α) :
    (List.range' start k).foldl
        (fun l i => l.set i (if i + n ≤ last then l.getD (i + n) blank else blank)) l =
      l.mapIdx fun i a =>
        if start ≤ i ∧ i < start + k then
          if i + n ≤ last then l.getD (i + n) blank else blank
        else a := by
  let ahead (m : List α) (i : Nat) := if i + n ≤ last then m.getD (i + n) blank else blank
  -- What is read further on has not been written yet.
  have hread (k : Nat) : ∀ (start : Nat) (m : List α),
      (∀ i, start < i → m.getD i blank = l.getD i blank) →
        (List.range' start k).foldl (fun m i => m.set i (ahead m i)) m =
          (List.range' start k).foldl (fun m i => m.modify i fun _ => ahead l i) m := by
    induction k with
    | zero => exact fun _ _ _ => rfl
    | succ k ih =>
      intro start m hm
      have hfirst : m.set start (ahead m start) = m.modify start fun _ => ahead l start := by
        rw [List.set_eq_modify]
        simp only [ahead, hm (start + n) (by omega)]
      rw [List.range'_succ, List.foldl_cons, List.foldl_cons, hfirst]
      refine ih _ _ fun i hi => ?_
      rw [← hm i (by omega), ← hfirst, List.getD_eq_getElem?_getD, List.getElem?_set_ne (by omega),
        ← List.getD_eq_getElem?_getD]
  exact (hread k start l fun _ _ => rfl).trans (foldl_modify (fun i _ => ahead l i) k start l)
end InPlace
