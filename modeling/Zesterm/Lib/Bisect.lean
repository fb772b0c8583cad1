/-
Zesterm.Lib.Bisect — looking a key up in a sorted list by halving.

`narrow` is the loop: a window of `size` places from `base` on, of which
each turn keeps the half that can hold the key. Where the keys stand in
strict order, searching finds what walking the list finds (`find_eq`). `lower` is
the other loop in use, between two bounds: it closes on the first key that is
not below the one sought (`lower_eq`).

Nothing here is about terminals.
-/
import Mathlib.Data.List.Basic
import Mathlib.Order.Basic
import Mathlib.Tactic

namespace Bisect

variable {α K : Type*} [LinearOrder K]

/-- The place the window closes on. -/
def narrow (key : α → K) (l : List α) (k : K) (base size : Nat) : Nat :=
  if 1 < size then
    let mid := base + size / 2
    let above := l[mid]?.any fun a => decide (k < key a)
    narrow key l k (if above then base else mid) (size - size / 2)
  else base
termination_by size

/-- Binary search by key. -/
def find (key : α → K) (l : List α) (k : K) : Option α :=
  l[narrow key l k 0 l.length]?.filter fun a => decide (key a = k)

/-- The first place of `[lo, hi)` whose key is not below `k`. -/
def lower (key : α → K) (l : List α) (k : K) (lo hi : Nat) : Nat :=
  if lo < hi then
    let mid := (lo + hi) / 2
    if l[mid]?.any fun a => decide (key a < k) then lower key l k (mid + 1) hi
    else lower key l k lo mid
  else lo
termination_by hi - lo

variable {key : α → K} {l : List α} {k : K}

/-- The window never lets go of the place that holds the key. -/
theorem narrow_eq (h : (l.map key).Pairwise (· < ·)) {i : Nat} {a : α} (hi : l[i]? = some a)
    (ha : key a = k) (base size : Nat) (hbase : base ≤ i) (hsize : i < base + size)
    (hlen : base + size ≤ l.length) : narrow key l k base size = i := by
  have hlt {m n : Nat} {b c : α} (hm : l[m]? = some b) (hn : l[n]? = some c) (hmn : m < n) :
      key b < key c := by
    obtain ⟨hm', rfl⟩ := List.getElem?_eq_some_iff.mp hm
    obtain ⟨hn', rfl⟩ := List.getElem?_eq_some_iff.mp hn
    exact List.pairwise_iff_getElem.mp (List.pairwise_map.mp h) m n hm' hn' hmn
  fun_induction narrow key l k base size with
  | case1 base size hone mid above ih =>
    have hmid : mid < l.length := by omega
    have hget : l[mid]? = some l[mid] := List.getElem?_eq_getElem hmid
    by_cases habove : k < key l[mid]
    · -- The middle is above the key: so is everything after it.
      have : above = true := by simp [above, hget, habove]
      have him : i < mid := by
        by_contra hge
        rcases Nat.lt_or_eq_of_le (Nat.le_of_not_lt hge) with hgt | heq
        · exact absurd (hlt hget hi hgt) (not_lt.mpr (ha ▸ habove.le))
        · have : l[mid] = a := by simpa [← heq, hget] using hi
          rw [this, ha] at habove
          exact lt_irrefl k habove
      simp only [if_pos this, dif_pos this] at ih ⊢
      exact ih hbase (by omega) (by omega)
    · have : ¬ above = true := by simp [above, hget, habove]
      have him : mid ≤ i := by
        by_contra hlt'
        exact habove (ha ▸ hlt hi hget (Nat.lt_of_not_le hlt'))
      simp only [if_neg this, dif_neg this] at ih ⊢
      exact ih him (by omega) (by omega)
  | case2 base size hone => omega

/-- Searching finds what walking the list finds. -/
theorem find_eq (h : (l.map key).Pairwise (· < ·)) (k : K) :
    find key l k = l.find? fun a => decide (key a = k) := by
  unfold find
  cases hf : l.find? fun a => decide (key a = k) with
  | none =>
    cases hget : l[narrow key l k 0 l.length]? with
    | none => rfl
    | some a =>
      have hne := List.find?_eq_none.mp hf a (List.mem_of_getElem? hget)
      simpa using hne
  | some a =>
    have ha : key a = k := by simpa using List.find?_some hf
    obtain ⟨i, hi⟩ := List.mem_iff_getElem?.mp (List.mem_of_find?_eq_some hf)
    have hlen : i < l.length := (List.getElem?_eq_some_iff.mp hi).1
    rw [narrow_eq h hi ha 0 l.length (Nat.zero_le i) (by omega) (by omega), hi]
    simp [ha]

/-! ## The lower bound -/

/-- Where the keys below `k` are the first `n`, the bounds close on `n`. -/
theorem lower_closes {n : Nat} (hbelow : ∀ i a, l[i]? = some a → (key a < k ↔ i < n)) (lo hi : Nat)
    (hlo : lo ≤ n) (hhi : n ≤ hi) (hlen : hi ≤ l.length) : lower key l k lo hi = n := by
  fun_induction lower key l k lo hi with
  | case1 lo hi hlt mid hmid ih =>
    have hin : mid < l.length := by omega
    have hget : l[mid]? = some l[mid] := List.getElem?_eq_getElem hin
    have hn : mid < n := (hbelow mid _ hget).mp (by simpa [hget] using hmid)
    exact ih hn hhi hlen
  | case2 lo hi hlt mid hmid ih =>
    have hin : mid < l.length := by omega
    have hget : l[mid]? = some l[mid] := List.getElem?_eq_getElem hin
    have hn : ¬ mid < n := fun h => hmid (by
      rw [hget]
      simpa using (hbelow mid _ hget).mpr h)
    exact ih hlo (by omega) (by omega)
  | case3 lo hi hge => omega

/-- Over a sorted list the keys below `k` are the first ones. -/
theorem below_iff (h : (l.map key).Pairwise (· < ·)) (k : K) (i : Nat) (a : α) (hi : l[i]? = some a) :
    key a < k ↔ i < (l.takeWhile fun a => decide (key a < k)).length := by
  induction l generalizing i with
  | nil => simp at hi
  | cons x xs ih =>
    obtain ⟨hx, hxs⟩ := List.pairwise_cons.mp h
    by_cases hk : key x < k
    · rw [List.takeWhile_cons_of_pos (by simpa using hk), List.length_cons]
      cases i with
      | zero =>
        obtain rfl : x = a := by simpa using hi
        simp [hk]
      | succ i =>
        rw [List.getElem?_cons_succ] at hi
        rw [ih hxs i hi]
        omega
    · rw [List.takeWhile_cons_of_neg (by simpa using hk)]
      refine ⟨fun hlt => absurd hlt ?_, fun h0 => absurd h0 (Nat.not_lt_zero _)⟩
      cases i with
      | zero =>
        obtain rfl : x = a := by simpa using hi
        exact hk
      | succ i =>
        rw [List.getElem?_cons_succ] at hi
        have hmem := List.mem_map_of_mem (f := key) (List.mem_of_getElem? hi)
        exact fun hlt => hk ((hx _ hmem).trans hlt)

/-- Over a sorted list: as many as there are keys below. -/
theorem lower_eq (h : (l.map key).Pairwise (· < ·)) (k : K) :
    lower key l k 0 l.length = (l.takeWhile fun a => decide (key a < k)).length :=
  lower_closes (below_iff h k) 0 l.length (Nat.zero_le _) (List.takeWhile_prefix _).length_le le_rfl

end Bisect
