/-
Zesterm.Lib.Breaking — breaking a list into lines as it is read.

`breaks push cur xs` reads `xs` item by item onto the line `cur`; where
`push n x` holds, a line of `n` items is closed before `x` and `x` begins
the next. Nothing is lost (`flatten_breaks`). Lines are `Exact` for a width
when every one but the last has that many items and the last has at least
one; there is only one such way to break a list (`Exact.unique`). Breaking
at a width (`pushes`) finds it as long as no item that may not end a line
falls on the end of one (`exact_breaks`).

Nothing here is about terminals.
-/
import Mathlib.Data.List.Basic
import Mathlib.Tactic

namespace Breaking

variable {α β : Type*}

/-- The lines of `xs`, read onto the line `cur`. -/
def breaks (push : Nat → α → Bool) : List α → List α → List (List α)
  | cur, [] => [cur]
  | cur, x :: xs =>
    if push cur.length x then cur :: breaks push [x] xs else breaks push (cur ++ [x]) xs

theorem breaks_nil (push : Nat → α → Bool) (cur : List α) : breaks push cur [] = [cur] := rfl

theorem breaks_cons (push : Nat → α → Bool) (cur : List α) (x : α) (xs : List α) :
    breaks push cur (x :: xs) =
      if push cur.length x then cur :: breaks push [x] xs else breaks push (cur ++ [x]) xs := rfl

theorem breaks_ne_nil (push : Nat → α → Bool) : ∀ cur xs : List α, breaks push cur xs ≠ []
  | _, [] => by simp [breaks_nil]
  | cur, x :: xs => by
    rw [breaks_cons]
    split
    · simp
    · exact breaks_ne_nil push (cur ++ [x]) xs

/-- Breaking loses nothing. -/
theorem flatten_breaks (push : Nat → α → Bool) : ∀ cur xs : List α,
    (breaks push cur xs).flatten = cur ++ xs
  | cur, [] => by simp [breaks_nil]
  | cur, x :: xs => by
    rw [breaks_cons]
    split
    · rw [List.flatten_cons, flatten_breaks push [x] xs]
      rfl
    · rw [flatten_breaks push (cur ++ [x]) xs, List.append_assoc]
      rfl

/-- Items that are told apart the same way break the same way. -/
theorem breaks_map (f : α → β) {push : Nat → α → Bool} {push' : Nat → β → Bool}
    (h : ∀ n x, push' n (f x) = push n x) : ∀ cur xs : List α,
    breaks push' (cur.map f) (xs.map f) = (breaks push cur xs).map (List.map f)
  | cur, [] => by simp [breaks_nil]
  | cur, x :: xs => by
    simp only [List.map_cons, breaks_cons, List.length_map, h]
    split
    · rw [List.map_cons, ← breaks_map f h [x] xs]
      rfl
    · rw [← breaks_map f h (cur ++ [x]) xs, List.map_append]
      rfl

/-- A list stays on one line exactly when none of its items is pushed. -/
theorem length_breaks_eq_one_iff (push : Nat → α → Bool) : ∀ cur xs : List α,
    (breaks push cur xs).length = 1 ↔
      ∀ i x, xs[i]? = some x → push (cur.length + i) x = false
  | cur, [] => by simp [breaks_nil]
  | cur, x :: xs => by
    have hne : (breaks push [x] xs).length ≠ 0 := by
      rw [Ne, List.length_eq_zero_iff]
      exact breaks_ne_nil push [x] xs
    rw [breaks_cons]
    split
    · next hp =>
      constructor
      · intro h
        rw [List.length_cons] at h
        omega
      · intro h
        have := h 0 x rfl
        rw [Nat.add_zero, hp] at this
        simp at this
    · next hp =>
      rw [length_breaks_eq_one_iff push (cur ++ [x]) xs, List.length_append, List.length_singleton]
      constructor
      · intro h i y hy
        cases i with
        | zero =>
          obtain rfl := Option.some.inj hy
          simpa using hp
        | succ i =>
          have := h i y hy
          rwa [Nat.add_assoc, Nat.add_comm 1 i] at this
      · intro h i y hy
        have := h (i + 1) y hy
        rwa [Nat.add_assoc, Nat.add_comm 1 i]

/-! ## Exact lines -/

/-- Every line but the last has `w` items, and the last has one at least
unless it is alone. -/
inductive Exact (w : Nat) : List (List α) → Prop where
  | last {c : List α} (h : c.length ≤ w) : Exact w [c]
  | cons {c d : List α} {l : List (List α)} (h : c.length = w) (hd : d ≠ [])
      (hl : Exact w (d :: l)) : Exact w (c :: d :: l)

/-- There is one exact way to break a list. -/
theorem Exact.unique {w : Nat} (hw : 0 < w) : ∀ {L L' : List (List α)}, Exact w L → Exact w L' →
    L.flatten = L'.flatten → L = L'
  | _, _, .last h, .last h', heq => by simpa using heq
  | _, _, .last (c := c) h, .cons (c := c') (d := d) (l := cs) h' hd _, heq => by
    have hlen := congrArg List.length heq
    simp only [List.flatten_cons, List.flatten_nil, List.append_nil, List.length_append] at hlen
    have := List.length_pos_iff.mpr hd
    omega
  | _, _, .cons (c := c) (d := d) (l := cs) h hd _, .last h', heq => by
    have hlen := congrArg List.length heq
    simp only [List.flatten_cons, List.flatten_nil, List.append_nil, List.length_append] at hlen
    have := List.length_pos_iff.mpr hd
    omega
  | _, _, .cons (c := c) (d := d) (l := cs) h hd hcs, .cons h' hd' hcs', heq => by
    rw [List.flatten_cons, List.flatten_cons] at heq
    obtain ⟨hc, hrest⟩ := List.append_inj heq (h.trans h'.symm)
    rw [hc, Exact.unique hw hcs hcs' hrest]

/-- Breaking at a width: a full line is closed, and a line with one place
left is closed before an item that may not end it. -/
def pushes (w : Nat) (edge : α → Bool) (n : Nat) (x : α) : Bool :=
  decide (w ≤ n) || (edge x && decide (w ≤ n + 1))

/-- The first line begins with what was on it. -/
theorem breaks_eq_append (push : Nat → α → Bool) : ∀ cur xs : List α,
    ∃ d ds, breaks push cur xs = (cur ++ d) :: ds
  | cur, [] => ⟨[], [], by simp [breaks_nil]⟩
  | cur, x :: xs => by
    rw [breaks_cons]
    split
    · exact ⟨[], breaks push [x] xs, by simp⟩
    · obtain ⟨d, ds, h⟩ := breaks_eq_append push (cur ++ [x]) xs
      exact ⟨x :: d, ds, by rw [h, List.append_assoc]; rfl⟩

/-- Lines come out exact where no item that may not end a line falls on
the end of one. -/
theorem exact_breaks {w : Nat} (hw : 0 < w) {edge : α → Bool} : ∀ cur xs : List α,
    cur.length ≤ w →
    (∀ i x, xs[i]? = some x → edge x = true → (cur.length + i + 1) % w ≠ 0) →
    Exact w (breaks (pushes w edge) cur xs)
  | cur, [], hcur, _ => Exact.last hcur
  | cur, x :: xs, hcur, hedge => by
    rw [breaks_cons]
    split
    · next hp =>
      -- An item that may not end a line would have to stand on the end of this one.
      have hfull : cur.length = w := by
        simp only [pushes, Bool.or_eq_true, Bool.and_eq_true, decide_eq_true_eq] at hp
        rcases hp with hp | ⟨hx, hp⟩
        · omega
        · by_contra hne
          have := hedge 0 x rfl hx
          rw [show cur.length + 0 + 1 = w by omega, Nat.mod_self] at this
          exact this rfl
      obtain ⟨d, ds, hds⟩ := breaks_eq_append (pushes w edge) [x] xs
      have hrest := exact_breaks hw [x] xs hw fun i y hy hey => by
        have := hedge (i + 1) y hy hey
        rw [hfull, Nat.add_assoc, Nat.add_mod_left] at this
        rwa [List.length_singleton, Nat.add_comm 1 i]
      rw [hds] at hrest ⊢
      exact Exact.cons hfull (by simp) hrest
    · next hp =>
      simp only [pushes, Bool.or_eq_true, decide_eq_true_eq, not_or, not_le] at hp
      refine exact_breaks hw (cur ++ [x]) xs (by simpa using hp.1) fun i y hy hey => ?_
      have := hedge (i + 1) y hy hey
      rwa [List.length_append, List.length_singleton, Nat.add_assoc cur.length 1 i,
        Nat.add_comm 1 i]

/-- No line is longer than the width. -/
theorem length_le_of_mem_breaks {w : Nat} (hw : 0 < w) {edge : α → Bool} : ∀ cur xs : List α,
    cur.length ≤ w → ∀ c ∈ breaks (pushes w edge) cur xs, c.length ≤ w
  | cur, [], hcur, c, hc => by
    rw [breaks_nil, List.mem_singleton] at hc
    exact hc ▸ hcur
  | cur, x :: xs, hcur, c, hc => by
    rw [breaks_cons] at hc
    split at hc
    · rcases List.mem_cons.mp hc with rfl | hc
      · exact hcur
      · exact length_le_of_mem_breaks hw [x] xs hw c hc
    · next hp =>
      simp only [pushes, Bool.or_eq_true, decide_eq_true_eq, not_or, not_le] at hp
      exact length_le_of_mem_breaks hw (cur ++ [x]) xs (by simpa using hp.1) c hc

end Breaking
