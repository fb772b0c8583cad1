/-
Zesterm.Lib.Fair — endless runs, and what must happen along them.

A machine is a `step` that may refuse a move. A run never ends; a machine
that is done idles. Two rules say what comes to pass. A condition that only
one kind of move can end holds until such a move is made (`until_turn`), and
a condition that leads to a smaller one or to the goal leads to the goal
(`eventually`).

Nothing here is about terminals.
-/
import Mathlib.Tactic

namespace Fair

variable {S A : Type*} {step : S → A → Option S}

/-- A run that never ends. -/
structure Run (step : S → A → Option S) where
  state : ℕ → S
  move : ℕ → A
  next : ∀ n, step (state n) (move n) = some (state (n + 1))

namespace Run

variable (r : Run step)

/-- If a list of moves is accepted, so is every beginning of it. -/
theorem foldlM_take {s : S} {moves : List A} (h : (moves.foldlM step s).isSome) (n : ℕ) :
    ∃ s', (moves.take n).foldlM step s = some s' := by
  rw [← List.take_append_drop n moves, List.foldlM_append, Option.bind_eq_bind] at h
  cases hfold : (moves.take n).foldlM step s with
  | none =>
    rw [hfold] at h
    cases h
  | some s' => exact ⟨s', rfl⟩

/-- The run that makes the moves of a list and then idles. -/
def atRest (s : S) (moves : List A) (idle : A) (hidle : ∀ s, step s idle = some s)
    (h : (moves.foldlM step s).isSome) : Run step where
  state n := ((moves.take n).foldlM step s).getD s
  move n := moves.getD n idle
  next n := by
    obtain ⟨s', hs'⟩ := foldlM_take h n
    by_cases hn : n < moves.length
    · obtain ⟨s'', hs''⟩ := foldlM_take h (n + 1)
      rw [hs', hs'', List.getD_eq_getElem?_getD, List.getElem?_eq_getElem hn]
      rw [← List.take_concat_get' _ _ hn, List.foldlM_append, hs'] at hs''
      simpa using hs''
    · have hle : moves.length ≤ n := Nat.le_of_not_lt hn
      rw [List.take_of_length_le hle] at hs'
      rw [List.take_of_length_le hle, List.take_of_length_le (by omega), hs',
        List.getD_eq_getElem?_getD, List.getElem?_eq_none hle]
      exact hidle s'

/-- The run has come to rest when the list is at its end. -/
theorem state_atRest {s : S} {moves : List A} {idle : A} {hidle : ∀ s, step s idle = some s}
    {h : (moves.foldlM step s).isSome} {n : ℕ} (hn : moves.length ≤ n) :
    (atRest s moves idle hidle h).state n = (atRest s moves idle hidle h).state moves.length := by
  show ((moves.take n).foldlM step s).getD s = ((moves.take moves.length).foldlM step s).getD s
  rw [List.take_of_length_le hn, List.take_length]

/-- What holds at the start and is kept by every move always holds. -/
theorem invariant {I : S → Prop} (hstart : I (r.state 0))
    (hstep : ∀ s a s', I s → step s a = some s' → I s') : ∀ n, I (r.state n)
  | 0 => hstart
  | n + 1 => hstep _ _ _ (invariant hstart hstep n) (r.next n)

/-- What only a turn can end still holds when the turn comes. -/
theorem until_turn {P : S → Prop} {turn : A → Prop} {n : ℕ} (hP : P (r.state n))
    (hkeep : ∀ s a s', P s → ¬ turn a → step s a = some s' → P s')
    (hturn : ∃ m, n ≤ m ∧ turn (r.move m)) :
    ∃ m, n ≤ m ∧ turn (r.move m) ∧ P (r.state m) := by
  obtain ⟨m, hnm, hm⟩ := hturn
  obtain ⟨k, rfl⟩ := Nat.exists_eq_add_of_le hnm
  clear hnm
  induction k generalizing n with
  | zero => exact ⟨n, Nat.le_refl n, hm, hP⟩
  | succ k ih =>
    by_cases hnow : turn (r.move n)
    · exact ⟨n, Nat.le_refl n, hnow, hP⟩
    · have hnext : P (r.state (n + 1)) := hkeep _ _ _ hP hnow (r.next n)
      obtain ⟨m, hm', hturn, hPm⟩ := ih hnext (by rwa [Nat.add_assoc, Nat.add_comm 1 k])
      exact ⟨m, by omega, hturn, hPm⟩

end Run

/-- What always leads to the goal, or to itself at a smaller rank, leads to the
goal. -/
theorem eventually {P : (rank time : ℕ) → Prop} {Q : ℕ → Prop}
    (hstep : ∀ k n, P k n → ∃ m, n ≤ m ∧ (Q m ∨ ∃ j < k, P j m)) :
    ∀ k n, P k n → ∃ m, n ≤ m ∧ Q m := by
  intro k
  induction k using Nat.strongRecOn with
  | ind k ih =>
    intro n hP
    obtain ⟨m, hnm, hQ | ⟨j, hj, hPj⟩⟩ := hstep k n hP
    · exact ⟨m, hnm, hQ⟩
    · obtain ⟨l, hml, hQ⟩ := ih j hj m hPj
      exact ⟨l, hnm.trans hml, hQ⟩

end Fair
