/-
Zesterm.Lib.Sequenced — in-order delivery from slots.

A sender puts its items into slots, each into a later one than the last,
and may leave slots empty. A receiver takes what is in slot 0, then slot 1,
and so on. Then what it has taken is the beginning of what was sent
(`prefix_of_slots`): a slot left empty stops it for good.

Nothing here is about terminals.
-/
import Mathlib.Data.List.Basic
import Mathlib.Tactic

namespace Sequenced

variable {α : Type*}

/-- The items of slots `n`, `n + 1`, … are the first sent from slot `n`
on. -/
theorem prefix_of_slots_from : ∀ {sent : List (Nat × α)} {taken : List α} {n : Nat},
    sent.Pairwise (fun x y => x.1 < y.1) → (∀ x ∈ sent, n ≤ x.1) →
    (∀ i a, taken[i]? = some a → (n + i, a) ∈ sent) → taken <+: sent.map Prod.snd
  | _, [], _, _, _, _ => List.nil_prefix
  | [], a :: taken, n, _, _, h => by simpa using h 0 a rfl
  | x :: sent, a :: taken, n, hsent, hle, h => by
    obtain ⟨hx, hlater⟩ := List.pairwise_cons.mp hsent
    -- Slot `n` is in the list, so it is the first of it.
    have hfirst : x = (n, a) := by
      rcases List.mem_cons.mp (h 0 a rfl) with heq | hmem
      · exact heq.symm
      · have h1 := hx _ hmem
        have h2 := hle x (List.mem_cons_self ..)
        rw [Nat.add_zero] at h1
        exact absurd h2 (not_le.mpr h1)
    subst hfirst
    rw [List.map_cons]
    refine List.cons_prefix_cons.mpr ⟨rfl, prefix_of_slots_from (n := n + 1) hlater
      (fun y hy => hx y hy) fun i b hb => ?_⟩
    have hmem := h (i + 1) b hb
    rw [← Nat.add_assoc, Nat.add_right_comm] at hmem
    rcases List.mem_cons.mp hmem with heq | hmem
    · have := congrArg Prod.fst heq
      dsimp only at this
      omega
    · exact hmem

theorem prefix_of_slots {sent : List (Nat × α)} {taken : List α}
    (hsent : sent.Pairwise fun x y => x.1 < y.1)
    (htaken : ∀ i a, taken[i]? = some a → (i, a) ∈ sent) : taken <+: sent.map Prod.snd :=
  prefix_of_slots_from hsent (fun _ _ => Nat.zero_le _) fun i a h => by
    rw [Nat.zero_add]
    exact htaken i a h

end Sequenced
