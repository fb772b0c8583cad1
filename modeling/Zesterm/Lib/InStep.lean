/-
Zesterm.Lib.InStep — two ends that count the same items.

One end makes items and the other takes them, and neither says which item
it is at: each has a position that moves with every success and with
nothing else. They are `InStep` up to `L` when the item made at one
position is taken at that position and refused at every other, whatever was
tried before. For that it is enough to say what one call does at each
position (`InStep.of_positions`).

Nothing here is about terminals.
-/
import Mathlib.Tactic

namespace Lockstep

variable {σ τ α β : Type*}

/-- Where a list of attempts leads, and what came of the successful ones. -/
def collect (f : σ → α → σ × Option β) : σ → List α → σ × List β
  | s, [] => (s, [])
  | s, a :: as =>
    match (f s a).2 with
    | some b => ((collect f (f s a).1 as).1, b :: (collect f (f s a).1 as).2)
    | none => collect f (f s a).1 as

/-- Below `L` a call at a position fails and stays, or succeeds and moves on
by one. -/
def Walks (f : σ → α → σ × Option β) (pos : Nat → σ) (L : Nat) : Prop :=
  ∀ n < L, ∀ a, f (pos n) a = (pos n, none) ∨ ∃ b, f (pos n) a = (pos (n + 1), some b)

/-- The successes of a list of attempts are the positions it moved by. -/
theorem Walks.collect {f : σ → α → σ × Option β} {pos : Nat → σ} {L : Nat} (h : Walks f pos L) :
    ∀ (as : List α) (n : Nat), n + (collect f (pos n) as).2.length < L →
      (collect f (pos n) as).1 = pos (n + (Lockstep.collect f (pos n) as).2.length)
  | [], n, _ => rfl
  | a :: as, n, hlt => by
    have hn : n < L := by omega
    rcases h n hn a with hf | ⟨b, hf⟩
    · have heq : Lockstep.collect f (pos n) (a :: as) = Lockstep.collect f (pos n) as := by
        rw [Lockstep.collect, hf]
      rw [heq] at hlt ⊢
      exact h.collect as n hlt
    · have heq : Lockstep.collect f (pos n) (a :: as) =
          ((Lockstep.collect f (pos (n + 1)) as).1, b :: (Lockstep.collect f (pos (n + 1)) as).2) := by
        rw [Lockstep.collect, hf]
      rw [heq, List.length_cons] at hlt ⊢
      have ih := h.collect as (n + 1) (by omega)
      dsimp only
      rw [ih]
      congr 1
      omega

/-- The item made after `n` others is taken by an end that has taken `n`, and
by no other: `take` gives back what `make` was given. -/
def InStep (make : σ → α → σ × Option β) (take : τ → β → τ × Option α) (s : σ) (t : τ) (L : Nat) :
    Prop :=
  ∀ (as : List α) (bs : List β) (a : α) (b : β),
    (collect make s as).2.length < L → (collect take t bs).2.length < L →
    (make (collect make s as).1 a).2 = some b →
    (take (collect take t bs).1 b).2 =
      if (collect make s as).2.length = (collect take t bs).2.length then some a else none

theorem InStep.of_positions {make : σ → α → σ × Option β} {take : τ → β → τ × Option α}
    {pos : Nat → σ} {pos' : Nat → τ} {L : Nat} (hmake : Walks make pos L) (htake : Walks take pos' L)
    (hitem : ∀ n < L, ∀ m < L, ∀ a b, (make (pos n) a).2 = some b →
      (take (pos' m) b).2 = if n = m then some a else none) :
    InStep make take (pos 0) (pos' 0) L := by
  intro as bs a b has hbs hb
  have hs := hmake.collect as 0 (by omega)
  have ht := htake.collect bs 0 (by omega)
  rw [Nat.zero_add] at hs ht
  rw [hs] at hb
  rw [ht]
  exact hitem _ has _ hbs a b hb

end Lockstep
