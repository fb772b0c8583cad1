/-
Zesterm.Lib.Shadow — keeping a receiver in step by sending what differs
from a shadow.

A sender keeps a shadow: the list it believes the receiver shows. It sends
the places where a new list differs from it (`diff`), and the receiver
writes them. `Receiver` is a receiver by its laws alone: what it shows, and
that a write changes one place and shows there what was written.

`shows_diff` is the one result. It asks of the shadow only what the diff
relies on: a place is skipped when the shadow has the new value there
already, so at those places, and at no others, the receiver has to show it
before the write.

Nothing here is about terminals.
-/
import Mathlib.Data.List.Basic
import Mathlib.Tactic

namespace Shadow

variable {α β σ : Type*}

/-- The places where `new` differs from the shadow, with what goes there. -/
def diff [DecidableEq α] (shadow new : List α) : List (Nat × α) :=
  new.zipIdx.filterMap fun (a, i) => if shadow[i]? = some a then none else some (i, a)

/-- What a diff carries is what belongs at its place. -/
theorem getElem?_of_mem_diff [DecidableEq α] {shadow new : List α} {i : Nat} {a : α}
    (h : (i, a) ∈ diff shadow new) : new[i]? = some a := by
  obtain ⟨⟨b, j⟩, hmem, hsome⟩ := List.mem_filterMap.mp h
  dsimp only at hsome
  split at hsome
  · simp at hsome
  · obtain ⟨rfl, rfl⟩ := Prod.mk.inj (Option.some.inj hsome)
    exact List.mem_zipIdx_iff_getElem?.mp hmem

/-- With nothing to send, what the shadow has is what there is. -/
theorem eq_of_diff_nil [DecidableEq α] {shadow new : List α} (h : diff shadow new = [])
    (hlen : new.length = shadow.length) : new = shadow := by
  refine List.ext_getElem hlen fun i hi hi' => ?_
  by_contra hne
  have hmem : (i, new[i]) ∈ diff shadow new := by
    refine List.mem_filterMap.mpr
      ⟨(new[i], i), List.mem_zipIdx_iff_getElem?.mpr (List.getElem?_eq_getElem hi), ?_⟩
    dsimp only
    rw [List.getElem?_eq_getElem hi', if_neg fun heq => hne (Option.some.inj heq).symm]
  rw [h] at hmem
  exact absurd hmem List.not_mem_nil

/-- A receiver of writes: the states it may be in, what it shows, and when
a shown value is the one sent. -/
structure Receiver (α β σ : Type*) where
  put : σ → Nat → α → σ
  view : σ → List β
  Ok : σ → Prop
  Shows : α → β → Prop
  ok_put : ∀ {s : σ} {i : Nat} (a : α), Ok s → i < (view s).length → Ok (put s i a)
  length_put : ∀ {s : σ} {i : Nat} (a : α), Ok s → i < (view s).length →
    (view (put s i a)).length = (view s).length
  put_self : ∀ {s : σ} {i : Nat} (a : α), Ok s → i < (view s).length →
    ∃ b, (view (put s i a))[i]? = some b ∧ Shows a b
  put_other : ∀ {s : σ} {i j : Nat} (a : α), Ok s → i < (view s).length → i ≠ j →
    (view (put s i a))[j]? = (view s)[j]?

namespace Receiver

/-- A batch of writes. -/
def puts (r : Receiver α β σ) (s : σ) (batch : List (Nat × α)) : σ :=
  batch.foldl (fun s p => r.put s p.1 p.2) s

variable (r : Receiver α β σ)

theorem puts_append (s : σ) (xs ys : List (Nat × α)) :
    r.puts s (xs ++ ys) = r.puts (r.puts s xs) ys := List.foldl_append

variable [DecidableEq α]

theorem diff_snoc (shadow new : List α) (a : α) :
    diff shadow (new ++ [a]) = diff shadow new ++
      if shadow[new.length]? = some a then [] else [(new.length, a)] := by
  unfold diff
  rw [List.zipIdx_append, List.filterMap_append]
  congr 1
  simp only [List.zipIdx_singleton, Nat.zero_add]
  split
  · next h => simp [h]
  · next h => simp [h]

/-- After the first places of `new` have been seen to, they are shown, and
the others are as they were. -/
theorem puts_diff {s : σ} (hok : r.Ok s) (shadow : List α) (new : List α)
    (hlen : new.length ≤ (r.view s).length)
    (hkeep : ∀ (i : Nat) (a : α) (b : β), shadow[i]? = some a → new[i]? = some a → (r.view s)[i]? = some b →
      r.Shows a b) :
    r.Ok (r.puts s (diff shadow new)) ∧
      (r.view (r.puts s (diff shadow new))).length = (r.view s).length ∧
      (∀ (i : Nat) (a : α), new[i]? = some a →
        ∃ b, (r.view (r.puts s (diff shadow new)))[i]? = some b ∧ r.Shows a b) ∧
      ∀ i : Nat, new.length ≤ i → (r.view (r.puts s (diff shadow new)))[i]? = (r.view s)[i]? := by
  induction new using List.reverseRecOn with
  | nil => exact ⟨hok, rfl, by simp, fun _ _ => rfl⟩
  | append_singleton new a ih =>
    have hlen' : new.length < (r.view s).length := by simpa using hlen
    obtain ⟨hok', hl, hshown, hrest⟩ := ih hlen'.le fun i a b hs hn =>
      hkeep i a b hs (by rw [List.getElem?_append_left]; exact hn; exact
        (List.getElem?_eq_some_iff.mp hn).1)
    rw [diff_snoc, puts_append]
    generalize r.puts s (diff shadow new) = s' at hok' hl hshown hrest
    have hin : new.length < (r.view s').length := hl ▸ hlen'
    split
    · -- The shadow has the new value here: nothing is sent.
      next hskip =>
      refine ⟨hok', hl, fun i x hx => ?_, fun i hi => hrest i (by simp at hi; omega)⟩
      rcases Nat.lt_or_ge i new.length with hi | hi
      · rw [List.getElem?_append_left hi] at hx
        exact hshown i x hx
      · obtain ⟨hlt, hget⟩ := List.getElem?_eq_some_iff.mp hx
        have hieq : i = new.length := by simp at hlt; omega
        subst hieq
        have hxa : x = a := by simpa using hget.symm
        subst hxa
        have hview : (r.view s)[new.length]? = some ((r.view s)[new.length]) :=
          List.getElem?_eq_getElem hlen'
        exact ⟨_, (hrest new.length le_rfl).trans hview, hkeep new.length x _ hskip hx hview⟩
    · next hsend =>
      refine ⟨r.ok_put a hok' hin, (r.length_put a hok' hin).trans hl, fun i x hx => ?_,
        fun i hi => ?_⟩
      · rcases Nat.lt_or_ge i new.length with hi | hi
        · rw [List.getElem?_append_left hi] at hx
          obtain ⟨b, hb, hshow⟩ := hshown i x hx
          exact ⟨b, (r.put_other a hok' hin (by omega)).trans hb, hshow⟩
        · obtain ⟨hlt, hget⟩ := List.getElem?_eq_some_iff.mp hx
          have hieq : i = new.length := by simp at hlt; omega
          subst hieq
          have hxa : x = a := by simpa using hget.symm
          subst hxa
          exact r.put_self x hok' hin
      · have hi' : new.length < i := by simp at hi; omega
        exact (r.put_other a hok' hin (by omega)).trans (hrest i hi'.le)

/-- Sending what differs leaves the receiver showing the new list, as soon
as it already shows the places that are skipped. -/
theorem shows_diff {s : σ} (hok : r.Ok s) (shadow new : List α)
    (hlen : new.length = (r.view s).length)
    (hkeep : ∀ (i : Nat) (a : α) (b : β), shadow[i]? = some a → new[i]? = some a → (r.view s)[i]? = some b →
      r.Shows a b) :
    r.Ok (r.puts s (diff shadow new)) ∧
      List.Forall₂ r.Shows new (r.view (r.puts s (diff shadow new))) := by
  obtain ⟨hok', hl, hshown, _⟩ := r.puts_diff hok shadow new hlen.le hkeep
  refine ⟨hok', List.forall₂_iff_get.mpr ⟨hlen.trans hl.symm, fun i h₁ h₂ => ?_⟩⟩
  obtain ⟨b, hb, hshow⟩ := hshown i new[i] (List.getElem?_eq_getElem h₁)
  have : b = (r.view (r.puts s (diff shadow new)))[i] := by
    rw [List.getElem?_eq_getElem h₂] at hb
    exact (Option.some.inj hb).symm
  subst this
  exact hshow

end Receiver

end Shadow
