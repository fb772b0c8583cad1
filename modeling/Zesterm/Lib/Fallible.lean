/-
Zesterm.Lib.Fallible — loops whose turns may stop them.

`List.foldlM` in `Option` is a loop that a turn can stop; `List.foldl` is
the loop that computes on. Where an invariant makes every turn safe the two
agree (`foldlM_eq_foldl`), and where it makes some turn unsafe the first one
stops (`foldlM_eq_none`).

Nothing here is about terminals.
-/
import Mathlib.Init

namespace Fallible

variable {σ β : Type*} {f : σ → β → Option σ} {g : σ → β → σ} {P : σ → Prop}

/-- A loop whose every turn is safe is safe, and keeps what its turns
keep. -/
theorem foldlM_eq_foldl : ∀ {l : List β}, (∀ s, ∀ b ∈ l, P s → f s b = some (g s b) ∧ P (g s b)) →
    ∀ s, P s → l.foldlM f s = some (l.foldl g s) ∧ P (l.foldl g s)
  | [], _, s, hs => ⟨rfl, hs⟩
  | b :: l, hstep, s, hs => by
    obtain ⟨hb, hP⟩ := hstep s b List.mem_cons_self hs
    rw [List.foldlM_cons, hb, List.foldl_cons]
    exact foldlM_eq_foldl (fun s b hb => hstep s b (List.mem_cons_of_mem _ hb)) _ hP

/-- A turn that is never safe stops the loop, wherever the safe turns before
it have led. -/
theorem foldlM_eq_none (good : β → Prop)
    (hgood : ∀ s b, good b → P s → f s b = some (g s b) ∧ P (g s b))
    (hbad : ∀ s b, ¬ good b → P s → f s b = none) :
    ∀ {l : List β}, (∃ b ∈ l, ¬ good b) → ∀ s, P s → l.foldlM f s = none
  | [], h, _, _ => by
    obtain ⟨b, hb, _⟩ := h
    cases hb
  | b :: l, h, s, hs => by
    rw [List.foldlM_cons]
    by_cases hg : good b
    · obtain ⟨hb, hP⟩ := hgood s b hg hs
      rw [hb]
      refine foldlM_eq_none good hgood hbad ?_ _ hP
      obtain ⟨b', hb', hbad'⟩ := h
      rcases List.mem_cons.mp hb' with rfl | hb'
      · exact absurd hg hbad'
      · exact ⟨b', hb', hbad'⟩
    · rw [hbad s b hg hs]
      rfl

end Fallible
