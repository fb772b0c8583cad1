/-
Zesterm.Lib.Draining — a reader that hands out what it holds, in pieces of
its own choosing.

A read is given the most it may hand out. `Drains` says what each read does
to what the reader holds; `drained_prefix` and `drained_all` say what a list
of reads does, whatever their sizes: the pieces come in order, and once
there are more reads than elements all of them have come.

Nothing here is about terminals.
-/
import Mathlib.Tactic

namespace Draining

variable {S β ε : Type*}

/-- What a list of reads hands out, and where it leaves the reader. -/
def drained (read : S → Nat → S × Except ε (List β)) : S → List Nat → S × List β
  | s, [] => (s, [])
  | s, n :: sizes =>
    let after := drained read (read s n).1 sizes
    (after.1, (read s n).2.toOption.getD [] ++ after.2)

/-- Each read hands out some of what the reader holds, and at least one
element while it holds any. `Done` is what the first read that finds nothing
brings about. -/
structure Drains (read : S → Nat → S × Except ε (List β)) (Holds : S → List β → Prop)
    (Done : S → Prop) : Prop where
  idle : ∀ {s p}, Holds s p → ∃ s', read s 0 = (s', .ok []) ∧ Holds s' p ∧ (Done s → Done s')
  piece : ∀ {s p n}, Holds s p → p ≠ [] → 0 < n →
    ∃ s' b p', read s n = (s', .ok b) ∧ b ≠ [] ∧ b.length ≤ n ∧ p = b ++ p' ∧ Holds s' p'
  last : ∀ {s n}, Holds s [] → 0 < n →
    ∃ s' r, read s n = (s', r) ∧ (r = .ok [] ∨ ∃ e, r = .error e) ∧ Holds s' [] ∧ Done s'

variable {read : S → Nat → S × Except ε (List β)} {Holds : S → List β → Prop} {Done : S → Prop}

/-- What one read hands out, and what is left. -/
theorem Drains.single (h : Drains read Holds Done) {s : S} {p : List β} (hp : Holds s p) (n : Nat) :
    ∃ p', p = (read s n).2.toOption.getD [] ++ p' ∧ Holds (read s n).1 p' ∧
      (0 < n → p = [] → Done (read s n).1) ∧ (p = [] → Done s → Done (read s n).1) ∧
      (0 < n → p ≠ [] → p'.length < p.length) := by
  rcases Nat.eq_zero_or_pos n with rfl | hn
  · obtain ⟨s', hread, hs', hdone⟩ := h.idle hp
    rw [hread]
    exact ⟨p, rfl, hs', fun h0 => absurd h0 (lt_irrefl 0), fun _ => hdone,
      fun h0 => absurd h0 (lt_irrefl 0)⟩
  · by_cases hempty : p = []
    · subst hempty
      obtain ⟨s', r, hread, hr, hs', hdone⟩ := h.last hp hn
      rw [hread]
      refine ⟨[], ?_, hs', fun _ _ => hdone, fun _ _ => hdone, fun _ hne => absurd rfl hne⟩
      rcases hr with rfl | ⟨e, rfl⟩ <;> rfl
    · obtain ⟨s', b, p', hread, hb, -, rfl, hs'⟩ := h.piece hp hempty hn
      rw [hread]
      refine ⟨p', rfl, hs', fun _ he => absurd he hempty, fun he => absurd he hempty, fun _ _ => ?_⟩
      have := List.length_pos_iff.mpr hb
      rw [List.length_append]
      omega

/-- The pieces handed out come in order. -/
theorem drained_prefix (h : Drains read Holds Done) (sizes : List Nat) :
    ∀ {s : S} {p : List β}, Holds s p →
      ∃ p', p = (drained read s sizes).2 ++ p' ∧ Holds (drained read s sizes).1 p' := by
  induction sizes with
  | nil => exact fun hp => ⟨_, rfl, hp⟩
  | cons n sizes ih =>
    intro s p hp
    obtain ⟨p', hsplit, hs', -, -, -⟩ := h.single hp n
    obtain ⟨p'', hrest, hs''⟩ := ih hs'
    refine ⟨p'', ?_, hs''⟩
    rw [drained, List.append_assoc, ← hrest, ← hsplit]

/-- What is done stays done. -/
theorem done_drained (h : Drains read Holds Done) (sizes : List Nat) :
    ∀ {s : S}, Holds s [] → Done s → Done (drained read s sizes).1 := by
  induction sizes with
  | nil => exact fun _ hdone => hdone
  | cons n sizes ih =>
    intro s hp hdone
    obtain ⟨p', hsplit, hs', -, hkeep, -⟩ := h.single hp n
    obtain ⟨-, rfl⟩ := List.append_eq_nil_iff.mp hsplit.symm
    exact ih hs' (hkeep rfl hdone)

/-- More reads than there are elements hand out all of them. -/
theorem drained_all (h : Drains read Holds Done) (sizes : List Nat) :
    ∀ {s : S} {p : List β}, Holds s p → p.length < (sizes.filter (0 < ·)).length →
      (drained read s sizes).2 = p ∧ Done (drained read s sizes).1 := by
  induction sizes with
  | nil => exact fun _ hlen => absurd hlen (Nat.not_lt_zero _)
  | cons n sizes ih =>
    intro s p hp hlen
    obtain ⟨p', hsplit, hs', hdone, -, hshort⟩ := h.single hp n
    rcases Nat.eq_zero_or_pos n with rfl | hn
    · obtain ⟨s', hread, hs', -⟩ := h.idle hp
      rw [List.filter_cons_of_neg (by simp)] at hlen
      rw [drained, hread]
      exact ih hs' hlen
    · rw [List.filter_cons_of_pos (by simpa using hn), List.length_cons] at hlen
      by_cases hempty : p = []
      · subst hempty
        obtain ⟨hfirst, rfl⟩ := List.append_eq_nil_iff.mp hsplit.symm
        obtain ⟨q, hq, -⟩ := drained_prefix h sizes hs'
        refine ⟨?_, done_drained h sizes hs' (hdone hn rfl)⟩
        rw [drained, hfirst, List.nil_append]
        exact (List.append_eq_nil_iff.mp hq.symm).1
      · obtain ⟨hrest, hend⟩ := ih hs' (by have := hshort hn hempty; omega)
        exact ⟨by rw [drained, hrest, ← hsplit], hend⟩

end Draining
