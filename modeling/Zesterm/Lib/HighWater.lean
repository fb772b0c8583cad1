/-
Zesterm.Lib.HighWater — handing over what is done, by a high-water mark.

Records stand under keys, and some of them are done. A collector hands over
the done ones above its mark and raises the mark to the newest of them, so
that it need not remember what it has handed over. That is sound as long as
nothing at or below the mark changes but to go (`Kept.moves`): then a record
is handed over once, by the first collection that finds it done
(`Kept.collect`, `Kept.once`).

Nothing here is about terminals.
-/
import Mathlib.Data.List.Nodup
import Mathlib.Order.Basic
import Mathlib.Tactic

namespace HighWater

variable {K R : Type*} [LinearOrder K]

/-- Whether a key is above the mark; before the first collection all are. -/
def Above (mark : Option K) (k : K) : Prop := ∀ w, mark = some w → w < k

/-- What stands at a moment: under each key nothing, a record that is not
done, or one that is. -/
abbrev View (K R : Type*) := K → Option (Option R)

/-- Nothing has been handed over twice, what has been is what stands there
if anything does, and at or below the mark nothing done was left out. -/
structure Kept (mark : Option K) (handed : List (K × R)) (view : View K R) : Prop where
  nodup : (handed.map Prod.fst).Nodup
  below : ∀ x ∈ handed, ¬Above mark x.1
  same : ∀ x ∈ handed, ∀ v, view x.1 = some v → v = some x.2
  covered : ∀ k r, view k = some (some r) → ¬Above mark k → (k, r) ∈ handed

variable {mark mark' : Option K} {handed batch : List (K × R)} {view view' : View K R}

theorem Kept.empty (view : View K R) : Kept none [] view where
  nodup := List.nodup_nil
  below := fun x hx => absurd hx List.not_mem_nil
  same := fun x hx => absurd hx List.not_mem_nil
  covered := fun k _ _ hk => absurd (fun w hw => by simp at hw) hk

/-- At or below the mark a record may go, and nothing else may happen. -/
theorem Kept.moves (h : Kept mark handed view)
    (hmoves : ∀ k, ¬Above mark k → view' k = none ∨ view' k = view k) :
    Kept mark handed view' where
  nodup := h.nodup
  below := h.below
  same := by
    intro x hx v hv
    rcases hmoves x.1 (h.below x hx) with hnone | hsame
    · rw [hnone] at hv
      simp at hv
    · exact h.same x hx v (hsame ▸ hv)
  covered := by
    intro k r hv hk
    rcases hmoves k hk with hnone | hsame
    · rw [hnone] at hv
      simp at hv
    · exact h.covered k r (hsame ▸ hv) hk

/-- A collection hands over what is done above the mark. -/
theorem Kept.collect (h : Kept mark handed view)
    (hbatch : ∀ k r, (k, r) ∈ batch ↔ Above mark k ∧ view k = some (some r))
    (hnodup : (batch.map Prod.fst).Nodup) (hraise : ∀ k, ¬Above mark k → ¬Above mark' k)
    (hmark : ∀ x ∈ batch, ¬Above mark' x.1) : Kept mark' (handed ++ batch) view where
  nodup := by
    rw [List.map_append]
    refine List.Nodup.append h.nodup hnodup ?_
    intro k hk hk'
    obtain ⟨x, hx, rfl⟩ := List.mem_map.mp hk
    obtain ⟨y, hy, hxy⟩ := List.mem_map.mp hk'
    exact h.below x hx (hxy ▸ ((hbatch y.1 y.2).mp hy).1)
  below := by
    intro x hx
    rcases List.mem_append.mp hx with hx | hx
    · exact hraise _ (h.below x hx)
    · exact hmark x hx
  same := by
    intro x hx v hv
    rcases List.mem_append.mp hx with hx | hx
    · exact h.same x hx v hv
    · have hdone := ((hbatch x.1 x.2).mp hx).2
      rw [hv] at hdone
      exact Option.some.inj hdone
  covered := by
    intro k r hv _
    by_cases hk : Above mark k
    · exact List.mem_append_right handed ((hbatch k r).mpr ⟨hk, hv⟩)
    · exact List.mem_append_left batch (h.covered k r hv hk)

/-- After a collection everything done has been handed over. -/
theorem Kept.mem_collect (h : Kept mark handed view)
    (hbatch : ∀ k r, (k, r) ∈ batch ↔ Above mark k ∧ view k = some (some r)) {k : K} {r : R}
    (hv : view k = some (some r)) : (k, r) ∈ handed ++ batch := by
  by_cases hk : Above mark k
  · exact List.mem_append_right handed ((hbatch k r).mpr ⟨hk, hv⟩)
  · exact List.mem_append_left batch (h.covered k r hv hk)

/-- What has been handed over has been handed over once. -/
theorem Kept.once (h : Kept mark handed view) {k : K} {r : R} (hr : (k, r) ∈ handed) :
    handed.filter (fun x => decide (x.1 = k)) = [(k, r)] := by
  have hnodup := h.nodup
  clear h
  induction handed with
  | nil => exact absurd hr List.not_mem_nil
  | cons x rest ih =>
    rw [List.map_cons, List.nodup_cons] at hnodup
    obtain ⟨hx, hrest⟩ := hnodup
    rcases List.mem_cons.mp hr with rfl | hr
    · have hnone : rest.filter (fun x => decide (x.1 = k)) = [] := by
        rw [List.filter_eq_nil_iff]
        intro y hy heq
        exact hx (List.mem_map.mpr ⟨y, hy, by simpa using heq⟩)
      rw [List.filter_cons_of_pos (by simp), hnone]
    · have hne : x.1 ≠ k := by
        rintro rfl
        exact hx (List.mem_map.mpr ⟨(x.1, r), hr, rfl⟩)
      rw [List.filter_cons_of_neg (by simpa using hne), ih hr hrest]

/-- A walk that stops at the first record that is not above the mark meets
every one that is, where those come first. -/
theorem mem_takeWhile {α : Type*} {p : α → Bool} {l : List α}
    (hl : l.Pairwise fun x y => p y = true → p x = true) {x : α} :
    x ∈ l.takeWhile p ↔ x ∈ l ∧ p x = true := by
  induction l with
  | nil => simp
  | cons y l ih =>
    obtain ⟨hy, hl⟩ := List.pairwise_cons.mp hl
    rw [List.takeWhile_cons]
    split
    · next hpy =>
      rw [List.mem_cons, List.mem_cons, ih hl]
      constructor
      · rintro (rfl | ⟨hx, hpx⟩)
        · exact ⟨.inl rfl, hpy⟩
        · exact ⟨.inr hx, hpx⟩
      · rintro ⟨rfl | hx, hpx⟩
        · exact .inl rfl
        · exact .inr ⟨hx, hpx⟩
    · next hpy =>
      constructor
      · intro hx
        exact absurd hx List.not_mem_nil
      · rintro ⟨hx, hpx⟩
        rcases List.mem_cons.mp hx with rfl | hx
        · exact absurd hpx hpy
        · exact absurd (hy x hx hpx) hpy

end HighWater
