/-
Zesterm.Lib.Renumber — runs of numbers, each renumbered as a whole.

A renumbering is a list of pairs: a run of old numbers and the run of new
ones it became, both in ascending order from pair to pair. A point of an
old run is sent to the least number of the new one. An interval of old
numbers then meets the same runs before and after (`Ordered.meets_iff`),
however many numbers each run has, and covers the last of them exactly when
that run became one number (`Ordered.covers_iff`).

Nothing here is about terminals.
-/
import Mathlib.Data.List.Basic
import Mathlib.Tactic

namespace Renumber

variable {α β : Type*} [LinearOrder α] [LinearOrder β]

/-- Both sides of every pair stand below both sides of every later one. -/
structure Ordered (L : List (List α × List β)) : Prop where
  old : (L.flatMap Prod.fst).Pairwise (· < ·)
  new : (L.flatMap Prod.snd).Pairwise (· < ·)
  old_ne : ∀ q ∈ L, q.1 ≠ []
  new_ne : ∀ q ∈ L, q.2 ≠ []

/-- One run stands below another, before and after. -/
def Below (q q' : List α × List β) : Prop :=
  (∀ x ∈ q.1, ∀ y ∈ q'.1, x < y) ∧ ∀ x ∈ q.2, ∀ y ∈ q'.2, x < y

variable {L : List (List α × List β)}
variable {q s q' : List α × List β}

theorem Ordered.pairwise (h : Ordered L) : L.Pairwise Below :=
  (List.pairwise_flatMap.mp h.old).2.and (List.pairwise_flatMap.mp h.new).2

/-- Two runs are the same, or one stands below the other. -/
theorem Ordered.trichotomy (h : Ordered L) (hq : q ∈ L) (hq' : q' ∈ L) :
    q = q' ∨ Below q q' ∨ Below q' q := by
  obtain ⟨i, hi, rfl⟩ := List.mem_iff_getElem.mp hq
  obtain ⟨j, hj, rfl⟩ := List.mem_iff_getElem.mp hq'
  rcases Nat.lt_trichotomy i j with hlt | rfl | hlt
  · exact Or.inr (Or.inl (List.pairwise_iff_getElem.mp h.pairwise i j hi hj hlt))
  · exact Or.inl rfl
  · exact Or.inr (Or.inr (List.pairwise_iff_getElem.mp h.pairwise j i hj hi hlt))

theorem Below.not_le_old (h : Below q q') {x y : α} (hx : x ∈ q.1) (hy : y ∈ q'.1) :
    ¬ y ≤ x := not_le.mpr (h.1 x hx y hy)

theorem Below.not_le_new (h : Below q q') {x y : β} (hx : x ∈ q.2) (hy : y ∈ q'.2) :
    ¬ y ≤ x := not_le.mpr (h.2 x hx y hy)

/-- The least number of a run's new side. -/
theorem Ordered.head_le (h : Ordered L) (hq : q ∈ L) {e y : β} (he : q.2.head? = some e)
    (hy : y ∈ q.2) : e ≤ y := by
  have hs := (List.pairwise_flatMap.mp h.new).1 q hq
  cases hl : q.2 with
  | nil => simp [hl] at hy
  | cons a l =>
    rw [hl] at he hy hs
    obtain rfl : a = e := by simpa using he
    rcases List.mem_cons.mp hy with rfl | hy
    · exact le_rfl
    · exact (List.rel_of_pairwise_cons hs hy).le

/-- The first run stands below every other. -/
theorem Ordered.first (h : Ordered L) {q₀ : List α × List β} (h₀ : L.head? = some q₀) (hq : q ∈ L) :
    q = q₀ ∨ Below q₀ q := by
  have hp := h.pairwise
  cases hl : L with
  | nil => simp [hl] at hq
  | cons a l =>
    rw [hl] at h₀ hq hp
    obtain rfl : a = q₀ := by simpa using h₀
    rcases List.mem_cons.mp hq with rfl | hq
    · exact Or.inl rfl
    · exact Or.inr (List.rel_of_pairwise_cons hp hq)

/-- Where both ends of an interval are numbered, it meets the same runs
before and after. -/
theorem Ordered.meets_iff (h : Ordered L) {p : List α × List β} (hp : p ∈ L) (hs : s ∈ L)
    (hq : q ∈ L) {start stop : α} {start' stop' : β} (hstart : start ∈ p.1) (hstop : stop ∈ s.1)
    (hp' : p.2.head? = some start') (hs' : s.2.head? = some stop') (hle : start ≤ stop) :
    (∃ x ∈ q.1, start ≤ x ∧ x ≤ stop) ↔ ∃ y ∈ q.2, start' ≤ y ∧ y ≤ stop' := by
  have hpm : start' ∈ p.2 := List.mem_of_head? hp'
  have hsm : stop' ∈ s.2 := List.mem_of_head? hs'
  obtain ⟨e, l, he⟩ := List.exists_cons_of_ne_nil (h.new_ne q hq)
  have heq : q.2.head? = some e := by rw [he]; rfl
  have hem : e ∈ q.2 := List.mem_of_head? heq
  constructor
  · rintro ⟨x, hx, hx₁, hx₂⟩
    refine ⟨e, hem, ?_, ?_⟩
    · rcases h.trichotomy hq hp with rfl | hb | hb
      · exact h.head_le hq hp' hem
      · exact absurd hx₁ (hb.not_le_old hx hstart)
      · exact (hb.2 start' hpm e hem).le
    · rcases h.trichotomy hq hs with rfl | hb | hb
      · exact h.head_le hq heq hsm
      · exact (hb.2 e hem stop' hsm).le
      · exact absurd hx₂ (hb.not_le_old hstop hx)
  · rintro ⟨y, hy, hy₁, hy₂⟩
    rcases h.trichotomy hq hp with rfl | hb | hb
    · exact ⟨start, hstart, le_rfl, hle⟩
    · exact absurd hy₁ (hb.not_le_new hy hpm)
    · rcases h.trichotomy hq hs with rfl | hb' | hb'
      · exact ⟨stop, hstop, hle, le_rfl⟩
      · obtain ⟨x, hx⟩ := List.exists_mem_of_ne_nil _ (h.old_ne q hq)
        exact ⟨x, hx, (hb.1 start hstart x hx).le, (hb'.1 x hx stop hstop).le⟩
      · exact absurd hy₂ (hb'.not_le_new hsm hy)

/-- Where the first end of an interval is clamped to the least number, it
meets the same runs exactly when the first run reached it. -/
theorem Ordered.meets_first_iff (h : Ordered L) {q₀ : List α × List β} (h₀ : L.head? = some q₀)
    (hs : s ∈ L) {start stop : α} {start' stop' : β} (hstop : stop ∈ s.1)
    (h₀' : q₀.2.head? = some start') (hs' : s.2.head? = some stop') :
    (∀ q ∈ L, (∃ x ∈ q.1, start ≤ x ∧ x ≤ stop) ↔ ∃ y ∈ q.2, start' ≤ y ∧ y ≤ stop') ↔
      start ≤ stop ∧ ∃ x ∈ q₀.1, start ≤ x := by
  have h₀m : q₀ ∈ L := List.mem_of_head? h₀
  have hsm : stop' ∈ s.2 := List.mem_of_head? hs'
  have hleast : ∀ q ∈ L, ∀ y ∈ q.2, start' ≤ y := by
    intro q hq y hy
    rcases h.first h₀ hq with rfl | hb
    · exact h.head_le hq h₀' hy
    · exact (hb.2 start' (List.mem_of_head? h₀') y hy).le
  constructor
  · intro hall
    have hself : ∃ x ∈ s.1, start ≤ x ∧ x ≤ stop :=
      (hall s hs).mpr ⟨stop', hsm, hleast s hs stop' hsm, le_rfl⟩
    have hfirst : ∃ x ∈ q₀.1, start ≤ x ∧ x ≤ stop := by
      refine (hall q₀ h₀m).mpr ⟨start', List.mem_of_head? h₀', le_rfl, ?_⟩
      exact hleast s hs stop' hsm
    obtain ⟨x, _, hx₁, hx₂⟩ := hself
    obtain ⟨x₀, hx₀, hle, _⟩ := hfirst
    exact ⟨hx₁.trans hx₂, x₀, hx₀, hle⟩
  · rintro ⟨hle, x₀, hx₀, hreach⟩ q hq
    obtain ⟨e, l, he⟩ := List.exists_cons_of_ne_nil (h.new_ne q hq)
    have heq : q.2.head? = some e := by rw [he]; rfl
    have hem : e ∈ q.2 := List.mem_of_head? heq
    constructor
    · rintro ⟨x, hx, _, hx₂⟩
      refine ⟨e, hem, hleast q hq e hem, ?_⟩
      rcases h.trichotomy hq hs with rfl | hb | hb
      · exact h.head_le hq heq hsm
      · exact (hb.2 e hem stop' hsm).le
      · exact absurd hx₂ (hb.not_le_old hstop hx)
    · rintro ⟨y, hy, _, hy₂⟩
      rcases h.trichotomy hq hs with rfl | hb | hb
      · exact ⟨stop, hstop, hle, le_rfl⟩
      · rcases h.first h₀ hq with rfl | hb₀
        · exact ⟨x₀, hx₀, hreach, (hb.1 x₀ hx₀ stop hstop).le⟩
        · obtain ⟨x, hx⟩ := List.exists_mem_of_ne_nil _ (h.old_ne q hq)
          exact ⟨x, hx, hreach.trans (hb₀.1 x₀ hx₀ x hx).le, (hb.1 x hx stop hstop).le⟩
      · exact absurd hy₂ (hb.not_le_new hsm hy)

/-- An interval that ends on the least number of a run covers that run
exactly when it is all of it. -/
theorem Ordered.covers_iff (h : Ordered L) (hs : s ∈ L) {start' stop' : β}
    (hs' : s.2.head? = some stop') (hle : start' ≤ stop') :
    (∀ y ∈ s.2, start' ≤ y ∧ y ≤ stop') ↔ s.2.length = 1 := by
  have hsorted := (List.pairwise_flatMap.mp h.new).1 s hs
  cases hl : s.2 with
  | nil => simp [hl] at hs'
  | cons a l =>
    rw [hl] at hs' hsorted
    obtain rfl : a = stop' := by simpa using hs'
    cases l with
    | nil => simpa using hle
    | cons b l =>
      constructor
      · intro hall
        have hlt := List.rel_of_pairwise_cons hsorted (List.mem_cons_self (a := b) (l := l))
        exact absurd (hall b (by simp)).2 (not_le.mpr hlt)
      · intro hlen
        simp at hlen

end Renumber
