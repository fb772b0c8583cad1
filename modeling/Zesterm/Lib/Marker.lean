/-
Zesterm.Lib.Marker — a text between two markers.

A reader of such a text stops at the first end marker (`upTo`). Where the
marker does not overlap itself (`Unbordered`) the reader gets all of a text
that does not hold the marker, whatever follows: `upTo_append`. A coding in
which the marker's letters are coded by themselves and stand for nothing else
(`Alone`) keeps the places where the marker occurs: `infix_flatMap_iff`.

Nothing here is about terminals: the letters are any types.
-/
import Mathlib.Data.List.Infix
import Mathlib.Tactic

namespace Marker

variable {α β : Type*}

/-! ## Where a marker can begin -/

/-- No proper part of the marker both begins and ends it. -/
def Unbordered (m : List α) : Prop := ∀ s ∈ m.tails, s <+: m → s = [] ∨ s = m

/-- The marker does not begin inside a text. -/
def Apart (pre m : List α) : Prop := ∀ s ∈ pre.tails, s ≠ [] → ¬s <+: m ∧ ¬m <+: s

instance [DecidableEq α] (m : List α) : Decidable (Unbordered m) :=
  inferInstanceAs (Decidable (∀ s ∈ m.tails, s <+: m → s = [] ∨ s = m))

instance [DecidableEq α] (pre m : List α) : Decidable (Apart pre m) :=
  inferInstanceAs (Decidable (∀ s ∈ pre.tails, s ≠ [] → ¬s <+: m ∧ ¬m <+: s))

/-- Before a text it does not begin inside of, a marker is nowhere new. -/
theorem Apart.infix_append {pre m : List α} (h : Apart pre m) {body : List α}
    (hm : m <:+: pre ++ body) : m <:+: body := by
  induction pre with
  | nil => exact hm
  | cons p pre ih =>
    rw [List.cons_append, List.infix_cons_iff] at hm
    rcases hm with hhead | htail
    · have hself : p :: pre ∈ (p :: pre).tails := (List.mem_tails _ _).mpr List.suffix_rfl
      obtain ⟨hnot, hnot'⟩ := h (p :: pre) hself (List.cons_ne_nil p pre)
      have hpre : p :: pre <+: p :: (pre ++ body) := List.prefix_append (p :: pre) body
      rcases List.prefix_or_prefix_of_prefix hhead hpre with h' | h'
      · exact absurd h' hnot'
      · exact absurd h' hnot
    · refine ih (fun s hs => h s ?_) htail
      rw [List.mem_tails] at hs ⊢
      exact hs.trans (List.suffix_cons p pre)

/-- The first marker behind a text that does not hold it is the one put
there. -/
theorem Unbordered.first {m before after body more : List α} (h : Unbordered m)
    (hbody : ¬m <:+: body) (hle : before.length ≤ body.length)
    (heq : before ++ m ++ after = body ++ m ++ more) : before = body ∧ after = more := by
  have hshort : ∃ mid, body = before ++ mid := by
    rw [List.append_assoc, List.append_assoc] at heq
    rcases List.append_eq_append_iff.mp heq with ⟨mid, hmid, -⟩ | ⟨mid, hmid, -⟩
    · exact ⟨mid, hmid⟩
    · rw [hmid, List.length_append] at hle
      have hnil : mid = [] := List.length_eq_zero_iff.mp (by omega)
      exact ⟨[], by rw [hmid, hnil, List.append_nil, List.append_nil]⟩
  obtain ⟨mid, rfl⟩ := hshort
  simp only [List.append_assoc, List.append_cancel_left_eq] at heq
  rcases List.append_eq_append_iff.mp heq with ⟨rest, rfl, -⟩ | ⟨rest, hm, hrest⟩
  · -- The marker ends inside the text.
    exact absurd ⟨before, rest, by simp⟩ hbody
  · -- What the marker has left over begins the marker again.
    have hsuffix : rest <:+ m := ⟨mid, hm.symm⟩
    have hprefix : rest <+: m := by
      have hbegins : rest <+: m ++ more := ⟨after, hrest.symm⟩
      exact List.prefix_of_prefix_length_le hbegins (List.prefix_append m more) hsuffix.length_le
    rcases h rest ((List.mem_tails _ _).mpr hsuffix) hprefix with rfl | rfl
    · rw [List.append_nil] at hm
      exact absurd ⟨before, [], by simp [hm]⟩ hbody
    · have hmid : mid = [] := by simpa using hm
      subst hmid
      refine ⟨by simp, ?_⟩
      simpa using heq

/-! ## Reading up to a marker -/

section Reading

variable [DecidableEq α]

/-- What stands before the first marker, and what comes after it. -/
def upTo (m : List α) : List α → Option (List α × List α)
  | [] => if m = [] then some ([], []) else none
  | a :: as =>
    if m <+: a :: as then some ([], (a :: as).drop m.length)
    else (upTo m as).map fun r => (a :: r.1, r.2)

theorem upTo_append {m body : List α} (h : Unbordered m) (hne : m ≠ []) (hbody : ¬m <:+: body)
    (more : List α) : upTo m (body ++ m ++ more) = some (body, more) := by
  induction body with
  | nil =>
    obtain ⟨x, xs, rfl⟩ := List.exists_cons_of_ne_nil hne
    rw [List.nil_append, List.cons_append, upTo, ← List.cons_append,
      if_pos (List.prefix_append (x :: xs) more), List.drop_left]
  | cons b body ih =>
    have hlater : ¬m <+: b :: (body ++ m ++ more) := by
      rintro ⟨after, hafter⟩
      have heq : [] ++ m ++ after = b :: body ++ m ++ more := by simpa using hafter
      have := (h.first hbody (by simp) heq).1
      exact absurd this (List.cons_ne_nil b body).symm
    rw [List.cons_append, List.cons_append, upTo, if_neg hlater,
      ih fun hin => hbody (hin.trans (List.infix_cons List.infix_rfl))]
    rfl

end Reading

/-- Behind a text that does not hold it, the marker occurs at the end only. -/
theorem Unbordered.only_at_end {m body before after : List α} (h : Unbordered m)
    (hbody : ¬m <:+: body) (heq : before ++ m ++ after = body ++ m) : after = [] := by
  by_cases hle : before.length ≤ body.length
  · exact (h.first hbody hle (heq.trans (List.append_nil _).symm)).2
  · have hlen := congrArg List.length heq
    simp only [List.length_append] at hlen
    exact List.length_eq_zero_iff.mp (by omega)

/-! ## Codings -/

/-- The letter is coded by one letter, which is part of no other code. -/
def Alone (enc : α → List β) (a : α) (b : β) : Prop := enc a = [b] ∧ ∀ a', b ∈ enc a' → a' = a

section Codings

variable {enc : α → List β} (henc : ∀ a, enc a ≠ [])
include henc

theorem prefix_flatMap_iff {m : List α} {code : List β} (h : List.Forall₂ (Alone enc) m code) :
    ∀ s : List α, code <+: s.flatMap enc ↔ m <+: s := by
  induction h with
  | nil => exact fun s => iff_of_true List.nil_prefix List.nil_prefix
  | @cons a b m code hab _ ih =>
    intro s
    cases s with
    | nil => simp
    | cons c s =>
      obtain ⟨x, xs, hc⟩ := List.exists_cons_of_ne_nil (henc c)
      rw [List.flatMap_cons, hc, List.cons_append, List.cons_prefix_cons, List.cons_prefix_cons]
      constructor
      · rintro ⟨rfl, hrest⟩
        obtain rfl : c = a := hab.2 c (hc ▸ List.mem_cons_self)
        obtain ⟨-, rfl⟩ := List.cons.inj (hc.symm.trans hab.1)
        exact ⟨rfl, (ih s).mp hrest⟩
      · rintro ⟨rfl, hrest⟩
        obtain ⟨rfl, rfl⟩ := List.cons.inj (hc.symm.trans hab.1)
        exact ⟨rfl, (ih s).mpr hrest⟩

omit henc in
/-- A text that does not hold a marker's first letter is no place for it. -/
theorem infix_append_of_notMem {b : β} {code pre rest : List β} (h : b ∉ pre) :
    b :: code <:+: pre ++ rest ↔ b :: code <:+: rest := by
  induction pre with
  | nil => rfl
  | cons p pre ih =>
    obtain ⟨hne, hnot⟩ := not_or.mp (List.mem_cons.not.mp h)
    rw [List.cons_append, List.infix_cons_iff, List.cons_prefix_cons, ih hnot]
    exact or_iff_right fun hhead => hne hhead.1

/-- A coded text holds the coded marker where the text holds the marker. -/
theorem infix_flatMap_iff {m : List α} {code : List β} (h : List.Forall₂ (Alone enc) m code)
    (s : List α) : code <:+: s.flatMap enc ↔ m <:+: s := by
  cases h with
  | nil => exact iff_of_true (List.nil_infix) (List.nil_infix)
  | @cons a b m code hab hrest =>
    induction s with
    | nil => simp
    | cons c s ih =>
      by_cases hb : b ∈ enc c
      · obtain rfl : c = a := hab.2 c hb
        have hpre := prefix_flatMap_iff henc (.cons hab hrest) (c :: s)
        rw [List.flatMap_cons, hab.1, List.singleton_append] at hpre ⊢
        rw [List.infix_cons_iff, List.infix_cons_iff, hpre, ih]
      · have hne : a ≠ c := fun hac => hb (by rw [← hac, hab.1]; exact List.mem_singleton_self b)
        rw [List.flatMap_cons, infix_append_of_notMem hb, ih, List.infix_cons_iff,
          List.cons_prefix_cons]
        exact (or_iff_right fun hhead => hne hhead.1).symm

end Codings

end Marker
