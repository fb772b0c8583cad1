/-
Zesterm.Lib.Trace — runs of a machine that answers its calls.

A machine is a `step` from a state and a call to the next state and a
reply. A run keeps its history: for every call the state it found and the
reply it got. An invariant may speak of the state and of the history up to
it (`run_invariant`), which is how a law of order is said: before this
entry of the history there is that one.

Nothing here is about terminals.
-/
import Mathlib.Data.List.Induction

namespace Trace

variable {S A B : Type*}
variable (step : S → A → S × B)

/-- One call of a run: the state it found, what it was and its reply. -/
structure Entry (S A B : Type*) where
  state : S
  call : A
  reply : B

/-- One more call at the end of a run. -/
def extend (step : S → A → S × B) (p : S × List (Entry S A B)) (a : A) : S × List (Entry S A B) :=
  ((step p.1 a).1, p.2 ++ [⟨p.1, a, (step p.1 a).2⟩])

/-- The state a list of calls ends in, and the history of the run. -/
def run (step : S → A → S × B) (s : S) (calls : List A) : S × List (Entry S A B) :=
  calls.foldl (extend step) (s, [])

@[simp] theorem run_nil (s : S) : run step s [] = (s, []) := rfl

theorem run_snoc (s : S) (calls : List A) (a : A) :
    run step s (calls ++ [a]) = extend step (run step s calls) a := by
  rw [run, List.foldl_append]
  rfl

theorem run_single (s : S) (a : A) :
    run step s [a] = ((step s a).1, [⟨s, a, (step s a).2⟩]) := rfl

variable {s : S} {I : S → List (Entry S A B) → Prop} {P : List (Entry S A B) → Entry S A B → Prop}
  {h : List (Entry S A B)} {e : Entry S A B} {R T : Entry S A B → Prop}

/-- What holds at the start and is kept by every call holds after every
run. -/
theorem run_invariant {step : S → A → S × B} {s : S} {I : S → List (Entry S A B) → Prop}
    (hnil : I s [])
    (hstep : ∀ s h a, I s h → I (step s a).1 (h ++ [⟨s, a, (step s a).2⟩])) (calls : List A) :
    I (run step s calls).1 (run step s calls).2 := by
  induction calls using List.reverseRecOn with
  | nil => exact hnil
  | append_singleton calls a ih =>
    rw [run_snoc]
    exact hstep _ _ _ ih

/-- Every entry of a history meets a condition on what came before it. -/
def Each (P : List (Entry S A B) → Entry S A B → Prop) (h : List (Entry S A B)) : Prop :=
  ∀ before e after, h = before ++ e :: after → P before e

theorem each_nil (P : List (Entry S A B) → Entry S A B → Prop) : Each P [] := by
  intro before e after h
  simp at h

theorem each_snoc : Each P (h ++ [e]) ↔ Each P h ∧ P h e := by
  constructor
  · intro heach
    refine ⟨fun before e' after hsplit => heach before e' (after ++ [e]) ?_, heach h e [] rfl⟩
    rw [hsplit]
    simp
  · rintro ⟨heach, he⟩ before e' after hsplit
    rcases List.eq_nil_or_concat after with rfl | ⟨after, x, rfl⟩
    · obtain ⟨rfl, hlast⟩ := List.append_inj' hsplit rfl
      obtain rfl := (List.cons.inj hlast).1
      exact he
    · rw [List.concat_eq_append, ← List.cons_append, ← List.append_assoc] at hsplit
      exact heach before e' after (List.append_inj' hsplit rfl).1

/-- A condition that looks at the entry alone. -/
theorem each_of_forall {P : Entry S A B → Prop} (hall : ∀ e ∈ h, P e) :
    Each (fun _ e => P e) h := by
  rintro before e after rfl
  exact hall e (by simp)

/-- Each entry with what came before it, by its place. -/
theorem each_iff_take : Each P h ↔ ∀ (i : Nat) (hi : i < h.length), P (h.take i) h[i] := by
  constructor
  · intro heach i hi
    refine heach (h.take i) h[i] (h.drop (i + 1)) ?_
    rw [List.getElem_cons_drop, List.take_append_drop]
  · rintro hall before e after rfl
    have he := hall before.length (by simp)
    simpa using he

/-- The same, of a run all of whose calls meet a condition on the history
they find. -/
theorem run_invariant_of_each {step : S → A → S × B} (hnil : I s [])
    (hstep : ∀ s h a, I s h → P h ⟨s, a, (step s a).2⟩ →
      I (step s a).1 (h ++ [⟨s, a, (step s a).2⟩])) (calls : List A)
    (heach : Each P (run step s calls).2) :
    I (run step s calls).1 (run step s calls).2 := by
  induction calls using List.reverseRecOn with
  | nil => exact hnil
  | append_singleton calls a ih =>
    rw [run_snoc] at heach ⊢
    obtain ⟨hbefore, hlast⟩ := each_snoc.mp heach
    exact hstep _ _ _ (ih hbefore) hlast

/-- Two conditions on a call that say the same wherever an invariant holds,
the first of which keeps it, say the same of every run. -/
theorem run_forall_iff {step : S → A → S × B} {I : S → Prop} {P Q : Entry S A B → Prop} (hI : I s)
    (hiff : ∀ s a, I s → (P ⟨s, a, (step s a).2⟩ ↔ Q ⟨s, a, (step s a).2⟩))
    (hkeep : ∀ s a, I s → P ⟨s, a, (step s a).2⟩ → I (step s a).1) (calls : List A) :
    (∀ e ∈ (run step s calls).2, P e) ↔ ∀ e ∈ (run step s calls).2, Q e := by
  suffices hboth : ((∀ e ∈ (run step s calls).2, P e) ↔ ∀ e ∈ (run step s calls).2, Q e) ∧
      ((∀ e ∈ (run step s calls).2, P e) → I (run step s calls).1) from hboth.1
  induction calls using List.reverseRecOn with
  | nil => exact ⟨by simp, fun _ => hI⟩
  | append_singleton calls a ih =>
    obtain ⟨hsame, hinv⟩ := ih
    rw [run_snoc, extend]
    simp only [List.forall_mem_append, List.forall_mem_singleton]
    refine ⟨?_, fun hall => hkeep _ a (hinv hall.1) hall.2⟩
    constructor
    · rintro ⟨hbefore, hlast⟩
      exact ⟨hsame.mp hbefore, (hiff _ a (hinv hbefore)).mp hlast⟩
    · rintro ⟨hbefore, hlast⟩
      have hP := hsame.mpr hbefore
      exact ⟨hP, (hiff _ a (hinv hP)).mpr hlast⟩

/-- The history lists the calls. -/
theorem map_call_run (s : S) (calls : List A) : (run step s calls).2.map Entry.call = calls := by
  induction calls using List.reverseRecOn with
  | nil => rfl
  | append_singleton calls a ih =>
    rw [run_snoc, extend, List.map_append, ih]
    rfl

/-- Every entry of a history was the last call of a shorter run. -/
theorem split_run {step : S → A → S × B} {calls : List A} {before after : List (Entry S A B)}
    (h : (run step s calls).2 = before ++ e :: after) :
    ∃ front back, calls = front ++ e.call :: back ∧ run step s front = (e.state, before) ∧
      e.reply = (step e.state e.call).2 := by
  induction calls using List.reverseRecOn generalizing after with
  | nil => simp at h
  | append_singleton calls a ih =>
    rw [run_snoc, extend] at h
    rcases List.eq_nil_or_concat after with rfl | ⟨after, x, rfl⟩
    · obtain ⟨hbefore, he⟩ := List.append_inj' h rfl
      obtain rfl := (List.cons.inj he).1
      exact ⟨calls, [], rfl, Prod.ext rfl hbefore, rfl⟩
    · rw [List.concat_eq_append, ← List.cons_append, ← List.append_assoc] at h
      obtain ⟨hbefore, _⟩ := List.append_inj' h rfl
      obtain ⟨front, back, rfl, hrun, hreply⟩ := ih hbefore
      exact ⟨front, back ++ [a], by simp, hrun, hreply⟩

/-- What follows from an invariant at every call holds of every entry, with
what came before it. -/
theorem each_run {step : S → A → S × B} (hnil : I s [])
    (hstep : ∀ s h a, I s h → I (step s a).1 (h ++ [⟨s, a, (step s a).2⟩]))
    (hP : ∀ s h a, I s h → P h ⟨s, a, (step s a).2⟩) (calls : List A) :
    Each P (run step s calls).2 := by
  intro before e after hsplit
  obtain ⟨front, back, -, hrun, hreply⟩ := split_run hsplit
  obtain ⟨s', a, b⟩ := e
  obtain rfl : b = (step s' a).2 := hreply
  have hI := run_invariant hnil hstep front
  rw [hrun] at hI
  exact hP s' before a hI

/-! ## What came since -/

/-- After an entry that meets `T` there is one that meets `R`. -/
def Since (T R : Entry S A B → Prop) (h : List (Entry S A B)) : Prop :=
  ∃ before e after, h = before ++ e :: after ∧ T e ∧ ∃ f ∈ after, R f

theorem since_snoc : Since T R (h ++ [e]) ↔ Since T R h ∨ ((∃ x ∈ h, T x) ∧ R e) := by
  constructor
  · rintro ⟨before, x, after, hsplit, hT, f, hf, hR⟩
    rcases List.eq_nil_or_concat after with rfl | ⟨after, y, rfl⟩
    · exact absurd hf (by simp)
    · rw [List.concat_eq_append, ← List.cons_append, ← List.append_assoc] at hsplit
      obtain ⟨rfl, hlast⟩ := List.append_inj' hsplit rfl
      obtain rfl := (List.cons.inj hlast).1
      rw [List.concat_eq_append, List.mem_append, List.mem_singleton] at hf
      rcases hf with hf | rfl
      · exact .inl ⟨before, x, after, rfl, hT, f, hf, hR⟩
      · exact .inr ⟨⟨x, by simp, hT⟩, hR⟩
  · rintro (⟨before, x, after, rfl, hT, f, hf, hR⟩ | ⟨⟨x, hx, hT⟩, hR⟩)
    · exact ⟨before, x, after ++ [e], by simp, hT, f, by simp [hf], hR⟩
    · obtain ⟨before, after, rfl⟩ := List.append_of_mem hx
      exact ⟨before, x, after ++ [e], by simp, hT, e, by simp, hR⟩

/-- The last entry that meets `R` meets `T`. -/
def LastBy (T R : Entry S A B → Prop) (h : List (Entry S A B)) : Prop :=
  ∃ before e after, h = before ++ e :: after ∧ T e ∧ ∀ f ∈ after, ¬R f

theorem lastBy_snoc : LastBy T R (h ++ [e]) ↔ T e ∨ (LastBy T R h ∧ ¬R e) := by
  constructor
  · rintro ⟨before, x, after, hsplit, hT, hlast⟩
    rcases List.eq_nil_or_concat after with rfl | ⟨after, y, rfl⟩
    · obtain rfl := (List.cons.inj (List.append_inj' hsplit rfl).2).1
      exact .inl hT
    · rw [List.concat_eq_append, ← List.cons_append, ← List.append_assoc] at hsplit
      obtain ⟨rfl, hend⟩ := List.append_inj' hsplit rfl
      obtain rfl := (List.cons.inj hend).1
      rw [List.concat_eq_append, List.forall_mem_append, List.forall_mem_singleton] at hlast
      exact .inr ⟨⟨before, x, after, rfl, hT, hlast.1⟩, hlast.2⟩
  · rintro (hT | ⟨⟨before, x, after, rfl, hT, hlast⟩, hR⟩)
    · exact ⟨h, e, [], rfl, hT, by simp⟩
    · refine ⟨before, x, after ++ [e], by simp, hT, ?_⟩
      rw [List.forall_mem_append, List.forall_mem_singleton]
      exact ⟨hlast, hR⟩

/-! ## What comes between -/

/-- Between an entry that meets `T` and a later one that meets `D` there is
one that meets `R`. -/
def Between (T R D : Entry S A B → Prop) (h : List (Entry S A B)) : Prop :=
  ∀ before e mid f after, h = before ++ e :: (mid ++ f :: after) → T e → D f → ∃ g ∈ mid, R g

/-- A call that meets `T` leaves something owed; it is owed until a call
that meets `R`, and while it is no call meets `D`. -/
theorem between_run {step : S → A → S × B} {D : Entry S A B → Prop} {I O : S → Prop} (hI : I s)
    (hkeep : ∀ s h a, I s → P h ⟨s, a, (step s a).2⟩ → I (step s a).1)
    (hstart : ∀ s h a, I s → P h ⟨s, a, (step s a).2⟩ → T ⟨s, a, (step s a).2⟩ → O (step s a).1)
    (howed : ∀ s h a, I s → P h ⟨s, a, (step s a).2⟩ → O s → ¬R ⟨s, a, (step s a).2⟩ →
      O (step s a).1 ∧ ¬D ⟨s, a, (step s a).2⟩) (hR : ∀ e, D e → ¬R e) (calls : List A)
    (heach : Each P (run step s calls).2) : Between T R D (run step s calls).2 := by
  have hinv := run_invariant_of_each
    (I := fun s h => I s ∧ Between T R D h ∧
      ∀ before e mid, h = before ++ e :: mid → T e → (∃ g ∈ mid, R g) ∨ O s)
    ⟨hI, by intro before e mid f after h; simp at h, by intro before e mid h; simp at h⟩
    (fun s h a => ?_) calls heach
  · exact hinv.2.1
  · rintro ⟨hs, hbetween, howing⟩ hP
    refine ⟨hkeep s h a hs hP, ?_, ?_⟩
    · intro before e mid f after hsplit hT hD
      rcases List.eq_nil_or_concat after with rfl | ⟨after, x, rfl⟩
      · rw [← List.cons_append, ← List.append_assoc] at hsplit
        obtain ⟨hh, hlast⟩ := List.append_inj' hsplit rfl
        obtain rfl := (List.cons.inj hlast).1
        rcases howing before e mid hh hT with hdone | hO
        · exact hdone
        · exact absurd hD (howed s h a hs hP hO (hR _ hD)).2
      · have hassoc : before ++ e :: (mid ++ f :: after.concat x) =
            (before ++ e :: (mid ++ f :: after)) ++ [x] := by simp
        rw [hassoc] at hsplit
        exact hbetween before e mid f after (List.append_inj' hsplit rfl).1 hT hD
    · intro before e mid hsplit hT
      rcases List.eq_nil_or_concat mid with rfl | ⟨mid, x, rfl⟩
      · obtain ⟨-, hlast⟩ := List.append_inj' hsplit rfl
        obtain rfl := (List.cons.inj hlast).1
        exact .inr (hstart s h a hs hP hT)
      · rw [List.concat_eq_append, ← List.cons_append, ← List.append_assoc] at hsplit
        obtain ⟨hh, hlast⟩ := List.append_inj' hsplit rfl
        obtain rfl := (List.cons.inj hlast).1
        rcases howing before e mid hh hT with ⟨g, hg, hRg⟩ | hO
        · exact .inl ⟨g, by simp [hg], hRg⟩
        · by_cases hRx : R ⟨s, a, (step s a).2⟩
          · exact .inl ⟨_, by simp, hRx⟩
          · exact .inr (howed s h a hs hP hO hRx).1

end Trace
