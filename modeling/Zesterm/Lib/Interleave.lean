/-
Zesterm.Lib.Interleave — requests that take turns on one store.

A request runs statement by statement, and each statement is atomic: it
reads and writes the store and says what is left of the request. Any number
of requests may have begun, and any of them may run next. What is proved of
every such run is said in three parts (`Held`): of the store, of each
request against the store, and of two different requests. A statement has
to keep its own part and not disturb the others'.

Nothing here is about terminals.
-/
import Zesterm.Lib.Trace
import Mathlib.Tactic

namespace Interleave

variable {D T A : Type*}

/-- A store and the requests that have begun, in the order they did. -/
structure State (D T : Type*) where
  store : D
  tasks : List T

/-- A request begins, or one that has begun runs its next statement. -/
inductive Move (A : Type*) where
  | start (a : A)
  | step (i : Nat)

/-- One move. `begin` makes a request of what is asked, and `next` runs one
statement of it. -/
def State.move (begin : A → T) (next : D → T → D × T) (s : State D T) : Move A → State D T
  | .start a => { s with tasks := s.tasks ++ [begin a] }
  | .step i =>
    match s.tasks[i]? with
    | none => s
    | some t => { store := (next s.store t).1, tasks := s.tasks.set i (next s.store t).2 }

/-- A move as a call of a machine that answers nothing. -/
def act (begin : A → T) (next : D → T → D × T) (s : State D T) (m : Move A) : State D T × Unit :=
  (s.move begin next m, ())

variable {begin : A → T} {next : D → T → D × T} {s : State D T}

@[simp] theorem act_fst (m : Move A) : (act begin next s m).1 = s.move begin next m := rfl

@[simp] theorem store_start (a : A) : (s.move begin next (.start a)).store = s.store := rfl

@[simp] theorem tasks_start (a : A) :
    (s.move begin next (.start a)).tasks = s.tasks ++ [begin a] := rfl

theorem move_step {i : Nat} {t : T} (h : s.tasks[i]? = some t) :
    s.move begin next (.step i) =
      { store := (next s.store t).1, tasks := s.tasks.set i (next s.store t).2 } := by
  simp only [State.move, h]

theorem move_step_none {i : Nat} (h : s.tasks[i]? = none) : s.move begin next (.step i) = s := by
  simp only [State.move, h]

/-- The requests there are after one has begun. -/
theorem task_start {t u : T} {i : Nat} (h : (s.tasks ++ [t])[i]? = some u) :
    s.tasks[i]? = some u ∨ (i = s.tasks.length ∧ u = t) := by
  rcases Nat.lt_trichotomy i s.tasks.length with hi | hi | hi
  · rw [List.getElem?_append_left hi] at h
    exact .inl h
  · subst hi
    rw [List.getElem?_append_right (Nat.le_refl _), Nat.sub_self] at h
    exact .inr ⟨rfl, (Option.some.inj h).symm⟩
  · rw [List.getElem?_eq_none (by simp; omega)] at h
    exact absurd h (by simp)

/-- The requests there are after one has run a statement. -/
theorem task_set {t u v : T} {i j : Nat} (ht : s.tasks[i]? = some t)
    (h : (s.tasks.set i v)[j]? = some u) : (j = i ∧ u = v) ∨ (j ≠ i ∧ s.tasks[j]? = some u) := by
  have hi : i < s.tasks.length := (List.getElem?_eq_some_iff.mp ht).1
  by_cases hji : j = i
  · subst hji
    rw [List.getElem?_set_self hi] at h
    exact .inl ⟨rfl, (Option.some.inj h).symm⟩
  · rw [List.getElem?_set_ne (Ne.symm hji)] at h
    exact .inr ⟨hji, h⟩

/-- A request that did not run is still there. -/
theorem task_kept {u v : T} {i j : Nat} (hji : j ≠ i)
    (hu : s.tasks[j]? = some u) : (s.tasks.set i v)[j]? = some u := by
  rw [List.getElem?_set_ne (Ne.symm hji), hu]

/-- The one that ran is there as it is now. -/
theorem task_moved {t v : T} {i : Nat} (ht : s.tasks[i]? = some t) :
    (s.tasks.set i v)[i]? = some v :=
  List.getElem?_set_self (List.getElem?_eq_some_iff.mp ht).1

/-! ## What every run keeps -/

/-- Something of the store, something of each request, something of every
two. -/
structure Held (I : D → Prop) (J : D → T → Prop) (K : D → T → T → Prop) (s : State D T) : Prop where
  store : I s.store
  each : ∀ (i : Nat) (t : T), s.tasks[i]? = some t → J s.store t
  apart : ∀ (i j : Nat) (t u : T), i ≠ j → s.tasks[i]? = some t → s.tasks[j]? = some u → K s.store t u

variable {I : D → Prop} {J : D → T → Prop} {K : D → T → T → Prop}

theorem Held.start (h : Held I J K s) {a : A} (hJ : J s.store (begin a))
    (hK : ∀ u, J s.store u → K s.store (begin a) u ∧ K s.store u (begin a)) :
    Held I J K (s.move begin next (.start a)) where
  store := h.store
  each := by
    intro i u hu
    rcases task_start hu with hu | ⟨-, rfl⟩
    · exact h.each i u hu
    · exact hJ
  apart := by
    intro i j u v hij hu hv
    rcases task_start hu with hu' | ⟨hi, rfl⟩ <;> rcases task_start hv with hv' | ⟨hj, rfl⟩
    · exact h.apart i j u v hij hu' hv'
    · exact (hK u (h.each i u hu')).2
    · exact (hK v (h.each j v hv')).1
    · exact absurd (hi.trans hj.symm) hij

/-- What a statement must do for its own request and may do to others. -/
structure Fair (next : D → T → D × T) (I : D → Prop) (J : D → T → Prop) (K : D → T → T → Prop)
    (d : D) (t : T) : Prop where
  own : I (next d t).1 ∧ J (next d t).1 (next d t).2
  other : ∀ u, J d u → K d t u → K d u t →
    J (next d t).1 u ∧ K (next d t).1 (next d t).2 u ∧ K (next d t).1 u (next d t).2
  third : ∀ u v, J d u → J d v → K d u v → K (next d t).1 u v

theorem Held.step (h : Held I J K s) {i : Nat}
    (hfair : ∀ t, s.tasks[i]? = some t → Fair next I J K s.store t) :
    Held I J K (s.move begin next (.step i)) := by
  cases ht : s.tasks[i]? with
  | none =>
    rw [move_step_none ht]
    exact h
  | some t =>
    have hf := hfair t ht
    have hother : ∀ j u, j ≠ i → s.tasks[j]? = some u → _ := fun j u hji hu =>
      hf.other u (h.each j u hu) (h.apart i j t u (Ne.symm hji) ht hu) (h.apart j i u t hji hu ht)
    rw [move_step ht]
    refine ⟨hf.own.1, ?_, ?_⟩
    · intro j u hu
      rcases task_set ht hu with ⟨-, rfl⟩ | ⟨hji, hu⟩
      · exact hf.own.2
      · exact (hother j u hji hu).1
    · intro j k u v hjk hu hv
      rcases task_set ht hu with ⟨hj, rfl⟩ | ⟨hji, hu'⟩ <;>
        rcases task_set ht hv with ⟨hk, rfl⟩ | ⟨hki, hv'⟩
      · exact absurd (hj.trans hk.symm) hjk
      · exact (hother k v hki hv').2.1
      · exact (hother j u hji hu').2.2
      · exact hf.third u v (h.each j u hu') (h.each k v hv') (h.apart j k u v hjk hu' hv')

/-- What a count of requests comes to when one of them is replaced. -/
theorem countP_set {ts : List T} {i : Nat} {t : T} (p : T → Bool) (h : ts[i]? = some t) (u : T) :
    (ts.set i u).countP p + (p t).toNat = ts.countP p + (p u).toNat := by
  obtain ⟨hi, rfl⟩ := List.getElem?_eq_some_iff.mp h
  have hpos : p ts[i] = true → 0 < ts.countP p :=
    fun hp => List.countP_pos_iff.mpr ⟨_, List.getElem_mem hi, hp⟩
  rw [List.countP_set hi]
  generalize p ts[i] = counted at hpos ⊢
  cases counted with
  | false => cases p u <;> simp
  | true =>
    have hpos := hpos rfl
    cases p u <;> simp <;> omega

end Interleave
