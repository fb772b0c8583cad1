/-
Zesterm.Lib.Chunked — reading items off a stream that arrives in pieces.

A `Puller` looks at what has arrived and takes an item off the front of it,
says that none is complete yet, or refuses. It is stable: an item that is
complete, and a refusal, stay what they are when more arrives. Then where a
stream was cut, and how often the reader asked between two pieces, decides
nothing: the items taken over a run are the items of the whole stream
(`taken_run`), and a refusal is for ever (`refused_run`).

Nothing here is about terminals.
-/
import Zesterm.Lib.Trace
import Mathlib.Tactic

namespace Trace

variable {S T A B : Type*}

/-- A machine that does what another does, on states that stand for its
states, answers every call as the other does. -/
theorem run_sim {step : S → A → S × B} {step' : T → A → T × B} {f : S → T}
    (h : ∀ s a, step' (f s) a = (f (step s a).1, (step s a).2)) (s : S) (calls : List A) :
    (run step' (f s) calls).1 = f (run step s calls).1 ∧
      (run step' (f s) calls).2.map Entry.reply = (run step s calls).2.map Entry.reply := by
  induction calls using List.reverseRecOn with
  | nil => exact ⟨rfl, rfl⟩
  | append_singleton calls a ih =>
    simp only [run_snoc, extend, List.map_append, ih.1, ih.2, h, List.map_cons, List.map_nil,
      and_self]

end Trace

namespace Chunked

variable {α β ε : Type*}

/-- Taking one item off the front of what has arrived: the item and what
is left behind it, nothing yet, or a refusal. -/
structure Puller (α β ε : Type*) where
  next : List β → Except ε (Option (α × List β))
  /-- A complete item is not touched by what arrives behind it. -/
  item_append : ∀ {b x rest}, next b = .ok (some (x, rest)) →
    ∀ more, next (b ++ more) = .ok (some (x, rest ++ more))
  /-- Nothing that arrives behind it undoes a refusal. -/
  error_append : ∀ {b e}, next b = .error e → ∀ more, next (b ++ more) = .error e

/-- What a reader is called for: to take in a piece, or to give an item. -/
inductive Call (β : Type*) where
  | feed (piece : List β)
  | next

/-- The pieces a run takes in, put together. -/
def fed : List (Call β) → List β
  | [] => []
  | .feed piece :: calls => piece ++ fed calls
  | .next :: calls => fed calls

theorem fed_append (calls calls' : List (Call β)) :
    fed (calls ++ calls') = fed calls ++ fed calls' := by
  induction calls with
  | nil => rfl
  | cons c calls ih => cases c <;> simp [fed, ih]

theorem fed_replicate_next (n : Nat) : fed (List.replicate n (Call.next (β := β))) = [] := by
  induction n with
  | zero => rfl
  | succ n ih => rw [List.replicate_succ, fed, ih]

/-- The item an answer carries. -/
def item? : Option (Except ε (Option α)) → Option α
  | some (.ok (some x)) => some x
  | _ => none

/-- An answer that is a refusal. -/
def refusal? : Option (Except ε (Option α)) → Option ε
  | some (.error e) => some e
  | _ => none

namespace Puller

variable (p : Puller α β ε)

/-- One call: what is held after it, and the answer to a call for an item. -/
def step (b : List β) : Call β → List β × Option (Except ε (Option α))
  | .feed piece => (b ++ piece, none)
  | .next =>
    match p.next b with
    | .ok (some (x, rest)) => (rest, some (.ok (some x)))
    | .ok none => (b, some (.ok none))
    | .error e => (b, some (.error e))

/-- The answers of a run that starts with `b` held. -/
def answers (b : List β) (calls : List (Call β)) : List (Option (Except ε (Option α))) :=
  (Trace.run p.step b calls).2.map Trace.Entry.reply

/-- What a run leaves. -/
def left (b : List β) (calls : List (Call β)) : List β := (Trace.run p.step b calls).1

/-- `b` holds the items `xs`, one after the other, and `rest` behind them
is not an item yet. -/
inductive Holds : List β → List α → List β → Prop where
  | stop {b} (h : p.next b = .ok none) : Holds b [] b
  | item {b x b' xs rest} (h : p.next b = .ok (some (x, b'))) (more : Holds b' xs rest) :
      Holds b (x :: xs) rest

variable {p}
variable {b tail : List β} {xs : List α}

/-- Taking the next of the items a stream holds. -/
theorem Holds.next {rest : List β} (h : p.Holds b xs rest) :
    (p.next b = .ok none ∧ xs = [] ∧ b = rest) ∨
      ∃ x xs' b', p.next b = .ok (some (x, b')) ∧ xs = x :: xs' ∧ p.Holds b' xs' rest := by
  cases h with
  | stop h => exact .inl ⟨h, rfl, rfl⟩
  | item h more => exact .inr ⟨_, _, _, h, rfl, more⟩

/-- What has arrived of a stream: no item yet, or the first of its items. -/
theorem Holds.front {future : List β} (h : p.Holds (b ++ future) xs tail) :
    p.next b = .ok none ∨
      ∃ x xs' b', p.next b = .ok (some (x, b')) ∧ xs = x :: xs' ∧ p.Holds (b' ++ future) xs' tail := by
  cases hb : p.next b with
  | error e =>
    -- What is refused now is refused of the whole stream too.
    rcases h.next with ⟨hn, -, -⟩ | ⟨x, xs', b', hn, -, -⟩ <;> simp [p.error_append hb] at hn
  | ok answer =>
    cases answer with
    | none => exact .inl rfl
    | some taken =>
      obtain ⟨x, b'⟩ := taken
      have happ := p.item_append hb future
      rcases h.next with ⟨hn, -, -⟩ | ⟨y, xs', b'', hn, rfl, hmore⟩
      · simp [happ] at hn
      · rw [happ] at hn
        obtain ⟨rfl, rfl⟩ : x = y ∧ b' ++ future = b'' := by simpa using hn
        exact .inr ⟨x, xs', b', rfl, rfl, hmore⟩

/-- One call of a reader, seen from the items of the whole stream: `rest`
of it is still to come. -/
theorem step_holds {future : List β} (c : Call β) (h : p.Holds (b ++ (fed [c] ++ future)) xs tail) :
    ∃ xs', xs = (item? (p.step b c).2).toList ++ xs' ∧ refusal? (p.step b c).2 = none ∧
      p.Holds ((p.step b c).1 ++ future) xs' tail := by
  cases c with
  | feed piece =>
    refine ⟨xs, rfl, rfl, ?_⟩
    simpa [fed, step] using h
  | next =>
    have hstream : p.Holds (b ++ future) xs tail := by simpa [fed] using h
    rcases hstream.front with hb | ⟨x, xs', b', hb, rfl, hmore⟩
    · refine ⟨xs, ?_, ?_, ?_⟩
      · simp [step, hb, item?]
      · simp [step, hb, refusal?]
      · simpa [step, hb] using hstream
    · refine ⟨xs', ?_, ?_, ?_⟩
      · simp [step, hb, item?]
      · simp [step, hb, refusal?]
      · simpa [step, hb] using hmore

theorem answers_snoc (b : List β) (calls : List (Call β)) (c : Call β) :
    p.answers b (calls ++ [c]) = p.answers b calls ++ [(p.step (p.left b calls) c).2] := by
  simp only [answers, Trace.run_snoc, Trace.extend, List.map_append, List.map_cons, List.map_nil,
    left]

theorem left_snoc (b : List β) (calls : List (Call β)) (c : Call β) :
    p.left b (calls ++ [c]) = (p.step (p.left b calls) c).1 := by
  simp only [left, Trace.run_snoc, Trace.extend]

theorem run_append (b : List β) (calls calls' : List (Call β)) :
    p.answers b (calls ++ calls') = p.answers b calls ++ p.answers (p.left b calls) calls' ∧
      p.left b (calls ++ calls') = p.left (p.left b calls) calls' := by
  induction calls' using List.reverseRecOn with
  | nil => simp [answers, left]
  | append_singleton calls' c ih =>
    obtain ⟨hanswers, hleft⟩ := ih
    rw [← List.append_assoc, answers_snoc, answers_snoc, left_snoc, left_snoc, hanswers, hleft,
      List.append_assoc]
    exact ⟨rfl, rfl⟩

/-- A reader of a stream refuses nothing, has given the first items of the
stream, and holds the others with what is still to come. -/
theorem run_holds (calls : List (Call β)) : ∀ {b future tail : List β} {xs : List α},
    p.Holds (b ++ (fed calls ++ future)) xs tail →
    ∃ xs', xs = (p.answers b calls).filterMap item? ++ xs' ∧
      (p.answers b calls).filterMap refusal? = [] ∧ p.Holds (p.left b calls ++ future) xs' tail := by
  induction calls using List.reverseRecOn with
  | nil =>
    intro b future tail xs h
    exact ⟨xs, rfl, rfl, h⟩
  | append_singleton calls c ih =>
    intro b future tail xs h
    rw [fed_append, List.append_assoc] at h
    obtain ⟨ys, rfl, hrefused, hheld⟩ := ih h
    obtain ⟨zs, rfl, hno, hzs⟩ := step_holds c hheld
    refine ⟨zs, ?_, ?_, ?_⟩
    · rw [answers_snoc, List.filterMap_append, List.append_assoc]
      cases hitem : item? (p.step (p.left b calls) c).2 <;> simp [hitem]
    · rw [answers_snoc, List.filterMap_append, hrefused]
      simp [hno]
    · rw [left_snoc]
      exact hzs

/-- Asked `n` times, a reader has given `n` items or all it held. -/
theorem length_taken (h : p.Holds b xs tail) (n : Nat) :
    ∃ xs', xs = (p.answers b (List.replicate n .next)).filterMap item? ++ xs' ∧
      p.Holds (p.left b (List.replicate n .next)) xs' tail ∧
      (xs' = [] ∨ n ≤ ((p.answers b (List.replicate n .next)).filterMap item?).length) := by
  induction n with
  | zero => exact ⟨xs, rfl, h, .inr (Nat.zero_le _)⟩
  | succ n ih =>
    obtain ⟨ys, rfl, hheld, hcount⟩ := ih
    rw [List.replicate_succ', answers_snoc, left_snoc, List.filterMap_append]
    generalize p.left b (List.replicate n .next) = b' at hheld ⊢
    rcases hheld.next with ⟨hnext, rfl, rfl⟩ | ⟨x, zs, b'', hnext, rfl, hmore⟩
    · refine ⟨[], ?_, ?_, .inl rfl⟩
      · simp [step, hnext, item?]
      · simpa [step, hnext] using hheld
    · refine ⟨zs, ?_, ?_, .inr ?_⟩
      · simp [step, hnext, item?]
      · simpa [step, hnext] using hmore
      · have hn : n ≤ _ := hcount.resolve_left (by simp)
        simpa [step, hnext, item?] using hn

/-- Over a run that takes in a whole stream and then asks at least as often
as the stream holds items, exactly its items are given, in order, and what
is behind the last of them is left. -/
theorem taken_run {calls : List (Call β)} (h : p.Holds (fed calls) xs tail) {n : Nat}
    (hn : xs.length ≤ n) :
    (p.answers [] (calls ++ List.replicate n .next)).filterMap item? = xs ∧
      (p.answers [] (calls ++ List.replicate n .next)).filterMap refusal? = [] ∧
      p.left [] (calls ++ List.replicate n .next) = tail := by
  obtain ⟨hanswers, hleft⟩ := run_append (p := p) [] calls (List.replicate n .next)
  have hstart : p.Holds ([] ++ (fed calls ++ [])) xs tail := by simpa using h
  obtain ⟨ys, rfl, hfirst, hheld⟩ := run_holds calls hstart
  rw [List.append_nil] at hheld
  have hrest : p.Holds (p.left [] calls ++ (fed (List.replicate n Call.next) ++ [])) ys tail := by
    simpa [fed_replicate_next] using hheld
  obtain ⟨-, -, hsecond, -⟩ := run_holds (List.replicate n .next) hrest
  obtain ⟨zs, rfl, hend, hcount⟩ := length_taken hheld n
  have hzs : zs = [] := by
    rcases hcount with hzs | hlen
    · exact hzs
    · rw [List.length_append, List.length_append] at hn
      exact List.length_eq_zero_iff.mp (by omega)
  subst hzs
  rw [hanswers, hleft, List.filterMap_append, List.filterMap_append, hfirst, hsecond]
  refine ⟨by simp, rfl, ?_⟩
  rcases hend.next with ⟨-, -, htail⟩ | ⟨x, xs', b', -, hxs, -⟩
  · exact htail
  · simp at hxs

/-- Once refused, always refused. -/
theorem refused_run {e : ε} (h : p.next b = .error e) (calls : List (Call β)) :
    (∀ a ∈ p.answers b calls, a = none ∨ a = some (.error e)) ∧ p.next (p.left b calls) = .error e := by
  induction calls using List.reverseRecOn with
  | nil => exact ⟨fun a ha => absurd ha List.not_mem_nil, h⟩
  | append_singleton calls c ih =>
    obtain ⟨hall, hlast⟩ := ih
    rw [answers_snoc, left_snoc]
    cases c with
    | feed piece =>
      refine ⟨fun a ha => ?_, p.error_append hlast piece⟩
      rcases List.mem_append.mp ha with ha | ha
      · exact hall a ha
      · exact .inl (List.mem_singleton.mp ha)
    | next =>
      have hstep : p.step (p.left b calls) .next = (p.left b calls, some (.error e)) := by
        simp [step, hlast]
      rw [hstep]
      refine ⟨fun a ha => ?_, hlast⟩
      rcases List.mem_append.mp ha with ha | ha
      · exact hall a ha
      · exact .inr (List.mem_singleton.mp ha)

end Puller

end Chunked
