/-
Zesterm.Proto.FrameTheorems — framing survives any chunking.

A `FrameReader` is a puller of bodies (`FrameReader.puller`): a body that is
complete, and a length past the limit, stay what they are when more bytes
arrive. So where the stream was cut and when the reader was asked decide
nothing (`frames_of_any_cut`).
-/
import Zesterm.Proto.Frame
import Mathlib.Data.List.ReduceOption

namespace Zesterm

open Chunked (Call Puller)

/-! ## The length in front -/

theorem length_u32ToLeBytes (n : Nat) : (u32ToLeBytes n).length = 4 := rfl

theorem u32FromLeBytes_toLeBytes {n : Nat} (h : n < 2 ^ 32) :
    u32FromLeBytes (u32ToLeBytes n) = n := by
  simp only [u32ToLeBytes, u32FromLeBytes, UInt8.toNat_ofNat']
  omega

theorem frameBytes_eq {body : List UInt8} (h : body.length ≤ maxFrame) :
    frameBytes body = .ok (u32ToLeBytes body.length ++ body) := by
  have hmax : maxFrame ≤ 2 ^ 32 - 1 := by decide
  rw [frameBytes, if_neg (by omega), min_eq_left (by omega)]

namespace FrameReader

variable (buf : List UInt8)

/-! ## A puller of bodies -/

/-- What the reader makes of the bytes it holds. -/
def pull (buf : List UInt8) : Except FrameError (Option (List UInt8 × List UInt8)) :=
  match (FrameReader.mk buf).nextFrame with
  | (.ok (some body), r) => .ok (some (body, r.buf))
  | (.ok none, _) => .ok none
  | (.error e, _) => .error e

theorem pull_short {buf : List UInt8} (h : buf.length < 4) : pull buf = .ok none := by
  simp [pull, nextFrame, h]

/-- Past the length, by cases of what it says. -/
theorem pull_long {buf : List UInt8} (h : 4 ≤ buf.length) :
    pull buf =
      if (FrameReader.mk buf).declared > maxFrame then .error (.tooLarge (FrameReader.mk buf).declared)
      else if buf.length < 4 + (FrameReader.mk buf).declared then .ok none
      else .ok (some ((buf.drop 4).take (FrameReader.mk buf).declared,
        buf.drop (4 + (FrameReader.mk buf).declared))) := by
  rw [pull, nextFrame, if_neg (by simpa using h)]
  dsimp only
  split_ifs <;> rfl

/-- The length is read off the first four bytes. -/
theorem declared_append {buf : List UInt8} (h : 4 ≤ buf.length) (more : List UInt8) :
    (FrameReader.mk (buf ++ more)).declared = (FrameReader.mk buf).declared := by
  simp only [declared, List.take_append_of_le_length h]

/-- The bodies of a stream, one at a time. -/
def puller : Puller (List UInt8) UInt8 FrameError where
  next := pull
  item_append := by
    intro buf body rest h more
    by_cases hshort : buf.length < 4
    · rw [pull_short hshort] at h
      simp at h
    · have hlong : 4 ≤ buf.length := by omega
      have hmore : 4 ≤ (buf ++ more).length := by simp only [List.length_append]; omega
      rw [pull_long hlong] at h
      rw [pull_long hmore, declared_append hlong]
      split_ifs at h with hmax hpart
      · simp at h
      simp only [Except.ok.injEq, Option.some.injEq, Prod.mk.injEq] at h
      obtain ⟨rfl, rfl⟩ := h
      rw [if_neg hmax, if_neg (by simp only [List.length_append]; omega),
        List.drop_append_of_le_length hlong, List.drop_append_of_le_length (by omega),
        List.take_append_of_le_length (by simp only [List.length_drop]; omega)]
  error_append := by
    intro buf e h more
    by_cases hshort : buf.length < 4
    · rw [pull_short hshort] at h
      simp at h
    · have hlong : 4 ≤ buf.length := by omega
      have hmore : 4 ≤ (buf ++ more).length := by simp only [List.length_append]; omega
      rw [pull_long hlong] at h
      rw [pull_long hmore, declared_append hlong]
      split_ifs at h with hmax hpart
      rw [if_pos hmax]
      exact h

/-- A reader that returns no body holds what it held. -/
theorem nextFrame_cases (r : FrameReader) :
    (∃ e, r.nextFrame = (.error e, r)) ∨ r.nextFrame = (.ok none, r) ∨
      ∃ body r', r.nextFrame = (.ok (some body), r') := by
  unfold nextFrame
  dsimp only
  split_ifs
  · exact .inr (.inl rfl)
  · exact .inl ⟨_, rfl⟩
  · exact .inr (.inl rfl)
  · exact .inr (.inr ⟨_, _, rfl⟩)

/-- The reader does what the puller does with the bytes it holds. -/
theorem step_eq (c : Call UInt8) :
    step (.mk buf) c = (.mk (puller.step buf c).1, (puller.step buf c).2) := by
  cases c with
  | feed bytes => rfl
  | next =>
    simp only [step, Puller.step, puller, pull]
    rcases nextFrame_cases (.mk buf) with ⟨e, h⟩ | h | ⟨body, r, h⟩ <;> rw [h]

/-- A run of the reader is a run of the puller. -/
theorem run_eq (calls : List (Call UInt8)) :
    (FrameReader.mk buf).after calls = .mk (puller.left buf calls) ∧
      (FrameReader.mk buf).answers calls = (puller.answers buf calls).reduceOption := by
  obtain ⟨hleft, hanswers⟩ := Trace.run_sim (f := FrameReader.mk) step_eq buf calls
  exact ⟨hleft, congrArg List.reduceOption hanswers⟩

/-! ## Streams of frames -/

/-- The frames of `bodies`, one after the other. -/
def wire (bodies : List (List UInt8)) : List UInt8 :=
  (bodies.map fun body => u32ToLeBytes body.length ++ body).flatten

theorem wire_cons (body : List UInt8) (bodies : List (List UInt8)) :
    wire (body :: bodies) = u32ToLeBytes body.length ++ body ++ wire bodies := by
  rw [wire, List.map_cons, List.flatten_cons]
  rfl

theorem puller_next : puller.next buf = pull buf := rfl

theorem holds_wire (bodies : List (List UInt8)) (h : ∀ body ∈ bodies, body.length ≤ maxFrame) :
    puller.Holds (wire bodies) bodies [] := by
  induction bodies with
  | nil => exact .stop (show pull [] = _ from pull_short (by decide))
  | cons body bodies ih =>
    have hbody := h body (List.mem_cons_self ..)
    have hmax : maxFrame < 2 ^ 32 := by decide
    refine .item ?_ (ih fun b hb => h b (List.mem_cons_of_mem _ hb))
    rw [puller_next, wire_cons]
    have hlen : (FrameReader.mk (u32ToLeBytes body.length ++ body ++ wire bodies)).declared =
        body.length := by
      rw [List.append_assoc, declared_append (length_u32ToLeBytes _).ge]
      exact u32FromLeBytes_toLeBytes (by omega)
    rw [pull_long (by simp [length_u32ToLeBytes]), hlen, if_neg (by omega),
      if_neg (by simp [length_u32ToLeBytes]), ← List.drop_drop, List.append_assoc,
      List.drop_left' (length_u32ToLeBytes _), List.take_left, List.drop_left]

/-- What is in the answers of the reader and what is in the puller's. -/
theorem returned_eq (calls : List (Call UInt8)) :
    (FrameReader.mk buf).returned calls = (puller.answers buf calls).filterMap Chunked.item? := by
  rw [returned, (run_eq buf calls).2, List.reduceOption, List.filterMap_filterMap]
  refine List.filterMap_congr fun a _ => ?_
  rcases a with _ | (e | (_ | body)) <;> rfl

/-- However a stream of frames is cut, and however often the reader is asked
between two pieces, the bodies it returns are the bodies that were framed,
in order, and nothing is left over; and a length past the limit is answered
with `TooLarge` whatever arrives behind it. -/
theorem frames_of_any_cut :
    (∀ bodies : List (List UInt8), (∀ body ∈ bodies, body.length ≤ maxFrame) →
      ∃ frames : List (List UInt8), bodies.map frameBytes = frames.map .ok ∧
        ∀ calls : List (Call UInt8), Chunked.fed calls = frames.flatten →
          ∀ n ≥ bodies.length, let run := calls ++ List.replicate n Call.next
            ({} : FrameReader).returned run = bodies ∧
            (∀ answer ∈ ({} : FrameReader).answers run, ∃ found, answer = .ok found) ∧
            (({} : FrameReader).after run).pending = 0) ∧
    ∀ r : FrameReader, 4 ≤ r.pending → maxFrame < r.declared → ∀ calls : List (Call UInt8),
      ∀ answer ∈ r.answers calls, answer = .error (.tooLarge r.declared) := by
  constructor
  · intro bodies hmax
    refine ⟨bodies.map fun body => u32ToLeBytes body.length ++ body, ?_, ?_⟩
    · rw [List.map_map]
      exact List.map_congr_left fun body hbody => frameBytes_eq (hmax body hbody)
    · intro calls hfed n hn run
      have hstream : puller.Holds (Chunked.fed calls) bodies [] := by
        rw [hfed]
        exact holds_wire bodies hmax
      obtain ⟨htaken, hnone, hleft⟩ := Puller.taken_run hstream hn
      obtain ⟨hafter, hanswers⟩ := run_eq [] run
      refine ⟨(returned_eq [] run).trans htaken, fun answer hanswer => ?_, ?_⟩
      · cases answer with
        | ok found => exact ⟨found, rfl⟩
        | error e =>
          rw [hanswers, List.reduceOption_mem_iff] at hanswer
          have hmem : e ∈ (puller.answers [] run).filterMap Chunked.refusal? :=
            List.mem_filterMap.mpr ⟨_, hanswer, rfl⟩
          rw [hnone] at hmem
          exact absurd hmem List.not_mem_nil
      · rw [hafter]
        exact congrArg List.length hleft
  · rintro ⟨buf⟩ hlong hlarge calls answer hanswer
    have hpull : puller.next buf = .error (.tooLarge (FrameReader.mk buf).declared) := by
      show pull buf = _
      rw [pull_long hlong, if_pos hlarge]
    rw [(run_eq buf calls).2, List.reduceOption_mem_iff] at hanswer
    rcases (Puller.refused_run hpull calls).1 _ hanswer with hno | hyes
    · simp at hno
    · exact Option.some.inj hyes

/-- A one-byte body cut inside its length, and a length one past the
limit. -/
theorem frames_of_two_pieces :
    ({} : FrameReader).returned [.feed [1, 0], .next, .feed [0, 0, 7], .next] = [[7]] ∧
      ∀ answer ∈ (FrameReader.mk [1, 0, 128, 0]).answers [.next, .feed [5], .next],
        answer = .error (.tooLarge 8388609) := by
  obtain ⟨frames, hframes, hcut⟩ := frames_of_any_cut.1 [[7]] (by decide)
  have hone : frames = [[1, 0, 0, 0, 7]] := by
    have h : frames.map Except.ok = ([[1, 0, 0, 0, 7]].map .ok : List (Except FrameError (List UInt8))) :=
      hframes.symm.trans (by decide)
    exact List.map_injective_iff.mpr (fun _ _ => Except.ok.inj) h
  subst hone
  exact ⟨(hcut [.feed [1, 0], .next, .feed [0, 0, 7]] rfl 1 le_rfl).1,
    frames_of_any_cut.2 (.mk [1, 0, 128, 0]) (by decide) (by decide) _⟩

end FrameReader

end Zesterm
