/-
Zesterm.Daemon.DeferralTheorems — every question a connection defers gets
one answer.

`places` counts where a question is: with the reader, with a worker, in one
of the two places answers wait, or answered. `Kept` says that it is in one of
them, and that the flag and the counter the handlers go by say what is under
way. An enrolment's answer therefore finds its place empty, and when nothing
is under way nothing is claimed.
-/
import Zesterm.Daemon.Deferral
import Zesterm.Lib.Interleave

namespace Zesterm

/-! ## Where a question is -/

/-- The answer is to that question. -/
def HostAnswer.Answers : HostAnswer → Question → Prop
  | .error _, .enroll _ => True
  | .enrollResult _ _ _, .enroll _ => True
  | .gitDiffResult cwd _, .gitDiff asked => cwd = asked
  | .blockMatches query _ _ _ _, .searchBlocks asked _ => query = asked
  | _, _ => False

/-- The job is that question's. -/
def Job.For : Job → Question → Prop
  | .enroll, .enroll _ => True
  | .gitDiff cwd, .gitDiff asked => cwd = asked
  | .search query limit _, .searchBlocks asked bound => query = asked ∧ limit = bound
  | _, _ => False

theorem HostAnswer.answers_of_outcome (s : Seams) (o : JobOutcome) {job : Job} {q : Question}
    (h : job.For q) : (HostAnswer.ofOutcome s o job).Answers q := by
  cases job <;> cases q <;> try exact h.elim
  · unfold HostAnswer.ofOutcome
    cases o.enrolled <;> trivial
  · exact h
  · unfold HostAnswer.ofOutcome
    cases o.stored <;> exact h.1

theorem HostAnswer.answers_of_noThread (s : Seams) (why : Str) (found : LiveMatches) {job : Job}
    {q : Question} (h : job.For q) : (HostAnswer.ofNoThread s why found job).Answers q := by
  cases job <;> cases q <;> try exact h.elim
  · trivial
  · exact h
  · exact h.1

namespace Worker

/-- It is yet to answer question `n`. -/
def owes (n : Nat) (w : Worker) : Bool := w.phase == .working && w.number == n

/-- It has one of the slots. -/
def holdsSlot (w : Worker) : Bool := w.job.slotted && w.phase != .finished

/-- It enrols. -/
def enrolls (w : Worker) : Bool := !w.job.slotted && w.phase == .working

end Worker

namespace Deferral

variable {d : Deferral} {k : Nat}

/-- The answers there are: given, or waiting to be taken. -/
def answers (d : Deferral) : List (Nat × HostAnswer) :=
  d.sent ++ (d.enrollResult.toList ++ d.deferred)

def jobs (d : Deferral) : List (Nat × Job) :=
  d.workers.map (fun w => (w.number, w.job)) ++ d.handling.toList

/-- In how many places question `n` is. -/
def places (d : Deferral) (n : Nat) : Nat :=
  d.answers.countP (fun p => p.1 == n) + d.workers.countP (Worker.owes n) +
    d.handling.toList.countP fun p => p.1 == n

/-- How many of the slots are taken. -/
def inFlight (d : Deferral) : Nat :=
  d.workers.countP Worker.holdsSlot + d.handling.toList.countP fun p => p.2.slotted

/-- How many enrolments are under way or wait to be taken. -/
def enrolling (d : Deferral) : Nat :=
  d.workers.countP Worker.enrolls + d.handling.toList.countP (fun p => !p.2.slotted) +
    d.enrollResult.toList.length

/-- The first `k` questions are in one place each; the flag, the counter and
the answers are right. -/
structure Kept (d : Deferral) (k : Nat) : Prop where
  once : ∀ n, d.places n = if n < k then 1 else 0
  slots : d.deferredRunning = d.inFlight
  bounded : d.deferredRunning ≤ maxDeferred
  flag : d.enrolling = d.enrollRunning.toNat
  answered : ∀ p ∈ d.answers, ∃ q, d.asked[p.1]? = some q ∧ p.2.Answers q
  fits : ∀ p ∈ d.jobs, ∃ q, d.asked[p.1]? = some q ∧ p.2.For q
  posted : ∀ w ∈ d.workers, w.phase = .posted → w.job.slotted = true

/-! ## What each move keeps -/

theorem kept_reply {r : HostAnswer} {q : Question} (h : d.Kept k) (hk : d.asked.length = k + 1)
    (hq : d.asked[k]? = some q) (hr : r.Answers q) : (d.reply r).Kept (k + 1) := by
  have hnumber : d.asked.length - 1 = k := by omega
  unfold reply
  rw [hnumber]
  refine ⟨fun n => ?_, h.slots, h.bounded, h.flag, fun p hp => ?_, h.fits, h.posted⟩
  · have hn := h.once n
    simp only [places, answers, List.countP_append, List.countP_singleton, beq_iff_eq] at hn ⊢
    split_ifs at hn ⊢ <;> omega
  · simp only [answers, List.append_assoc, List.mem_append, List.mem_singleton] at hp
    rcases hp with hp | rfl | hp
    · exact h.answered p (by simp [answers, hp])
    · exact ⟨q, hq, hr⟩
    · exact h.answered p (by simp only [answers, List.mem_append]; exact .inr hp)

/-- A place is claimed for a question, and the counter or the flag with it. -/
theorem kept_handling {running : Nat} {flag : Bool} {job : Job} {q : Question} (h : d.Kept k)
    (hnone : d.handling = none) (hq : d.asked[k]? = some q) (hjob : job.For q)
    (hrunning : running = d.deferredRunning + job.slotted.toNat) (hbound : running ≤ maxDeferred)
    (hflag : flag.toNat = d.enrollRunning.toNat + (!job.slotted).toNat) :
    { d with deferredRunning := running, enrollRunning := flag
             handling := some (k, job) }.Kept (k + 1) := by
  refine ⟨fun n => ?_, ?_, hbound, ?_, h.answered, fun p hp => ?_, h.posted⟩
  · have hn := h.once n
    simp only [places, hnone, Option.toList_none, List.countP_nil, Option.toList_some,
      List.countP_singleton, beq_iff_eq] at hn ⊢
    show d.answers.countP _ + _ + _ = _
    split_ifs at hn ⊢ <;> omega
  · have hslots := h.slots
    simp only [inFlight, hnone, Option.toList_none, List.countP_nil, Option.toList_some,
      List.countP_singleton] at hslots ⊢
    rw [hrunning, hslots]
    cases job.slotted <;> rfl
  · have hold := h.flag
    simp only [enrolling, hnone, Option.toList_none, List.countP_nil, Option.toList_some,
      List.countP_singleton] at hold ⊢
    rw [hflag, ← hold]
    cases job.slotted
    · simp; omega
    · simp
  · simp only [jobs, Option.toList_some, List.mem_append, List.mem_singleton] at hp
    rcases hp with hp | rfl
    · exact h.fits p (by simp only [jobs, List.mem_append]; exact .inl hp)
    · exact ⟨q, hq, hjob⟩

/-- The reader's turn with a new question. -/
theorem kept_ask (s : Seams) (q : Question) (found : LiveMatches) (h : d.Kept d.asked.length)
    (hnone : d.handling = none) :
    ({ d with asked := d.asked ++ [q] }.handle s found q).Kept (d.asked.length + 1) := by
  have hat : (d.asked ++ [q])[d.asked.length]? = some q := List.getElem?_concat_length
  have hlen : (d.asked ++ [q]).length = d.asked.length + 1 := by simp
  have hkept : { d with asked := d.asked ++ [q] }.Kept d.asked.length := by
    refine ⟨h.once, h.slots, h.bounded, h.flag, fun p hp => ?_, fun p hp => ?_, h.posted⟩
    · obtain ⟨asked, hasked, hfits⟩ := h.answered p hp
      exact ⟨asked, List.getElem?_append_left (List.getElem?_eq_some_iff.mp hasked).1 ▸ hasked, hfits⟩
    · obtain ⟨asked, hasked, hfits⟩ := h.fits p hp
      exact ⟨asked, List.getElem?_append_left (List.getElem?_eq_some_iff.mp hasked).1 ▸ hasked, hfits⟩
  have hreply : ∀ r : HostAnswer, r.Answers q →
      ({ d with asked := d.asked ++ [q] }.reply r).Kept (d.asked.length + 1) :=
    fun r hr => kept_reply hkept hlen hat hr
  have hclaim : ∀ (job : Job) (busy : HostAnswer), job.For q → job.slotted = true →
      busy.Answers q →
        ({ d with asked := d.asked ++ [q] }.claim job busy).Kept (d.asked.length + 1) := by
    intro job busy hjob hslotted hbusy
    unfold claim
    split
    · next hlt =>
      rw [hlen, Nat.add_sub_cancel]
      refine kept_handling hkept hnone hat hjob ?_ hlt ?_
      · rw [hslotted]
        rfl
      · rw [hslotted]
        rfl
    · exact hreply busy hbusy
  unfold handle
  cases q with
  | enroll code =>
    dsimp only
    split
    · exact hreply _ trivial
    · exact hreply _ trivial
    · split
      · exact hreply _ trivial
      · split
        · exact hreply _ trivial
        · next hrunning =>
          rw [Bool.not_eq_true] at hrunning
          rw [hlen, Nat.add_sub_cancel]
          refine kept_handling hkept hnone hat (show Job.For .enroll _ from trivial) rfl h.bounded ?_
          show true.toNat = d.enrollRunning.toNat + 1
          have hfalse : d.enrollRunning = false := hrunning
          rw [hfalse]
          rfl
  | gitDiff cwd => exact hclaim _ _ rfl rfl rfl
  | searchBlocks query limit =>
    dsimp only
    split
    · exact hreply _ rfl
    · exact hclaim _ _ ⟨rfl, rfl⟩ rfl rfl

theorem kept_spawned {n : Nat} {job : Job} (h : d.Kept k) (hsome : d.handling = some (n, job)) :
    { d with handling := none, workers := d.workers ++ [Worker.mk n job .working] }.Kept k := by
  refine ⟨fun m => ?_, ?_, h.bounded, ?_, h.answered, fun p hp => h.fits p ?_, fun w hw hposted => ?_⟩
  · rw [← h.once m]
    simp [places, answers, hsome, Worker.owes, List.countP_append, List.countP_singleton]
    omega
  · rw [h.slots]
    simp [inFlight, hsome, Worker.holdsSlot, List.countP_append, List.countP_singleton]
  · rw [← h.flag]
    simp [enrolling, hsome, Worker.enrolls, List.countP_append, List.countP_singleton]
  · simpa [jobs, hsome] using hp
  · rcases List.mem_append.mp hw with hw | hw
    · exact h.posted w hw hposted
    · rw [List.mem_singleton.mp hw] at hposted
      cases hposted

theorem kept_refused (s : Seams) {n : Nat} {job : Job} (why : Str) (found : LiveMatches)
    (h : d.Kept k) (hsome : d.handling = some (n, job)) :
    ({ d with handling := none
              sent := d.sent ++ [(n, HostAnswer.ofNoThread s why found job)] }.giveBack job).Kept k := by
  obtain ⟨q, hq, hjob⟩ := h.fits (n, job) (by simp [jobs, hsome])
  have hr := HostAnswer.answers_of_noThread s why found hjob
  have hslots := h.slots
  have hflag := h.flag
  have hbound := h.bounded
  simp only [inFlight, enrolling, hsome, Option.toList_some, List.countP_singleton] at hslots hflag
  have honce : ∀ m, { d with handling := none, sent := d.sent ++
      [(n, HostAnswer.ofNoThread s why found job)] }.places m = if m < k then 1 else 0 := by
    intro m
    rw [← h.once m]
    simp [places, answers, hsome, List.countP_append, List.countP_cons]
    omega
  have hanswered : ∀ p ∈ { d with handling := none, sent := d.sent ++
      [(n, HostAnswer.ofNoThread s why found job)] }.answers,
        ∃ q, d.asked[p.1]? = some q ∧ p.2.Answers q := by
    intro p hp
    simp only [answers, List.append_assoc, List.mem_append, List.mem_singleton] at hp
    rcases hp with hp | rfl | hp
    · exact h.answered p (by simp [answers, hp])
    · exact ⟨q, hq, hr⟩
    · exact h.answered p (by simp only [answers, List.mem_append]; exact .inr hp)
  have hfits : ∀ p ∈ { d with handling := none, sent := d.sent ++
      [(n, HostAnswer.ofNoThread s why found job)] }.jobs,
        ∃ q, d.asked[p.1]? = some q ∧ p.2.For q := by
    intro p hp
    simp only [jobs, Option.toList_none, List.append_nil] at hp
    exact h.fits p (by simp only [jobs, List.mem_append]; exact .inl hp)
  cases job with
  | enroll =>
    simp only [Job.slotted, Bool.false_eq_true, if_false, Bool.not_false, if_true, Nat.add_zero]
      at hslots hflag
    have htrue : d.enrollRunning.toNat ≤ 1 := Bool.toNat_le _
    refine ⟨honce, ?_, hbound, ?_, hanswered, hfits, h.posted⟩
    · simpa [giveBack, inFlight] using hslots
    · show d.workers.countP Worker.enrolls + 0 + d.enrollResult.toList.length = 0
      omega
  | _ =>
    simp only [Job.slotted, if_true, Bool.not_true, Bool.false_eq_true, if_false, Nat.add_zero]
      at hslots hflag
    refine ⟨honce, ?_, ?_, ?_, hanswered, hfits, h.posted⟩
    · show d.deferredRunning - 1 = d.workers.countP Worker.holdsSlot + 0
      omega
    · show d.deferredRunning - 1 ≤ maxDeferred
      omega
    · simpa [giveBack, enrolling] using hflag

theorem owes_set {i : Nat} {w : Worker} {phase : WorkerPhase} (hw : d.workers[i]? = some w)
    (hworking : w.phase = .working) (hne : phase ≠ .working) (n : Nat) :
    (d.workers.set i { w with phase }).countP (Worker.owes n) + (w.number == n).toNat =
      d.workers.countP (Worker.owes n) := by
  have hset := Interleave.countP_set (Worker.owes n) hw { w with phase }
  have hbefore : Worker.owes n w = (w.number == n) := by rw [Worker.owes, hworking]; rfl
  have hafter : Worker.owes n { w with phase } = false := by
    rw [Worker.owes, beq_false_of_ne hne]
    rfl
  rw [hbefore, hafter] at hset
  exact hset

/-- An answer in the queue instead of a worker that owes it. -/
theorem places_posted (d : Deferral) (n m : Nat) (r : HostAnswer) {workers : List Worker}
    (h : workers.countP (Worker.owes n) + (m == n).toNat = d.workers.countP (Worker.owes n)) :
    { d with deferred := d.deferred ++ [(m, r)], workers }.places n = d.places n := by
  unfold places answers
  rw [← h]
  simp only [List.countP_append, List.countP_singleton, Bool.toNat]
  cases m == n
  · simp only [Bool.false_eq_true, if_false, cond_false]
    omega
  · simp only [if_true, cond_true]
    omega

/-- An answer in the empty place of an enrolment's. -/
theorem places_enrolled (d : Deferral) (n m : Nat) (r : HostAnswer) {workers : List Worker}
    (hnone : d.enrollResult = none)
    (h : workers.countP (Worker.owes n) + (m == n).toNat = d.workers.countP (Worker.owes n)) :
    { d with enrollResult := some (m, r), workers }.places n = d.places n := by
  unfold places answers
  rw [← h, hnone]
  simp only [List.countP_append, Option.toList_some, Option.toList_none, List.countP_nil,
    List.countP_singleton, Bool.toNat]
  cases m == n
  · simp only [Bool.false_eq_true, if_false, cond_false]
    omega
  · simp only [if_true, cond_true]
    omega

/-- A worker answers. An enrolment's answer finds its place empty. -/
theorem kept_post {i : Nat} {w : Worker} {r : HostAnswer} (h : d.Kept k)
    (hw : d.workers[i]? = some w) (hworking : w.phase = .working)
    (hr : ∀ q, w.job.For q → r.Answers q) :
    (d.post i w r).Kept k ∧ (w.job.slotted = false → d.enrollResult = none) := by
  obtain ⟨hi, hget⟩ := List.getElem?_eq_some_iff.mp hw
  obtain ⟨q, hq, hjob⟩ := h.fits (w.number, w.job) (by
    simp only [jobs, List.mem_append, List.mem_map]
    exact .inl ⟨w, List.mem_of_getElem? hw, rfl⟩)
  have hfits : ∀ phase, ∀ p ∈ (d.workers.set i { w with phase }).map (fun w => (w.number, w.job)) ++
      d.handling.toList, ∃ q, d.asked[p.1]? = some q ∧ p.2.For q := by
    intro phase p hp
    refine h.fits p ?_
    simp only [jobs, List.mem_append, List.mem_map] at hp ⊢
    rcases hp with ⟨u, hu, rfl⟩ | hp
    · rcases List.mem_or_eq_of_mem_set hu with hu | rfl
      · exact .inl ⟨u, hu, rfl⟩
      · exact .inl ⟨w, List.mem_of_getElem? hw, rfl⟩
    · exact .inr hp
  have hposted : ∀ phase, (phase = .posted → w.job.slotted = true) →
      ∀ u ∈ d.workers.set i { w with phase }, u.phase = .posted → u.job.slotted = true := by
    intro phase hphase u hu hup
    rcases List.mem_or_eq_of_mem_set hu with hu | rfl
    · exact h.posted u hu hup
    · exact hphase hup
  have hslots := h.slots
  have hflag := h.flag
  have howes := fun n (phase : WorkerPhase) (hne : phase ≠ .working) => owes_set hw hworking hne n
  have hslot := fun phase => Interleave.countP_set Worker.holdsSlot hw { w with phase }
  have henrolls := fun phase => Interleave.countP_set Worker.enrolls hw { w with phase }
  unfold inFlight at hslots
  unfold enrolling at hflag
  unfold post
  cases hslotted : w.job.slotted with
  | true =>
    rw [if_pos rfl]
    have hslot := hslot .posted
    have henrolls := henrolls .posted
    simp only [Worker.holdsSlot, Worker.enrolls, hslotted, hworking] at hslot henrolls
    refine ⟨⟨fun n => ?_, ?_, h.bounded, ?_, fun p hp => ?_, hfits _,
      hposted .posted (fun _ => hslotted)⟩, nofun⟩
    · rw [← h.once n, ← places_posted d n w.number r (howes n .posted (by decide))]
    · show d.deferredRunning = (d.workers.set i _).countP Worker.holdsSlot + _
      rw [hslots, Nat.add_right_cancel hslot]
    · show (d.workers.set i _).countP Worker.enrolls + _ + _ = _
      rw [Nat.add_right_cancel henrolls]
      exact hflag
    · simp only [answers, List.mem_append, List.mem_singleton] at hp
      rcases hp with hp | hp | hp | rfl
      · exact h.answered p (by simp [answers, hp])
      · exact h.answered p (by simp only [answers, List.mem_append]; exact .inr (.inl hp))
      · exact h.answered p (by simp [answers, hp])
      · exact ⟨q, hq, hr q hjob⟩
  | false =>
    rw [if_neg Bool.false_ne_true]
    have hslot := hslot .finished
    have henrolls := henrolls .finished
    simp only [Worker.holdsSlot, Worker.enrolls, hslotted, hworking] at hslot henrolls
    -- The flag is one worker's, and that is this one.
    have htoggle : (d.workers.set i { w with phase := .finished }).countP Worker.enrolls + 1 =
        d.workers.countP Worker.enrolls := henrolls
    have hone : d.enrollRunning.toNat ≤ 1 := Bool.toNat_le _
    have hnone : d.enrollResult = none := by
      rw [← Option.toList_eq_nil_iff, ← List.length_eq_zero_iff]
      omega
    refine ⟨⟨fun n => ?_, ?_, h.bounded, ?_, fun p hp => ?_, hfits _, hposted .finished nofun⟩,
      fun _ => hnone⟩
    · rw [← h.once n, ← places_enrolled d n w.number r hnone (howes n .finished (by decide))]
    · show d.deferredRunning = (d.workers.set i _).countP Worker.holdsSlot + _
      rw [hslots, Nat.add_right_cancel hslot]
    · rw [hnone] at hflag
      show (d.workers.set i _).countP Worker.enrolls + _ + 1 = _
      rw [← hflag, ← htoggle]
      exact Nat.add_right_comm _ _ _
    · simp only [answers, Option.toList_some, List.mem_append, List.mem_singleton] at hp
      rcases hp with hp | rfl | hp
      · exact h.answered p (by simp [answers, hp])
      · exact ⟨q, hq, hr q hjob⟩
      · exact h.answered p (by simp [answers, hp])

theorem kept_release {i : Nat} {w : Worker} (h : d.Kept k) (hw : d.workers[i]? = some w)
    (hposted : w.phase = .posted) :
    { d with deferredRunning := d.deferredRunning - 1
             workers := d.workers.set i { w with phase := .finished } }.Kept k := by
  have hslotted := h.posted w (List.mem_of_getElem? hw) hposted
  have howes := fun n => Interleave.countP_set (Worker.owes n) hw { w with phase := .finished }
  have hslot := Interleave.countP_set Worker.holdsSlot hw { w with phase := .finished }
  have henrolls := Interleave.countP_set Worker.enrolls hw { w with phase := .finished }
  simp only [Worker.owes, Worker.holdsSlot, Worker.enrolls, hslotted, hposted] at howes hslot henrolls
  have hslots := h.slots
  have hbound := h.bounded
  unfold inFlight at hslots
  refine ⟨fun n => ?_, ?_, ?_, ?_, h.answered, fun p hp => h.fits p ?_, fun u hu hup => ?_⟩
  · rw [← h.once n]
    show _ + (d.workers.set i _).countP (Worker.owes n) + _ = _
    rw [Nat.add_right_cancel (howes n)]
    rfl
  · have htoggle : (d.workers.set i { w with phase := .finished }).countP Worker.holdsSlot + 1 =
        d.workers.countP Worker.holdsSlot := hslot
    show d.deferredRunning - 1 = (d.workers.set i _).countP Worker.holdsSlot +
      d.handling.toList.countP fun p => p.2.slotted
    omega
  · show d.deferredRunning - 1 ≤ maxDeferred
    omega
  · rw [← h.flag]
    show (d.workers.set i _).countP Worker.enrolls + _ + _ = _
    rw [Nat.add_right_cancel henrolls]
    rfl
  · simp only [jobs, List.mem_append, List.mem_map] at hp ⊢
    rcases hp with ⟨u, hu, rfl⟩ | hp
    · rcases List.mem_or_eq_of_mem_set hu with hu | rfl
      · exact .inl ⟨u, hu, rfl⟩
      · exact .inl ⟨w, List.mem_of_getElem? hw, rfl⟩
    · exact .inr hp
  · rcases List.mem_or_eq_of_mem_set hu with hu | rfl
    · exact h.posted u hu hup
    · cases hup

theorem kept_takeEnrollResult {answer : Nat × HostAnswer} (h : d.Kept k)
    (hanswer : d.enrollResult = some answer) :
    { d with enrollRunning := false, enrollResult := none, sent := d.sent ++ [answer] }.Kept k := by
  have hflag := h.flag
  unfold enrolling at hflag
  rw [hanswer] at hflag
  have hone : d.enrollRunning.toNat ≤ 1 := Bool.toNat_le _
  have hanswers : { d with enrollRunning := false
                           enrollResult := none
                           sent := d.sent ++ [answer] }.answers = d.answers := by
    simp [answers, hanswer]
  refine ⟨fun n => ?_, h.slots, h.bounded, ?_, ?_, h.fits, h.posted⟩
  · rw [← h.once n, places, places, hanswers]
  · simp only [Option.toList_some, List.length_singleton] at hflag
    show d.workers.countP Worker.enrolls +
      (d.handling.toList.countP fun p => !p.2.slotted) + 0 = 0
    omega
  · rw [hanswers]
    exact h.answered

theorem kept_takeDeferred (h : d.Kept k) :
    { d with deferred := [], sent := d.sent ++ d.deferred }.Kept k := by
  have hmem : ∀ p, p ∈ ({ d with deferred := [], sent := d.sent ++ d.deferred } : Deferral).answers ↔
      p ∈ d.answers := by
    intro p
    simp only [answers, List.append_nil, List.mem_append]
    tauto
  refine ⟨fun n => ?_, h.slots, h.bounded, h.flag, fun p hp => h.answered p ((hmem p).mp hp), h.fits,
    h.posted⟩
  rw [← h.once n]
  simp only [places, answers, List.countP_append, List.countP_nil]
  omega

theorem asked_handle (s : Seams) (d : Deferral) (found : LiveMatches) (q : Question) :
    (d.handle s found q).asked = d.asked := by
  have hclaim : ∀ (job : Job) (busy : HostAnswer), (d.claim job busy).asked = d.asked := by
    intro job busy
    unfold claim
    split <;> rfl
  unfold handle
  cases q with
  | enroll code =>
    dsimp only
    split
    · rfl
    · rfl
    · split
      · rfl
      · split <;> rfl
  | gitDiff cwd => exact hclaim _ _
  | searchBlocks query limit =>
    dsimp only
    split
    · rfl
    · exact hclaim _ _

/-- Every move keeps it, and no answer is put where another waits. -/
theorem kept_step {s : Seams} {d' : Deferral} {m : Move} (h : d.Kept d.asked.length)
    (hstep : d.step s m = some d') : d'.Kept d'.asked.length := by
  cases m with
  | ask q found =>
    unfold step at hstep
    dsimp only at hstep
    split at hstep
    · next hnone =>
      obtain rfl := Option.some.inj hstep
      rw [asked_handle]
      simpa using kept_ask s q found h hnone
    · cases hstep
  | spawned =>
    unfold step at hstep
    dsimp only at hstep
    split at hstep
    · cases hstep
    · next n job hsome =>
      obtain rfl := Option.some.inj hstep
      exact kept_spawned h hsome
  | refused why found =>
    unfold step at hstep
    dsimp only at hstep
    split at hstep
    · cases hstep
    · next n job hsome =>
      obtain rfl := Option.some.inj hstep
      have hkept := kept_refused s why found h hsome
      cases job <;> exact hkept
  | finish i o =>
    unfold step at hstep
    dsimp only at hstep
    split at hstep
    · cases hstep
    · next w hw =>
      split at hstep
      · next hworking =>
        obtain rfl := Option.some.inj hstep
        have hkept := (kept_post h hw hworking
          fun q hq => HostAnswer.answers_of_outcome s o hq).1
        rwa [show (d.post i w (HostAnswer.ofOutcome s o w.job)).asked = d.asked by
          unfold post; split <;> rfl]
      · cases hstep
  | release i =>
    unfold step at hstep
    dsimp only at hstep
    split at hstep
    · cases hstep
    · next w hw =>
      split at hstep
      · next hposted =>
        obtain rfl := Option.some.inj hstep
        exact kept_release h hw hposted
      · cases hstep
  | takeEnrollResult =>
    unfold step at hstep
    dsimp only at hstep
    split at hstep
    · next hanswer =>
      obtain rfl := Option.some.inj hstep
      exact kept_takeEnrollResult h hanswer
    · obtain rfl := Option.some.inj hstep
      exact h
    · cases hstep
  | takeDeferred =>
    unfold step at hstep
    dsimp only at hstep
    split at hstep
    · obtain rfl := Option.some.inj hstep
      exact kept_takeDeferred h
    · cases hstep

/-- The state a list of moves leads to. -/
def run (s : Seams) (moves : List Move) : Option Deferral := moves.foldlM (step s) {}

theorem kept_run {s : Seams} {moves : List Move} (h : run s moves = some d) :
    d.Kept d.asked.length := by
  induction moves using List.reverseRecOn generalizing d with
  | nil =>
    obtain rfl := Option.some.inj h
    exact ⟨fun _ => rfl, rfl, Nat.zero_le _, rfl, nofun, nofun, nofun⟩
  | append_singleton moves m ih =>
    unfold run at h ih
    rw [List.foldlM_append, Option.bind_eq_bind, Option.bind_eq_some_iff] at h
    obtain ⟨before, hbefore, hm⟩ := h
    simp only [List.foldlM_cons, List.foldlM_nil, Option.bind_eq_bind, Option.pure_def,
      Option.bind_fun_some] at hm
    exact kept_step (ih hbefore) hm

/-! ## The answers of a run -/

/-- Nothing is under way and nothing waits to be taken. -/
def Quiet (d : Deferral) : Prop :=
  d.handling = none ∧ (∀ w ∈ d.workers, w.phase = .finished) ∧ d.enrollResult = none ∧ d.deferred = []

/-- Each question is answered once or is in one place on its way, an answer
is to its own question, no answer is left where another waits, the slots are
not exceeded, and when all is quiet all are answered and a question finds the
connection as a new one would. -/
structure Answering (s : Seams) (d : Deferral) : Prop where
  once : (d.sent.map Prod.fst).Nodup
  somewhere : ∀ n < d.asked.length, n ∈ d.sent.map Prod.fst ∨
    n ∈ (d.enrollResult.toList ++ d.deferred).map Prod.fst ∨
      (∃ w ∈ d.workers, w.number = n ∧ w.phase = .working) ∨ n ∈ d.handling.toList.map Prod.fst
  own : ∀ p ∈ d.sent, ∃ q, d.asked[p.1]? = some q ∧ p.2.Answers q
  bounded : d.inFlight ≤ maxDeferred
  unread : ∀ i w o d', d.workers[i]? = some w → w.job.slotted = false →
    d.step s (.finish i o) = some d' → d.enrollResult = none
  all : d.Quiet → ∀ n < d.asked.length, n ∈ d.sent.map Prod.fst
  accepts : d.Quiet → ∀ (q : Question) (found : LiveMatches),
    ({ d with asked := d.asked ++ [q] }.handle s found q).handling.map Prod.snd =
      (({ asked := [q] } : Deferral).handle s found q).handling.map Prod.snd

theorem quiet_claims (h : d.Kept d.asked.length) (hquiet : d.Quiet) :
    d.enrollRunning = false ∧ d.deferredRunning = 0 := by
  obtain ⟨hhandling, hworkers, hresult, -⟩ := hquiet
  have hnone : ∀ p : Worker → Bool, (∀ w : Worker, w.phase = .finished → p w = false) →
      d.workers.countP p = 0 := by
    intro p hp
    exact List.countP_eq_zero.mpr fun w hw => by rw [hp w (hworkers w hw)]; exact Bool.false_ne_true
  have hslots := h.slots
  have hflag := h.flag
  unfold inFlight at hslots
  unfold enrolling at hflag
  rw [hhandling, hnone _ fun w hw => by rw [Worker.holdsSlot, hw]; exact Bool.and_false _] at hslots
  rw [hhandling, hresult, hnone _ fun w hw => by rw [Worker.enrolls, hw]; exact Bool.and_false _]
    at hflag
  refine ⟨?_, hslots⟩
  cases hrunning : d.enrollRunning with
  | false => rfl
  | true =>
    rw [hrunning] at hflag
    cases hflag

theorem mem_places {n : Nat} (h : 0 < d.places n) : n ∈ d.sent.map Prod.fst ∨
    n ∈ (d.enrollResult.toList ++ d.deferred).map Prod.fst ∨
      (∃ w ∈ d.workers, w.number = n ∧ w.phase = .working) ∨
        n ∈ d.handling.toList.map Prod.fst := by
  have hmem : ∀ {α : Type} (l : List (Nat × α)), 0 < l.countP (fun p => p.1 == n) →
      n ∈ l.map Prod.fst := by
    intro α l hpos
    obtain ⟨p, hp, heq⟩ := List.countP_pos_iff.mp hpos
    exact List.mem_map.mpr ⟨p, hp, beq_iff_eq.mp heq⟩
  unfold places answers at h
  rw [List.countP_append] at h
  by_cases hsent : 0 < d.sent.countP fun p => p.1 == n
  · exact .inl (hmem _ hsent)
  by_cases hwaits : 0 < (d.enrollResult.toList ++ d.deferred).countP fun p => p.1 == n
  · exact .inr (.inl (hmem _ hwaits))
  by_cases hworker : 0 < d.workers.countP (Worker.owes n)
  · obtain ⟨w, hw, howes⟩ := List.countP_pos_iff.mp hworker
    simp only [Worker.owes, Bool.and_eq_true, beq_iff_eq] at howes
    exact .inr (.inr (.inl ⟨w, hw, howes.2, howes.1⟩))
  · exact .inr (.inr (.inr (hmem _ (by omega))))

/-- Every deferred question of every run gets exactly one answer. -/
theorem answering_run (s : Seams) (moves : List Move) (d : Deferral) (h : run s moves = some d) :
    Answering s d := by
  have hkept := kept_run h
  have hsomewhere : ∀ n < d.asked.length, _ := fun n hn =>
    mem_places (d := d) (n := n) (by rw [hkept.once n, if_pos hn]; exact Nat.one_pos)
  refine ⟨?_, hsomewhere, fun p hp => hkept.answered p (by simp [answers, hp]), ?_, ?_, ?_, ?_⟩
  · refine List.nodup_iff_count_le_one.mpr fun n => ?_
    have hn := hkept.once n
    unfold places answers at hn
    rw [List.countP_append] at hn
    rw [List.count, List.countP_map]
    have hle : (if n < d.asked.length then 1 else 0) ≤ 1 := by split <;> omega
    show d.sent.countP (fun p => p.1 == n) ≤ 1
    omega
  · exact hkept.slots ▸ hkept.bounded
  · intro i w o d' hw hslotted hstep
    unfold step at hstep
    dsimp only at hstep
    rw [hw] at hstep
    dsimp only at hstep
    split at hstep
    · next hworking =>
      exact (kept_post hkept hw hworking
        fun q hq => HostAnswer.answers_of_outcome s o hq).2 hslotted
    · cases hstep
  · rintro ⟨hhandling, hworkers, hresult, hdeferred⟩ n hn
    rcases hsomewhere n hn with hsent | hwaits | ⟨w, hw, -, hphase⟩ | hreader
    · exact hsent
    · rw [hresult, hdeferred] at hwaits
      cases hwaits
    · rw [hworkers w hw] at hphase
      cases hphase
    · rw [hhandling] at hreader
      cases hreader
  · intro hquiet q found
    obtain ⟨hrunning, hcount⟩ := quiet_claims hkept hquiet
    have hnone := hquiet.1
    cases q with
    | enroll code =>
      unfold handle
      dsimp only
      rw [hrunning]
      split
      · exact congrArg _ hnone
      · exact congrArg _ hnone
      · split
        · exact congrArg _ hnone
        · rfl
    | gitDiff cwd => simp [handle, claim, hcount, maxDeferred]
    | searchBlocks query limit =>
      unfold handle
      dsimp only
      split
      · exact congrArg _ hnone
      · simp [claim, hcount, maxDeferred]

/-- Two enrolments and two diffs: the second enrolment is refused, and the second
diff finds no thread. -/
def busyMoves : List Move :=
  let outcome : JobOutcome := { enrolled := .ok none, diff := {}, stored := .ok ([], false) }
  [.ask (.enroll []) {}, .spawned, .ask (.gitDiff []) {}, .spawned, .ask (.enroll []) {},
    .ask (.gitDiff []) {}, .refused [] {}, .finish 1 outcome, .finish 0 outcome, .takeDeferred,
    .takeEnrollResult, .release 1]

def localSeams : Seams :=
  { host := ⟨Vector.replicate 32 1⟩, authority := .ok (), enrolls := true, hasStore := true }

theorem answering_busy : ∃ d, run localSeams busyMoves = some d ∧ d.sent.map Prod.fst = [2, 3, 1, 0] ∧
    Answering localSeams d := by
  have hsent : (run localSeams busyMoves).map (fun d => d.sent.map Prod.fst) =
      some [2, 3, 1, 0] := by decide
  obtain ⟨d, hd, hnumbers⟩ := Option.map_eq_some_iff.mp hsent
  exact ⟨d, hd, hnumbers, answering_run localSeams busyMoves d hd⟩

end Deferral

end Zesterm
