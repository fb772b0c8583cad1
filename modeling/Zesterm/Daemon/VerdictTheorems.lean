/-
Zesterm.Daemon.VerdictTheorems — every request is answered exactly once.

Requests are named by their ids, and `Accounted` says where the ids that were
given out are: in the queue, in the hands of a call that took them out, or
answered, each in one place. Every call moves ids from one place to the next.
A call answers outside the queue's lock, so between the taking and the
answer a request is in no queue and has no verdict (`not_answered_taken`);
with that said, and with every approval traced to the one who gave it, the
law holds of every run (`answered_run`).
-/
import Zesterm.Daemon.Verdicts

namespace Zesterm

namespace Verdicts

variable {s : Verdicts} {h : List Entry}

/-! ## Where the ids are -/

abbrev Entry := Trace.Entry Verdicts Call Reply

/-- The ids waiting in the queue. -/
def queued (s : Verdicts) : List Nat := s.queue.pending.map Prod.fst

/-- The ids some call has taken out and is yet to answer. -/
def taken (s : Verdicts) : List Nat := s.answering.flatMap Prod.fst

/-- What an entry answered. -/
def answer? (e : Entry) : Option (Nat × Decision) :=
  match e.reply with
  | .answered id decision => some (id, decision)
  | _ => none

/-- The ids answered, with their verdicts, in order. -/
def answers (h : List Entry) : List (Nat × Decision) := h.filterMap answer?

/-- The verdicts one request was given. -/
def verdicts (id : Nat) (h : List Entry) : List Decision :=
  ((answers h).filter fun p => p.1 == id).map Prod.snd

/-- The request under an id was submitted. -/
def Submitted (id : Nat) (h : List Entry) : Prop := ∃ e ∈ h, e.reply = .submitted id

/-- The ids given out so far are each in one place. -/
structure Accounted (s : Verdicts) (h : List Entry) : Prop where
  perm : (s.queued ++ (s.taken ++ (answers h).map Prod.fst)).Perm (List.range s.queue.nextId)
  submitted : ∀ id, Submitted id h ↔ id < s.queue.nextId

theorem answers_snoc (h : List Entry) (e : Entry) :
    answers (h ++ [e]) = answers h ++ (answer? e).toList := by
  unfold answers
  rw [List.filterMap_append]
  cases he : answer? e <;> simp [he]

theorem submitted_snoc (id : Nat) (h : List Entry) (e : Entry) :
    Submitted id (h ++ [e]) ↔ Submitted id h ∨ e.reply = .submitted id := by
  unfold Submitted
  constructor
  · rintro ⟨e', he', hreply⟩
    rcases List.mem_append.mp he' with hin | hlast
    · exact .inl ⟨e', hin, hreply⟩
    · rw [List.mem_singleton.mp hlast] at hreply
      exact .inr hreply
  · rintro (⟨e', hin, hreply⟩ | hreply)
    · exact ⟨e', List.mem_append_left _ hin, hreply⟩
    · exact ⟨e, by simp, hreply⟩

theorem taken_take (s : Verdicts) (queue : PairingQueue) (out : List (Nat × PairingRequest))
    (decision : Decision) :
    (s.take queue out decision).taken = s.taken ++ out.map Prod.fst := by
  simp [take, taken]

/-- What a call takes out and what it leaves are what was there. -/
theorem perm_remove (q : PairingQueue) (gone : Nat × PairingRequest → Bool) :
    ((q.remove gone).pending ++ q.pending.filter gone).Perm q.pending :=
  List.perm_append_comm.trans (List.filter_append_perm gone q.pending)

theorem perm_cancel (q : PairingQueue) (id : Nat) :
    ((q.cancel id).pending ++ (q.pending.find? fun p => p.1 == id).toList).Perm q.pending := by
  unfold PairingQueue.cancel
  split
  · dsimp only
    generalize q.pending = pending
    induction pending with
    | nil => exact List.Perm.refl _
    | cons p pending ih =>
      rw [List.eraseP_cons, List.find?_cons]
      cases p.1 == id with
      | true => exact List.perm_append_comm
      | false => exact ih.cons p
  · next hnone =>
    have hfind : q.pending.find? (fun p => p.1 == id) = none := by
      rw [List.find?_eq_none]
      intro p hp hid
      exact hnone (List.any_eq_true.mpr ⟨p, hp, hid⟩)
    rw [hfind]
    simp

/-- A call that takes requests out moves their ids, and no others. -/
theorem accounted_take (ha : Accounted s h) {queue : PairingQueue}
    {out : List (Nat × PairingRequest)} (decision : Decision) {e : Entry} (hdone : e.reply = .done)
    (hnext : queue.nextId = s.queue.nextId) (hperm : (queue.pending ++ out).Perm s.queue.pending) :
    Accounted (s.take queue out decision) (h ++ [e]) := by
  have hids : ((s.take queue out decision).queued ++ out.map Prod.fst).Perm s.queued := by
    simpa [queued, take] using hperm.map Prod.fst
  have hanswer : answer? e = none := by simp [answer?, hdone]
  refine ⟨?_, fun id => ?_⟩
  · rw [answers_snoc, hanswer, taken_take]
    show List.Perm _ (List.range queue.nextId)
    rw [hnext]
    refine List.Perm.trans (List.perm_iff_count.mpr fun a => ?_) ha.perm
    have hcount := hids.count_eq a
    simp only [List.count_append, Option.toList_none, List.append_nil] at hcount ⊢
    omega
  · rw [submitted_snoc, ha.submitted id, hdone]
    show _ ↔ id < queue.nextId
    rw [hnext]
    simp

theorem accounted_notify (ha : Accounted s h) {i id : Nat} {ids : List Nat} {decision : Decision}
    (hi : s.answering[i]? = some (id :: ids, decision)) {e : Entry}
    (he : e.reply = .answered id decision) :
    Accounted { s with answering := s.answering.set i (ids, decision) } (h ++ [e]) := by
  have hanswer : answer? e = some (id, decision) := by simp [answer?, he]
  obtain ⟨hlt, hget⟩ := List.getElem?_eq_some_iff.mp hi
  have hsplit : s.answering = s.answering.take i ++ (id :: ids, decision) :: s.answering.drop (i + 1) := by
    rw [← hget, List.getElem_cons_drop, List.take_append_drop]
  refine ⟨?_, fun id' => ?_⟩
  · rw [answers_snoc, hanswer]
    refine List.Perm.trans (List.perm_iff_count.mpr fun a => ?_) ha.perm
    have htaken : s.taken.count a = ((s.answering.take i).flatMap Prod.fst).count a +
        (id :: ids).count a + ((s.answering.drop (i + 1)).flatMap Prod.fst).count a := by
      unfold taken
      conv_lhs => rw [hsplit]
      rw [List.flatMap_append, List.flatMap_cons, List.count_append, List.count_append, Nat.add_assoc]
    have hset : (s.answering.set i (ids, decision)).flatMap Prod.fst =
        (s.answering.take i).flatMap Prod.fst ++ (ids ++
          (s.answering.drop (i + 1)).flatMap Prod.fst) := by
      rw [List.set_eq_take_append_cons_drop, if_pos hlt]
      simp
    show List.count a (s.queued ++ (List.flatMap Prod.fst _ ++ _)) = _
    rw [hset]
    simp only [List.count_append, List.map_append, List.count_cons, List.map_cons, List.map_nil,
      Option.toList_some, List.count_nil] at htaken ⊢
    omega
  · rw [submitted_snoc, ha.submitted id', he]
    simp

theorem accounted_step (ha : Accounted s h) (c : Call) :
    Accounted (s.step c).1 (h ++ [⟨s, c, (s.step c).2⟩]) := by
  cases c with
  | submit request =>
    refine ⟨?_, fun id => ?_⟩
    · rw [answers_snoc]
      show List.Perm ((s.queue.pending ++ [(s.queue.nextId, request)]).map Prod.fst ++ _)
        (List.range (s.queue.nextId + 1))
      rw [List.range_succ]
      refine List.Perm.trans (List.perm_iff_count.mpr fun a => ?_) (ha.perm.append_right _)
      simp only [List.count_append, List.map_append, queued, answer?, List.map_cons, List.map_nil,
        Option.toList_none, List.append_nil, taken, step]
      omega
    · rw [submitted_snoc, ha.submitted id]
      show _ ∨ Reply.submitted s.queue.nextId = .submitted id ↔ id < s.queue.nextId + 1
      rw [Reply.submitted.injEq]
      omega
  | resolve client decision =>
    exact accounted_take ha decision rfl rfl (perm_remove s.queue _)
  | expire now => exact accounted_take ha .deny rfl rfl (perm_remove s.queue _)
  | cancel id =>
    refine accounted_take ha .deny rfl ?_ (perm_cancel s.queue id)
    unfold PairingQueue.cancel
    split <;> rfl
  | touch =>
    have hq : s.queue.touch.pending = s.queue.pending ∧ s.queue.touch.nextId = s.queue.nextId := by
      unfold PairingQueue.touch
      split <;> exact ⟨rfl, rfl⟩
    refine ⟨?_, fun id => ?_⟩
    · rw [answers_snoc]
      show List.Perm (s.queue.touch.pending.map Prod.fst ++ (s.taken ++ List.map Prod.fst _))
        (List.range s.queue.touch.nextId)
      rw [hq.1, hq.2]
      simpa [answer?, step, queued] using ha.perm
    · rw [submitted_snoc, ha.submitted id]
      show _ ∨ Reply.done = .submitted id ↔ id < s.queue.touch.nextId
      rw [hq.2]
      simp
  | notify i =>
    have hquiet (s' : Verdicts) (hq : s'.queue = s.queue) (ht : s'.taken = s.taken) :
        Accounted s' (h ++ [⟨s, .notify i, .done⟩]) := by
      refine ⟨?_, fun id => ?_⟩
      · rw [answers_snoc, queued, hq, ht]
        simpa [answer?, queued] using ha.perm
      · rw [submitted_snoc, ha.submitted id, hq]
        simp
    unfold step
    dsimp only
    split
    · exact hquiet s rfl rfl
    · next decision hi =>
      refine hquiet _ rfl ?_
      obtain ⟨hlt, hget⟩ := List.getElem?_eq_some_iff.mp hi
      show (s.answering.eraseIdx i).flatMap Prod.fst = s.answering.flatMap Prod.fst
      conv_rhs => rw [← List.take_append_drop i s.answering, ← List.getElem_cons_drop hlt, hget]
      rw [List.eraseIdx_eq_take_drop_succ]
      simp
    · next id ids decision hi => exact accounted_notify ha hi rfl

/-! ## Who approved -/

/-- A person approved the client of this request while it was queued. -/
def Approved (id : Nat) (h : List Entry) : Prop :=
  ∃ e ∈ h, ∃ client r, e.call = .resolve client .approve ∧ (id, r) ∈ e.state.queue.pending ∧
    r.client = client

theorem Approved.snoc {id : Nat} (ha : Approved id h) (e : Entry) : Approved id (h ++ [e]) := by
  obtain ⟨e', he', hrest⟩ := ha
  exact ⟨e', List.mem_append_left _ he', hrest⟩

/-- What is about to be approved, or has been, was approved by a person. -/
structure Traced (s : Verdicts) (h : List Entry) : Prop where
  answering : ∀ p ∈ s.answering, p.2 = .approve → ∀ id ∈ p.1, Approved id h
  answered : ∀ id, (id, Decision.approve) ∈ answers h → Approved id h

theorem traced_take (ht : Traced s h) {queue : PairingQueue} {out : List (Nat × PairingRequest)}
    {decision : Decision} {e : Entry} (hdone : e.reply = .done)
    (hout : decision = .approve → ∀ p ∈ out, Approved p.1 (h ++ [e])) :
    Traced (s.take queue out decision) (h ++ [e]) := by
  refine ⟨fun p hp hd id hid => ?_, fun id hid => ?_⟩
  · rcases List.mem_append.mp hp with hold | hnew
    · exact (ht.answering p hold hd id hid).snoc e
    · obtain rfl := List.mem_singleton.mp hnew
      obtain ⟨p, hp, rfl⟩ := List.mem_map.mp hid
      exact hout hd p hp
  · rw [answers_snoc] at hid
    have hnone : answer? e = none := by simp [answer?, hdone]
    rw [hnone, Option.toList_none, List.append_nil] at hid
    exact (ht.answered id hid).snoc e

theorem traced_step (ht : Traced s h) (c : Call) :
    Traced (s.step c).1 (h ++ [⟨s, c, (s.step c).2⟩]) := by
  have hquiet (s' : Verdicts) (reply : Reply) (hsub : ∀ p ∈ s'.answering, p ∈ s.answering)
      (hreply : ∀ id decision, reply ≠ .answered id decision) :
      Traced s' (h ++ [⟨s, c, reply⟩]) := by
    refine ⟨fun p hp hd id hid => (ht.answering p (hsub p hp) hd id hid).snoc _, fun id hid => ?_⟩
    have hnone : answer? (⟨s, c, reply⟩ : Entry) = none := by
      unfold answer?
      split
      · next id decision he => exact absurd he (hreply id decision)
      · rfl
    rw [answers_snoc, hnone, Option.toList_none, List.append_nil] at hid
    exact (ht.answered id hid).snoc _
  cases c with
  | submit | touch => exact hquiet _ _ (fun _ hp => hp) (by simp [step])
  | resolve client decision =>
    refine traced_take ht rfl fun hd p hp => ?_
    obtain ⟨hmem, hclient⟩ := List.mem_filter.mp hp
    refine ⟨⟨s, .resolve client decision, _⟩, List.mem_append_right _ (List.mem_singleton_self _),
      client, p.2, ?_, hmem, by simpa using hclient⟩
    rw [hd]
  | expire | cancel => exact traced_take ht rfl (by simp)
  | notify i =>
    unfold step
    dsimp only
    split
    · exact hquiet s _ (fun _ hp => hp) (by simp)
    · exact hquiet _ _ (fun _ hp => (List.eraseIdx_sublist _ _).subset hp) (by simp)
    · next id ids decision hi =>
      have hmem : (id :: ids, decision) ∈ s.answering := List.mem_of_getElem? hi
      refine ⟨fun p hp hd id' hid => ?_, fun id' hid => ?_⟩
      · rcases List.mem_or_eq_of_mem_set hp with hold | rfl
        · exact (ht.answering p hold hd id' hid).snoc _
        · exact (ht.answering _ hmem hd id' (List.mem_cons_of_mem _ hid)).snoc _
      · rw [answers_snoc] at hid
        rcases List.mem_append.mp hid with hold | hnew
        · exact (ht.answered id' hold).snoc _
        · obtain ⟨rfl, hd⟩ : id' = id ∧ Decision.approve = decision := by simpa [answer?] using hnew
          exact (ht.answering _ hmem hd.symm id' List.mem_cons_self).snoc _

/-! ## Every run -/

/-- Where one request stands: in the queue, in the hands of a call, or
answered once. -/
inductive Stands (s : Verdicts) (h : List Entry) (id : Nat) : Prop where
  | queued (hqueued : id ∈ s.queued) (htaken : id ∉ s.taken) (hnone : verdicts id h = [])
  | taken (hqueued : id ∉ s.queued) (htaken : id ∈ s.taken) (hnone : verdicts id h = [])
  | answered (hqueued : id ∉ s.queued) (htaken : id ∉ s.taken) (decision : Decision)
      (hone : verdicts id h = [decision])

theorem length_verdicts (id : Nat) (h : List Entry) :
    (verdicts id h).length = ((answers h).map Prod.fst).count id := by
  unfold verdicts
  rw [List.length_map, List.count_eq_countP, List.countP_map, List.countP_eq_length_filter]
  rfl

theorem Accounted.stands (ha : Accounted s h) {id : Nat} (hid : Submitted id h) :
    Stands s h id := by
  have hcount := ha.perm.count_eq id
  have hone : (List.range s.queue.nextId).count id = 1 :=
    List.count_eq_one_of_mem List.nodup_range (List.mem_range.mpr ((ha.submitted id).mp hid))
  rw [hone, List.count_append, List.count_append, ← length_verdicts] at hcount
  by_cases hqueued : id ∈ s.queued
  · have hpos := List.count_pos_iff.mpr hqueued
    refine .queued hqueued (List.count_eq_zero.mp (by omega)) ?_
    exact List.length_eq_zero_iff.mp (by omega)
  · have hzero := List.count_eq_zero.mpr hqueued
    by_cases htaken : id ∈ s.taken
    · have hpos := List.count_pos_iff.mpr htaken
      exact .taken hqueued htaken (List.length_eq_zero_iff.mp (by omega))
    · have hzero' := List.count_eq_zero.mpr htaken
      obtain ⟨decision, hd⟩ := List.length_eq_one_iff.mp (show (verdicts id h).length = 1 by omega)
      exact .answered hqueued htaken decision hd

/-- **Every request is answered exactly once.** In every run, whatever the
calls and their order, each request that was submitted is in the queue with
no verdict, or was taken out by a call that is yet to answer it, or is gone
and was given exactly one; with no such call in progress it is one of the
first and the last. A verdict is an approval only where a person approved
that client while that request was queued. -/
theorem answered_run (calls : List Call) :
    let r := Trace.run step {} calls
    (∀ id, Submitted id r.2 → Stands r.1 r.2 id) ∧
      (r.1.answering = [] → ∀ id, Submitted id r.2 →
        id ∈ r.1.queued ∧ verdicts id r.2 = [] ∨
          id ∉ r.1.queued ∧ ∃ decision, verdicts id r.2 = [decision]) ∧
      ∀ id, .approve ∈ verdicts id r.2 → Approved id r.2 := by
  intro r
  have hinv : Accounted r.1 r.2 ∧ Traced r.1 r.2 :=
    Trace.run_invariant (I := fun s h => Accounted s h ∧ Traced s h)
      ⟨⟨List.Perm.refl _, fun id => by simp [Submitted]⟩, ⟨by simp, by simp [answers]⟩⟩
      (fun s h c ⟨ha, ht⟩ => ⟨accounted_step ha c, traced_step ht c⟩) calls
  obtain ⟨ha, ht⟩ := hinv
  refine ⟨fun id hid => ha.stands hid, fun hnone id hid => ?_, fun id hid => ?_⟩
  · have hempty : id ∉ r.1.taken := by simp [taken, hnone]
    cases ha.stands hid with
    | queued hqueued _ hverdicts => exact .inl ⟨hqueued, hverdicts⟩
    | taken _ htaken => exact absurd htaken hempty
    | answered hqueued _ decision hone => exact .inr ⟨hqueued, decision, hone⟩
  · obtain ⟨p, hp, hd⟩ := List.mem_map.mp hid
    obtain ⟨hmem, hp'⟩ := List.mem_filter.mp hp
    refine ht.answered id ?_
    have heq : p = (id, .approve) := Prod.ext (by simpa using hp') hd
    rw [← heq]
    exact hmem

/-- A device asking at the start of the clock. -/
def knock : PairingRequest :=
  { client := ⟨Vector.replicate 32 7⟩, label := [], code := [], remote := [], requestedAt := 0 }

/-- A person approves the only request: it is taken out of the queue, and
the call that took it has yet to say so. -/
theorem not_answered_taken :
    let r := Trace.run step {} [.submit knock, .resolve knock.client .approve]
    Submitted 0 r.2 ∧ 0 ∉ r.1.queued ∧ verdicts 0 r.2 = [] := by
  refine ⟨⟨_, List.mem_cons_self, rfl⟩, by decide, by decide⟩

end Verdicts

end Zesterm
