/-
Zesterm.Mcp.ClearTheorems — whose answer a call returns.

A call returns its own answer as long as no other answer is written to the
slot it waits on while it waits. That is a condition on the moment it
begins (`Clear`): no request that is still unanswered is answered where it
waits, nothing on its way back is written there, no other call that still
waits does so where its own answer is written, and an attach finds no
replica. Under it every answer returned is the call's own (`answers_own`);
without it one is not (`late_answer_taken`).
-/
import Zesterm.Mcp.AnswerTheorems

namespace Zesterm.Mcp

variable {K : ReplicaKind}

/-! ## Calls in progress -/

/-- The counter a call in progress took note of. -/
def Phase.noted : Phase → Option UInt64
  | .begun seen | .waiting seen => some seen
  | _ => none

namespace World

variable {w : World K} {session : SessionAddr}

/-- The call that began as the `i`th. -/
def callOf (w : World K) (i : Nat) : Option Call := w.tasks[i]?.map Task.call

def Waits (w : World K) (i : Nat) (call : Call) (seen : UInt64) : Prop :=
  ∃ phase, w.tasks[i]? = some ⟨call, phase⟩ ∧ phase.noted = some seen

/-- The daemon has yet to answer a call. -/
def Unanswered (w : World K) (i : Nat) (call : Call) : Prop :=
  (∃ seen, w.tasks[i]? = some ⟨call, .begun seen⟩) ∨ (some i, call.message) ∈ w.toDaemon

/-- Every attach of a session that waits has been sent its keyframe. -/
def Shown (w : World K) (sent : List (Option Nat × HostMessage K)) (session : SessionAddr) : Prop :=
  ∀ i call seen, w.Waits i call seen → call.waitsOn = .session session →
    ∃ frame, (some i, .keyframe session frame) ∈ sent

/-- What a daemon does: it answers every message, and speaks unasked of
sessions alone. Only calls are in play. -/
def Answering (w : World K) : Move K → Prop
  | .handle answer =>
    ∀ id c rest, w.toDaemon = (id, c) :: rest → ∃ m, answer = some m ∧ Fits c m
  | .say m => m.Unasked
  | .detach _ => False
  | _ => True

/-- A call begins when nothing is on its way to what it waits on, and waits
on nothing another waits for. -/
structure Clear (w : World K) (call : Call) : Prop where
  answered : ∀ i other, w.Unanswered i other → call.waitsOn ∉ other.answers
  quiet : ∀ p ∈ w.toConn, call.waitsOn ∉ p.2.writes
  alone : ∀ i other seen, w.Waits i other seen → other.waitsOn ∉ call.answers
  fresh : ∀ session, call.waitsOn = .session session → (w.shared.replica session).isSome = false

/-- The moves that are clear of other calls. -/
def ClearMove (w : World K) : Move K → Prop
  | .begin call => w.Clear call
  | .say (.keyframe session _) => w.Shown (w.delivered ++ w.toConn) session
  | _ => True

/-- The daemon's answer to a call was delivered, and this is what it says. -/
def Found (w : World K) (i : Nat) (call : Call) (r : Except Str Answer) : Prop :=
  ∃ m, (some i, m) ∈ w.delivered ∧ Fits call.message m ∧ outcome call m = some r

/-- What a call returned is what the daemon's answer to that very call
says. -/
def Own (w : World K) : Prop :=
  ∀ i call result, w.tasks[i]? = some ⟨call, .done result⟩ →
    (∀ answer, result = .ok answer → w.Found i call (.ok answer)) ∧
    (∀ message, result = .error (.refused message) → w.Found i call (.error message))

/-- A message with no call of its own is of a session, and finds it attached
to. -/
def Harmless (w : World K) (before : List (Option Nat × HostMessage K)) (m : HostMessage K) : Prop :=
  ∀ σ ∈ m.writes, ∃ session, σ = .session session ∧ w.Shown (w.delivered ++ before) session ∧
    ((w.shared.replica session).isSome = true ∨ ∃ frame, m = .keyframe session frame)

/-- What holds of a connection whose calls keep clear of each other. -/
structure Answered (w : World K) : Prop where
  asked : ∀ i c, (some i, c) ∈ w.toDaemon → ∃ call, w.callOf i = some call ∧ c = call.message
  answered : ∀ i m, (some i, m) ∈ w.toConn →
    ∃ call, w.callOf i = some call ∧ Fits call.message m
  recovers : ∀ c, (none, c) ∈ w.toDaemon →
    ∃ session, c = .requestKeyframe session ∧ (w.shared.replica session).isSome = true
  recovered : ∀ before m after, w.toConn = before ++ (none, m) :: after → w.Harmless before m
  alone : ∀ i call seen, w.Waits i call seen → ∀ j ≠ i,
    (∀ other, w.Unanswered j other → call.waitsOn ∉ other.answers) ∧
      ∀ m, (some j, m) ∈ w.toConn → call.waitsOn ∉ m.writes
  sound : ∀ i call seen r, w.Waits i call seen → call.ready w.shared seen = some r →
    w.Found i call r
  failing : ∀ i call message, w.tasks[i]? = some ⟨call, .failing (.refused message)⟩ →
    w.Found i call (.error message)
  own : w.Own

theorem answered_init : ({} : World K).Answered where
  asked := fun i c h => absurd h List.not_mem_nil
  answered := fun i m h => absurd h List.not_mem_nil
  recovers := fun c h => absurd h List.not_mem_nil
  recovered := fun before m after h => by simp at h
  alone := fun i call seen h => by obtain ⟨phase, h, -⟩ := h; simp at h
  sound := fun i call seen r h => by obtain ⟨phase, h, -⟩ := h; simp at h
  failing := fun i call message h => by simp at h
  own := fun i call result h => by simp at h

/-! ## One move -/

theorem found_mono {w' : World K} {i : Nat} {call : Call} {r : Except Str Answer}
    (hsub : w.delivered ⊆ w'.delivered) (h : w.Found i call r) : w'.Found i call r := by
  obtain ⟨m, hm, hfits, hout⟩ := h
  exact ⟨m, hsub hm, hfits, hout⟩

/-- An attach that found its session attached to was sent its keyframe. -/
theorem keyframe_of_found {i : Nat} {call : Call} (h : w.Found i call (.ok .attached))
    (hcall : call.waitsOn = .session session) :
    ∃ frame, (some i, .keyframe session frame) ∈ w.delivered := by
  obtain ⟨m, hm, hfits, hout⟩ := h
  cases call with
  | attach session' cols rows observe =>
    obtain rfl := Slot.session.inj hcall
    cases hfits with
    | attached _ _ _ _ frame => exact ⟨frame, hm⟩
    | _ => exact absurd hout (by simp [outcome])
  | _ => exact absurd hcall (by simp [Call.waitsOn])

/-- With a replica of a session, every attach of it that waits was sent its
keyframe. -/
theorem shown_of_replica (h : w.Answered) (hreplica : (w.shared.replica session).isSome = true)
    (before : List (Option Nat × HostMessage K)) : w.Shown (w.delivered ++ before) session := by
  intro i call seen hwaits hcall
  have hready : call.ready w.shared seen = some (.ok .attached) := by
    cases call with
    | attach session' cols rows observe =>
      obtain rfl := Slot.session.inj hcall
      exact Call.ready_attach_of_replica seen cols rows observe hreplica
    | _ => exact absurd hcall (by simp [Call.waitsOn])
  obtain ⟨frame, hframe⟩ := keyframe_of_found (h.sound i call seen _ hwaits hready) hcall
  exact ⟨frame, List.mem_append_left _ hframe⟩

theorem shown_mono {w' : World K} {sent sent' : List (Option Nat × HostMessage K)}
    (hwaits : ∀ i call seen, w'.Waits i call seen → w.Waits i call seen) (hsub : sent ⊆ sent')
    (h : w.Shown sent session) : w'.Shown sent' session := by
  intro i call seen hw hcall
  obtain ⟨frame, hframe⟩ := h i call seen (hwaits i call seen hw) hcall
  exact ⟨frame, hsub hframe⟩

/-- A move that brings no new call and no new answer. -/
theorem Answered.frame {w' : World K} (h : w.Answered) (hcalls : ∀ i, w'.callOf i = w.callOf i)
    (hwaits : ∀ i call seen, w'.Waits i call seen → w.Waits i call seen)
    (hunanswered : ∀ i call, w'.Unanswered i call → w.Unanswered i call)
    (hready : ∀ (call : Call) seen, call.ready w'.shared seen = call.ready w.shared seen)
    (hreplica : ∀ session, w'.shared.replica session = w.shared.replica session)
    (hasked : ∀ p ∈ w'.toDaemon, p ∈ w.toDaemon ∨
      ∃ i call, w.callOf i = some call ∧ p = (some i, call.message)) (hconn : w'.toConn = w.toConn)
    (hdelivered : w'.delivered = w.delivered)
    (hfailing : ∀ i call message, w'.tasks[i]? = some ⟨call, .failing (.refused message)⟩ →
      w'.Found i call (.error message)) (hown : w'.Own) : w'.Answered where
  asked := by
    intro i c hc
    rw [hcalls]
    obtain hc | ⟨j, call, hcall, heq⟩ := hasked _ hc
    · exact h.asked i c hc
    · obtain ⟨hij, rfl⟩ := Prod.mk.inj heq
      obtain rfl := Option.some.inj hij
      exact ⟨call, hcall, rfl⟩
  answered := by
    intro i m hm
    rw [hcalls]
    exact h.answered i m (hconn ▸ hm)
  recovers := by
    intro c hc
    obtain hc | ⟨j, call, hcall, heq⟩ := hasked _ hc
    · obtain ⟨session, hsession, hrep⟩ := h.recovers c hc
      exact ⟨session, hsession, by rw [hreplica]; exact hrep⟩
    · exact absurd (Prod.mk.inj heq).1 (by simp)
  recovered := by
    intro before m after hsplit σ hσ
    obtain ⟨session, hsession, hshown, hkind⟩ := h.recovered before m after (hconn ▸ hsplit) σ hσ
    refine ⟨session, hsession, shown_mono hwaits ?_ hshown, by rw [hreplica]; exact hkind⟩
    rw [hdelivered]
    exact List.Subset.refl _
  alone := by
    intro i call seen hw j hj
    obtain ⟨hother, hsent⟩ := h.alone i call seen (hwaits i call seen hw) j hj
    exact ⟨fun other hu => hother other (hunanswered j other hu),
      fun m hm => hsent m (hconn ▸ hm)⟩
  sound := by
    intro i call seen r hw hr
    rw [hready] at hr
    exact found_mono (by rw [hdelivered]; exact List.Subset.refl _)
      (h.sound i call seen r (hwaits i call seen hw) hr)
  failing := hfailing
  own := hown

theorem getElem?_set_of_some {l : List Task} {i : Nat} {t : Task} (h : l[i]? = some t) (t' : Task)
    (j : Nat) : (l.set i t')[j]? = if j = i then some t' else l[j]? := by
  obtain ⟨hlt, -⟩ := List.getElem?_eq_some_iff.1 h
  by_cases hj : j = i
  · rw [if_pos hj, hj, List.getElem?_set_self hlt]
  · rw [if_neg hj, List.getElem?_set_ne (Ne.symm hj)]

section Turn

variable {w w' : World K} {i : Nat} {call : Call} {p q : Phase}

theorem callOf_set (hi : w.tasks[i]? = some ⟨call, p⟩) (hset : w'.tasks = w.tasks.set i ⟨call, q⟩)
    (j : Nat) : w'.callOf j = w.callOf j := by
  rw [callOf, callOf, hset, getElem?_set_of_some hi]
  split
  · next hj => rw [hj, hi]; rfl
  · rfl

theorem waits_of_set (hi : w.tasks[i]? = some ⟨call, p⟩)
    (hset : w'.tasks = w.tasks.set i ⟨call, q⟩) (hq : ∀ seen, q.noted = some seen → p.noted = some seen)
    (j : Nat) (other : Call) (seen : UInt64) (h : w'.Waits j other seen) : w.Waits j other seen := by
  obtain ⟨phase, hj, hseen⟩ := h
  rw [hset, getElem?_set_of_some hi] at hj
  split at hj
  · next hji =>
    obtain ⟨rfl, rfl⟩ := Task.mk.inj (Option.some.inj hj)
    exact ⟨p, hji ▸ hi, hq seen hseen⟩
  · exact ⟨phase, hj, hseen⟩

theorem task_of_set (hi : w.tasks[i]? = some ⟨call, p⟩)
    (hset : w'.tasks = w.tasks.set i ⟨call, q⟩) {j : Nat} {other : Call} {phase : Phase}
    (h : w'.tasks[j]? = some ⟨other, phase⟩) :
    (j = i ∧ other = call ∧ phase = q) ∨ w.tasks[j]? = some ⟨other, phase⟩ := by
  rw [hset, getElem?_set_of_some hi] at h
  split at h
  · next hji =>
    obtain ⟨rfl, rfl⟩ := Task.mk.inj (Option.some.inj h)
    exact .inl ⟨hji, rfl, rfl⟩
  · exact .inr h

/-- A call that is over, or about to be, with what it found. -/
theorem Answered.settled (h : w.Answered) (hi : w.tasks[i]? = some ⟨call, p⟩)
    (hset : w'.tasks = w.tasks.set i ⟨call, q⟩) (hq : q.noted = none)
    (hready : ∀ (call : Call) seen, call.ready w'.shared seen = call.ready w.shared seen)
    (hreplica : ∀ session, w'.shared.replica session = w.shared.replica session)
    (htoDaemon : w'.toDaemon = w.toDaemon) (htoConn : w'.toConn = w.toConn)
    (hdelivered : w'.delivered = w.delivered)
    (hfailing : ∀ message, q = .failing (.refused message) → w.Found i call (.error message))
    (hok : ∀ answer, q = .done (.ok answer) → w.Found i call (.ok answer))
    (hrefused : ∀ message, q = .done (.error (.refused message)) →
      w.Found i call (.error message)) : w'.Answered := by
  have hmono : ∀ {j : Nat} {other : Call} {r : Except Str Answer}, w.Found j other r →
      w'.Found j other r := found_mono (by rw [hdelivered]; exact List.Subset.refl _)
  refine h.frame (callOf_set hi hset) (waits_of_set hi hset (by simp [hq])) ?_ hready hreplica
    (fun p hp => .inl (htoDaemon ▸ hp)) htoConn hdelivered ?_ ?_
  · rintro j other (⟨seen, hj⟩ | hj)
    · obtain ⟨-, -, rfl⟩ | hj := task_of_set hi hset hj
      · exact absurd hq (by simp [Phase.noted])
      · exact .inl ⟨seen, hj⟩
    · exact .inr (htoDaemon ▸ hj)
  · intro j other message hj
    obtain ⟨rfl, rfl, hphase⟩ | hj := task_of_set hi hset hj
    · exact hmono (hfailing message hphase.symm)
    · exact hmono (h.failing j other message hj)
  · intro j other result hj
    obtain ⟨rfl, rfl, rfl⟩ | hj := task_of_set hi hset hj
    · exact ⟨fun answer heq => hmono (hok answer (by rw [heq])),
        fun message heq => hmono (hrefused message (by rw [heq]))⟩
    · obtain ⟨hown, hown'⟩ := h.own j other result hj
      exact ⟨fun answer heq => hmono (hown answer heq), fun message heq => hmono (hown' message heq)⟩

end Turn

variable {w : World K} {call : Call} {seen : UInt64} {m : HostMessage K}

/-- How a wait ends, or does not: with what the call found, with a refusal it
found, or with nothing found on a link that closed or at the deadline. -/
theorem wake_cases (w : World K) (i : Nat) (call : Call) (seen : UInt64) (late : Bool) :
    w.wake i ⟨call, .waiting seen⟩ seen late = w ∨
      (∃ answer, call.ready w.shared seen = some (.ok answer) ∧
        w.wake i ⟨call, .waiting seen⟩ seen late =
          { w with tasks := w.tasks.set i ⟨call, .done (.ok answer)⟩ }) ∨
      ∃ e, ((∃ message, call.ready w.shared seen = some (.error message) ∧ e = .refused message) ∨
          (call.ready w.shared seen = none ∧ (w.shared.closed = true ∨ late = true) ∧
            ∀ message, e ≠ .refused message)) ∧
        w.wake i ⟨call, .waiting seen⟩ seen late =
          { w with
            tasks := w.tasks.set i
              ⟨call, if call.wants.isSome then .failing e else .done (.error e)⟩ } := by
  have hsettle : ∀ e : ConnError, w.settle i ⟨call, .waiting seen⟩ (.error e) =
      { w with
        tasks := w.tasks.set i
          ⟨call, if call.wants.isSome then .failing e else .done (.error e)⟩ } := by
    intro e
    rw [settle]
    cases call.wants <;> rfl
  rw [wake]
  split
  · next answer hr => exact .inr (.inl ⟨answer, hr, rfl⟩)
  · next message hr => exact .inr (.inr ⟨_, .inl ⟨message, hr, rfl⟩, hsettle _⟩)
  · next hr =>
    split
    · next hclosed => exact .inr (.inr ⟨_, .inr ⟨hr, .inl hclosed, by simp⟩, hsettle _⟩)
    · split
      · next hlate => exact .inr (.inr ⟨_, .inr ⟨hr, .inr hlate, by simp⟩, hsettle _⟩)
      · exact .inl rfl

theorem answered_wake (h : w.Answered) {i : Nat} (hi : w.tasks[i]? = some ⟨call, .waiting seen⟩)
    (late : Bool) : (w.wake i ⟨call, .waiting seen⟩ seen late).Answered := by
  have hfound : ∀ r, call.ready w.shared seen = some r → w.Found i call r :=
    fun r hr => h.sound i call seen r ⟨_, hi, rfl⟩ hr
  obtain heq | ⟨answer, hr, heq⟩ | ⟨e, he, heq⟩ := w.wake_cases i call seen late
  · rw [heq]
    exact h
  · rw [heq]
    refine h.settled (q := .done (.ok answer)) hi rfl rfl (fun _ _ => rfl) (fun _ => rfl) rfl rfl rfl
      (by simp) (fun answer' hdone => ?_) (by simp)
    obtain rfl := Except.ok.inj (Phase.done.inj hdone)
    exact hfound _ hr
  · rw [heq]
    -- An error that is a refusal was found.
    have hrefused : ∀ message, e = .refused message → w.Found i call (.error message) := by
      rintro message rfl
      obtain ⟨message', hr, hmessage⟩ | ⟨-, -, hne⟩ := he
      · obtain rfl := ConnError.refused.inj hmessage
        exact hfound _ hr
      · exact absurd rfl (hne message)
    split
    · exact h.settled (q := .failing e) hi rfl rfl (fun _ _ => rfl) (fun _ => rfl) rfl rfl rfl
        (fun message hfail => hrefused message (Phase.failing.inj hfail)) (by simp) (by simp)
    · refine h.settled (q := .done (.error e)) hi rfl rfl (fun _ _ => rfl) (fun _ => rfl) rfl rfl rfl
        (by simp) (by simp) fun message hdone => ?_
      exact hrefused message (Except.error.inj (Phase.done.inj hdone))

theorem answered_send (h : w.Answered) {i : Nat} (hi : w.tasks[i]? = some ⟨call, .begun seen⟩) :
    ({ w with
        tasks := w.tasks.set i { call := call, phase := .waiting seen }
        toDaemon := w.toDaemon ++ [(some i, call.message)] } : World K).Answered := by
  refine h.frame (callOf_set hi rfl) (waits_of_set hi rfl fun _ hseen => hseen) ?_
    (fun _ _ => rfl) (fun _ => rfl) ?_ rfl rfl ?_ ?_
  · rintro j other (⟨seen', hj⟩ | hj)
    · obtain ⟨-, -, hphase⟩ | hj := task_of_set hi rfl hj
      · exact absurd hphase (by simp)
      · exact .inl ⟨seen', hj⟩
    · obtain hj | hj := List.mem_append.1 hj
      · exact .inr hj
      · -- Two calls that send the same are the same.
        obtain ⟨hij, hmessage⟩ := Prod.mk.inj (List.mem_singleton.1 hj)
        obtain rfl := Option.some.inj hij
        have hcall : other = call := by
          cases other <;> cases call <;> simp_all [Call.message]
        exact .inl ⟨seen, hcall ▸ hi⟩
  · intro p hp
    obtain hp | hp := List.mem_append.1 hp
    · exact .inl hp
    · exact .inr ⟨i, call, by rw [callOf, hi]; rfl, List.mem_singleton.1 hp⟩
  · intro j other message hj
    obtain ⟨-, -, hphase⟩ | hj := task_of_set hi rfl hj
    · exact absurd hphase (by simp)
    · exact h.failing j other message hj
  · intro j other result hj
    obtain ⟨-, -, hphase⟩ | hj := task_of_set hi rfl hj
    · exact absurd hphase (by simp)
    · exact h.own j other result hj

/-- To unwant a session, and to close, changes nothing a call looks at. -/
theorem answered_unwant (h : w.Answered) {i : Nat} {e : ConnError}
    (hi : w.tasks[i]? = some ⟨call, .failing e⟩) : (w.move (.unwant i)).Answered := by
  rw [move, hi]
  refine h.settled (q := .done (.error e)) hi rfl rfl ?_ ?_ rfl rfl rfl (by simp) (by simp)
    (fun message heq => ?_)
  · intro other seen
    dsimp only
    cases call.wants <;> cases other <;> rfl
  · intro session
    dsimp only
    cases call.wants <;> rfl
  · obtain rfl := Except.error.inj (Phase.done.inj heq)
    exact h.failing i call message hi

theorem answered_close (h : w.Answered) : (w.move .close).Answered :=
  h.frame (fun _ => rfl) (fun _ _ _ hw => hw) (fun _ _ hu => hu)
    (fun call seen => by cases call <;> rfl) (fun _ => rfl) (fun _ hp => .inl hp) rfl rfl
    h.failing h.own

theorem split_snoc {α : Type*} {l before after : List α} {x e : α}
    (h : l ++ [x] = before ++ e :: after) :
    (before = l ∧ e = x) ∨ ∃ after', l = before ++ e :: after' := by
  rcases List.eq_nil_or_concat after with rfl | ⟨after, y, rfl⟩
  · obtain ⟨rfl, hx⟩ := List.append_inj' h rfl
    exact .inl ⟨rfl, (List.cons.inj hx).1.symm⟩
  · rw [List.concat_eq_append, ← List.cons_append, ← List.append_assoc] at h
    exact .inr ⟨after, (List.append_inj' h rfl).1⟩

/-- One more message on its way back. -/
theorem Answered.sent {w' : World K} (h : w.Answered) {n : Option Nat} (htasks : w'.tasks = w.tasks)
    (hshared : w'.shared = w.shared) (hdelivered : w'.delivered = w.delivered)
    (htoDaemon : w'.toDaemon ⊆ w.toDaemon) (htoConn : w'.toConn = w.toConn ++ [(n, m)])
    (hown : ∀ i, n = some i → ∃ call, w.callOf i = some call ∧ Fits call.message m)
    (hnone : n = none → w.Harmless w.toConn m)
    (halone : ∀ i call seen, w.Waits i call seen → ∀ j ≠ i, n = some j → call.waitsOn ∉ m.writes) :
    w'.Answered := by
  have hcalls : ∀ i, w'.callOf i = w.callOf i := fun i => by rw [callOf, htasks, callOf]
  have hwaits : ∀ i call seen, w'.Waits i call seen → w.Waits i call seen := by
    rintro i call seen ⟨phase, hi, hseen⟩
    exact ⟨phase, htasks ▸ hi, hseen⟩
  have hshown : ∀ {before session}, w.Shown (w.delivered ++ before) session →
      w'.Shown (w'.delivered ++ before) session :=
    fun h => shown_mono hwaits (by rw [hdelivered]; exact List.Subset.refl _) h
  have hharmless : ∀ {before m}, w.Harmless before m → w'.Harmless before m := by
    intro before m hm σ hσ
    obtain ⟨session, hsession, hs, hkind⟩ := hm σ hσ
    exact ⟨session, hsession, hshown hs, by rw [hshared]; exact hkind⟩
  constructor
  case asked => exact fun i c hc => hcalls i ▸ h.asked i c (htoDaemon hc)
  case answered =>
    intro i m' hm'
    rw [hcalls]
    rw [htoConn] at hm'
    obtain hm' | hm' := List.mem_append.1 hm'
    · exact h.answered i m' hm'
    · obtain ⟨hid, rfl⟩ := Prod.mk.inj (List.mem_singleton.1 hm')
      exact hown i hid.symm
  case recovers => exact fun c hc => hshared ▸ h.recovers c (htoDaemon hc)
  case recovered =>
    intro before m' after hsplit
    obtain ⟨rfl, heq⟩ | ⟨after', hold⟩ := split_snoc (htoConn ▸ hsplit)
    · obtain ⟨hid, rfl⟩ := Prod.mk.inj heq
      exact hharmless (hnone hid.symm)
    · exact hharmless (h.recovered before m' after' hold)
  case alone =>
    intro i call seen hw j hj
    obtain ⟨hother, hsent⟩ := h.alone i call seen (hwaits i call seen hw) j hj
    refine ⟨?_, ?_⟩
    · rintro other (⟨seen', hj'⟩ | hj')
      · exact hother other (.inl ⟨seen', htasks ▸ hj'⟩)
      · exact hother other (.inr (htoDaemon hj'))
    · intro m' hm'
      rw [htoConn] at hm'
      obtain hm' | hm' := List.mem_append.1 hm'
      · exact hsent m' hm'
      · obtain ⟨hid, rfl⟩ := Prod.mk.inj (List.mem_singleton.1 hm')
        exact halone i call seen (hwaits i call seen hw) j hj hid.symm
  case sound =>
    intro i call seen r hw hr
    rw [hshared] at hr
    exact found_mono (by rw [hdelivered]; exact List.Subset.refl _)
      (h.sound i call seen r (hwaits i call seen hw) hr)
  case failing =>
    intro i call message hi
    exact found_mono (by rw [hdelivered]; exact List.Subset.refl _)
      (h.failing i call message (htasks ▸ hi))
  case own =>
    intro i call result hi
    obtain ⟨hok, hrefused⟩ := h.own i call result (htasks ▸ hi)
    exact ⟨fun answer heq => found_mono (by rw [hdelivered]; exact List.Subset.refl _) (hok answer heq),
      fun message heq =>
        found_mono (by rw [hdelivered]; exact List.Subset.refl _) (hrefused message heq)⟩

theorem answered_handle (h : w.Answered) {id : Option Nat} {c : ClientMessage}
    {rest : List (Option Nat × ClientMessage)} (hto : w.toDaemon = (id, c) :: rest)
    (hfits : Fits c m) : (w.move (.handle (some m))).Answered := by
  have hmem : (id, c) ∈ w.toDaemon := hto ▸ List.mem_cons_self
  have hsub : rest ⊆ w.toDaemon := by
    rw [hto]
    exact List.subset_cons_self _ _
  rw [move, hto]
  refine h.sent (n := id) (m := m) rfl rfl rfl hsub rfl ?_ ?_ ?_
  · rintro i rfl
    obtain ⟨call, hcall, rfl⟩ := h.asked i c hmem
    exact ⟨call, hcall, hfits⟩
  · rintro rfl σ hσ
    obtain ⟨session, rfl, hreplica⟩ := h.recovers c hmem
    refine ⟨session, ?_, shown_of_replica h hreplica _, .inl hreplica⟩
    cases hfits with
    | recovered | lost => exact List.mem_singleton.1 hσ
    | refused => exact absurd hσ List.not_mem_nil
  · rintro i call seen hw j hj rfl
    obtain ⟨other, hother, rfl⟩ := h.asked j c hmem
    exact fun hwrites => (h.alone i call seen hw j hj).1 other (.inr hmem)
      (mem_answers_of_fits hfits hwrites)

theorem answered_say (h : w.Answered) (hm : m.Unasked) (hclear : w.ClearMove (.say m)) :
    (w.move (.say m)).Answered := by
  refine h.sent (n := none) (m := m) rfl rfl rfl (List.Subset.refl _) rfl (by simp) ?_ (by simp)
  rintro - σ hσ
  cases hm with
  | keyframe session frame =>
    exact ⟨session, List.mem_singleton.1 hσ, hclear, .inr ⟨frame, rfl⟩⟩
  | _ => exact absurd hσ List.not_mem_nil

/-- A message with no call of its own makes no attach ready with another
answer than its own. -/
theorem found_of_harmless (h : w.Answered) {i : Nat} {r : Except Str Answer} (hm : w.Harmless [] m)
    (hw : w.Waits i call seen) (hwrites : call.waitsOn ∈ m.writes)
    (hr : call.ready (w.shared.onMessage m).1 seen = some r) : w.Found i call r := by
  obtain ⟨session, hsession, hshown, hkind⟩ := hm _ hwrites
  obtain ⟨frame, hframe⟩ := hshown i call seen hw hsession
  rw [List.append_nil] at hframe
  cases call with
  | attach session' cols rows observe =>
    obtain rfl := Slot.session.inj hsession
    have hown : ∀ r, r = .ok .attached → w.Found i (.attach session' cols rows observe) r := by
      rintro r rfl
      exact ⟨_, hframe, .attached session' cols rows observe frame, rfl⟩
    obtain hreplica | ⟨frame', rfl⟩ := hkind
    · rw [Call.ready_attach_of_replica seen cols rows observe
        (w.shared.isSome_onMessage m session' hreplica)] at hr
      exact hown r (Option.some.inj hr).symm
    · have hfits : Fits (Call.attach session' cols rows observe).message
          (.keyframe session' frame') := .attached session' cols rows observe frame'
      obtain hout | hbefore := Call.outcome_of_ready hfits hr
      · exact hown r (Option.some.inj hout).symm
      · exact h.sound i _ seen r hw hbefore
  | _ => exact absurd hsession (by simp [Call.waitsOn])

theorem answered_deliver (h : w.Answered) : (w.move .deliver).Answered := by
  rw [move]
  split
  · exact h
  · next id m rest hto =>
    split
    · exact h
    · have hmem : (id, m) ∈ w.toConn := hto ▸ List.mem_cons_self
      have hsub : rest ⊆ w.toConn := by
        rw [hto]
        exact List.subset_cons_self _ _
      have hdelivered : w.delivered ⊆ w.delivered ++ [(id, m)] := List.subset_append_left _ _
      constructor
      case asked =>
        intro i c hc
        obtain hc | hc := List.mem_append.1 hc
        · exact h.asked i c hc
        · simp at hc
      case answered => exact fun i m' hm' => h.answered i m' (hsub hm')
      case recovers =>
        intro c hc
        obtain hc | hc := List.mem_append.1 hc
        · obtain ⟨session, hsession, hreplica⟩ := h.recovers c hc
          exact ⟨session, hsession, w.shared.isSome_onMessage m session hreplica⟩
        · obtain ⟨c', hc', heq⟩ := List.mem_map.1 hc
          obtain rfl := (Prod.mk.inj heq).2
          obtain ⟨session, hsession, hreplica⟩ := Shared.mem_asks_onMessage hc'
          exact ⟨session, hsession, w.shared.isSome_onMessage m session hreplica⟩
      case recovered =>
        rintro before m' after rfl σ hσ
        obtain ⟨session, hsession, hshown, hkind⟩ :=
          h.recovered ((id, m) :: before) m' after hto σ hσ
        refine ⟨session, hsession, shown_mono (fun _ _ _ hw => hw) ?_ hshown,
          hkind.imp (w.shared.isSome_onMessage m session) fun hk => hk⟩
        rw [List.append_assoc]
        exact List.Subset.refl _
      case alone =>
        intro i call seen hw j hj
        obtain ⟨hother, hsent⟩ := h.alone i call seen hw j hj
        refine ⟨?_, fun m' hm' => hsent m' (hsub hm')⟩
        rintro other (hj' | hj')
        · exact hother other (.inl hj')
        · obtain hj' | hj' := List.mem_append.1 hj'
          · exact hother other (.inr hj')
          · simp at hj'
      case sound =>
        intro i call seen r hw hr
        by_cases hwrites : call.waitsOn ∈ m.writes
        · cases id with
          | none =>
            exact found_mono hdelivered (found_of_harmless h (h.recovered [] m rest hto) hw hwrites hr)
          | some j =>
            by_cases hj : j = i
            · subst hj
              obtain ⟨call', hcall', hfits⟩ := h.answered j m hmem
              obtain ⟨phase, hi, -⟩ := id hw
              rw [callOf, hi] at hcall'
              obtain rfl := Option.some.inj hcall'
              obtain hout | hbefore := Call.outcome_of_ready hfits hr
              · exact ⟨m, List.mem_append_right _ (List.mem_singleton_self _), hfits, hout⟩
              · exact found_mono hdelivered (h.sound j call seen r hw hbefore)
            · exact absurd hwrites ((h.alone i call seen hw j hj).2 m hmem)
        · exact found_mono hdelivered
            (h.sound i call seen r hw (Call.ready_of_onMessage hwrites hr))
      case failing =>
        exact fun i call message hi => found_mono hdelivered (h.failing i call message hi)
      case own =>
        intro i call result hi
        obtain ⟨hok, hrefused⟩ := h.own i call result hi
        exact ⟨fun answer heq => found_mono hdelivered (hok answer heq),
          fun message heq => found_mono hdelivered (hrefused message heq)⟩

/-- A call that begins finds no answer, and takes away none but of its own
kind. -/
theorem ready_begin (s : Shared K) (call : Call)
    (hfresh : ∀ session, call.waitsOn = .session session → (s.replica session).isSome = false) :
    call.ready (call.begin s).1 (call.begin s).2 = none := by
  cases call with
  | attach session cols rows observe =>
    have hreplica : ((s.want session).replica session).isSome = false := by
      rw [Shared.want]
      split <;> exact hfresh session rfl
    have hgen : (s.want session).sessionErrorGen = s.sessionErrorGen := by
      rw [Shared.want]
      split <;> rfl
    rw [Call.begin, Call.ready, hreplica, hgen, if_neg (by simp)]
    split
    · simp
    · rfl
  | _ => simp [Call.ready, Call.begin]

theorem ready_of_begin {s : Shared K} {other : Call} {r : Except Str Answer}
    (h : other.ready (call.begin s).1 seen = some r) : other.ready s seen = some r := by
  cases call with
  | createSession =>
    cases other with
    | createSession => simp [Call.ready, Call.begin] at h
    | _ => exact h
  | attach session =>
    have heq : other.ready (s.want session) seen = other.ready s seen := by
      rw [Shared.want]
      split
      · rfl
      · cases other <;> rfl
    exact heq ▸ h
  | _ => exact h

theorem replica_begin (s : Shared K) (call : Call) (session : SessionAddr) :
    (call.begin s).1.replica session = s.replica session := by
  cases call with
  | attach session' =>
    rw [Call.begin, Shared.want]
    split <;> rfl
  | _ => rfl

section Begin

variable {w : World K} {call other : Call} {i : Nat}

theorem callOf_length (w : World K) : w.callOf w.tasks.length = none := by
  rw [callOf, List.getElem?_eq_none (Nat.le_refl _)]
  rfl

theorem callOf_begin (hi : w.callOf i = some other) :
    (w.move (.begin call)).callOf i = some other := by
  obtain ⟨task, htask, rfl⟩ := Option.map_eq_some_iff.1 hi
  obtain ⟨hlt, -⟩ := List.getElem?_eq_some_iff.1 htask
  rw [callOf, move, List.getElem?_append_left hlt, htask]
  rfl

/-- A task there is now was there before, or is the new one. -/
theorem task_of_begin {phase : Phase}
    (hi : (w.move (.begin call)).tasks[i]? = some ⟨other, phase⟩) :
    w.tasks[i]? = some ⟨other, phase⟩ ∨
      (i = w.tasks.length ∧ other = call ∧ phase = .begun (call.begin w.shared).2) := by
  rw [move, List.getElem?_append] at hi
  split at hi
  · exact .inl hi
  · obtain ⟨hlt, heq⟩ := List.getElem?_eq_some_iff.1 hi
    simp only [List.getElem_singleton, Task.mk.injEq] at heq
    simp only [List.length_singleton] at hlt
    exact .inr ⟨by omega, heq.1.symm, heq.2.symm⟩

theorem waits_of_begin {seen : UInt64} (hw : (w.move (.begin call)).Waits i other seen) :
    w.Waits i other seen ∨
      (i = w.tasks.length ∧ other = call ∧ seen = (call.begin w.shared).2) := by
  obtain ⟨phase, hi, hseen⟩ := hw
  obtain hi | ⟨rfl, rfl, rfl⟩ := task_of_begin hi
  · exact .inl ⟨phase, hi, hseen⟩
  · exact .inr ⟨rfl, rfl, (Option.some.inj hseen).symm⟩

theorem unanswered_of_begin (hu : (w.move (.begin call)).Unanswered i other) :
    w.Unanswered i other ∨ (i = w.tasks.length ∧ other = call) := by
  obtain ⟨seen, hi⟩ | hi := hu
  · obtain hi | ⟨rfl, rfl, -⟩ := task_of_begin hi
    · exact .inl (.inl ⟨seen, hi⟩)
    · exact .inr ⟨rfl, rfl⟩
  · exact .inl (.inr hi)

end Begin

theorem answered_begin {w : World K} (h : w.Answered) {call : Call} (hclear : w.Clear call) :
    (w.move (.begin call)).Answered := by
  constructor
  case asked =>
    intro i c hc
    obtain ⟨other, hother, heq⟩ := h.asked i c hc
    exact ⟨other, callOf_begin hother, heq⟩
  case answered =>
    intro i m hm
    obtain ⟨other, hother, hfits⟩ := h.answered i m hm
    exact ⟨other, callOf_begin hother, hfits⟩
  case recovers =>
    intro c hc
    obtain ⟨session, hsession, hreplica⟩ := h.recovers c hc
    exact ⟨session, hsession, (congrArg _ (replica_begin w.shared call session)).trans hreplica⟩
  case recovered =>
    intro before m after hsplit σ hσ
    obtain ⟨session, hsession, hshown, hkind⟩ := h.recovered before m after hsplit σ hσ
    refine ⟨session, hsession, ?_, ?_⟩
    · intro i other seen hw hother
      obtain hw | ⟨-, rfl, -⟩ := waits_of_begin hw
      · exact hshown i other seen hw hother
      · -- Nothing on its way is of the session a new attach waits on.
        have hmem : (none, m) ∈ w.toConn := by
          rw [show w.toConn = _ from hsplit]
          exact List.mem_append_right _ List.mem_cons_self
        rw [hsession, ← hother] at hσ
        exact absurd hσ (hclear.quiet _ hmem)
    · exact hkind.imp (fun hreplica =>
        (congrArg _ (replica_begin w.shared call session)).trans hreplica) fun hk => hk
  case alone =>
    intro i other seen hw j hj
    obtain hold | ⟨rfl, rfl, -⟩ := waits_of_begin hw
    · refine ⟨fun other' hu => ?_, (h.alone i other seen hold j hj).2⟩
      obtain hu | ⟨-, rfl⟩ := unanswered_of_begin hu
      · exact (h.alone i other seen hold j hj).1 other' hu
      · exact hclear.alone i other seen hold
    · refine ⟨fun other' hu => ?_, fun m hm => hclear.quiet _ hm⟩
      obtain hu | ⟨hj', -⟩ := unanswered_of_begin hu
      · exact hclear.answered j other' hu
      · exact absurd hj' hj
  case sound =>
    intro i other seen r hw hr
    obtain hw | ⟨rfl, rfl, rfl⟩ := waits_of_begin hw
    · exact h.sound i other seen r hw (ready_of_begin hr)
    · have hnone := ready_begin w.shared other hclear.fresh
      exact absurd (hnone.symm.trans hr) (by simp)
  case failing =>
    intro i other message hi
    obtain hi | ⟨-, -, hphase⟩ := task_of_begin hi
    · exact h.failing i other message hi
    · exact absurd hphase (by simp)
  case own =>
    intro i other result hi
    obtain hi | ⟨-, -, hphase⟩ := task_of_begin hi
    · exact h.own i other result hi
    · exact absurd hphase (by simp)

theorem answered_step {w : World K} (h : w.Answered) {m : Move K} (hanswering : w.Answering m)
    (hclear : w.ClearMove m) : (w.step m).1.Answered := by
  show (w.move m).Answered
  cases m with
  | begin call => exact answered_begin h hclear
  | send i =>
    rw [move]
    split
    · next call seen hi => exact answered_send h hi
    · exact h
  | wake i late =>
    rw [move]
    split
    · next call seen hi => exact answered_wake h hi late
    · exact h
  | unwant i =>
    cases hi : w.tasks[i]? with
    | none => rw [move, hi]; exact h
    | some task =>
      obtain ⟨call, phase⟩ := task
      cases phase with
      | failing e => exact answered_unwant h hi
      | _ => rw [move, hi]; exact h
  | detach session => exact hanswering.elim
  | handle answer =>
    cases hto : w.toDaemon with
    | nil => rw [move, hto]; exact h
    | cons p rest =>
      obtain ⟨id, c⟩ := p
      obtain ⟨m, rfl, hfits⟩ := hanswering id c rest hto
      exact answered_handle h hto hfits
  | say m => exact answered_say h hanswering hclear
  | deliver => exact answered_deliver h
  | close => exact answered_close h

/-! ## Runs -/

/-- A run in which every call is clear of the others gives every call its own
answer. -/
theorem answers_own (moves : List (Move K))
    (hanswering : ∀ e ∈ (Trace.run World.step ({} : World K) moves).2, e.state.Answering e.call)
    (hclear : ∀ e ∈ (Trace.run World.step ({} : World K) moves).2, e.state.ClearMove e.call) :
    (Trace.run World.step ({} : World K) moves).1.Own :=
  (Trace.run_invariant_of_each (I := fun (w : World K) _ => w.Answered)
    (P := fun _ (e : Trace.Entry (World K) (Move K) Unit) =>
      e.state.Answering e.call ∧ e.state.ClearMove e.call) answered_init
    (fun _ _ _ h hP => answered_step h hP.1 hP.2) moves
    (Trace.each_of_forall fun e he => ⟨hanswering e he, hclear e he⟩)).own

/-- Replicas that hold nothing. -/
def blank : ReplicaKind :=
  ⟨Unit, Unit, Unit, fun _ => (), fun _ _ => (), fun _ _ => ((), true), fun _ _ => ()⟩

/-- A question about a configuration. -/
def ask (key : Str) : Call := .getConfig [key] [] true false

theorem answers_own_config :
    (Trace.run World.step ({} : World blank)
      [.begin (ask ['a']), .send 0, .handle (some (.configState ['x'])), .deliver, .wake 0 false]).1.Own :=
  answers_own _
    (by
      refine List.forall_mem_cons.2 ⟨trivial, List.forall_mem_cons.2 ⟨trivial,
        List.forall_mem_cons.2 ⟨?_, List.forall_mem_cons.2 ⟨trivial,
          List.forall_mem_cons.2 ⟨trivial, fun e he => absurd he List.not_mem_nil⟩⟩⟩⟩⟩
      rintro id c rest heq
      obtain ⟨hp, -⟩ := List.cons.inj heq
      obtain ⟨-, rfl⟩ := Prod.mk.inj hp
      exact ⟨_, rfl, .config ..⟩)
    (by
      refine List.forall_mem_cons.2 ⟨?_, List.forall_mem_cons.2 ⟨trivial,
        List.forall_mem_cons.2 ⟨trivial, List.forall_mem_cons.2 ⟨trivial,
          List.forall_mem_cons.2 ⟨trivial, fun e he => absurd he List.not_mem_nil⟩⟩⟩⟩⟩
      exact
        { answered := by rintro i other (⟨seen, hi⟩ | hi) <;> simp at hi
          quiet := fun p hp => absurd hp List.not_mem_nil
          alone := by rintro i other seen ⟨phase, hi, -⟩; simp at hi
          fresh := by simp [ask, Call.waitsOn] })

/-- The first question times out; the second takes the answer to the
first. -/
def lateAnswer : List (Move blank) :=
  [.begin (ask ['a']), .send 0, .wake 0 true, .begin (ask ['b']), .send 1,
    .handle (some (.configState ['x'])), .deliver, .wake 1 false]

theorem late_answer_taken :
    (∀ e ∈ (Trace.run World.step ({} : World blank) lateAnswer).2, e.state.Answering e.call) ∧
      ¬ (Trace.run World.step ({} : World blank) lateAnswer).1.Own := by
  constructor
  · refine List.forall_mem_cons.2 ⟨trivial, List.forall_mem_cons.2 ⟨trivial,
      List.forall_mem_cons.2 ⟨trivial, List.forall_mem_cons.2 ⟨trivial,
        List.forall_mem_cons.2 ⟨trivial, List.forall_mem_cons.2 ⟨?_,
          List.forall_mem_cons.2 ⟨trivial, List.forall_mem_cons.2 ⟨trivial,
            fun e he => absurd he List.not_mem_nil⟩⟩⟩⟩⟩⟩⟩⟩
    rintro id c rest heq
    obtain ⟨hp, -⟩ := List.cons.inj heq
    obtain ⟨-, rfl⟩ := Prod.mk.inj hp
    exact ⟨_, rfl, .config ..⟩
  · intro hown
    obtain ⟨m, hm, -⟩ := (hown 1 (ask ['b']) (.ok (.config ['x'])) rfl).1 _ rfl
    have hm : (some 1, m) ∈ [(some 0, HostMessage.configState ['x'])] := hm
    simp at hm

end World

end Zesterm.Mcp
