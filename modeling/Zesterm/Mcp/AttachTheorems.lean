/-
Zesterm.Mcp.AttachTheorems — whose keyframe an attach takes.

An attach that begins with no other of its session under way, no answer of
an earlier one outstanding and no replica held (`Untouched`) takes no
keyframe and no error but of its own attachment. One invariant of the
connection alone carries it (`Kept`): what is on its way to an attach that
waits is its own answer, or comes behind it.
-/
import Zesterm.Mcp.Attach
import Zesterm.Mcp.ClearTheorems

namespace Zesterm.Mcp

variable {K : ReplicaKind}

/-! ## What a message does to an attach -/

namespace Shared

/-- A replica the reader has now was there before, or is of the keyframe. -/
theorem replica_or_keyframe {s : Shared K} {m : HostMessage K} {session : SessionAddr}
    (h : ((s.onMessage m).1.replica session).isSome = true) :
    (s.replica session).isSome = true ∨ ∃ frame, m = .keyframe session frame := by
  by_cases hm : .session session ∈ m.writes
  · cases m with
    | keyframe session' frame =>
      obtain rfl := Slot.session.inj (List.mem_singleton.1 hm)
      exact .inr ⟨frame, rfl⟩
    | error session' message =>
      cases session' with
      | none => exact .inl h
      | some session' =>
        rw [onMessage] at h
        split at h <;> exact .inl h
    | sessions sessions created offer => cases created <;> exact .inl h
    | _ => exact absurd hm (by simp [HostMessage.writes])
  · rw [replica_onMessage_of_frame s m session hm] at h
    exact .inl h

/-- The reader notes an error of a session, or leaves the last one. -/
theorem sessionError_onMessage (s : Shared K) (m : HostMessage K) :
    ((s.onMessage m).1.sessionError = s.sessionError ∧
        (s.onMessage m).1.sessionErrorGen = s.sessionErrorGen) ∨
      ∃ session message, m = .error (some session) message ∧
        (s.onMessage m).1.sessionError = some (session, message) := by
  have hwrote := s.wrote_onMessage m
  generalize (s.onMessage m).1 = s' at hwrote
  cases hwrote with
  | denied session message => exact .inr ⟨session, message, rfl, rfl⟩
  | _ => exact .inl ⟨rfl, rfl⟩

/-- The reader makes no session wanted, and none unwanted. -/
theorem wanted_onMessage (s : Shared K) (m : HostMessage K) :
    (s.onMessage m).1.wanted = s.wanted := by
  have hwrote := s.wrote_onMessage m
  generalize (s.onMessage m).1 = s' at hwrote
  cases hwrote <;> rfl

theorem mem_want {s : Shared K} {session addr : SessionAddr} :
    addr ∈ (s.want session).wanted ↔ addr = session ∨ addr ∈ s.wanted := by
  rw [want]
  split
  · next h => exact ⟨.inr, fun h' => h'.elim (fun heq => heq ▸ h) id⟩
  · rw [List.mem_append, List.mem_singleton, or_comm]

theorem mem_unwant {s : Shared K} {session addr : SessionAddr} :
    addr ∈ (s.unwant session).wanted ↔ addr ≠ session ∧ addr ∈ s.wanted := by
  rw [unwant, List.mem_filter, decide_eq_true_eq, and_comm]

end Shared

/-! ## Attaches under way -/

/-- A call that is not over. -/
def Phase.pending : Phase → Bool
  | .done _ => false
  | _ => true

/-- The session of which a message has the daemon speak. -/
def ClientMessage.asks : ClientMessage → Option SessionAddr
  | .attach session .. | .requestKeyframe session => some session
  | _ => none

namespace World

variable {session : SessionAddr} {w : World K}

/-- The `i`th call is an attach of a session, and waits for its answer. -/
def Attaching (w : World K) (i : Nat) (session : SessionAddr) (seen : UInt64) : Prop :=
  ∃ call, w.Waits i call seen ∧ call.waitsOn = .session session

def UnderWay (w : World K) (i : Nat) (session : SessionAddr) : Prop :=
  ∃ call phase, w.tasks[i]? = some ⟨call, phase⟩ ∧ call.waitsOn = .session session ∧
    phase.pending = true

/-- Nothing of a session is under way, and no answer about it is. -/
structure Untouched (w : World K) (session : SessionAddr) : Prop where
  idle : ∀ i, ¬ w.UnderWay i session
  unasked : ∀ p ∈ w.toDaemon, p.2.asks ≠ some session
  quiet : ∀ p ∈ w.toConn, .session session ∉ p.2.writes

/-- An attach was sent its keyframe. -/
def SentKeyframe (i : Nat) (session : SessionAddr) (sent : List (Option Nat × HostMessage K)) : Prop :=
  ∃ frame, (some i, .keyframe session frame) ∈ sent

/-- An error is the answer to an attach, or came after its keyframe. -/
def Blamed (w : World K) (i : Nat) (session : SessionAddr) (message : Str) : Prop :=
  (some i, .error (some session) message) ∈ w.delivered ∨
    ∃ before frame after, w.delivered = before ++ (some i, .keyframe session frame) :: after ∧
      (none, .error (some session) message) ∈ after

/-- What an attach returned is of its own attachment. -/
def OwnAttachment (w : World K) : Prop :=
  ∀ i call session result, w.tasks[i]? = some ⟨call, .done result⟩ →
    call.waitsOn = .session session →
    (∀ answer, result = .ok answer → SentKeyframe i session w.delivered) ∧
      ∀ message, result = .error (.refused message) → w.Blamed i session message

/-- What holds of the attaches of a connection. -/
structure Kept (w : World K) : Prop where
  asked : ∀ i c, (some i, c) ∈ w.toDaemon → ∃ call, w.callOf i = some call ∧ c = call.message
  answered : ∀ i m, (some i, m) ∈ w.toConn →
    ∃ call, w.callOf i = some call ∧ Fits call.message m
  known : ∀ i m, (some i, m) ∈ w.delivered → ∃ call, w.callOf i = some call
  unsent : ∀ i call seen, w.tasks[i]? = some ⟨call, .begun seen⟩ →
    (∀ c, (some i, c) ∉ w.toDaemon) ∧ (∀ m, (some i, m) ∉ w.toConn) ∧ ∀ m, (some i, m) ∉ w.delivered
  single : ∀ session i j, w.UnderWay i session → w.UnderWay j session → i = j
  conn : ∀ i session seen, w.Attaching i session seen → ∀ before id m after,
    w.toConn = before ++ (id, m) :: after → .session session ∈ m.writes →
      id = some i ∨ id = none ∧ SentKeyframe i session (w.delivered ++ before)
  daemon : ∀ i session seen, w.Attaching i session seen → ∀ id c, (id, c) ∈ w.toDaemon →
    c.asks = some session → id = some i ∨ id = none ∧ SentKeyframe i session w.delivered
  shows : ∀ i session seen, w.Attaching i session seen →
    (w.shared.replica session).isSome = true → SentKeyframe i session w.delivered
  blames : ∀ i session seen message, w.Attaching i session seen →
    w.shared.sessionError = some (session, message) → w.shared.sessionErrorGen ≠ seen →
      w.Blamed i session message
  failing : ∀ i call session message,
    w.tasks[i]? = some ⟨call, .failing (.refused message)⟩ → call.waitsOn = .session session →
      w.Blamed i session message
  own : w.OwnAttachment

theorem kept_init : ({} : World K).Kept where
  asked := fun i c h => absurd h List.not_mem_nil
  answered := fun i m h => absurd h List.not_mem_nil
  known := fun i m h => absurd h List.not_mem_nil
  unsent := fun i call seen h => by simp at h
  single := fun session i j h => by obtain ⟨call, phase, h, -⟩ := h; simp at h
  conn := fun i session seen h => by obtain ⟨call, ⟨phase, h, -⟩, -⟩ := h; simp at h
  daemon := fun i session seen h => by obtain ⟨call, ⟨phase, h, -⟩, -⟩ := h; simp at h
  shows := fun i session seen h => by obtain ⟨call, ⟨phase, h, -⟩, -⟩ := h; simp at h
  blames := fun i session seen message h => by obtain ⟨call, ⟨phase, h, -⟩, -⟩ := h; simp at h
  failing := fun i call session message h => by simp at h
  own := fun i call session result h => by simp at h

/-! ## One move -/

theorem sentKeyframe_mono {i : Nat} {sent sent' : List (Option Nat × HostMessage K)}
    (hsub : sent ⊆ sent') (h : SentKeyframe i session sent) : SentKeyframe i session sent' := by
  obtain ⟨frame, hframe⟩ := h
  exact ⟨frame, hsub hframe⟩

theorem blamed_append {w' : World K} {i : Nat} {message : Str}
    {x : List (Option Nat × HostMessage K)} (hmore : w'.delivered = w.delivered ++ x)
    (h : w.Blamed i session message) : w'.Blamed i session message := by
  obtain h | ⟨before, frame, after, hsplit, hafter⟩ := h
  · exact .inl (hmore ▸ List.mem_append_left _ h)
  · refine .inr ⟨before, frame, after ++ x, ?_, List.mem_append_left _ hafter⟩
    rw [hmore, hsplit, List.append_assoc, List.cons_append]

theorem attaching_of_begun {i : Nat} {call : Call} {seen : UInt64}
    (hi : w.tasks[i]? = some ⟨call, .begun seen⟩) (hcall : call.waitsOn = .session session) :
    w.Attaching i session seen :=
  ⟨call, ⟨_, hi, rfl⟩, hcall⟩

theorem underWay_of_attaching {i : Nat} {seen : UInt64} (h : w.Attaching i session seen) :
    w.UnderWay i session := by
  obtain ⟨call, ⟨phase, hi, hseen⟩, hcall⟩ := h
  refine ⟨call, phase, hi, hcall, ?_⟩
  cases phase with
  | done result => exact absurd hseen (by simp [Phase.noted])
  | _ => rfl

/-- The attach of a session is the call that asks for it. -/
theorem waitsOn_of_asks {call : Call} (h : call.message.asks = some session) :
    call.waitsOn = .session session := by
  cases call with
  | attach session' => exact congrArg _ (Option.some.inj h)
  | _ => exact absurd h (by simp [Call.message, ClientMessage.asks])

/-- A move that begins no call and brings no answer. -/
theorem Kept.frame {w' : World K} (h : w.Kept) {x : List (Option Nat × ClientMessage)}
    (hcalls : ∀ i, w'.callOf i = w.callOf i)
    (hattaching : ∀ i session seen, w'.Attaching i session seen → w.Attaching i session seen)
    (hunder : ∀ i session, w'.UnderWay i session → w.UnderWay i session)
    (hbegun : ∀ i call seen, w'.tasks[i]? = some ⟨call, .begun seen⟩ →
      w.tasks[i]? = some ⟨call, .begun seen⟩ ∧ ∀ c, (some i, c) ∉ x)
    (hreplica : ∀ session, (w'.shared.replica session).isSome = true →
      (w.shared.replica session).isSome = true)
    (herror : w'.shared.sessionError = w.shared.sessionError)
    (hgen : w'.shared.sessionErrorGen = w.shared.sessionErrorGen)
    (htoDaemon : w'.toDaemon = w.toDaemon ++ x)
    (hasked : ∀ i c, (some i, c) ∈ x → ∃ call, w.callOf i = some call ∧ c = call.message)
    (hasks : ∀ i session seen, w.Attaching i session seen → ∀ id c, (id, c) ∈ x →
      c.asks = some session → id = some i) (hconn : w'.toConn = w.toConn)
    (hdelivered : w'.delivered = w.delivered)
    (hfailing : ∀ i call session message,
      w'.tasks[i]? = some ⟨call, .failing (.refused message)⟩ → call.waitsOn = .session session →
        w.Blamed i session message)
    (hown : ∀ i call session result, w'.tasks[i]? = some ⟨call, .done result⟩ →
      call.waitsOn = .session session →
      (∀ answer, result = .ok answer → SentKeyframe i session w.delivered) ∧
        ∀ message, result = .error (.refused message) → w.Blamed i session message) : w'.Kept := by
  have hblamed : ∀ {i session message}, w.Blamed i session message → w'.Blamed i session message :=
    fun hb => blamed_append (x := []) (by rw [hdelivered, List.append_nil]) hb
  constructor
  case asked =>
    intro i c hc
    rw [hcalls]
    rw [htoDaemon] at hc
    exact (List.mem_append.1 hc).elim (h.asked i c) (hasked i c)
  case answered =>
    intro i m hm
    rw [hcalls]
    exact h.answered i m (hconn ▸ hm)
  case known =>
    intro i m hm
    rw [hcalls]
    exact h.known i m (hdelivered ▸ hm)
  case unsent =>
    intro i call seen hi
    obtain ⟨hi, hx⟩ := hbegun i call seen hi
    obtain ⟨hto, hsent, hdel⟩ := h.unsent i call seen hi
    rw [hconn, hdelivered, htoDaemon]
    exact ⟨fun c hc => (List.mem_append.1 hc).elim (hto c) (hx c), hsent, hdel⟩
  case single => exact fun session i j hi hj => h.single session i j (hunder i _ hi) (hunder j _ hj)
  case conn =>
    intro i session seen hi before id m after hsplit
    rw [hdelivered]
    exact h.conn i session seen (hattaching i _ _ hi) before id m after (hconn ▸ hsplit)
  case daemon =>
    intro i session seen hi id c hc hcasks
    rw [hdelivered]
    rw [htoDaemon] at hc
    obtain hc | hc := List.mem_append.1 hc
    · exact h.daemon i session seen (hattaching i _ _ hi) id c hc hcasks
    · exact .inl (hasks i session seen (hattaching i _ _ hi) id c hc hcasks)
  case shows =>
    intro i session seen hi hrep
    rw [hdelivered]
    exact h.shows i session seen (hattaching i _ _ hi) (hreplica session hrep)
  case blames =>
    intro i session seen message hi herr hne
    rw [herror] at herr
    rw [hgen] at hne
    exact hblamed (h.blames i session seen message (hattaching i _ _ hi) herr hne)
  case failing =>
    exact fun i call session message hi hcall => hblamed (hfailing i call session message hi hcall)
  case own =>
    intro i call session result hi hcall
    obtain ⟨hok, hrefused⟩ := hown i call session result hi hcall
    rw [hdelivered]
    exact ⟨hok, fun message heq => hblamed (hrefused message heq)⟩

section Turn

variable {w w' : World K} {i : Nat} {call : Call} {p q : Phase}

theorem attaching_of_set (hi : w.tasks[i]? = some ⟨call, p⟩)
    (hset : w'.tasks = w.tasks.set i ⟨call, q⟩)
    (hq : ∀ seen, q.noted = some seen → p.noted = some seen) (j : Nat) (session : SessionAddr)
    (seen : UInt64) (h : w'.Attaching j session seen) : w.Attaching j session seen := by
  obtain ⟨other, hw, hother⟩ := h
  exact ⟨other, waits_of_set hi hset hq j other seen hw, hother⟩

theorem underWay_of_set (hi : w.tasks[i]? = some ⟨call, p⟩)
    (hset : w'.tasks = w.tasks.set i ⟨call, q⟩) (hp : p.pending = true) (j : Nat)
    (session : SessionAddr) (h : w'.UnderWay j session) : w.UnderWay j session := by
  obtain ⟨other, phase, hj, hother, hphase⟩ := h
  obtain ⟨rfl, rfl, rfl⟩ | hj := task_of_set hi hset hj
  · exact ⟨_, p, hi, hother, hp⟩
  · exact ⟨other, phase, hj, hother, hphase⟩

/-- A call that is over, or about to be. -/
theorem Kept.settled (h : w.Kept) (hi : w.tasks[i]? = some ⟨call, p⟩) (hp : p.pending = true)
    (hset : w'.tasks = w.tasks.set i ⟨call, q⟩) (hq : q.noted = none)
    (hreplica : ∀ session, w'.shared.replica session = w.shared.replica session)
    (herror : w'.shared.sessionError = w.shared.sessionError)
    (hgen : w'.shared.sessionErrorGen = w.shared.sessionErrorGen)
    (htoDaemon : w'.toDaemon = w.toDaemon) (htoConn : w'.toConn = w.toConn)
    (hdelivered : w'.delivered = w.delivered)
    (hfailing : ∀ session message, q = .failing (.refused message) →
      call.waitsOn = .session session → w.Blamed i session message)
    (hok : ∀ session answer, q = .done (.ok answer) → call.waitsOn = .session session →
      SentKeyframe i session w.delivered)
    (hrefused : ∀ session message, q = .done (.error (.refused message)) →
      call.waitsOn = .session session → w.Blamed i session message) : w'.Kept := by
  refine h.frame (x := []) (callOf_set hi hset) (attaching_of_set hi hset (by simp [hq]))
    (underWay_of_set hi hset hp) ?_ (fun session hrep => hreplica session ▸ hrep) herror hgen
    (by rw [htoDaemon, List.append_nil]) (by simp) (by simp) htoConn hdelivered ?_ ?_
  · intro j other seen hj
    obtain ⟨-, -, rfl⟩ | hj := task_of_set hi hset hj
    · exact absurd hq (by simp [Phase.noted])
    · exact ⟨hj, by simp⟩
  · intro j other session message hj hother
    obtain ⟨rfl, rfl, hphase⟩ | hj := task_of_set hi hset hj
    · exact hfailing session message hphase.symm hother
    · exact h.failing j other session message hj hother
  · intro j other session result hj hother
    obtain ⟨rfl, rfl, rfl⟩ | hj := task_of_set hi hset hj
    · exact ⟨fun answer heq => hok session answer (by rw [heq]) hother,
        fun message heq => hrefused session message (by rw [heq]) hother⟩
    · exact h.own j other session result hj hother

end Turn

variable {call : Call} {session : SessionAddr} {w : World K}

/-- What an attach finds: a replica, or an error noted since it began. -/
theorem found_of_ready {s : Shared K} {seen : UInt64} {r : Except Str Answer}
    (hcall : call.waitsOn = .session session) (h : call.ready s seen = some r) :
    (r = .ok .attached ∧ (s.replica session).isSome = true) ∨
      ∃ message, r = .error message ∧ s.sessionError = some (session, message) ∧
        s.sessionErrorGen ≠ seen := by
  cases call with
  | attach session' cols rows observe =>
    obtain rfl := Slot.session.inj hcall
    rw [Call.ready] at h
    split at h
    · next hrep => exact .inl ⟨(Option.some.inj h).symm, hrep⟩
    · split at h
      · next addr message herr =>
        obtain ⟨⟨rfl, hgen⟩, hr⟩ := Option.ite_none_right_eq_some.1 h
        exact .inr ⟨message, (Option.some.inj hr).symm, herr, hgen⟩
      · exact absurd h (by simp)
  | _ => exact absurd hcall (by simp [Call.waitsOn])

theorem kept_wake (h : w.Kept) {i : Nat} {seen : UInt64}
    (hi : w.tasks[i]? = some ⟨call, .waiting seen⟩) (late : Bool) :
    (w.wake i ⟨call, .waiting seen⟩ seen late).Kept := by
  have hattaching : ∀ session, call.waitsOn = .session session → w.Attaching i session seen :=
    fun session hcall => ⟨call, ⟨_, hi, rfl⟩, hcall⟩
  obtain heq | ⟨answer, hr, heq⟩ | ⟨e, he, heq⟩ := w.wake_cases i call seen late
  · rw [heq]
    exact h
  · rw [heq]
    refine h.settled (q := .done (.ok answer)) hi rfl rfl rfl (fun _ => rfl) rfl rfl rfl rfl rfl
      (by simp) (fun session answer' _ hcall => ?_) (by simp)
    obtain ⟨-, hrep⟩ | ⟨message, hmessage, -⟩ := found_of_ready hcall hr
    · exact h.shows i session seen (hattaching session hcall) hrep
    · exact absurd hmessage (by simp)
  · rw [heq]
    have hrefused : ∀ session message, e = .refused message → call.waitsOn = .session session →
        w.Blamed i session message := by
      rintro session message rfl hcall
      obtain ⟨message', hr, hmessage⟩ | ⟨-, -, hne⟩ := he
      · obtain rfl := ConnError.refused.inj hmessage
        obtain ⟨hok, -⟩ | ⟨message', hr, herr, hgen⟩ := found_of_ready hcall hr
        · exact absurd hok (by simp)
        · obtain rfl := Except.error.inj hr
          exact h.blames i session seen _ (hattaching session hcall) herr hgen
      · exact absurd rfl (hne message)
    split
    · exact h.settled (q := .failing e) hi rfl rfl rfl (fun _ => rfl) rfl rfl rfl rfl rfl
        (fun session message hfail => hrefused session message (Phase.failing.inj hfail)) (by simp)
        (by simp)
    · refine h.settled (q := .done (.error e)) hi rfl rfl rfl (fun _ => rfl) rfl rfl rfl rfl rfl
        (by simp) (by simp) fun session message hdone => ?_
      exact hrefused session message (Except.error.inj (Phase.done.inj hdone))

theorem kept_send (h : w.Kept) {i : Nat} {seen : UInt64}
    (hi : w.tasks[i]? = some ⟨call, .begun seen⟩) :
    ({ w with
        tasks := w.tasks.set i { call := call, phase := .waiting seen }
        toDaemon := w.toDaemon ++ [(some i, call.message)] } : World K).Kept := by
  refine h.frame (x := [(some i, call.message)]) (callOf_set hi rfl)
    (attaching_of_set hi rfl fun _ hseen => hseen) (underWay_of_set hi rfl rfl) ?_
    (fun _ hrep => hrep) rfl rfl rfl ?_ ?_ rfl rfl ?_ ?_
  · intro j other seen' hj
    by_cases hji : j = i
    · obtain ⟨-, -, hphase⟩ | hj' := task_of_set hi rfl hj
      · exact absurd hphase (by simp)
      · rw [getElem?_set_of_some hi, if_pos hji] at hj
        exact absurd hj (by simp)
    · obtain ⟨hji', -, -⟩ | hj' := task_of_set hi rfl hj
      · exact absurd hji' hji
      · exact ⟨hj', fun c hc => hji (Option.some.inj (Prod.mk.inj (List.mem_singleton.1 hc)).1)⟩
  · intro j c hc
    obtain ⟨hj, rfl⟩ := Prod.mk.inj (List.mem_singleton.1 hc)
    obtain rfl := Option.some.inj hj
    exact ⟨call, by rw [callOf, hi]; rfl, rfl⟩
  · intro j session seen' hj id c hc hcasks
    obtain ⟨rfl, rfl⟩ := Prod.mk.inj (List.mem_singleton.1 hc)
    have hbegun := attaching_of_begun hi (waitsOn_of_asks hcasks)
    rw [h.single session i j (underWay_of_attaching hbegun) (underWay_of_attaching hj)]
  · intro j other session message hj hother
    obtain ⟨-, -, hphase⟩ | hj := task_of_set hi rfl hj
    · exact absurd hphase (by simp)
    · exact h.failing j other session message hj hother
  · intro j other session result hj hother
    obtain ⟨-, -, hphase⟩ | hj := task_of_set hi rfl hj
    · exact absurd hphase (by simp)
    · exact h.own j other session result hj hother

theorem kept_unwant (h : w.Kept) {i : Nat} {e : ConnError}
    (hi : w.tasks[i]? = some ⟨call, .failing e⟩) : (w.move (.unwant i)).Kept := by
  rw [move, hi]
  refine h.settled (q := .done (.error e)) hi rfl rfl rfl ?_ ?_ ?_ rfl rfl rfl (by simp) (by simp)
    fun session message heq hcall => ?_
  · intro session
    dsimp only
    cases call.wants <;> rfl
  · dsimp only
    cases call.wants <;> rfl
  · dsimp only
    cases call.wants <;> rfl
  · obtain rfl := Except.error.inj (Phase.done.inj heq)
    exact h.failing i call session message hi hcall

/-- To detach takes a replica away, and asks for nothing. -/
theorem isSome_replica_filter {s : Shared K} {gone : SessionAddr} :
    (({ s with replicas := s.replicas.filter fun r => r.1 ≠ gone } : Shared K).replica session).isSome
      = true ↔ session ≠ gone ∧ (s.replica session).isSome = true := by
  rw [Shared.isSome_replica, Shared.isSome_replica, List.mem_map, List.mem_map]
  constructor
  · rintro ⟨r, hr, rfl⟩
    obtain ⟨hr, hne⟩ := List.mem_filter.1 hr
    exact ⟨of_decide_eq_true hne, r, hr, rfl⟩
  · rintro ⟨hne, r, hr, rfl⟩
    exact ⟨r, List.mem_filter.2 ⟨hr, decide_eq_true hne⟩, rfl⟩

theorem kept_detach (h : w.Kept) (session : SessionAddr) : (w.move (.detach session)).Kept := by
  refine h.frame (x := [(none, .detach session)]) (fun _ => rfl) (fun _ _ _ hi => hi)
    (fun _ _ hi => hi) (fun i call seen hi => ⟨hi, by simp⟩) ?_ rfl rfl rfl (by simp) ?_ rfl rfl
    h.failing h.own
  · exact fun other hrep => (isSome_replica_filter.1 hrep).2
  · intro i other seen hi id c hc hcasks
    obtain ⟨-, rfl⟩ := Prod.mk.inj (List.mem_singleton.1 hc)
    exact absurd hcasks (by simp [ClientMessage.asks])

/-- The daemon speaks of a session to who asks it to. -/
theorem asks_of_fits {c : ClientMessage} {m : HostMessage K} (hfits : Fits c m)
    (h : .session session ∈ m.writes) : c.asks = some session := by
  cases hfits with
  | attached | denied | recovered | lost =>
    rw [Slot.session.inj (List.mem_singleton.1 h)]
    rfl
  | refused => exact absurd h List.not_mem_nil
  | created => exact absurd h (by simp [HostMessage.writes])
  | listing | config | configWritten | blocks => exact absurd (List.mem_singleton.1 h) (by simp)

/-- One more message on its way back, if any. -/
theorem Kept.sent {w' : World K} (h : w.Kept) {n : Option Nat} {a : Option (HostMessage K)}
    (htasks : w'.tasks = w.tasks) (hshared : w'.shared = w.shared)
    (hdelivered : w'.delivered = w.delivered) (htoDaemon : w'.toDaemon ⊆ w.toDaemon)
    (htoConn : w'.toConn = w.toConn ++ (a.map fun m => (n, m)).toList)
    (hown : ∀ i m, n = some i → a = some m →
      (∃ call, w.callOf i = some call ∧ Fits call.message m) ∧
        ∀ call seen, w.tasks[i]? ≠ some ⟨call, .begun seen⟩)
    (hcomes : ∀ i session seen m, w.Attaching i session seen → a = some m →
      .session session ∈ m.writes →
        n = some i ∨ n = none ∧ SentKeyframe i session (w.delivered ++ w.toConn)) :
    w'.Kept := by
  have hcalls : ∀ i, w'.callOf i = w.callOf i := fun i => by rw [callOf, htasks, callOf]
  have hattaching : ∀ {i session seen}, w'.Attaching i session seen →
      w.Attaching i session seen := by
    rintro i session seen ⟨call, ⟨phase, hi, hseen⟩, hcall⟩
    exact ⟨call, ⟨phase, htasks ▸ hi, hseen⟩, hcall⟩
  have hblamed : ∀ {i session message}, w.Blamed i session message → w'.Blamed i session message :=
    fun hb => blamed_append (x := []) (by rw [hdelivered, List.append_nil]) hb
  -- What is on its way back was before, or is the answer.
  have hconn : ∀ {id' m}, (id', m) ∈ w'.toConn → (id', m) ∈ w.toConn ∨
      (id' = n ∧ a = some m) := by
    intro id' m hm
    rw [htoConn] at hm
    refine (List.mem_append.1 hm).imp_right fun hm => ?_
    cases a with
    | none => exact absurd hm List.not_mem_nil
    | some m' =>
      obtain ⟨rfl, rfl⟩ := Prod.mk.inj (List.mem_singleton.1 hm)
      exact ⟨rfl, rfl⟩
  constructor
  case asked => exact fun i c hc => hcalls i ▸ h.asked i c (htoDaemon hc)
  case answered =>
    intro i m hm
    rw [hcalls]
    obtain hm | ⟨hid, hm⟩ := hconn hm
    · exact h.answered i m hm
    · exact (hown i m hid.symm hm).1
  case known => exact fun i m hm => hcalls i ▸ h.known i m (hdelivered ▸ hm)
  case unsent =>
    intro i call seen hi
    rw [htasks] at hi
    obtain ⟨hto, hsent, hdel⟩ := h.unsent i call seen hi
    refine ⟨fun c hc => hto c (htoDaemon hc), fun m hm => ?_, hdelivered ▸ hdel⟩
    obtain hm | ⟨hid, hm⟩ := hconn hm
    · exact hsent m hm
    · exact (hown i m hid.symm hm).2 call seen hi
  case single =>
    have hunder : ∀ {i session}, w'.UnderWay i session → w.UnderWay i session := by
      rintro i session ⟨call, phase, hi, hrest⟩
      exact ⟨call, phase, htasks ▸ hi, hrest⟩
    exact fun session i j hi hj => h.single session i j (hunder hi) (hunder hj)
  case conn =>
    intro i session seen hi before id' m after hsplit hwrites
    rw [hdelivered]
    rw [htoConn] at hsplit
    cases a with
    | none =>
      exact h.conn i session seen (hattaching hi) before id' m after
        ((List.append_nil _).symm.trans hsplit) hwrites
    | some m' =>
      obtain ⟨rfl, heq⟩ | ⟨after', hold⟩ := split_snoc hsplit
      · obtain ⟨rfl, rfl⟩ := Prod.mk.inj heq
        exact hcomes i session seen m (hattaching hi) rfl hwrites
      · exact h.conn i session seen (hattaching hi) before id' m after' hold hwrites
  case daemon =>
    intro i session seen hi id' c hc hcasks
    rw [hdelivered]
    exact h.daemon i session seen (hattaching hi) id' c (htoDaemon hc) hcasks
  case shows =>
    intro i session seen hi hrep
    rw [hdelivered]
    exact h.shows i session seen (hattaching hi) (hshared ▸ hrep)
  case blames =>
    intro i session seen message hi herr hgen
    rw [hshared] at herr hgen
    exact hblamed (h.blames i session seen message (hattaching hi) herr hgen)
  case failing =>
    exact fun i call session message hi hcall =>
      hblamed (h.failing i call session message (htasks ▸ hi) hcall)
  case own =>
    intro i call session result hi hcall
    obtain ⟨hok, hrefused⟩ := h.own i call session result (htasks ▸ hi) hcall
    rw [hdelivered]
    exact ⟨hok, fun message heq => hblamed (hrefused message heq)⟩

theorem kept_handle (h : w.Kept) {id : Option Nat} {c : ClientMessage}
    {rest : List (Option Nat × ClientMessage)} (hto : w.toDaemon = (id, c) :: rest)
    {answer : Option (HostMessage K)} (hfits : ∀ m, answer = some m → Fits c m) :
    (w.move (.handle answer)).Kept := by
  have hmem : (id, c) ∈ w.toDaemon := hto ▸ List.mem_cons_self
  rw [move, hto]
  refine h.sent (n := id) (a := answer) rfl rfl rfl ?_ rfl ?_ ?_
  · rw [hto]
    exact List.subset_cons_self _ _
  · rintro i m rfl hm
    obtain ⟨call, hcall, rfl⟩ := h.asked i c hmem
    exact ⟨⟨call, hcall, hfits m hm⟩, fun other seen hi => (h.unsent i other seen hi).1 _ hmem⟩
  · intro i session seen m hi hm hwrites
    obtain hid | ⟨hid, hsent⟩ :=
      h.daemon i session seen hi id c hmem (asks_of_fits (hfits m hm) hwrites)
    · exact .inl hid
    · exact .inr ⟨hid, sentKeyframe_mono (List.subset_append_left _ _) hsent⟩

/-- A message of the daemon's own accord comes behind the keyframes of the
attaches it would answer. -/
theorem kept_say (h : w.Kept) {m : HostMessage K}
    (hm : ∀ i session seen, w.Attaching i session seen → .session session ∈ m.writes →
      SentKeyframe i session (w.delivered ++ w.toConn)) : (w.move (.say m)).Kept := by
  refine h.sent (n := none) (a := some m) rfl rfl rfl (List.Subset.refl _) rfl (by simp) ?_
  rintro i session seen m' hi heq hwrites
  obtain rfl := Option.some.inj heq
  exact .inr ⟨rfl, hm i session seen hi hwrites⟩

theorem kept_deliver (h : w.Kept) : (w.move .deliver).Kept := by
  rw [move]
  split
  · exact h
  · next id m rest hto =>
    split
    · exact h
    · have hmem : (id, m) ∈ w.toConn := hto ▸ List.mem_cons_self
      have hsub : rest ⊆ w.toConn := by
        rw [hto]
        exact List.subset_cons_self _ _
      have hdelivered : w.delivered ⊆ w.delivered ++ [(id, m)] := List.subset_append_left _ _
      have hblamed : ∀ {i session message}, w.Blamed i session message →
          World.Blamed
            { w with
              shared := (w.shared.onMessage m).1
              toDaemon := w.toDaemon ++ (w.shared.onMessage m).2.map fun m => (none, m)
              toConn := rest
              delivered := w.delivered ++ [(id, m)] } i session message :=
        fun hb => blamed_append rfl hb
      -- The message in hand is the answer to an attach it is written to, or
      -- comes behind it.
      have hcomes : ∀ {i session seen}, w.Attaching i session seen → .session session ∈ m.writes →
          id = some i ∨ id = none ∧ SentKeyframe i session w.delivered := by
        intro i session seen hi hwrites
        have hc := h.conn i session seen hi [] id m rest hto hwrites
        rwa [List.append_nil] at hc
      constructor
      case asked =>
        intro i c hc
        obtain hc | hc := List.mem_append.1 hc
        · exact h.asked i c hc
        · simp at hc
      case answered => exact fun i m' hm' => h.answered i m' (hsub hm')
      case known =>
        intro i m' hm'
        obtain hm' | hm' := List.mem_append.1 hm'
        · exact h.known i m' hm'
        · obtain ⟨rfl, rfl⟩ := Prod.mk.inj (List.mem_singleton.1 hm')
          obtain ⟨call, hcall, -⟩ := h.answered i m' hmem
          exact ⟨call, hcall⟩
      case unsent =>
        intro i call seen hi
        obtain ⟨hto', hsent, hdel⟩ := h.unsent i call seen hi
        refine ⟨fun c hc => ?_, fun m' hm' => hsent m' (hsub hm'), fun m' hm' => ?_⟩
        · obtain hc | hc := List.mem_append.1 hc
          · exact hto' c hc
          · simp at hc
        · obtain hm' | hm' := List.mem_append.1 hm'
          · exact hdel m' hm'
          · obtain ⟨rfl, rfl⟩ := Prod.mk.inj (List.mem_singleton.1 hm')
            exact hsent m' hmem
      case single => exact h.single
      case conn =>
        rintro i session seen hi before id' m' after rfl hwrites
        have hc := h.conn i session seen hi ((id, m) :: before) id' m' after hto hwrites
        rw [List.append_assoc]
        exact hc
      case daemon =>
        intro i session seen hi id' c hc hcasks
        obtain hc | hc := List.mem_append.1 hc
        · exact (h.daemon i session seen hi id' c hc hcasks).imp_right fun hn =>
            ⟨hn.1, sentKeyframe_mono hdelivered hn.2⟩
        · obtain ⟨c', hc', heq⟩ := List.mem_map.1 hc
          obtain ⟨rfl, rfl⟩ := Prod.mk.inj heq
          obtain ⟨session', rfl, hrep⟩ := Shared.mem_asks_onMessage hc'
          obtain rfl := Option.some.inj hcasks
          exact .inr ⟨rfl, sentKeyframe_mono hdelivered (h.shows i session' seen hi hrep)⟩
      case shows =>
        intro i session seen hi hrep
        obtain hrep | ⟨frame, rfl⟩ := Shared.replica_or_keyframe hrep
        · exact sentKeyframe_mono hdelivered (h.shows i session seen hi hrep)
        · obtain rfl | ⟨-, hsent⟩ := hcomes hi (List.mem_singleton_self _)
          · exact ⟨frame, List.mem_append_right _ (List.mem_singleton_self _)⟩
          · exact sentKeyframe_mono hdelivered hsent
      case blames =>
        intro i session seen message hi herr hgen
        obtain ⟨heq, hgeq⟩ | ⟨session', message', rfl, heq⟩ := w.shared.sessionError_onMessage m
        · exact hblamed (h.blames i session seen message hi (heq ▸ herr) (hgeq ▸ hgen))
        · obtain ⟨rfl, rfl⟩ := Prod.mk.inj (Option.some.inj (heq.symm.trans herr))
          obtain rfl | ⟨rfl, frame, hframe⟩ := hcomes hi (List.mem_singleton_self _)
          · exact .inl (List.mem_append_right _ (List.mem_singleton_self _))
          · obtain ⟨before, after, hsplit⟩ := List.append_of_mem hframe
            refine .inr ⟨before, frame, after ++ [_], ?_,
              List.mem_append_right _ (List.mem_singleton_self _)⟩
            show w.delivered ++ _ = _
            rw [hsplit, List.append_assoc, List.cons_append]
      case failing =>
        exact fun i call session message hi hcall => hblamed (h.failing i call session message hi hcall)
      case own =>
        intro i call session result hi hcall
        obtain ⟨hok, hrefused⟩ := h.own i call session result hi hcall
        exact ⟨fun answer heq => sentKeyframe_mono hdelivered (hok answer heq),
          fun message heq => hblamed (hrefused message heq)⟩

theorem kept_begin (h : w.Kept) {cols rows : UInt16} {observe : Bool}
    (huntouched : w.Untouched session) (hfresh : (w.shared.replica session).isSome = false) :
    (w.move (.begin (.attach session cols rows observe))).Kept := by
  have hold : ∀ {i other seen}, (w.move (.begin (.attach session cols rows observe))).Attaching i
      other seen → w.Attaching i other seen ∨
        (other = session ∧ seen = w.shared.sessionErrorGen) := by
    rintro i other seen ⟨call, hw, hcall⟩
    obtain hw | ⟨-, rfl, rfl⟩ := waits_of_begin hw
    · exact .inl ⟨call, hw, hcall⟩
    · exact .inr ⟨(Slot.session.inj hcall).symm, rfl⟩
  have herr : (w.shared.want session).sessionError = w.shared.sessionError := by
    rw [Shared.want]
    split <;> rfl
  have hgen : (w.shared.want session).sessionErrorGen = w.shared.sessionErrorGen := by
    rw [Shared.want]
    split <;> rfl
  constructor
  case asked =>
    intro i c hc
    obtain ⟨call, hcall, heq⟩ := h.asked i c hc
    exact ⟨call, callOf_begin hcall, heq⟩
  case answered =>
    intro i m hm
    obtain ⟨call, hcall, hfits⟩ := h.answered i m hm
    exact ⟨call, callOf_begin hcall, hfits⟩
  case known =>
    intro i m hm
    obtain ⟨call, hcall⟩ := h.known i m hm
    exact ⟨call, callOf_begin hcall⟩
  case unsent =>
    intro i call seen hi
    obtain hi | ⟨rfl, -, -⟩ := task_of_begin hi
    · exact h.unsent i call seen hi
    · -- Nothing is of a call that only now begins.
      have hnew : ∀ call, w.callOf w.tasks.length ≠ some call := by
        rw [callOf_length]
        simp
      exact ⟨fun c hc => by obtain ⟨call, hcall, -⟩ := h.asked _ c hc; exact hnew call hcall,
        fun m hm => by obtain ⟨call, hcall, -⟩ := h.answered _ m hm; exact hnew call hcall,
        fun m hm => by obtain ⟨call, hcall⟩ := h.known _ m hm; exact hnew call hcall⟩
  case single =>
    have hunder : ∀ {i other}, (w.move (.begin (.attach session cols rows observe))).UnderWay i
        other → w.UnderWay i other ∨ (i = w.tasks.length ∧ other = session) := by
      rintro i other ⟨call, phase, hi, hcall, hphase⟩
      obtain hi | ⟨rfl, rfl, -⟩ := task_of_begin hi
      · exact .inl ⟨call, phase, hi, hcall, hphase⟩
      · exact .inr ⟨rfl, (Slot.session.inj hcall).symm⟩
    intro other i j hi hj
    obtain hi' | ⟨rfl, rfl⟩ := hunder hi
    · obtain hj' | ⟨-, rfl⟩ := hunder hj
      · exact h.single other i j hi' hj'
      · exact absurd hi' (huntouched.idle i)
    · obtain hj' | ⟨rfl, -⟩ := hunder hj
      · exact absurd hj' (huntouched.idle j)
      · rfl
  case conn =>
    intro i other seen hi before id m after hsplit hwrites
    obtain hi | ⟨rfl, -⟩ := hold hi
    · exact h.conn i other seen hi before id m after hsplit hwrites
    · refine absurd hwrites (huntouched.quiet (id, m) ?_)
      rw [show w.toConn = _ from hsplit]
      exact List.mem_append_right _ List.mem_cons_self
  case daemon =>
    intro i other seen hi id c hc hcasks
    obtain hi | ⟨rfl, -⟩ := hold hi
    · exact h.daemon i other seen hi id c hc hcasks
    · exact absurd hcasks (huntouched.unasked (id, c) hc)
  case shows =>
    intro i other seen hi hrep
    have hsome : (w.shared.replica other).isSome = true :=
      (congrArg _ (replica_begin w.shared (.attach session cols rows observe) other)).symm.trans hrep
    obtain hi' | ⟨rfl, -⟩ := hold hi
    · exact h.shows i other seen hi' hsome
    · exact absurd (hfresh.symm.trans hsome) (by simp)
  case blames =>
    intro i other seen message hi herror hne
    obtain hi | ⟨-, rfl⟩ := hold hi
    · exact h.blames i other seen message hi (herr.symm.trans herror) (hgen ▸ hne)
    · exact absurd hgen hne
  case failing =>
    intro i call other message hi hcall
    obtain hi | ⟨-, -, hphase⟩ := task_of_begin hi
    · exact h.failing i call other message hi hcall
    · exact absurd hphase (by simp)
  case own =>
    intro i call other result hi hcall
    obtain hi | ⟨-, -, hphase⟩ := task_of_begin hi
    · exact h.own i call other result hi hcall
    · exact absurd hphase (by simp)

end World

end Zesterm.Mcp
