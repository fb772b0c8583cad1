/-
Zesterm.Mcp.AnswerTheorems — what an answer makes of the call it answers.

An answer carries no name of its request. It is written to a `Slot` of the
shared state, and a call returns what it finds in the slot it waits on. So
a message written elsewhere makes no call ready (`ready_of_onMessage`), and
the answer to a call makes it ready with what the answer says
(`outcome_of_ready`).
-/
import Zesterm.Mcp.Conn

namespace Zesterm.Mcp

variable {K : ReplicaKind}

/-! ## Slots -/

/-- What of the shared state an answer is written to. -/
inductive Slot where
  | created
  | listing
  | config
  | configWritten
  | blocks (query : Str)
  | session (addr : SessionAddr)
  deriving DecidableEq

/-- Where a call looks for its answer. -/
def Call.waitsOn : Call → Slot
  | .createSession .. => .created
  | .listSessions => .listing
  | .getConfig .. => .config
  | .setConfig .. => .configWritten
  | .searchBlocks query _ => .blocks query
  | .attach session .. => .session session

/-- What the answer to a call is written to. -/
def Call.answers : Call → List Slot
  | .createSession .. => [.created, .listing]
  | call => [call.waitsOn]

/-- What a message is written to. -/
def HostMessage.writes : HostMessage K → List Slot
  | .sessions _ (some _) _ => [.created, .listing]
  | .sessions _ none _ => [.listing]
  | .configState _ => [.config]
  | .configWritten _ => [.configWritten]
  | .blockMatches found => [.blocks found.query]
  | .keyframe session _ => [.session session]
  | .error (some session) _ => [.session session]
  | _ => []

/-- An answer of the kind a daemon gives to a message. -/
inductive Fits : ClientMessage → HostMessage K → Prop
  | refused (c : ClientMessage) (message : Str) : Fits c (.error none message)
  | created (command cwd profile : Str) (cols rows : UInt16) (listing : List SessionInfo)
      (id : UInt64) (offer : Option Str) :
      Fits (.createSession command cwd profile cols rows) (.sessions listing (some id) offer)
  | listing (listing : List SessionInfo) (offer : Option Str) :
      Fits .listSessions (.sessions listing none offer)
  | config (keys : List Str) (profile : Str) (wantFields wantThemes : Bool) (body : Str) :
      Fits (.getConfig keys profile wantFields wantThemes) (.configState body)
  | configWritten (op : ConfigOp) (key profile value dest body : Str) :
      Fits (.setConfig op key profile value dest) (.configWritten body)
  | blocks (limit : UInt32) (found : BlockMatches) :
      Fits (.searchBlocks found.query limit) (.blockMatches found)
  | attached (session : SessionAddr) (cols rows : UInt16) (observe : Bool) (frame : K.Frame) :
      Fits (.attach session cols rows observe) (.keyframe session frame)
  | denied (session : SessionAddr) (cols rows : UInt16) (observe : Bool) (message : Str) :
      Fits (.attach session cols rows observe) (.error (some session) message)
  | recovered (session : SessionAddr) (frame : K.Frame) :
      Fits (.requestKeyframe session) (.keyframe session frame)
  | lost (session : SessionAddr) (message : Str) :
      Fits (.requestKeyframe session) (.error (some session) message)

/-- What a daemon says of its own accord: a session that was resized is sent
as a keyframe. -/
inductive HostMessage.Unasked : HostMessage K → Prop
  | update (session : SessionAddr) (delta : K.Delta) : Unasked (.update session delta)
  | keyframe (session : SessionAddr) (frame : K.Frame) : Unasked (.keyframe session frame)
  | exited (session : SessionAddr) (code : Option UInt32) : Unasked (.exited session code)
  | other : Unasked .other

/-- What an answer says to the call it answers: an `Ok`, or a refusal. -/
def outcome : Call → HostMessage K → Option (Except Str Answer)
  | .createSession .., .sessions sessions (some id) _ =>
    (sessions.find? fun si => si.addr.session = id).map fun si => .ok (.created si.addr)
  | .listSessions, .sessions sessions _ _ => some (.ok (.sessions sessions))
  | .getConfig .., .configState body => some (.ok (.config body))
  | .setConfig .., .configWritten body => some (.ok (.configWritten body))
  | .searchBlocks .., .blockMatches found => some (Call.searched found)
  | .attach .., .keyframe .. => some (.ok .attached)
  | .attach .., .error _ message => some (.error message)
  | _, _ => none

/-- An answer is written to no more than the answers of its call. -/
theorem mem_answers_of_fits {call : Call} {m : HostMessage K} {σ : Slot}
    (hfits : Fits call.message m) (h : σ ∈ m.writes) : σ ∈ call.answers := by
  cases call <;> cases hfits <;> first
    | exact h
    | exact absurd h (List.not_mem_nil)

/-! ## Replicas -/

namespace Shared

variable (s : Shared K)

theorem isSome_replica (addr : SessionAddr) :
    (s.replica addr).isSome = true ↔ addr ∈ s.replicas.map Prod.fst := by
  rw [replica, Option.isSome_map, List.find?_isSome, List.mem_map]
  simp only [decide_eq_true_eq]

theorem map_write (addr : SessionAddr) (view : K.View) :
    ∀ l : List (SessionAddr × K.View), (setReplica.write addr view l).map Prod.fst = l.map Prod.fst
  | [] => rfl
  | r :: rest => by
    rw [setReplica.write]
    split
    · next h => rw [List.map_cons, List.map_cons, h]
    · rw [List.map_cons, List.map_cons, map_write addr view rest]

@[simp] theorem isSome_setReplica (addr addr' : SessionAddr) (view : K.View) :
    ((s.setReplica addr view).replica addr').isSome = (s.replica addr').isSome := by
  rw [Bool.eq_iff_iff, isSome_replica, isSome_replica, setReplica, map_write]

theorem replica_onMessage_of_frame (m : HostMessage K) (addr : SessionAddr)
    (h : .session addr ∉ m.writes) :
    ((s.onMessage m).1.replica addr).isSome = (s.replica addr).isSome := by
  cases m with
  | sessions sessions created offer => cases created <;> rfl
  | configState | configWritten | blockMatches | other => rfl
  | keyframe session frame =>
    have hne : session ≠ addr := fun h' => h (by rw [h']; exact List.mem_singleton_self _)
    rw [onMessage]
    split
    · rfl
    · split
      · exact isSome_setReplica ..
      · rw [Bool.eq_iff_iff, isSome_replica, isSome_replica, List.map_append, List.mem_append,
          List.map_singleton, List.mem_singleton, or_iff_left (Ne.symm hne)]
  | update session delta =>
    rw [onMessage]
    split
    · rfl
    · split <;> exact isSome_setReplica ..
  | exited session code =>
    rw [onMessage]
    split
    · rfl
    · exact isSome_setReplica ..
  | error session message =>
    cases session with
    | none => rfl
    | some session =>
      rw [onMessage]
      split <;> rfl

/-- The reader drops no replica. -/
theorem isSome_onMessage (m : HostMessage K) (addr : SessionAddr)
    (h : (s.replica addr).isSome = true) : ((s.onMessage m).1.replica addr).isSome = true := by
  by_cases hm : .session addr ∈ m.writes
  · cases m with
    | keyframe session frame =>
      rw [onMessage]
      split
      · exact h
      · split
        · rw [isSome_setReplica]
          exact h
        · rw [isSome_replica, List.map_append, List.mem_append]
          exact .inl ((isSome_replica s addr).1 h)
    | error session message =>
      cases session with
      | none => exact h
      | some session =>
        rw [onMessage]
        split <;> exact h
    | sessions sessions created offer => cases created <;> exact h
    | _ => exact absurd hm (by simp [HostMessage.writes])
  · rw [replica_onMessage_of_frame s m addr hm]
    exact h

/-- What the reader makes of a message, by what it is written to. -/
inductive Wrote (s : Shared K) : HostMessage K → Shared K → Prop
  | listing (listing : List SessionInfo) (offer offer' : Option Str) :
      Wrote s (.sessions listing none offer)
        { s with sessions := listing, sessionsGen := s.sessionsGen + 1, offer := offer' }
  | created (listing : List SessionInfo) (id : UInt64) (offer offer' : Option Str) :
      Wrote s (.sessions listing (some id) offer)
        { s with
          created := (listing.find? fun si => si.addr.session = id).map SessionInfo.addr
          sessions := listing, sessionsGen := s.sessionsGen + 1, offer := offer' }
  | config (body : Str) :
      Wrote s (.configState body) { s with config := some body, configGen := s.configGen + 1 }
  | configWritten (body : Str) :
      Wrote s (.configWritten body)
        { s with configWritten := some body, configWrittenGen := s.configWrittenGen + 1 }
  | blocks (found : BlockMatches) :
      Wrote s (.blockMatches found)
        { s with blockMatches := some found, blockMatchesGen := s.blockMatchesGen + 1 }
  | denied (session : SessionAddr) (message : Str) :
      Wrote s (.error (some session) message)
        { s with
          sessionError := some (session, message), sessionErrorGen := s.sessionErrorGen + 1 }
  | refused (message : Str) : Wrote s (.error none message) { s with error := some message }
  /-- A message of a session that is not refused, or not wanted. -/
  | replicas (m : HostMessage K) (replicas : List (SessionAddr × K.View))
      (hm : ∀ σ ∈ m.writes, ∃ addr, σ = .session addr) : Wrote s m { s with replicas := replicas }

theorem wrote_onMessage (m : HostMessage K) : Wrote s m (s.onMessage m).1 := by
  have hview : ∀ (m : HostMessage K) (addr : SessionAddr), m.writes ⊆ [.session addr] →
      ∀ σ ∈ m.writes, ∃ addr, σ = .session addr :=
    fun m addr h σ hσ => ⟨addr, List.mem_singleton.1 (h hσ)⟩
  cases m with
  | sessions listing created offer =>
    cases created with
    | none => exact .listing listing offer _
    | some id => exact .created listing id offer _
  | configState body => exact .config body
  | configWritten body => exact .configWritten body
  | blockMatches found => exact .blocks found
  | keyframe session frame =>
    have h := hview (.keyframe session frame) session (List.Subset.refl _)
    rw [onMessage]
    split
    · exact .replicas _ s.replicas h
    · split <;> exact .replicas _ _ h
  | update session delta =>
    have h := hview (.update session delta) session (List.nil_subset _)
    rw [onMessage]
    split
    · exact .replicas _ s.replicas h
    · split <;> exact .replicas _ _ h
  | exited session code =>
    have h := hview (.exited session code) session (List.nil_subset _)
    rw [onMessage]
    split
    · exact .replicas _ s.replicas h
    · exact .replicas _ _ h
  | error session message =>
    cases session with
    | none => exact .refused message
    | some session =>
      rw [onMessage]
      split
      · exact .denied session message
      · exact .replicas _ s.replicas (hview _ session (List.Subset.refl _))
  | other => exact .replicas _ s.replicas fun σ hσ => absurd hσ List.not_mem_nil

/-- A keyframe of a wanted session makes a replica of it. -/
theorem replica_of_keyframe {s : Shared K} {session : SessionAddr} (frame : K.Frame)
    (h : session ∈ s.wanted) :
    ((s.onMessage (.keyframe session frame)).1.replica session).isSome = true := by
  rw [onMessage, if_neg (not_not_intro h)]
  split
  · next view hview => rw [isSome_setReplica, hview]; rfl
  · rw [isSome_replica, List.map_append]
    exact List.mem_append_right _ (List.mem_singleton_self _)

/-- The reader asks for nothing, or for a keyframe of a session it has a
replica of. -/
theorem asks_onMessage (m : HostMessage K) :
    (s.onMessage m).2 = [] ∨
      ∃ session, (s.onMessage m).2 = [.requestKeyframe session] ∧ (s.replica session).isSome = true := by
  cases m with
  | update session delta =>
    rw [onMessage]
    split
    · exact .inl rfl
    · next view hview =>
      split
      · exact .inr ⟨session, rfl, by rw [hview]; rfl⟩
      · exact .inl rfl
  | keyframe session frame =>
    rw [onMessage]
    split
    · exact .inl rfl
    · split <;> exact .inl rfl
  | exited session code =>
    rw [onMessage]
    split <;> exact .inl rfl
  | error session message =>
    cases session with
    | none => exact .inl rfl
    | some session =>
      rw [onMessage]
      split <;> exact .inl rfl
  | _ => exact .inl rfl

theorem mem_asks_onMessage {s : Shared K} {m : HostMessage K} {c : ClientMessage}
    (h : c ∈ (s.onMessage m).2) :
    ∃ session, c = .requestKeyframe session ∧ (s.replica session).isSome = true := by
  obtain heq | ⟨session, heq, hrep⟩ := s.asks_onMessage m
  · rw [heq] at h
    exact absurd h List.not_mem_nil
  · rw [heq] at h
    exact ⟨session, List.mem_singleton.1 h, hrep⟩

end Shared

/-! ## What a call finds -/

namespace Call

/-- A message that is not written to what a call waits on makes no call
ready. -/
theorem ready_of_onMessage {s : Shared K} {m : HostMessage K} {seen : UInt64} {call : Call}
    {r : Except Str Answer} (hm : call.waitsOn ∉ m.writes)
    (h : call.ready (s.onMessage m).1 seen = some r) : call.ready s seen = some r := by
  have hview : ∀ session, call.waitsOn = .session session →
      ((s.onMessage m).1.replica session).isSome = (s.replica session).isSome :=
    fun session hs => s.replica_onMessage_of_frame m session (hs ▸ hm)
  have hwrote := s.wrote_onMessage m
  generalize (s.onMessage m).1 = s' at h hview hwrote
  cases call with
  | attach session cols rows observe =>
    simp only [ready, hview session rfl] at h ⊢
    cases hwrote with
    | denied session' message =>
      have hne : session' ≠ session := fun h' => hm (by simp [waitsOn, HostMessage.writes, h'])
      simp only [hne, false_and, if_false] at h
      split at h
      · next hreplica => rw [if_pos hreplica, h]
      · exact absurd h (by simp)
    | _ => exact h
  | searchBlocks query limit =>
    cases hwrote with
    | blocks found =>
      have hne : found.query ≠ query := fun h' => hm (by simp [waitsOn, HostMessage.writes, h'])
      simp [ready, Option.filter, hne] at h
    | _ => exact h
  | _ =>
    cases hwrote <;> first
      | exact h
      | exact absurd (by simp [waitsOn, HostMessage.writes]) hm

/-- An attach is ready with its replica. -/
theorem ready_attach_of_replica {s : Shared K} {session : SessionAddr} (seen : UInt64)
    (cols rows : UInt16) (observe : Bool) (h : (s.replica session).isSome = true) :
    (Call.attach session cols rows observe).ready s seen = some (.ok .attached) := by
  rw [ready, if_pos h]

/-- The answer to a call makes it ready with what the answer says, if it was
not ready before. -/
theorem outcome_of_ready {s : Shared K} {m : HostMessage K} {seen : UInt64} {call : Call}
    {r : Except Str Answer} (hfits : Fits call.message m)
    (h : call.ready (s.onMessage m).1 seen = some r) :
    outcome call m = some r ∨ call.ready s seen = some r := by
  cases call <;> cases hfits
  case createSession.created listing id offer =>
    exact .inl (by simpa [ready, Shared.onMessage, outcome] using h)
  case attach.attached session cols rows observe frame =>
    by_cases hreplica : ((s.onMessage (.keyframe session frame)).1.replica session).isSome = true
    · rw [ready_attach_of_replica seen cols rows observe hreplica] at h
      exact .inl h
    · -- A keyframe of a session that is not wanted.
      have hwanted : session ∉ s.wanted :=
        fun hwanted => hreplica (Shared.replica_of_keyframe frame hwanted)
      rw [Shared.onMessage, if_pos hwanted] at h
      exact .inr h
  case attach.denied session cols rows observe message =>
    rw [Shared.onMessage] at h
    split at h
    · rw [ready] at h
      split at h
      · next hreplica =>
        have hreplica : (s.replica session).isSome = true := hreplica
        exact .inr ((ready_attach_of_replica seen cols rows observe hreplica).trans h)
      · simp only [true_and] at h
        split at h
        · exact .inl h
        · exact absurd h (by simp)
    · exact .inr h
  case searchBlocks.blocks limit found =>
    simp only [ready, Shared.onMessage, Option.filter, decide_true, if_true,
      Option.ite_none_right_eq_some] at h
    exact .inl h.2
  all_goals first
    | exact .inr (ready_of_onMessage List.not_mem_nil h)
    | (obtain ⟨-, h⟩ := Option.ite_none_right_eq_some.1 h
       exact .inl h)

end Call

end Zesterm.Mcp
