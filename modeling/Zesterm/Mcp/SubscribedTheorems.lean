/-
Zesterm.Mcp.SubscribedTheorems — a wanted session is a subscribed one.

The connection wants a session, holds a replica of it, and the daemon holds
a subscriber for it: three views of one fact, kept in step by messages. For
a live session `InStep` says how they stand while some are still on their
way, and every move that is clear of the others keeps it (`sound_step`).
When nothing is on its way the three are one, and what an attach returned is
of its own attachment (`wanted_subscribed`). An attach that gives up leaves
its subscriber behind (`given_up_subscribed`).
-/
import Zesterm.Mcp.AttachTheorems

namespace Zesterm.Mcp

variable {K : ReplicaKind}

/-! ## The daemon -/

/-- Whether a session is attached to once the daemon has handled a message. -/
def ClientMessage.leaves (session : SessionAddr) (attached : Bool) : ClientMessage → Bool
  | .attach other .. => if other = session then true else attached
  | .detach other => if other = session then false else attached
  | _ => attached

/-- The same, of all that is on its way. -/
def subscribedAfter (session : SessionAddr) (attached : Bool)
    (sent : List (Option Nat × ClientMessage)) : Bool :=
  sent.foldl (fun a p => p.2.leaves session a) attached

theorem subscribedAfter_append (session : SessionAddr) (attached : Bool)
    (sent more : List (Option Nat × ClientMessage)) :
    subscribedAfter session attached (sent ++ more) =
      subscribedAfter session (subscribedAfter session attached sent) more :=
  List.foldl_append

/-- Where nothing asks for a session, it stays unattached. -/
theorem subscribedAfter_of_unasked {session : SessionAddr} :
    ∀ {sent : List (Option Nat × ClientMessage)}, (∀ p ∈ sent, p.2.asks ≠ some session) →
      subscribedAfter session false sent = false
  | [], _ => rfl
  | p :: rest, h => by
    have hp : p.2.leaves session false = false := by
      have hne := h p List.mem_cons_self
      obtain ⟨id, c⟩ := p
      cases c with
      | attach other => exact if_neg fun heq => hne (congrArg some heq)
      | detach other => exact ite_self _
      | _ => rfl
    rw [subscribedAfter, List.foldl_cons, hp]
    exact subscribedAfter_of_unasked fun q hq => h q (List.mem_cons_of_mem _ hq)

namespace Host

variable {session : SessionAddr}

@[simp] theorem life_serve (h : Host) (frame : K.Frame) (c : ClientMessage) :
    (h.serve frame c).1.life = h.life := by
  cases c with
  | attach session =>
    rw [serve_attach]
    split
    · cases h.attached session <;> rfl
    · rfl
  | requestKeyframe session =>
    rw [serve_requestKeyframe]
    split
    · rfl
    · split
      · rfl
      · split <;> rfl
  | detach session =>
    rw [serve_detach]
    split
    · split <;> rfl
    · rfl
  | _ => rfl

/-- The daemon answers in kind. -/
theorem fits_serve {h : Host} {frame : K.Frame} {c : ClientMessage} {m : HostMessage K}
    (hm : (h.serve frame c).2 = some m) : Fits c m := by
  cases c with
  | attach session cols rows observe =>
    rw [serve_attach] at hm
    split at hm
    · obtain rfl := Option.some.inj hm
      exact .attached session cols rows observe frame
    · obtain rfl := Option.some.inj hm
      exact .denied session cols rows observe _
  | requestKeyframe session =>
    rw [serve_requestKeyframe] at hm
    split at hm
    · obtain rfl := Option.some.inj hm
      exact .lost session _
    · split at hm
      · obtain rfl := Option.some.inj hm
        exact .lost session _
      · split at hm
        · obtain rfl := Option.some.inj hm
          exact .recovered session frame
        · obtain rfl := Option.some.inj hm
          exact .lost session _
  | detach session =>
    rw [serve_detach] at hm
    split at hm
    · split at hm <;> exact absurd hm (by simp)
    · exact absurd hm (by simp)
  | _ => cases hm

/-- The daemon keeps the handle of the one subscriber a live session has of
this connection. -/
theorem handles_serve {h : Host} (frame : K.Frame) (c : ClientMessage)
    (hlive : h.life session = .live) (hone : h.subscribers session = (h.attached session).toList) :
    ((h.serve frame c).1.attached session).isSome = c.leaves session (h.attached session).isSome ∧
      (h.serve frame c).1.subscribers session = ((h.serve frame c).1.attached session).toList := by
  cases c with
  | attach other cols rows observe =>
    by_cases heq : other = session
    · subst heq
      rw [serve_attach, if_pos hlive, ClientMessage.leaves, if_pos rfl]
      cases hat : h.attached other with
      | none => simp [subscribe, hone, hat]
      | some stale => simp [subscribe, unsubscribe, hone, hat]
    · have hne := Ne.symm heq
      rw [serve_attach, ClientMessage.leaves, if_neg heq]
      split
      · cases h.attached other <;> simp [subscribe, unsubscribe, Function.update_of_ne hne, hone]
      · exact ⟨rfl, hone⟩
  | requestKeyframe other =>
    rw [serve_requestKeyframe]
    split
    · exact ⟨rfl, hone⟩
    · split
      · exact ⟨rfl, hone⟩
      · split <;> exact ⟨rfl, hone⟩
  | detach other =>
    by_cases heq : other = session
    · subst heq
      rw [serve_detach, ClientMessage.leaves, if_pos rfl]
      split
      · next handle hat =>
        rw [if_pos hlive]
        simp [forget, unsubscribe, hone, hat]
      · next hat => rw [hone, hat]; simp
    · have hne := Ne.symm heq
      rw [serve_detach, ClientMessage.leaves, if_neg heq]
      split
      · split <;> simp [forget, unsubscribe, Function.update_of_ne hne, hone]
      · exact ⟨rfl, hone⟩
  | _ => exact ⟨rfl, hone⟩

/-- A live session is not refused: it is attached to, or was. -/
theorem served_of_live {h : Host} {frame : K.Frame} {c : ClientMessage} {message : Str}
    (hlive : h.life session = .live) (hone : h.subscribers session = (h.attached session).toList)
    (hrequest : c = .requestKeyframe session → (h.attached session).isSome = true) :
    (h.serve frame c).2 ≠ some (.error (some session) message) := by
  intro hm
  have hfits := fits_serve hm
  cases hfits with
  | denied _ cols rows observe =>
    rw [serve_attach, if_pos hlive] at hm
    exact absurd hm (by simp)
  | lost =>
    obtain ⟨handle, hat⟩ := Option.isSome_iff_exists.1 (hrequest rfl)
    rw [serve_requestKeyframe, hat] at hm
    simp only [hlive, ne_eq, not_true, if_false, hone, hat, Option.toList_some, List.mem_singleton,
      if_true] at hm
    exact absurd hm (by simp)

/-- An unborn session is attached to by nothing. -/
theorem unborn_serve (h : Host) (frame : K.Frame) (c : ClientMessage)
    (hunborn : h.life session = .unborn) (hat : h.attached session = none)
    (hsub : h.subscribers session = []) :
    (h.serve frame c).1.attached session = none ∧ (h.serve frame c).1.subscribers session = [] ∧
      ∀ frame', (h.serve frame c).2 ≠ some (.keyframe session frame') := by
  have hnone : ∀ frame', (h.serve frame c).2 ≠ some (.keyframe session frame') := by
    intro frame' hm
    have hfits := fits_serve hm
    cases hfits with
    | attached =>
      rw [serve_attach, if_neg (by rw [hunborn]; simp)] at hm
      exact absurd (Option.some.inj hm) (by simp [noSuch])
    | recovered =>
      rw [serve_requestKeyframe, hat] at hm
      exact absurd (Option.some.inj hm) (by simp)
  refine ⟨?_, ?_, hnone⟩
  · cases c with
    | attach other =>
      rw [serve_attach]
      split
      · next hlive =>
        have hne : session ≠ other := by
          rintro rfl
          rw [hunborn] at hlive
          exact absurd hlive (by simp)
        cases h.attached other <;>
          simp only [subscribe, unsubscribe, Function.update_of_ne hne, hat]
      · exact hat
    | requestKeyframe other =>
      rw [serve_requestKeyframe]
      split
      · exact hat
      · split
        · exact hat
        · split <;> exact hat
    | detach other =>
      rw [serve_detach]
      split
      · split <;>
          simp only [forget, unsubscribe, Function.update_apply, hat, ite_self]
      · exact hat
    | _ => exact hat
  · cases c with
    | attach other =>
      rw [serve_attach]
      split
      · next hlive =>
        have hne : session ≠ other := by
          rintro rfl
          rw [hunborn] at hlive
          exact absurd hlive (by simp)
        cases h.attached other <;>
          simp only [subscribe, unsubscribe, Function.update_of_ne hne, hsub]
      · exact hsub
    | requestKeyframe other =>
      rw [serve_requestKeyframe]
      split
      · exact hsub
      · split
        · exact hsub
        · split <;> exact hsub
    | detach other =>
      rw [serve_detach]
      split
      · next handle hother =>
        have hne : session ≠ other := by
          rintro rfl
          rw [hat] at hother
          exact absurd hother (by simp)
        split <;> simp only [forget, unsubscribe, Function.update_of_ne hne, hsub]
      · exact hsub
    | _ => exact hsub

end Host

/-! ## Three views -/

namespace World

/-- An attach of a session is between its lock and its message. -/
def Begun (w : World K) (session : SessionAddr) : Prop :=
  ∃ (i : Nat) (call : Call) (seen : UInt64),
    w.tasks[i]? = some ⟨call, .begun seen⟩ ∧ call.waitsOn = .session session

end World

namespace Link

/-- The moves that are clear of others. An attach begins on a session that is
untouched and not held, and does not give up on one that is live and wanted;
no session is given up between an attach's lock and its message, pushed a
keyframe that would overtake the answer to one, or born under one. -/
def Clear (l : Link K) : LinkMove K → Prop
  | .attach session .. =>
    l.world.Untouched session ∧ (l.world.shared.replica session).isSome = false
  | .wake i late => late = true → ∀ call seen session,
    l.world.tasks[i]? = some ⟨call, .waiting seen⟩ → call.waitsOn = .session session →
      call.ready l.world.shared seen = none → l.host.life session = .live →
        session ∉ l.world.shared.wanted
  | .detach session => ¬ l.world.Begun session
  | .push session (.keyframe _) => ∀ i seen, l.world.Attaching i session seen →
    World.SentKeyframe i session (l.world.delivered ++ l.world.toConn)
  | .spawn session => l.world.Untouched session
  | _ => True

/-- Nothing is on its way, or about to be. -/
def Still (l : Link K) : Prop :=
  l.world.toDaemon = [] ∧ l.world.toConn = [] ∧ ∀ session, ¬ l.world.Begun session

/-- The live sessions that are subscribed to, wanted, and held are the
same. -/
def Agree (l : Link K) : Prop :=
  ∀ session, l.host.life session = .live →
    (l.host.subscribers session ≠ [] ↔ session ∈ l.world.shared.wanted) ∧
      (session ∈ l.world.shared.wanted ↔ (l.world.shared.replica session).isSome = true)

/-- How a live session stands while messages are on their way. -/
structure InStep (l : Link K) (session : SessionAddr) : Prop where
  handles : l.host.subscribers session = (l.host.attached session).toList
  wanted : session ∈ l.world.shared.wanted ↔
    subscribedAfter session (l.host.attached session).isSome l.world.toDaemon = true ∨
      l.world.Begun session
  served : ∀ before id after, l.world.toDaemon = before ++ (id, .requestKeyframe session) :: after →
    subscribedAfter session (l.host.attached session).isSome before = true
  given : ∀ (i : Nat) (call : Call) (e : ConnError), l.world.tasks[i]? = some ⟨call, .failing e⟩ →
    call.waitsOn = .session session → session ∉ l.world.shared.wanted
  clean : ∀ id message, (id, .error (some session) message) ∉ l.world.toConn
  calm : ∀ i seen message, l.world.Attaching i session seen →
    l.world.shared.sessionError = some (session, message) → l.world.shared.sessionErrorGen = seen
  held : (l.world.shared.replica session).isSome = true → session ∈ l.world.shared.wanted
  owed : session ∈ l.world.shared.wanted →
    (l.world.shared.replica session).isSome = true ∨ l.world.Begun session ∨
      (∃ id cols rows observe, (id, .attach session cols rows observe) ∈ l.world.toDaemon) ∨
        ∃ id frame, (id, .keyframe session frame) ∈ l.world.toConn

/-- How a session that is not there yet stands. -/
structure Unheard (l : Link K) (session : SessionAddr) : Prop where
  unattached : l.host.attached session = none
  unsubscribed : l.host.subscribers session = []
  unheld : (l.world.shared.replica session).isSome = false
  silent : ∀ id frame, (id, .keyframe session frame) ∉ l.world.toConn
  wanted : session ∈ l.world.shared.wanted → ∃ i, l.world.UnderWay i session

structure Sound (l : Link K) : Prop where
  kept : l.world.Kept
  linked : l.world.shared.closed = false
  live : ∀ session, l.host.life session = .live → l.InStep session
  unborn : ∀ session, l.host.life session = .unborn → l.Unheard session

/-- When nothing is on its way the three views are one. -/
theorem agree_of_sound {l : Link K} (h : l.Sound) (hstill : l.Still) : l.Agree := by
  intro session hlive
  obtain ⟨hto, hconn, hbegun⟩ := hstill
  have hin := h.live session hlive
  have hwanted := hin.wanted
  rw [hto, or_iff_left (hbegun session)] at hwanted
  refine ⟨?_, fun hw => ?_, hin.held⟩
  · rw [hin.handles, hwanted]
    cases l.host.attached session <;> simp [subscribedAfter]
  · obtain hrep | hb | ⟨id, cols, rows, observe, hmem⟩ | ⟨id, frame, hmem⟩ := hin.owed hw
    · exact hrep
    · exact absurd hb (hbegun session)
    · rw [hto] at hmem
      exact absurd hmem List.not_mem_nil
    · rw [hconn] at hmem
      exact absurd hmem List.not_mem_nil

theorem sound_init (life : SessionAddr → Life) : ({ host := { life := life } } : Link K).Sound where
  kept := World.kept_init
  linked := rfl
  live := fun session _ =>
    { handles := rfl
      wanted := by
        refine ⟨fun h => absurd h List.not_mem_nil, ?_⟩
        rintro (h | ⟨i, call, seen, h, -⟩)
        · exact absurd h (by simp [subscribedAfter])
        · simp at h
      served := fun before id after h => by simp at h
      given := fun i call e h => by simp at h
      clean := fun id message => List.not_mem_nil
      calm := fun i seen message h => by obtain ⟨call, ⟨phase, h, -⟩, -⟩ := h; simp at h
      held := fun h => absurd h (by simp [Shared.replica])
      owed := fun h => absurd h List.not_mem_nil }
  unborn := fun session _ =>
    { unattached := rfl
      unsubscribed := rfl
      unheld := rfl
      silent := fun id frame => List.not_mem_nil
      wanted := fun h => absurd h List.not_mem_nil }

/-! ## One move -/

theorem InStep.frame {l l' : Link K} {session : SessionAddr} (h : l.InStep session)
    (hhost : l'.host = l.host) (htoDaemon : l'.world.toDaemon = l.world.toDaemon)
    (htoConn : l'.world.toConn = l.world.toConn)
    (hwanted : session ∈ l'.world.shared.wanted ↔ session ∈ l.world.shared.wanted)
    (hbegun : l'.world.Begun session ↔ l.world.Begun session)
    (hreplica : (l'.world.shared.replica session).isSome = (l.world.shared.replica session).isSome)
    (herror : l'.world.shared.sessionError = l.world.shared.sessionError)
    (hgen : l'.world.shared.sessionErrorGen = l.world.shared.sessionErrorGen)
    (hattaching : ∀ i seen, l'.world.Attaching i session seen → l.world.Attaching i session seen)
    (hgiven : ∀ (i : Nat) (call : Call) (e : ConnError),
      l'.world.tasks[i]? = some ⟨call, .failing e⟩ → call.waitsOn = .session session →
        session ∉ l.world.shared.wanted) : l'.InStep session where
  handles := by rw [hhost]; exact h.handles
  wanted := by rw [hwanted, hbegun, hhost, htoDaemon]; exact h.wanted
  served := by rw [hhost, htoDaemon]; exact h.served
  given := fun i call e hi hcall => hwanted.not.2 (hgiven i call e hi hcall)
  clean := by rw [htoConn]; exact h.clean
  calm := by
    intro i seen message hi herr
    rw [hgen]
    exact h.calm i seen message (hattaching i seen hi) (herror ▸ herr)
  held := by rw [hwanted, hreplica]; exact h.held
  owed := by rw [hwanted, hreplica, hbegun, htoDaemon, htoConn]; exact h.owed

section Turn

variable {w w' : World K} {i : Nat} {call : Call} {p q : Phase}

theorem begun_of_set (hi : w.tasks[i]? = some ⟨call, p⟩)
    (hset : w'.tasks = w.tasks.set i ⟨call, q⟩) (hp : ∀ seen, p ≠ .begun seen)
    (hq : ∀ seen, q ≠ .begun seen) (session : SessionAddr) :
    w'.Begun session ↔ w.Begun session := by
  constructor
  · rintro ⟨j, other, seen, hj, hother⟩
    obtain ⟨-, -, heq⟩ | hj := World.task_of_set hi hset hj
    · exact absurd heq.symm (hq seen)
    · exact ⟨j, other, seen, hj, hother⟩
  · rintro ⟨j, other, seen, hj, hother⟩
    have hne : j ≠ i := by
      rintro rfl
      obtain ⟨-, rfl⟩ := Task.mk.inj (Option.some.inj (hi.symm.trans hj))
      exact hp seen rfl
    refine ⟨j, other, seen, ?_, hother⟩
    rw [hset, World.getElem?_set_of_some hi, if_neg hne, hj]

theorem underWay_set (hi : w.tasks[i]? = some ⟨call, p⟩)
    (hset : w'.tasks = w.tasks.set i ⟨call, q⟩) {session : SessionAddr} {j : Nat}
    (hq : call.waitsOn = .session session → q.pending = true) (h : w.UnderWay j session) :
    w'.UnderWay j session := by
  obtain ⟨other, phase, hj, hother, hphase⟩ := h
  by_cases hji : j = i
  · subst hji
    obtain ⟨rfl, rfl⟩ := Task.mk.inj (Option.some.inj (hi.symm.trans hj))
    refine ⟨call, q, ?_, hother, hq hother⟩
    rw [hset, World.getElem?_set_of_some hi, if_pos rfl]
  · refine ⟨other, phase, ?_, hother, hphase⟩
    rw [hset, World.getElem?_set_of_some hi, if_neg hji, hj]

end Turn

variable {session : SessionAddr} {l : Link K}

theorem wants_eq_some {call : Call} :
    call.wants = some session ↔ call.waitsOn = .session session := by
  cases call <;> simp [Call.wants, Call.waitsOn]

theorem sound_wake (h : l.Sound) (i : Nat) (late : Bool) (hclear : l.Clear (.wake i late)) :
    (l.move (.wake i late)).Sound := by
  have hmove : l.move (.wake i late) = { l with world := l.world.move (.wake i late) } := rfl
  rw [hmove, World.move]
  split
  case h_2 => exact h
  next call seen hi =>
  have hkept := World.kept_wake h.kept hi late
  obtain heq | ⟨answer, hr, heq⟩ | ⟨e, he, heq⟩ := l.world.wake_cases i call seen late
  · rw [heq]
    exact h
  · rw [heq] at hkept ⊢
    refine ⟨hkept, h.linked, fun session hlive => ?_, fun session hunborn => ?_⟩
    · refine (h.live session hlive).frame rfl rfl rfl Iff.rfl
        (begun_of_set (q := .done (.ok answer)) hi rfl (by simp) (by simp) session) rfl rfl rfl
        (fun j seen' hj => World.attaching_of_set hi rfl (by simp [Phase.noted]) j session seen' hj) ?_
      intro j other e hj hother
      obtain ⟨-, -, hphase⟩ | hj := World.task_of_set hi rfl hj
      · exact absurd hphase (by simp)
      · exact (h.live session hlive).given j other e hj hother
    · have hun := h.unborn session hunborn
      refine ⟨hun.unattached, hun.unsubscribed, hun.unheld, hun.silent, fun hw => ?_⟩
      obtain ⟨j, hj⟩ := hun.wanted hw
      refine ⟨j, underWay_set hi rfl (fun hcall => ?_) hj⟩
      -- An attach finds no replica of a session that is not there.
      obtain ⟨-, hrep⟩ | ⟨message, hmessage, -⟩ := World.found_of_ready hcall hr
      · exact absurd (hun.unheld.symm.trans hrep) (by simp)
      · exact absurd hmessage (by simp)
  · rw [heq] at hkept ⊢
    refine ⟨hkept, h.linked, fun session hlive => ?_, fun session hunborn => ?_⟩
    · refine (h.live session hlive).frame rfl rfl rfl Iff.rfl
        (begun_of_set hi rfl (by simp) (fun seen' => by split <;> simp) session) rfl rfl rfl
        (fun j seen' hj => World.attaching_of_set hi rfl
          (fun seen'' hs => by split at hs <;> exact absurd hs (by simp [Phase.noted])) j session seen' hj)
        ?_
      intro j other e' hj hother
      obtain ⟨rfl, rfl, -⟩ | hj := World.task_of_set hi rfl hj
      · obtain ⟨message, hr, -⟩ | ⟨hnone, hclosed | hlate, -⟩ := he
        · -- A live session is not refused.
          obtain ⟨hok, -⟩ | ⟨message', -, herr, hgen⟩ := World.found_of_ready hother hr
          · exact absurd hok (by simp)
          · exact absurd ((h.live session hlive).calm j seen message' ⟨_, ⟨_, hi, rfl⟩, hother⟩ herr)
              hgen
        · exact absurd (h.linked.symm.trans hclosed) (by simp)
        · exact hclear hlate _ seen session hi hother hnone hlive
      · exact (h.live session hlive).given j other e' hj hother
    · have hun := h.unborn session hunborn
      refine ⟨hun.unattached, hun.unsubscribed, hun.unheld, hun.silent, fun hw => ?_⟩
      obtain ⟨j, hj⟩ := hun.wanted hw
      refine ⟨j, underWay_set hi rfl (fun hcall => ?_) hj⟩
      rw [wants_eq_some.2 hcall]
      rfl

/-- To unwant a session takes it out of the wanted ones, and nothing else. -/
theorem unwanted {w : World K} {i : Nat} {call : Call} {e : ConnError}
    (hi : w.tasks[i]? = some ⟨call, .failing e⟩) :
    ∃ s, w.move (.unwant i) =
        { w with shared := s, tasks := w.tasks.set i ⟨call, .done (.error e)⟩ } ∧
      s.closed = w.shared.closed ∧ s.sessionError = w.shared.sessionError ∧
      s.sessionErrorGen = w.shared.sessionErrorGen ∧
      (∀ session, s.replica session = w.shared.replica session) ∧
      ∀ session, session ∈ s.wanted ↔ call.waitsOn ≠ .session session ∧ session ∈ w.shared.wanted := by
  rw [World.move, hi]
  refine ⟨_, rfl, ?_⟩
  cases hwants : call.wants with
  | none =>
    refine ⟨rfl, rfl, rfl, fun _ => rfl, fun session => (and_iff_right fun hcall => ?_).symm⟩
    rw [wants_eq_some.2 hcall] at hwants
    exact absurd hwants (by simp)
  | some other =>
    refine ⟨rfl, rfl, rfl, fun _ => rfl, fun session => ?_⟩
    rw [Shared.mem_unwant, wants_eq_some.1 hwants, ne_eq, ne_eq, Slot.session.injEq, eq_comm]

theorem sound_unwant (h : l.Sound) (i : Nat) : (l.move (.unwant i)).Sound := by
  have hmove : l.move (.unwant i) = { l with world := l.world.move (.unwant i) } := rfl
  rw [hmove]
  have hidle : l.world.move (.unwant i) = l.world →
      Sound { l with world := l.world.move (.unwant i) } := by
    intro heq
    rw [heq]
    exact h
  cases hi : l.world.tasks[i]? with
  | none => exact hidle (by rw [World.move, hi])
  | some task =>
    obtain ⟨call, phase⟩ := task
    cases phase with
    | failing e =>
      have hkept := World.kept_unwant h.kept hi
      obtain ⟨s, heq, hclosed, herror, hgen, hreplica, hwanted⟩ := unwanted hi
      rw [heq] at hkept ⊢
      refine ⟨hkept, hclosed.trans h.linked, fun session hlive => ?_, fun session hunborn => ?_⟩
      · have hin := h.live session hlive
        refine hin.frame rfl rfl rfl ?_
          (begun_of_set (q := .done (.error e)) hi rfl (by simp) (by simp) session)
          (congrArg _ (hreplica session)) herror hgen
          (fun j seen' hj =>
            World.attaching_of_set hi rfl (by simp [Phase.noted]) j session seen' hj) ?_
        · -- What a failing attach unwants was given up before.
          exact (hwanted session).trans
            (and_iff_right_of_imp fun hw hcall => hin.given i call e hi hcall hw)
        · intro j other e' hj hother
          obtain ⟨-, -, hphase⟩ | hj := World.task_of_set hi rfl hj
          · exact absurd hphase (by simp)
          · exact hin.given j other e' hj hother
      · have hun := h.unborn session hunborn
        refine ⟨hun.unattached, hun.unsubscribed, (congrArg _ (hreplica session)).trans hun.unheld,
          hun.silent, fun hw => ?_⟩
        obtain ⟨hne, hw⟩ := (hwanted session).1 hw
        obtain ⟨j, hj⟩ := hun.wanted hw
        exact ⟨j, underWay_set (q := .done (.error e)) hi rfl (fun hcall => absurd hcall hne) hj⟩
    | _ => exact hidle (by rw [World.move, hi])

theorem leaves_eq_of_asks {c : ClientMessage} {attached : Bool} (hasks : c.asks ≠ some session)
    (hdetach : c ≠ .detach session) : c.leaves session attached = attached := by
  cases c with
  | attach other => exact if_neg fun heq => hasks (congrArg some heq)
  | detach other => exact if_neg fun heq => hdetach (congrArg _ heq)
  | _ => rfl

/-- A message of another session, or that asks for a keyframe, changes nothing
of what is attached to. -/
theorem subscribedAfter_snoc {attached : Bool} {sent : List (Option Nat × ClientMessage)}
    {id : Option Nat} {c : ClientMessage} :
    subscribedAfter session attached (sent ++ [(id, c)]) =
      c.leaves session (subscribedAfter session attached sent) :=
  subscribedAfter_append ..

theorem sound_attach (h : l.Sound) {cols rows : UInt16} {observe : Bool}
    (hclear : l.Clear (.attach session cols rows observe)) :
    (l.move (.attach session cols rows observe)).Sound := by
  obtain ⟨huntouched, hfresh⟩ := hclear
  have hmove : l.move (.attach session cols rows observe) =
      { l with world := l.world.move (.begin (.attach session cols rows observe)) } := rfl
  rw [hmove]
  have hkept : (l.world.move (.begin (.attach session cols rows observe))).Kept :=
    World.kept_begin h.kept huntouched hfresh
  -- What the lock left behind.
  have hwanted : ∀ other, other ∈ (l.world.shared.want session).wanted ↔
      other = session ∨ other ∈ l.world.shared.wanted := fun other => Shared.mem_want
  have hreplica : ∀ other, (l.world.shared.want session).replica other = l.world.shared.replica other :=
    World.replica_begin l.world.shared (.attach session cols rows observe)
  have hshared : (l.world.shared.want session).sessionError = l.world.shared.sessionError ∧
      (l.world.shared.want session).sessionErrorGen = l.world.shared.sessionErrorGen ∧
      (l.world.shared.want session).closed = l.world.shared.closed := by
    rw [Shared.want]
    split <;> exact ⟨rfl, rfl, rfl⟩
  have hbegun : ∀ other, (l.world.move (.begin (.attach session cols rows observe))).Begun other ↔
      other = session ∨ l.world.Begun other := by
    intro other
    constructor
    · rintro ⟨i, call, seen, hi, hcall⟩
      obtain hi | ⟨-, rfl, -⟩ := World.task_of_begin hi
      · exact .inr ⟨i, call, seen, hi, hcall⟩
      · exact .inl (Slot.session.inj hcall).symm
    · rintro (rfl | ⟨i, call, seen, hi, hcall⟩)
      · refine ⟨l.world.tasks.length, .attach other cols rows observe,
          (Call.begin l.world.shared (.attach other cols rows observe)).2, ?_, rfl⟩
        rw [World.move, List.getElem?_append_right (Nat.le_refl _), Nat.sub_self]
        rfl
      · obtain ⟨hlt, -⟩ := List.getElem?_eq_some_iff.1 hi
        exact ⟨i, call, seen, by rw [World.move, List.getElem?_append_left hlt, hi], hcall⟩
  refine ⟨hkept, hshared.2.2.trans h.linked, fun other hlive => ?_, fun other hunborn => ?_⟩
  · have hin := h.live other hlive
    refine ⟨hin.handles, ?_, hin.served, ?_, hin.clean, ?_, ?_, ?_⟩
    · refine (hwanted other).trans ?_
      rw [hbegun, hin.wanted]
      tauto
    · intro i call e hi hcall hw
      obtain hold | ⟨-, -, hphase⟩ := World.task_of_begin hi
      · obtain rfl | hwant := (hwanted other).1 hw
        · exact huntouched.idle i ⟨call, _, hold, hcall, rfl⟩
        · exact hin.given i call e hold hcall hwant
      · exact absurd hphase (by simp)
    · rintro i seen message ⟨call, hw, hcall⟩ herr
      refine hshared.2.1.trans ?_
      obtain hw | ⟨-, rfl, rfl⟩ := World.waits_of_begin hw
      · exact hin.calm i seen message ⟨call, hw, hcall⟩ (hshared.1.symm.trans herr)
      · rfl
    · intro hrep
      exact (hwanted other).2 (.inr (hin.held ((congrArg _ (hreplica other)).symm.trans hrep)))
    · intro hw
      rw [hbegun]
      obtain rfl | hw := (hwanted other).1 hw
      · exact .inr (.inl (.inl rfl))
      · obtain hrep | hb | hrest := hin.owed hw
        · exact .inl ((congrArg _ (hreplica other)).trans hrep)
        · exact .inr (.inl (.inr hb))
        · exact .inr (.inr hrest)
  · have hun := h.unborn other hunborn
    refine ⟨hun.unattached, hun.unsubscribed, (congrArg _ (hreplica other)).trans hun.unheld,
      hun.silent, fun hw => ?_⟩
    obtain rfl | hw := (hwanted other).1 hw
    · refine ⟨l.world.tasks.length, .attach other cols rows observe,
        .begun (Call.begin l.world.shared (.attach other cols rows observe)).2, ?_, rfl, rfl⟩
      rw [World.move, List.getElem?_append_right (Nat.le_refl _), Nat.sub_self]
      rfl
    · obtain ⟨i, call, phase, hi, hrest⟩ := hun.wanted hw
      obtain ⟨hlt, -⟩ := List.getElem?_eq_some_iff.1 hi
      exact ⟨i, call, phase, by rw [World.move, List.getElem?_append_left hlt, hi], hrest⟩

theorem sound_send (h : l.Sound) (i : Nat) : (l.move (.send i)).Sound := by
  have hmove : l.move (.send i) = { l with world := l.world.move (.send i) } := rfl
  rw [hmove, World.move]
  split
  case h_2 => exact h
  next call seen hi =>
  have hkept := World.kept_send h.kept hi
  refine ⟨hkept, h.linked, fun session hlive => ?_, fun session hunborn => ?_⟩
  · have hin := h.live session hlive
    have hafter : call.waitsOn ≠ .session session → ∀ a, call.message.leaves session a = a := by
      intro hne a
      refine leaves_eq_of_asks (fun hasks => hne (World.waitsOn_of_asks hasks)) ?_
      cases call <;> simp [Call.message]
    -- The calls between lock and message, but for the one that sends.
    have hbegun : ∀ j other seen', (l.world.tasks.set i ⟨call, .waiting seen⟩)[j]? =
        some ⟨other, .begun seen'⟩ ↔ j ≠ i ∧ l.world.tasks[j]? = some ⟨other, .begun seen'⟩ := by
      intro j other seen'
      rw [World.getElem?_set_of_some hi]
      split
      · next hji => simp [hji]
      · next hji => simp [hji]
    refine ⟨hin.handles, ?_, ?_, ?_, hin.clean, ?_, hin.held, ?_⟩
    · rw [subscribedAfter_snoc]
      by_cases hcall : call.waitsOn = .session session
      · have hwant : session ∈ l.world.shared.wanted :=
          hin.wanted.2 (.inr ⟨i, call, seen, hi, hcall⟩)
        refine iff_of_true hwant (.inl ?_)
        cases call with
        | attach other =>
          obtain rfl := Slot.session.inj hcall
          exact if_pos rfl
        | _ => exact absurd hcall (by simp [Call.waitsOn])
      · rw [hafter hcall]
        refine hin.wanted.trans (or_congr_right ?_)
        constructor
        · rintro ⟨j, other, seen', hj, hother⟩
          refine ⟨j, other, seen', (hbegun j other seen').2 ⟨?_, hj⟩, hother⟩
          rintro rfl
          obtain ⟨rfl, -⟩ := Task.mk.inj (Option.some.inj (hi.symm.trans hj))
          exact hcall hother
        · rintro ⟨j, other, seen', hj, hother⟩
          exact ⟨j, other, seen', ((hbegun j other seen').1 hj).2, hother⟩
    · intro before id after hsplit
      obtain ⟨-, heq⟩ | ⟨after', hold⟩ := World.split_snoc hsplit
      · have hmessage := (Prod.mk.inj heq).2
        cases call <;> simp [Call.message] at hmessage
      · exact hin.served before id after' hold
    · intro j other e hj hother
      obtain ⟨-, -, hphase⟩ | hj := World.task_of_set hi rfl hj
      · exact absurd hphase (by simp)
      · exact hin.given j other e hj hother
    · intro j seen' message hj herr
      exact hin.calm j seen' message
        (World.attaching_of_set (q := .waiting seen) hi rfl (fun _ hseen => hseen) j session seen' hj)
        herr
    · intro hw
      obtain hrep | ⟨j, other, seen', hj, hother⟩ | ⟨id, cols, rows, observe, hmem⟩ | hconn :=
        hin.owed hw
      · exact .inl hrep
      · by_cases hji : j = i
        · subst hji
          obtain ⟨rfl, -⟩ := Task.mk.inj (Option.some.inj (hi.symm.trans hj))
          cases call with
          | attach other cols rows observe =>
            obtain rfl := Slot.session.inj hother
            exact .inr (.inr (.inl ⟨_, cols, rows, observe,
              List.mem_append_right _ (List.mem_singleton_self _)⟩))
          | _ => exact absurd hother (by simp [Call.waitsOn])
        · exact .inr (.inl ⟨j, other, seen', (hbegun j other seen').2 ⟨hji, hj⟩, hother⟩)
      · exact .inr (.inr (.inl ⟨id, cols, rows, observe, List.mem_append_left _ hmem⟩))
      · exact .inr (.inr (.inr hconn))
  · have hun := h.unborn session hunborn
    refine ⟨hun.unattached, hun.unsubscribed, hun.unheld, hun.silent, fun hw => ?_⟩
    obtain ⟨j, hj⟩ := hun.wanted hw
    exact ⟨j, underWay_set hi rfl (fun _ => rfl) hj⟩

theorem sound_detach (h : l.Sound) (hclear : l.Clear (.detach session)) :
    (l.move (.detach session)).Sound := by
  have hmove : l.move (.detach session) = { l with world := l.world.move (.detach session) } := rfl
  rw [hmove]
  have hwanted : ∀ other, other ∈ (l.world.move (.detach session)).shared.wanted ↔
      other ≠ session ∧ other ∈ l.world.shared.wanted := fun other => Shared.mem_unwant
  have hreplica : ∀ other, ((l.world.move (.detach session)).shared.replica other).isSome = true ↔
      other ≠ session ∧ (l.world.shared.replica other).isSome = true :=
    fun other => World.isSome_replica_filter
  refine ⟨World.kept_detach h.kept session, h.linked, fun other hlive => ?_, fun other hunborn => ?_⟩
  · have hin := h.live other hlive
    refine ⟨hin.handles, ?_, ?_, ?_, hin.clean, hin.calm, ?_, ?_⟩
    · refine (hwanted other).trans ?_
      show _ ↔ subscribedAfter other _ (l.world.toDaemon ++ [(none, .detach session)]) = true ∨ _
      rw [subscribedAfter_snoc]
      by_cases hne : other = session
      · subst hne
        refine iff_of_false (fun hw => hw.1 rfl) ?_
        rintro (hafter | hbegun)
        · exact absurd hafter (by simp [ClientMessage.leaves])
        · exact hclear hbegun
      · rw [leaves_eq_of_asks (by simp [ClientMessage.asks])
          fun heq => hne (ClientMessage.detach.inj heq).symm]
        exact (and_iff_right hne).trans hin.wanted
    · intro before id after hsplit
      obtain ⟨-, heq⟩ | ⟨after', hold⟩ := World.split_snoc hsplit
      · exact absurd (Prod.mk.inj heq).2 (by simp)
      · exact hin.served before id after' hold
    · exact fun i call e hi hcall hw => hin.given i call e hi hcall ((hwanted other).1 hw).2
    · intro hrep
      obtain ⟨hne, hrep⟩ := (hreplica other).1 hrep
      exact (hwanted other).2 ⟨hne, hin.held hrep⟩
    · intro hw
      obtain ⟨hne, hw⟩ := (hwanted other).1 hw
      obtain hrep | hb | ⟨id, cols, rows, observe, hmem⟩ | hconn := hin.owed hw
      · exact .inl ((hreplica other).2 ⟨hne, hrep⟩)
      · exact .inr (.inl hb)
      · exact .inr (.inr (.inl ⟨id, cols, rows, observe, List.mem_append_left _ hmem⟩))
      · exact .inr (.inr (.inr hconn))
  · have hun := h.unborn other hunborn
    refine ⟨hun.unattached, hun.unsubscribed, ?_, hun.silent, fun hw => ?_⟩
    · rw [Bool.eq_false_iff]
      intro hrep
      exact absurd (hun.unheld.symm.trans ((hreplica other).1 hrep).2) (by simp)
    · exact hun.wanted ((hwanted other).1 hw).2

theorem sound_serve (h : l.Sound) (frame : K.Frame) : (l.move (.serve frame)).Sound := by
  rw [move]
  split
  · exact h
  · next id c rest hto =>
    have hmove : l.world.move (.handle (l.host.serve frame c).2) =
        { l.world with
          toDaemon := rest
          toConn := l.world.toConn ++ ((l.host.serve frame c).2.map fun m => (id, m)).toList } := by
      rw [World.move, hto]
    have hconn : ∀ {id' m}, (id', m) ∈ l.world.toConn ++
        ((l.host.serve frame c).2.map fun m => (id, m)).toList →
          (id', m) ∈ l.world.toConn ∨ (l.host.serve frame c).2 = some m := by
      intro id' m hm
      refine (List.mem_append.1 hm).imp_right fun hm => ?_
      obtain ⟨m', hm', heq⟩ := Option.map_eq_some_iff.1 (Option.mem_toList.1 hm)
      obtain ⟨-, rfl⟩ := Prod.mk.inj heq
      exact hm'
    have hkept : (l.world.move (.handle (l.host.serve frame c).2)).Kept :=
      World.kept_handle h.kept hto fun m hm => Host.fits_serve hm
    rw [hmove] at hkept ⊢
    refine ⟨hkept, h.linked, fun session hlive => ?_, fun session hunborn => ?_⟩
    · have hlive' : l.host.life session = .live := by
        have heq := Host.life_serve l.host frame c
        exact (congrFun heq session).symm.trans hlive
      have hin := h.live session hlive'
      obtain ⟨hattached, hhandles⟩ := Host.handles_serve frame c hlive' hin.handles
      have hafter : ∀ sent, subscribedAfter session
          ((l.host.serve frame c).1.attached session).isSome sent =
            subscribedAfter session (l.host.attached session).isSome ((id, c) :: sent) := by
        intro sent
        rw [hattached]
        rfl
      refine ⟨hhandles, ?_, ?_, hin.given, ?_, hin.calm, hin.held, ?_⟩
      · show _ ↔ subscribedAfter session _ rest = true ∨ _
        rw [hafter, ← hto]
        exact hin.wanted
      · rintro before id' after rfl
        rw [hafter]
        exact hin.served ((id, c) :: before) id' after hto
      · intro id' message hm
        obtain hm | hm := hconn hm
        · exact hin.clean id' message hm
        · refine Host.served_of_live hlive' hin.handles ?_ hm
          rintro rfl
          exact hin.served [] id rest hto
      · intro hw
        obtain hrep | hb | ⟨id', cols, rows, observe, hmem⟩ | ⟨id', frame', hmem⟩ := hin.owed hw
        · exact .inl hrep
        · exact .inr (.inl hb)
        · rw [hto] at hmem
          obtain heq | hmem := List.mem_cons.1 hmem
          · obtain ⟨rfl, rfl⟩ := Prod.mk.inj heq
            refine .inr (.inr (.inr ⟨id', frame, List.mem_append_right _ ?_⟩))
            rw [Host.serve, if_pos hlive']
            exact List.mem_singleton_self _
          · exact .inr (.inr (.inl ⟨id', cols, rows, observe, hmem⟩))
        · exact .inr (.inr (.inr ⟨id', frame', List.mem_append_left _ hmem⟩))
    · have hunborn' : l.host.life session = .unborn := by
        have heq := Host.life_serve l.host frame c
        exact (congrFun heq session).symm.trans hunborn
      have hun := h.unborn session hunborn'
      obtain ⟨hat, hsub, hnone⟩ := l.host.unborn_serve frame c hunborn' hun.unattached
        hun.unsubscribed
      refine ⟨hat, hsub, hun.unheld, fun id' frame' hm => ?_, hun.wanted⟩
      obtain hm | hm := hconn hm
      · exact hun.silent id' frame' hm
      · exact hnone frame' hm

theorem sound_push (h : l.Sound) {what : Push K} (hclear : l.Clear (.push session what)) :
    (l.move (.push session what)).Sound := by
  rw [move]
  split
  case h_2 => exact h
  next handle hat =>
  split
  case isFalse => exact h
  next hguard =>
  have hkept : (l.world.move (.say (what.message session))).Kept := by
    refine World.kept_say h.kept fun i other seen hi hwrites => ?_
    cases what with
    | keyframe frame =>
      obtain rfl := Slot.session.inj (List.mem_singleton.1 hwrites)
      exact hclear i seen hi
    | update | exited => exact absurd hwrites List.not_mem_nil
  refine ⟨hkept, h.linked, fun other hlive => ?_, fun other hunborn => ?_⟩
  · have hin := h.live other hlive
    refine ⟨hin.handles, hin.wanted, hin.served, hin.given, fun id message hm => ?_, hin.calm,
      hin.held, fun hw => ?_⟩
    · obtain hm | hm := List.mem_append.1 hm
      · exact hin.clean id message hm
      · have heq := (Prod.mk.inj (List.mem_singleton.1 hm)).2
        cases what <;> exact absurd heq (by simp [Push.message])
    · obtain hrep | hb | hto | ⟨id, frame, hmem⟩ := hin.owed hw
      · exact .inl hrep
      · exact .inr (.inl hb)
      · exact .inr (.inr (.inl hto))
      · exact .inr (.inr (.inr ⟨id, frame, List.mem_append_left _ hmem⟩))
  · have hun := h.unborn other hunborn
    refine ⟨hun.unattached, hun.unsubscribed, hun.unheld, fun id frame hm => ?_, hun.wanted⟩
    obtain hm | hm := List.mem_append.1 hm
    · exact hun.silent id frame hm
    · -- Nothing is pushed of a session that is not attached to.
      have heq := (Prod.mk.inj (List.mem_singleton.1 hm)).2
      cases what with
      | keyframe frame' =>
        obtain ⟨rfl, -⟩ := HostMessage.keyframe.inj heq
        rw [hun.unattached] at hat
        exact absurd hat (by simp)
      | update | exited => exact absurd heq (by simp [Push.message])

theorem sound_deliver (h : l.Sound) : (l.move .deliver).Sound := by
  have hmove : l.move .deliver = { l with world := l.world.move .deliver } := rfl
  have hkept := World.kept_deliver h.kept
  rw [hmove]
  rw [World.move] at hkept ⊢
  split at hkept
  · exact h
  · next id m rest hto =>
    rw [if_neg (by rw [h.linked]; simp)] at hkept ⊢
    have hmem : (id, m) ∈ l.world.toConn := hto ▸ List.mem_cons_self
    have hsub : rest ⊆ l.world.toConn := by
      rw [hto]
      exact List.subset_cons_self _ _
    have hwanted : ∀ session, session ∈ (l.world.shared.onMessage m).1.wanted ↔
        session ∈ l.world.shared.wanted := fun session => by rw [Shared.wanted_onMessage]
    have hclosed : (l.world.shared.onMessage m).1.closed = l.world.shared.closed := by
      have hwrote := l.world.shared.wrote_onMessage m
      generalize (l.world.shared.onMessage m).1 = s' at hwrote
      cases hwrote <;> rfl
    -- A replica that is there now was there, or is made by this keyframe.
    have hreplica : ∀ session, ((l.world.shared.onMessage m).1.replica session).isSome = true →
        (l.world.shared.replica session).isSome = true ∨
          (∃ frame, m = .keyframe session frame) ∧ session ∈ l.world.shared.wanted := by
      intro session hrep
      obtain hrep' | ⟨frame, rfl⟩ := Shared.replica_or_keyframe hrep
      · exact .inl hrep'
      · by_cases hw : session ∈ l.world.shared.wanted
        · exact .inr ⟨⟨frame, rfl⟩, hw⟩
        · rw [Shared.onMessage, if_pos hw] at hrep
          exact .inl hrep
    refine ⟨hkept, hclosed.trans h.linked, fun session hlive => ?_, fun session hunborn => ?_⟩
    · have hin := h.live session hlive
      -- The reader recovers only what is attached to.
      have hafter : ∀ recovered, (l.world.shared.replica recovered).isSome = true →
          recovered = session →
            subscribedAfter session (l.host.attached session).isSome l.world.toDaemon = true := by
        rintro recovered hrep rfl
        obtain hafter | ⟨i, call, seen, hi, hcall⟩ := hin.wanted.1 (hin.held hrep)
        · exact hafter
        · obtain ⟨frame, hframe⟩ :=
            h.kept.shows i recovered seen (World.attaching_of_begun hi hcall) hrep
          exact absurd hframe ((h.kept.unsent i call seen hi).2.2 _)
      refine ⟨hin.handles, ?_, ?_, ?_, fun id' message hm => hin.clean id' message (hsub hm), ?_, ?_,
        ?_⟩
      · refine (hwanted session).trans ?_
        show _ ↔ subscribedAfter session _ (l.world.toDaemon ++ _) = true ∨ _
        obtain heq | ⟨recovered, heq, hrep⟩ := l.world.shared.asks_onMessage m
        · rw [heq, List.map_nil, List.append_nil]
          exact hin.wanted
        · rw [heq, List.map_singleton, subscribedAfter_snoc]
          exact hin.wanted
      · intro before id' after hsplit
        obtain heq | ⟨recovered, heq, hrep⟩ := l.world.shared.asks_onMessage m
        · rw [heq, List.map_nil, List.append_nil] at hsplit
          exact hin.served before id' after hsplit
        · rw [heq, List.map_singleton] at hsplit
          obtain ⟨rfl, hlast⟩ | ⟨after', hold⟩ := World.split_snoc hsplit
          · exact hafter recovered hrep
              (ClientMessage.requestKeyframe.inj (Prod.mk.inj hlast).2).symm
          · exact hin.served before id' after' hold
      · exact fun i call e hi hcall hw => hin.given i call e hi hcall ((hwanted session).1 hw)
      · intro i seen message hi herr
        obtain ⟨heq, hgen⟩ | ⟨other, message', rfl, heq⟩ := l.world.shared.sessionError_onMessage m
        · exact hgen.trans (hin.calm i seen message hi (heq ▸ herr))
        · obtain ⟨rfl, -⟩ := Prod.mk.inj (Option.some.inj (heq.symm.trans herr))
          exact absurd hmem (hin.clean id message')
      · intro hrep
        obtain hrep | ⟨-, hw⟩ := hreplica session hrep
        · exact (hwanted session).2 (hin.held hrep)
        · exact (hwanted session).2 hw
      · intro hw
        have hwant := (hwanted session).1 hw
        obtain hrep | hb | ⟨id', cols, rows, observe, hask⟩ | ⟨id', frame, hframe⟩ :=
          hin.owed hwant
        · exact .inl (l.world.shared.isSome_onMessage m session hrep)
        · exact .inr (.inl hb)
        · exact .inr (.inr (.inl ⟨id', cols, rows, observe, List.mem_append_left _ hask⟩))
        · rw [hto] at hframe
          obtain heq | hframe := List.mem_cons.1 hframe
          · obtain ⟨-, rfl⟩ := Prod.mk.inj heq
            exact .inl (Shared.replica_of_keyframe frame hwant)
          · exact .inr (.inr (.inr ⟨id', frame, hframe⟩))
    · have hun := h.unborn session hunborn
      refine ⟨hun.unattached, hun.unsubscribed, ?_, fun id' frame hm => hun.silent id' frame (hsub hm),
        fun hw => hun.wanted ((hwanted session).1 hw)⟩
      rw [Bool.eq_false_iff]
      intro hrep
      obtain hrep | ⟨⟨frame, rfl⟩, -⟩ := hreplica session hrep
      · exact absurd (hun.unheld.symm.trans hrep) (by simp)
      · exact hun.silent id frame hmem

theorem sound_spawn (h : l.Sound) (hclear : l.Clear (.spawn session)) :
    (l.move (.spawn session)).Sound := by
  have huntouched : l.world.Untouched session := hclear
  rw [move]
  split
  case isFalse => exact h
  next hunborn =>
  refine ⟨h.kept, h.linked, fun other hlive => ?_, fun other hother => ?_⟩
  · by_cases hne : other = session
    · subst hne
      have hun := h.unborn other hunborn
      have hw : other ∉ l.world.shared.wanted := fun hw => by
        obtain ⟨i, hi⟩ := hun.wanted hw
        exact huntouched.idle i hi
      refine ⟨?_, ?_, ?_, ?_, ?_, ?_, ?_, fun hw' => absurd hw' hw⟩
      · show l.host.subscribers other = (l.host.attached other).toList
        rw [hun.unsubscribed, hun.unattached]
        rfl
      · refine iff_of_false hw ?_
        show ¬ (subscribedAfter other (l.host.attached other).isSome l.world.toDaemon = true ∨ _)
        rw [hun.unattached, Option.isSome_none, subscribedAfter_of_unasked huntouched.unasked]
        rintro (hafter | ⟨i, call, seen, hi, hcall⟩)
        · exact absurd hafter (by simp)
        · exact huntouched.idle i ⟨call, _, hi, hcall, rfl⟩
      · intro before id after hsplit
        refine absurd rfl (huntouched.unasked (id, .requestKeyframe other) ?_)
        rw [show l.world.toDaemon = _ from hsplit]
        exact List.mem_append_right _ List.mem_cons_self
      · exact fun i call e hi hcall _ => huntouched.idle i ⟨call, _, hi, hcall, rfl⟩
      · exact fun id message hm => huntouched.quiet _ hm (List.mem_singleton_self _)
      · exact fun i seen message hi _ =>
          absurd (World.underWay_of_attaching hi) (huntouched.idle i)
      · exact fun hrep => absurd (hun.unheld.symm.trans hrep) (by simp)
    · have hlive' : l.host.life other = .live := by
        rwa [show l.host.life other = _ from (Function.update_of_ne hne _ _).symm]
      have hin := h.live other hlive'
      exact ⟨hin.handles, hin.wanted, hin.served, hin.given, hin.clean, hin.calm, hin.held, hin.owed⟩
  · have hne : other ≠ session := by
      rintro rfl
      have heq : Function.update l.host.life other Life.live other = .live := Function.update_self ..
      exact absurd (heq.symm.trans hother) (by simp)
    have hother' : l.host.life other = .unborn := by
      rwa [show l.host.life other = _ from (Function.update_of_ne hne _ _).symm]
    have hun := h.unborn other hother'
    exact ⟨hun.unattached, hun.unsubscribed, hun.unheld, hun.silent, hun.wanted⟩

theorem sound_die (h : l.Sound) (session : SessionAddr) : (l.move (.die session)).Sound := by
  rw [move]
  split
  case isFalse => exact h
  next hlive =>
  have hlife : ∀ {other what}, what ≠ .gone →
      Function.update l.host.life session Life.gone other = what →
        other ≠ session ∧ l.host.life other = what := by
    intro other what hwhat heq
    have hne : other ≠ session := by
      rintro rfl
      rw [Function.update_self] at heq
      exact hwhat heq.symm
    rw [Function.update_of_ne hne] at heq
    exact ⟨hne, heq⟩
  refine ⟨h.kept, h.linked, fun other hother => ?_, fun other hother => ?_⟩
  · obtain ⟨hne, hother⟩ := hlife (by simp) hother
    have hin := h.live other hother
    refine ⟨?_, hin.wanted, hin.served, hin.given, hin.clean, hin.calm, hin.held, hin.owed⟩
    exact (Function.update_of_ne hne _ _).trans hin.handles
  · obtain ⟨hne, hother⟩ := hlife (by simp) hother
    have hun := h.unborn other hother
    refine ⟨hun.unattached, ?_, hun.unheld, hun.silent, hun.wanted⟩
    exact (Function.update_of_ne hne _ _).trans hun.unsubscribed

theorem sound_step (h : l.Sound) {m : LinkMove K} (hclear : l.Clear m) : (l.step m).1.Sound := by
  cases m with
  | attach => exact sound_attach h hclear
  | send i => exact sound_send h i
  | wake i late => exact sound_wake h i late hclear
  | unwant i => exact sound_unwant h i
  | detach => exact sound_detach h hclear
  | serve frame => exact sound_serve h frame
  | push => exact sound_push h hclear
  | deliver => exact sound_deliver h
  | spawn => exact sound_spawn h hclear
  | die session => exact sound_die h session

/-! ## Runs -/

/-- In a run whose moves are clear of each other, whatever sessions the host
has: whenever nothing is on its way, the live sessions subscribed to, wanted
and held are the same; and what an attach returned is of its own
attachment. -/
theorem wanted_subscribed (life : SessionAddr → Life) (moves : List (LinkMove K))
    (hclear : ∀ e ∈ (Trace.run step ({ host := { life := life } } : Link K) moves).2,
      e.state.Clear e.call) :
    ((Trace.run step ({ host := { life := life } } : Link K) moves).1.Still →
        (Trace.run step ({ host := { life := life } } : Link K) moves).1.Agree) ∧
      (Trace.run step ({ host := { life := life } } : Link K) moves).1.world.OwnAttachment := by
  have hsound : (Trace.run step ({ host := { life := life } } : Link K) moves).1.Sound :=
    Trace.run_invariant_of_each (I := fun (l : Link K) _ => l.Sound)
      (P := fun _ (e : Trace.Entry (Link K) (LinkMove K) Unit) => e.state.Clear e.call)
      (sound_init life) (fun _ _ _ h hP => sound_step h hP) moves (Trace.each_of_forall hclear)
  exact ⟨agree_of_sound hsound, hsound.kept.own⟩

/-- A host all of whose sessions are live. -/
def allLive : Link World.blank := { host := { life := fun _ => .live } }

def here : SessionAddr := ⟨⟨Vector.replicate 32 0⟩, 1⟩

/-- A session is attached to and detached from. -/
def visit : List (LinkMove World.blank) :=
  [.attach here 80 24 true, .send 0, .serve (), .deliver, .wake 0 false, .detach here, .serve ()]

theorem wanted_subscribed_visit :
    ((Trace.run step allLive visit).1.Still → (Trace.run step allLive visit).1.Agree) ∧
      (Trace.run step allLive visit).1.world.OwnAttachment :=
  wanted_subscribed (fun _ => .live) visit (by
    refine List.forall_mem_cons.2 ⟨?_, List.forall_mem_cons.2 ⟨trivial,
      List.forall_mem_cons.2 ⟨trivial, List.forall_mem_cons.2 ⟨trivial,
        List.forall_mem_cons.2 ⟨fun h => absurd h (by simp), List.forall_mem_cons.2 ⟨?_,
          List.forall_mem_cons.2 ⟨trivial, fun e he => absurd he List.not_mem_nil⟩⟩⟩⟩⟩⟩⟩
    · refine ⟨⟨?_, fun p hp => absurd hp List.not_mem_nil, fun p hp => absurd hp List.not_mem_nil⟩,
        rfl⟩
      rintro i ⟨call, phase, hi, -⟩
      simp at hi
    · rintro ⟨i, call, seen, hi, -⟩
      have hi : ([⟨.attach here 80 24 true, .done (.ok .attached)⟩] : List Task)[i]? =
        some ⟨call, .begun seen⟩ := hi
      cases i <;> simp at hi)

/-- An attach gives up; its message is on its way all the same. -/
def givenUp : List (LinkMove World.blank) :=
  [.attach here 80 24 true, .send 0, .wake 0 true, .unwant 0, .serve (), .deliver]

theorem given_up_subscribed :
    (Trace.run step allLive givenUp).1.Still ∧ ¬ (Trace.run step allLive givenUp).1.Agree := by
  refine ⟨⟨rfl, rfl, ?_⟩, fun h => ?_⟩
  · rintro session ⟨i, call, seen, hi, -⟩
    have hi : ([⟨.attach here 80 24 true, .done (.error .timedOut)⟩] : List Task)[i]? =
      some ⟨call, .begun seen⟩ := hi
    cases i <;> simp at hi
  · have hwanted : here ∈ (Trace.run step allLive givenUp).1.world.shared.wanted :=
      (h here rfl).1.1 (by decide)
    exact absurd hwanted (by decide)

end Link

end Zesterm.Mcp
