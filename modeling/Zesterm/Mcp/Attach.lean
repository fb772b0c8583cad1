/-
Zesterm.Mcp.Attach — a connection and the daemon it attaches to.

The daemon's half of `Attach`, `RequestKeyframe` and `Detach` (`server.rs`)
beside the connection's. Every address a connection is called with names
its daemon's host (`conn_for`), so an address stands for the id the daemon
looks a session up by. Ids are counted up and never given again: a session
is unborn, then live, then gone.

What a session keeps of this connection is the list of its subscribers;
what the daemon keeps is the handle of one. What a keyframe holds is left to
the moves.
-/
import Zesterm.Mcp.Conn
import Zesterm.Mcp.Addr

namespace Zesterm.Mcp

variable {K : ReplicaKind}

/-! ## The daemon -/

inductive Life where
  | unborn
  | live
  | gone
  deriving DecidableEq

/-- What the daemon holds for one connection, and its sessions. -/
structure Host where
  life : SessionAddr → Life
  /-- `Connection::attached`. -/
  attached : SessionAddr → Option Nat := fun _ => none
  /-- The subscribers of this connection, where the sessions keep them. -/
  subscribers : SessionAddr → List Nat := fun _ => []
  nextSubscriber : SessionAddr → Nat := fun _ => 0

namespace Host

def noSuch (session : SessionAddr) : HostMessage K :=
  .error (some session) ("no session ".toList ++ Resolver.format session)

/-- `Session::detach`. -/
def unsubscribe (h : Host) (session : SessionAddr) (handle : Nat) : Host :=
  { h with
    subscribers :=
      Function.update h.subscribers session ((h.subscribers session).filter (· ≠ handle)) }

/-- `Session::attach_with`, and the handle the connection keeps. -/
def subscribe (h : Host) (session : SessionAddr) : Host :=
  { h with
    subscribers :=
      Function.update h.subscribers session (h.subscribers session ++ [h.nextSubscriber session])
    nextSubscriber := Function.update h.nextSubscriber session (h.nextSubscriber session + 1)
    attached := Function.update h.attached session (some (h.nextSubscriber session)) }

/-- `attached.remove`. -/
def forget (h : Host) (session : SessionAddr) : Host :=
  { h with attached := Function.update h.attached session none }

/-- The daemon handles one message. -/
def serve (h : Host) (frame : K.Frame) : ClientMessage → Host × Option (HostMessage K)
  | .attach session _ _ _ =>
    if h.life session = .live then
      let h :=
        match h.attached session with
        | some stale => h.unsubscribe session stale
        | none => h
      (h.subscribe session, some (.keyframe session frame))
    else (h, some (noSuch session))
  | .requestKeyframe session =>
    match h.attached session with
    | none => (h, some (.error (some session) "not attached to that session".toList))
    | some handle =>
      if h.life session ≠ .live then (h, some (.error (some session) "no such session".toList))
      else if handle ∈ h.subscribers session then (h, some (.keyframe session frame))
      else (h, some (.error (some session) "not attached to that session".toList))
  | .detach session =>
    match h.attached session with
    | some handle =>
      if h.life session = .live then ((h.unsubscribe session handle).forget session, none)
      else (h.forget session, none)
    | none => (h, none)
  | _ => (h, none)

theorem serve_attach (h : Host) (frame : K.Frame) (session : SessionAddr) (cols rows : UInt16)
    (observe : Bool) :
    h.serve frame (.attach session cols rows observe) =
      if h.life session = .live then
        ((match h.attached session with
          | some stale => h.unsubscribe session stale
          | none => h).subscribe session, some (.keyframe session frame))
      else (h, some (noSuch session)) := rfl

theorem serve_requestKeyframe (h : Host) (frame : K.Frame) (session : SessionAddr) :
    h.serve frame (.requestKeyframe session) =
      match h.attached session with
      | none => (h, some (.error (some session) "not attached to that session".toList))
      | some handle =>
        if h.life session ≠ .live then (h, some (.error (some session) "no such session".toList))
        else if handle ∈ h.subscribers session then (h, some (.keyframe session frame))
        else (h, some (.error (some session) "not attached to that session".toList)) := rfl

theorem serve_detach (h : Host) (frame : K.Frame) (session : SessionAddr) :
    h.serve frame (.detach session) =
      match h.attached session with
      | some handle =>
        if h.life session = .live then ((h.unsubscribe session handle).forget session, none)
        else (h.forget session, none)
      | none => (h, none) := rfl

end Host

/-! ## Both halves -/

structure Link (K : ReplicaKind) where
  world : World K := {}
  host : Host

/-- What a daemon sends a subscriber of its own accord. -/
inductive Push (K : ReplicaKind) where
  | update (delta : K.Delta)
  | keyframe (frame : K.Frame)
  | exited (code : Option UInt32)

def Push.message (session : SessionAddr) : Push K → HostMessage K
  | .update delta => .update session delta
  | .keyframe frame => .keyframe session frame
  | .exited code => .exited session code

inductive LinkMove (K : ReplicaKind) where
  | attach (session : SessionAddr) (cols rows : UInt16) (observe : Bool)
  | send (i : Nat)
  | wake (i : Nat) (late : Bool)
  | unwant (i : Nat)
  | detach (session : SessionAddr)
  | serve (frame : K.Frame)
  | push (session : SessionAddr) (what : Push K)
  | deliver
  | spawn (session : SessionAddr)
  | die (session : SessionAddr)

namespace Link

def move (l : Link K) : LinkMove K → Link K
  | .attach session cols rows observe =>
    { l with world := l.world.move (.begin (.attach session cols rows observe)) }
  | .send i => { l with world := l.world.move (.send i) }
  | .wake i late => { l with world := l.world.move (.wake i late) }
  | .unwant i => { l with world := l.world.move (.unwant i) }
  | .detach session => { l with world := l.world.move (.detach session) }
  | .serve frame =>
    match l.world.toDaemon with
    | [] => l
    | (_, c) :: _ =>
      { world := l.world.move (.handle (l.host.serve frame c).2), host := (l.host.serve frame c).1 }
  | .push session what =>
    match l.host.attached session with
    | some handle =>
      if l.host.life session = .live ∧ handle ∈ l.host.subscribers session then
        { l with world := l.world.move (.say (what.message session)) }
      else l
    | none => l
  | .deliver => { l with world := l.world.move .deliver }
  | .spawn session =>
    if l.host.life session = .unborn then
      { l with host := { l.host with life := Function.update l.host.life session .live } }
    else l
  | .die session =>
    if l.host.life session = .live then
      { l with
        host :=
          { l.host with
            life := Function.update l.host.life session .gone
            subscribers := Function.update l.host.subscribers session [] } }
    else l

/-- A move as a call of a machine that answers nothing. -/
def step (l : Link K) (m : LinkMove K) : Link K × Unit := (l.move m, ())

end Link

end Zesterm.Mcp
