/-
Zesterm.Mcp.Conn — one connection to one daemon: `zest-mcp`'s `conn.rs`.

Every call takes the lock to note what it waits for, queues its message, and
then looks at the shared state whenever it is woken; the reader takes the
same lock for every message. So a call is a `Task` between two holds of the
lock, and a move of the `World` is one hold. Any task may move at any time,
and one that waits may give up at any time.

The two queues are the writer's channel with the wire behind it, and the
wire back. Beside each message stands the call it is of: the wire does not
carry it and no definition of the source reads it. What the daemon answers
is left to the moves, and what a replica makes of its frames to
`ReplicaKind`.
-/
import Zesterm.Mesh.Connect

namespace Zesterm.Mcp

/-- What a replica of a session is (`session.rs`): made of a keyframe, set
anew by one, and moved on by a delta, which it may refuse. -/
structure ReplicaKind where
  Frame : Type
  Delta : Type
  View : Type
  new : Frame → View
  reset : View → Frame → View
  apply : View → Delta → View × Bool
  setExited : View → Option UInt32 → View

/-! ## Messages -/

/-- A line of a listing. -/
structure SessionInfo where
  addr : SessionAddr
  title : Str
  deriving DecidableEq

/-- `HostMessage::BlockMatches`. -/
structure BlockMatches where
  query : Str
  found : List Str
  truncated : Bool
  sessions : UInt32
  error : Str
  deriving DecidableEq

inductive ConfigOp where
  | set
  | reset
  | createProfile
  | copyProfile
  | renameProfile
  | removeProfile
  deriving DecidableEq

inductive ClientMessage where
  | createSession (command cwd profile : Str) (cols rows : UInt16)
  | listSessions
  | getConfig (keys : List Str) (profile : Str) (wantFields wantThemes : Bool)
  | setConfig (op : ConfigOp) (key profile value dest : Str)
  | searchBlocks (query : Str) (limit : UInt32)
  | attach (session : SessionAddr) (cols rows : UInt16) (observe : Bool)
  | requestKeyframe (session : SessionAddr)
  | detach (session : SessionAddr)
  deriving DecidableEq

/-- What the reader is handed. The two answers about a configuration are
their bodies. -/
inductive HostMessage (K : ReplicaKind) where
  | sessions (sessions : List SessionInfo) (created : Option UInt64) (offer : Option Str)
  | configState (body : Str)
  | configWritten (body : Str)
  | blockMatches (found : BlockMatches)
  | keyframe (session : SessionAddr) (frame : K.Frame)
  | update (session : SessionAddr) (delta : K.Delta)
  | exited (session : SessionAddr) (code : Option UInt32)
  | error (session : Option SessionAddr) (message : Str)
  | other

/-! ## The shared state -/

/-- Everything the reader thread learns, for the tools to read. -/
structure Shared (K : ReplicaKind) where
  sessions : List SessionInfo := []
  sessionsGen : UInt64 := 0
  offer : Option Str := none
  replicas : List (SessionAddr × K.View) := []
  wanted : List SessionAddr := []
  closed : Bool := false
  error : Option Str := none
  sessionError : Option (SessionAddr × Str) := none
  sessionErrorGen : UInt64 := 0
  created : Option SessionAddr := none
  config : Option Str := none
  configGen : UInt64 := 0
  configWritten : Option Str := none
  configWrittenGen : UInt64 := 0
  blockMatches : Option BlockMatches := none
  blockMatchesGen : UInt64 := 0

namespace Shared

variable {K : ReplicaKind}

def replica (s : Shared K) (addr : SessionAddr) : Option K.View :=
  (s.replicas.find? fun r => r.1 = addr).map Prod.snd

/-- Write through `replica_mut`: the first of an address is another view. -/
def setReplica (s : Shared K) (addr : SessionAddr) (view : K.View) : Shared K :=
  { s with replicas := write s.replicas }
where
  write : List (SessionAddr × K.View) → List (SessionAddr × K.View)
    | [] => []
    | r :: rest => if r.1 = addr then (addr, view) :: rest else r :: write rest

/-- `HashSet::insert`. -/
def want (s : Shared K) (addr : SessionAddr) : Shared K :=
  if addr ∈ s.wanted then s else { s with wanted := s.wanted ++ [addr] }

/-- `HashSet::remove`. -/
def unwant (s : Shared K) (addr : SessionAddr) : Shared K :=
  { s with wanted := s.wanted.filter (· ≠ addr) }

/-- `on_message`, with what it sends. -/
def onMessage (s : Shared K) : HostMessage K → Shared K × List ClientMessage
  | .sessions sessions created offer =>
    let s :=
      match created with
      | some id =>
        let named := sessions.find? fun (si : SessionInfo) => si.addr.session = id
        { s with created := named.map SessionInfo.addr }
      | none => s
    -- An offer is sticky: `none` is nothing new to say.
    ({ s with
        sessions := sessions
        sessionsGen := s.sessionsGen + 1
        offer := offer.or s.offer }, [])
  | .configState body => ({ s with config := some body, configGen := s.configGen + 1 }, [])
  | .configWritten body =>
    ({ s with configWritten := some body, configWrittenGen := s.configWrittenGen + 1 }, [])
  | .blockMatches found =>
    ({ s with blockMatches := some found, blockMatchesGen := s.blockMatchesGen + 1 }, [])
  | .keyframe session frame =>
    if session ∉ s.wanted then (s, [])
    else
      match s.replica session with
      | some view => (s.setReplica session (K.reset view frame), [])
      | none => ({ s with replicas := s.replicas ++ [(session, K.new frame)] }, [])
  | .update session delta =>
    match s.replica session with
    | none => (s, [])
    | some view =>
      let s' := s.setReplica session (K.apply view delta).1
      -- A delta was refused: ask for a keyframe, if the session is wanted.
      if (K.apply view delta).2 = false ∧ session ∈ s.wanted then (s', [.requestKeyframe session])
      else (s', [])
  | .exited session code =>
    match s.replica session with
    | none => (s, [])
    | some view => (s.setReplica session (K.setExited view code), [])
  | .error (some session) message =>
    if session ∈ s.wanted then
      ({ s with
          sessionError := some (session, message)
          sessionErrorGen := s.sessionErrorGen + 1 }, [])
    else (s, [])
  | .error none message => ({ s with error := some message }, [])
  | .other => (s, [])

end Shared

/-! ## The calls -/

inductive Call where
  | createSession (command cwd profile : Str) (cols rows : UInt16)
  | listSessions
  | getConfig (keys : List Str) (profile : Str) (wantFields wantThemes : Bool)
  | setConfig (op : ConfigOp) (key profile value dest : Str)
  | searchBlocks (query : Str) (limit : UInt32)
  | attach (session : SessionAddr) (cols rows : UInt16) (observe : Bool)
  deriving DecidableEq

/-- What a call returns in an `Ok`. -/
inductive Answer where
  | created (addr : SessionAddr)
  | sessions (listing : List SessionInfo)
  | config (body : Str)
  | configWritten (body : Str)
  | blocks (found : List Str) (truncated : Bool) (sessions : UInt32)
  | attached
  deriving DecidableEq

/-- Why a request did not get its answer. -/
inductive ConnError where
  | closed (error : Option Str)
  | timedOut
  | refused (message : Str)
  deriving DecidableEq

namespace Call

variable {K : ReplicaKind}

/-- What a call sends. -/
def message : Call → ClientMessage
  | .createSession command cwd profile cols rows => .createSession command cwd profile cols rows
  | .listSessions => .listSessions
  | .getConfig keys profile wantFields wantThemes => .getConfig keys profile wantFields wantThemes
  | .setConfig op key profile value dest => .setConfig op key profile value dest
  | .searchBlocks query limit => .searchBlocks query limit
  | .attach session cols rows observe => .attach session cols rows observe

/-- What a call does to the shared state before it sends, and the counter it
takes note of. -/
def begin (s : Shared K) : Call → Shared K × UInt64
  | .createSession .. => ({ s with created := none }, 0)
  | .listSessions => (s, s.sessionsGen)
  | .getConfig .. => (s, s.configGen)
  | .setConfig .. => (s, s.configWrittenGen)
  | .searchBlocks .. => (s, s.blockMatchesGen)
  | .attach session .. => (s.want session, s.sessionErrorGen)

/-- What a search makes of the matches it was given. -/
def searched (found : BlockMatches) : Except Str Answer :=
  if found.error ≠ [] then .error found.error
  else .ok (.blocks found.found found.truncated found.sessions)

/-- The predicate of a call's wait, and what the call makes of it: an error
is a refusal. -/
def ready (s : Shared K) (seen : UInt64) : Call → Option (Except Str Answer)
  | .createSession .. => s.created.map fun addr => .ok (.created addr)
  | .listSessions => if s.sessionsGen ≠ seen then some (.ok (.sessions s.sessions)) else none
  | .getConfig .. => if s.configGen ≠ seen then s.config.map fun b => .ok (.config b) else none
  | .setConfig .. =>
    if s.configWrittenGen ≠ seen then s.configWritten.map fun b => .ok (.configWritten b) else none
  | .searchBlocks query _ =>
    if s.blockMatchesGen ≠ seen then
      (s.blockMatches.filter fun m => m.query = query).map searched
    else none
  | .attach session .. =>
    if (s.replica session).isSome then some (.ok .attached)
    else
      match s.sessionError with
      | some (addr, message) =>
        if addr = session ∧ s.sessionErrorGen ≠ seen then some (.error message) else none
      | none => none

/-- The session an attach enters into the wanted ones. -/
def wants : Call → Option SessionAddr
  | .attach session .. => some session
  | _ => none

end Call

/-! ## The connection -/

/-- Where a call is. -/
inductive Phase where
  /-- It has let go of the lock and not yet sent. -/
  | begun (seen : UInt64)
  | waiting (seen : UInt64)
  /-- An attach that got no keyframe, before it unwants its session. -/
  | failing (e : ConnError)
  | done (result : Except ConnError Answer)
  deriving DecidableEq

structure Task where
  call : Call
  phase : Phase
  deriving DecidableEq

/-- A connection, its calls in the order they began, and the two wires. -/
structure World (K : ReplicaKind) where
  shared : Shared K := {}
  tasks : List Task := []
  toDaemon : List (Option Nat × ClientMessage) := []
  toConn : List (Option Nat × HostMessage K) := []
  /-- What the reader has been handed. -/
  delivered : List (Option Nat × HostMessage K) := []

inductive Move (K : ReplicaKind) where
  | begin (call : Call)
  | send (i : Nat)
  /-- A waiting call is woken; `late` is past its deadline. -/
  | wake (i : Nat) (late : Bool)
  | unwant (i : Nat)
  | detach (session : SessionAddr)
  /-- The daemon takes its next message, and answers with one or with
  nothing. -/
  | handle (answer : Option (HostMessage K))
  /-- The daemon speaks unasked. -/
  | say (message : HostMessage K)
  | deliver
  /-- The reader stops. -/
  | close

namespace World

variable {K : ReplicaKind}

def setPhase (w : World K) (i : Nat) (task : Task) (phase : Phase) : World K :=
  { w with tasks := w.tasks.set i { task with phase := phase } }

/-- The end of a wait. An attach that failed goes on to unwant its
session. -/
def settle (w : World K) (i : Nat) (task : Task) : Except ConnError Answer → World K
  | .ok answer => w.setPhase i task (.done (.ok answer))
  | .error e =>
    match task.call.wants with
    | some _ => w.setPhase i task (.failing e)
    | none => w.setPhase i task (.done (.error e))

/-- One turn of `wait_until`. -/
def wake (w : World K) (i : Nat) (task : Task) (seen : UInt64) (late : Bool) : World K :=
  match task.call.ready w.shared seen with
  | some (.ok answer) => w.settle i task (.ok answer)
  | some (.error message) => w.settle i task (.error (.refused message))
  | none =>
    if w.shared.closed then w.settle i task (.error (.closed w.shared.error))
    else if late then w.settle i task (.error .timedOut)
    else w

/-- One hold of the lock, or one message on a wire. -/
def move (w : World K) : Move K → World K
  | .begin call =>
    { w with
      shared := (call.begin w.shared).1
      tasks := w.tasks ++ [{ call := call, phase := .begun (call.begin w.shared).2 }] }
  | .send i =>
    match w.tasks[i]? with
    | some ⟨call, .begun seen⟩ =>
      { w with
        tasks := w.tasks.set i { call := call, phase := .waiting seen }
        toDaemon := w.toDaemon ++ [(some i, call.message)] }
    | _ => w
  | .wake i late =>
    match w.tasks[i]? with
    | some ⟨call, .waiting seen⟩ => w.wake i ⟨call, .waiting seen⟩ seen late
    | _ => w
  | .unwant i =>
    match w.tasks[i]? with
    | some ⟨call, .failing e⟩ =>
      { w with
        shared := match call.wants with
          | some session => w.shared.unwant session
          | none => w.shared
        tasks := w.tasks.set i { call := call, phase := .done (.error e) } }
    | _ => w
  | .detach session =>
    let s := w.shared.unwant session
    { w with
      shared := { s with replicas := s.replicas.filter fun r => r.1 ≠ session }
      toDaemon := w.toDaemon ++ [(none, .detach session)] }
  | .handle answer =>
    match w.toDaemon with
    | [] => w
    | (id, _) :: rest =>
      { w with
        toDaemon := rest
        toConn := w.toConn ++ (answer.map fun m => (id, m)).toList }
  | .say message => { w with toConn := w.toConn ++ [(none, message)] }
  | .deliver =>
    match w.toConn with
    | [] => w
    | (id, m) :: rest =>
      if w.shared.closed then w
      else
        { w with
          shared := (w.shared.onMessage m).1
          toDaemon := w.toDaemon ++ (w.shared.onMessage m).2.map fun m => (none, m)
          toConn := rest
          delivered := w.delivered ++ [(id, m)] }
  | .close => { w with shared := { w.shared with closed := true } }

/-- A move as a call of a machine that answers nothing. -/
def step (w : World K) (m : Move K) : World K × Unit := (w.move m, ())

end World

end Zesterm.Mcp
