/-
Zesterm.Daemon.Session — a session of `zest-daemon`, its `session.rs`: the
terminal, everyone watching it, and the thread that feeds it.

Three locks matter: the subscribers', the terminal's and the title's. What
runs under one hold of them is one call of the machine. The reader thread
parses a chunk under the terminal's alone and does the rest afterwards,
call by call: a stamp on a block, then each event in turn. An attach holds
the subscribers from the vote on its size to its keyframe, and a chunk may
be parsed in between; meanwhile every call that needs the subscribers waits
(`blocked`).

Left out: the child and its pty, the wakers, and what a listing reads.
-/
import Zesterm.Daemon.BlockStore
import Zesterm.Lib.Table
import Zesterm.Proto.Change

namespace Zesterm

/-! ## A subscriber -/

/-- A size in cells, each side a `u16`. -/
abbrev CellSize := Fin 65536 × Fin 65536

/-- The floor a declared size is held to. -/
def clampSize (size : CellSize) : CellSize := (max size.1 2, max size.2 1)

def smallerSize (a b : CellSize) : CellSize := (min a.1 b.1, min a.2 b.2)

/-- The smallest of some sizes, side by side, if there is any. -/
def smallestSize : List CellSize → Option CellSize
  | [] => none
  | size :: sizes => some (sizes.foldl smallerSize size)

/-- One client's view of a session. -/
structure Subscriber where
  encoder : Encoder := Encoder.new
  /-- Sequence of the last update this subscriber was sent. -/
  sent : Nat := 0
  /-- Highest sequence the client has confirmed applying. -/
  acked : Nat := 0
  /-- Force a keyframe on the next poll. -/
  needsKeyframe : Bool := false
  pendingAttention : Option AttentionCause := none
  /-- Progress as this subscriber was last told it. -/
  sentProgress : Progress := .none
  /-- The size this client asked to render at: a vote. -/
  size : Option CellSize := none

/-- What a subscriber is sent, and the sequences that name it. -/
inductive SessionUpdate where
  | keyframe (seq : Nat) (k : Keyframe)
  | delta (base seq : Nat) (d : Delta)

namespace TermState

/-- The whole state under a title. -/
def encodeKeyframe (s : TermState) (title : Str) (e : Encoder) : Keyframe × Encoder :=
  e.keyframe s.activeGrid (cursorOf s) s.modes title s.blocks

/-- What changed, under a title. -/
def encodeDelta (s : TermState) (title : Str) (e : Encoder) : Delta × Encoder :=
  e.delta s.activeGrid (cursorOf s) s.modes title s.blocks

end TermState

/-- A delta that says nothing. -/
def Delta.isSilent (d : Delta) : Bool := d.ops.isEmpty && d.attrs.isEmpty && d.blocks.isEmpty

namespace Subscriber

/-- A keyframe is the new baseline. -/
def sendKeyframe (sub : Subscriber) (s : TermState) (title : Str) : Subscriber × SessionUpdate :=
  let (k, e) := s.encodeKeyframe title sub.encoder
  ({ sub with encoder := e, sent := s.seq, needsKeyframe := false }, .keyframe s.seq k)

/-- Whether a poll goes on to compare numbers: no keyframe is owed, and the
blocks ask for none. -/
def ComparesSeq (sub : Subscriber) (s : TermState) : Prop :=
  sub.needsKeyframe = false ∧ sub.encoder.blocksNeedKeyframe s.blocks = false

instance (sub : Subscriber) (s : TermState) : Decidable (sub.ComparesSeq s) :=
  inferInstanceAs (Decidable (_ ∧ _))

/-- What this subscriber has not yet seen. -/
def poll (sub : Subscriber) (s : TermState) (title : Str) : Subscriber × Option SessionUpdate :=
  if s.seq = sub.sent ∧ sub.needsKeyframe = false then (sub, none)
  else if sub.ComparesSeq s then
    match updateFor s.seq sub.sent with
    | .idle => (sub, none)
    | .keyframe _ =>
      let (sub, update) := sub.sendKeyframe s title
      (sub, some update)
    | .delta _ _ =>
      let (d, e) := s.encodeDelta title sub.encoder
      -- The sequence moved and nothing observable changed.
      if d.isSilent then ({ sub with encoder := e, sent := s.seq }, none)
      else ({ sub with encoder := e, sent := s.seq }, some (.delta sub.sent s.seq d))
  else
    let (sub, update) := sub.sendKeyframe s title
    (sub, some update)

/-- Record what a client says it has applied; of something never sent, owe
it a full state. -/
def ack (sub : Subscriber) (seq : Nat) : Subscriber :=
  if seq > sub.sent then { sub with needsKeyframe := true }
  else { sub with acked := max sub.acked seq }

end Subscriber

/-! ## The session -/

/-- Where the reader thread is. -/
inductive ReaderPhase where
  /-- Waiting for its next chunk. -/
  | waiting
  /-- Past a chunk: a block still to stamp, and events still to handle. -/
  | working (toStamp : Option BlockId) (events : List TermEvent)
  /-- Past the end of the child's output. -/
  | ended

structure Session (vt : Vt) where
  terminal : Terminal vt
  /-- The title slot, beside the terminal's own. -/
  title : Str := []
  subscribers : Table Nat Subscriber := ∅
  nextSubscriber : Nat := 0
  /-- The attach that holds the subscribers. -/
  joining : Option Nat := none
  everAttached : Bool := false
  exited : Bool := false
  phase : ReaderPhase := .waiting
  /-- Whether there is a context engine to ask. -/
  hasContext : Bool := false
  /-- The last block asked about a context stamp. -/
  stampAsked : Option BlockId := none
  /-- What was handed to the history, where there is one. -/
  archive : Option Archive := none

namespace Session

variable {vt : Vt}

/-- A session as `spawn_with_context` starts it. -/
def spawn (vt : Vt) (size : CellSize) (scrollback : Nat) (restates hasContext : Bool)
    (archive : Option Archive) : Session vt :=
  { terminal := (Terminal.new vt size.1 size.2 scrollback).setPtyRestatesViewport restates
    hasContext := hasContext
    archive := archive }

/-- A number of cells as a `u16`. -/
def saturate (n : Nat) : Fin 65536 := ⟨min n 65535, by omega⟩

/-- Size in cells, as the terminal currently holds it. -/
def size (s : Session vt) : CellSize :=
  (saturate s.terminal.state.activeGrid.cols, saturate s.terminal.state.activeGrid.rows)

/-! ### Who is watching -/

/-- The sizes asked for. -/
def votes (s : Session vt) : List CellSize := s.subscribers.values.filterMap Subscriber.size

/-- Owe every subscriber but one a full state. -/
def oweKeyframes (exempt : Option Nat) (subs : Table Nat Subscriber) : Table Nat Subscriber :=
  subs.mapWithKey fun handle sub =>
    if some handle = exempt then sub else { sub with needsKeyframe := true }

/-- Recompute the arbitrated size and apply it. -/
def reconcileSize (s : Session vt) (exempt : Option Nat) : Session vt × Bool :=
  match smallestSize s.votes with
  | none => (s, false)
  | some want =>
    if want = s.size then (s, false)
    else
      ({ s with
          terminal := s.terminal.resize want.1 want.2
          subscribers := oweKeyframes exempt s.subscribers },
        true)

/-- `attach_with`, up to the locks: the flag and the handle. -/
def arrive (s : Session vt) : Session vt × Nat :=
  ({ s with everAttached := true, nextSubscriber := s.nextSubscriber + 1 }, s.nextSubscriber)

/-- `attach_with`, from the subscribers' lock to the terminal's. -/
def join (s : Session vt) (handle : Nat) (size : Option CellSize) : Session vt :=
  let s := { s with
    subscribers := s.subscribers.insert handle { size := size.map clampSize }
    joining := some handle }
  (s.reconcileSize (some handle)).1

/-- `attach_with`, under the terminal's lock: the state to start from. -/
def greet (s : Session vt) (handle : Nat) : Session vt × Option SessionUpdate :=
  match s.subscribers.lookup handle with
  | none => ({ s with joining := none }, none)
  | some sub =>
    let (k, e) := s.terminal.state.encodeKeyframe s.title sub.encoder
    let seq := s.terminal.state.seq
    ({ s with
        subscribers := s.subscribers.insert handle
          { sub with encoder := e, sent := seq, acked := seq }
        joining := none },
      some (.keyframe seq k))

/-- Record what a client now renders at, and re-arbitrate. -/
def setClientSize (s : Session vt) (handle : Nat) (size : CellSize) : Session vt × Bool :=
  match s.subscribers.lookup handle with
  | none => (s, false)
  | some sub =>
    reconcileSize { s with
      subscribers := s.subscribers.insert handle { sub with size := some (clampSize size) } } none

/-- Rebuild a complete state for a subscriber that cannot apply what it
has. -/
def keyframeFor (s : Session vt) (handle : Nat) : Session vt × Option SessionUpdate :=
  match s.subscribers.lookup handle with
  | none => (s, none)
  | some sub =>
    let (sub, update) := sub.sendKeyframe s.terminal.state s.title
    ({ s with subscribers := s.subscribers.insert handle sub }, some update)

/-- Stop watching. -/
def detach (s : Session vt) (handle : Nat) : Session vt :=
  (reconcileSize { s with subscribers := s.subscribers.erase handle } none).1

def attached (s : Session vt) : Bool := !s.subscribers.entries.isEmpty

def poll (s : Session vt) (handle : Nat) : Session vt × Option SessionUpdate :=
  match s.subscribers.lookup handle with
  | none => (s, none)
  | some sub =>
    let (sub, update) := sub.poll s.terminal.state s.title
    ({ s with subscribers := s.subscribers.insert handle sub }, update)

/-- What this subscriber has not been told about the progress. -/
def progressFor (s : Session vt) (handle : Nat) : Session vt × Option Progress :=
  match s.subscribers.lookup handle with
  | none => (s, none)
  | some sub =>
    let now := s.terminal.state.progress
    if sub.sentProgress = now then (s, none)
    else
      ({ s with subscribers := s.subscribers.insert handle { sub with sentProgress := now } },
        some now)

/-- Take this subscriber's pending signal. -/
def takeAttention (s : Session vt) (handle : Nat) : Session vt × Option AttentionCause :=
  match s.subscribers.lookup handle with
  | none => (s, none)
  | some sub =>
    ({ s with
        subscribers := s.subscribers.insert handle { sub with pendingAttention := none } },
      sub.pendingAttention)

def ack (s : Session vt) (handle seq : Nat) : Session vt :=
  { s with subscribers := s.subscribers.adjust handle fun sub => sub.ack seq }

/-! ### The reader -/

/-- The block to ask the context engine about. -/
def toStamp (s : Session vt) (t : TermState) : Option BlockId :=
  if s.hasContext then
    t.blocks.last.bind fun tail =>
      if tail.isRunning && tail.context.isNone && s.stampAsked != some tail.id then some tail.id
      else none
  else none

/-- Parse one chunk, and gather what is to be done about it. -/
def parse (s : Session vt) (chunk : List UInt8) (nowMs : Nat) (author : Option (List UInt8)) :
    Session vt :=
  let t := ((s.terminal.setNowMs nowMs).setInputAuthor author).advance chunk
  let (rest, events) := t.takeEvents
  { s with
    terminal := rest
    phase := .working (s.toStamp t.state) events
    archive := s.archive.map fun a => a.persist t.state.blocks }

/-- Stamp the block that was asked about with what the engine said. -/
def stamp (s : Session vt) (block : BlockId) (snapshot : BlockContext) (events : List TermEvent) :
    Session vt :=
  { s with
    terminal :=
      if snapshot.isEmpty then s.terminal else s.terminal.setBlockContext block snapshot
    stampAsked := some block
    phase := .working none events }

/-- Whether an event is told to the subscribers. -/
def isTold : TermEvent → Bool
  | .viewportRebased => true
  | .historyCleared => true
  | .attention _ => true
  | _ => false

/-- What the session does about one event. -/
def handle (s : Session vt) : TermEvent → Session vt
  | .title t => { s with title := t }
  | .viewportRebased => { s with subscribers := oweKeyframes none s.subscribers }
  | .historyCleared => { s with subscribers := oweKeyframes none s.subscribers }
  | .attention cause =>
    { s with
      subscribers := s.subscribers.mapWithKey fun _ sub =>
        { sub with pendingAttention := some cause } }
  | _ => s

/-! ## The machine -/

/-- What runs under one hold of the locks. -/
inductive Call where
  | join (size : Option CellSize)
  | greet
  | setClientSize (handle : Nat) (size : CellSize)
  | keyframeFor (handle : Nat)
  | detach (handle : Nat)
  | poll (handle : Nat)
  | progressFor (handle : Nat)
  | takeAttention (handle : Nat)
  | ack (handle seq : Nat)
  | parse (chunk : List UInt8) (nowMs : Nat) (author : Option (List UInt8))
  | stamp (snapshot : BlockContext)
  /-- The reader handles its next event. -/
  | event
  /-- The reader wakes the subscribers and goes back to wait. -/
  | settle
  | endOfFile
  /-- The process watcher, where the reader cannot see the child leave. -/
  | childExit

inductive Reply where
  /-- The call waits for a lock, or its turn. -/
  | blocked
  | done
  | joined (handle : Nat)
  | resized (changed : Bool)
  /-- Nothing to collect, or nobody to collect it. -/
  | nothing
  | message (handle : Nat) (update : SessionUpdate)
  | progress (progress : Progress)
  | attention (cause : AttentionCause)

/-- What an answer that may be missing comes to. -/
def Reply.ofUpdate (handle : Nat) : Option SessionUpdate → Reply
  | none => .nothing
  | some update => .message handle update

/-- Whether a call needs the subscribers. -/
def Call.locksSubscribers : Call → ReaderPhase → Bool
  | .join _, _ => true
  | .setClientSize _ _, _ => true
  | .keyframeFor _, _ => true
  | .detach _, _ => true
  | .poll _, _ => true
  | .progressFor _, _ => true
  | .takeAttention _, _ => true
  | .ack _ _, _ => true
  | .event, .working none (e :: _) => isTold e
  | .settle, _ => true
  | _, _ => false

/-- The calls of the session's own threads, the reader's each in its
turn. -/
def readerStep (s : Session vt) (c : Call) : Session vt × Reply :=
  match c, s.phase with
  | .parse chunk nowMs author, .waiting => (s.parse chunk nowMs author, .done)
  | .stamp snapshot, .working (some block) events => (s.stamp block snapshot events, .done)
  | .event, .working none (e :: events) =>
    ({ s.handle e with phase := .working none events }, .done)
  | .settle, .working none [] => ({ s with phase := .waiting }, .done)
  | .endOfFile, .waiting => ({ s with phase := .ended, exited := true }, .done)
  | .childExit, _ => ({ s with exited := true }, .done)
  | _, _ => (s, .blocked)

def step (s : Session vt) (c : Call) : Session vt × Reply :=
  if s.joining.isSome ∧ c.locksSubscribers s.phase = true then (s, .blocked)
  else
    match c with
    | .join size =>
      let (s, handle) := s.arrive
      (s.join handle size, .joined handle)
    | .greet =>
      match s.joining with
      | none => (s, .blocked)
      | some handle =>
        let (s, update) := s.greet handle
        (s, .ofUpdate handle update)
    | .setClientSize handle size =>
      let (s, changed) := s.setClientSize handle size
      (s, .resized changed)
    | .keyframeFor handle =>
      let (s, update) := s.keyframeFor handle
      (s, .ofUpdate handle update)
    | .detach handle => (s.detach handle, .done)
    | .poll handle =>
      let (s, update) := s.poll handle
      (s, .ofUpdate handle update)
    | .progressFor handle =>
      let (s, progress) := s.progressFor handle
      (s, match progress with
        | none => .nothing
        | some p => .progress p)
    | .takeAttention handle =>
      let (s, attention) := s.takeAttention handle
      (s, match attention with
        | none => .nothing
        | some cause => .attention cause)
    | .ack handle seq => (s.ack handle seq, .done)
    | c => s.readerStep c

end Session

end Zesterm
