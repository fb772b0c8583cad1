/-
Zesterm.Daemon.BlockStore — finished commands on their way out of a
session, `zest-daemon`'s `block_store.rs` and the step of the reader
thread (`session.rs`) that feeds it.

After every chunk the reader walks the block index back from its newest
block to the newest one it has handed over, and hands over those of them
that have finished. The store behind it writes by run and id; what it has
been handed is a list here.

A `Recorder` is a terminal's state and that list, with the step that joins
them taken at any moment.
-/
import Zesterm.Core.Perform
import Zesterm.Lib.Trace

namespace Zesterm

/-! ## The stored form -/

/-- `MAX_COMMAND_BYTES`. -/
def maxCommandBytes : Nat := 4096

/-- A command a shell finished, as the store keeps it. -/
structure StoredBlock where
  /-- The run of the session; with `id`, the key. -/
  run : Nat
  session : Nat
  id : BlockId
  command : Str
  commandTruncated : Bool
  cwd : Str
  branch : Str
  exitCode : Option Int
  startedMs : Nat
  endedMs : Nat
  author : Option (List UInt8)
  deriving DecidableEq

/-- The characters that fit whole in a number of bytes. -/
def takeBytes : Nat → Str → Str
  | _, [] => []
  | n, c :: cs => if c.utf8Size ≤ n then c :: takeBytes (n - c.utf8Size) cs else []

/-- `cut`: bound a command, on a character boundary. -/
def cutCommand (command : Str) : Str × Bool :=
  if utf8Len command ≤ maxCommandBytes then (command, false)
  else (takeBytes maxCommandBytes command, true)

/-- The store's form of a block that has finished. -/
def StoredBlock.fromBlock (run session : Nat) (b : Block) : Option StoredBlock :=
  match b.state with
  | .finished exitCode =>
    let (command, truncated) := cutCommand b.command
    some
      { run := run
        session := session
        id := b.id
        command := command
        commandTruncated := truncated
        cwd := b.cwd
        branch := (b.context.map BlockContext.branch).getD []
        exitCode := exitCode
        startedMs := b.startedMs.getD 0
        endedMs := (b.endedMs.or b.startedMs).getD 0
        author := b.author }
  | _ => none

/-! ## Handing over -/

/-- What a session's reader has handed to the store. -/
structure Archive where
  run : Nat
  session : Nat
  /-- The newest block handed over. -/
  persistedUpTo : Option BlockId := none
  stored : List StoredBlock := []
  deriving DecidableEq

namespace Archive

/-- Whether a block is newer than every one handed over. -/
def isNew (a : Archive) (id : BlockId) : Bool := a.persistedUpTo.all fun w => decide (w < id)

/-- The finished blocks down to the newest one handed over. -/
def toStore (a : Archive) (x : BlockIndex) : List StoredBlock :=
  (x.blocks.reverse.takeWhile fun b => a.isNew b.id).filterMap
    (StoredBlock.fromBlock a.run a.session)

/-- Hand over what has finished. -/
def persist (a : Archive) (x : BlockIndex) : Archive :=
  let batch := a.toStore x
  match (batch.map StoredBlock.id).max? with
  | none => a
  | some newest =>
    { a with
      persistedUpTo := some ((a.persistedUpTo.map fun w => max w newest).getD newest)
      stored := a.stored ++ batch }

end Archive

/-! ## A terminal and its archive -/

structure Recorder where
  state : TermState
  archive : Archive

/-- What happens to a session's terminal, one parsed sequence at a time,
and the reader's two looks at its blocks. -/
inductive RecorderCall where
  | perform (a : Action)
  | resize (cols rows : Nat)
  | setNowMs (ms : Nat)
  | setInputAuthor (author : Option (List UInt8))
  /-- Stamp the running block with where it runs. -/
  | stamp (context : BlockContext)
  | persist

namespace Recorder

def new (cols rows scrollback run session : Nat) : Recorder :=
  { state := TermState.new cols rows scrollback, archive := { run := run, session := session } }

/-- The reader stamps a tail that is running, if there is anything to
say. -/
def stamp (s : TermState) (context : BlockContext) : TermState :=
  match s.blocks.last with
  | some b =>
    if b.isRunning && !context.isEmpty then { s with blocks := s.blocks.setContext b.id context }.touch else s
  | none => s

/-- One call; the reply is what it hands to the store. -/
def step (vt : Vt) (r : Recorder) : RecorderCall → Recorder × List StoredBlock
  | .perform a => ({ r with state := r.state.perform vt a }, [])
  | .resize cols rows => ({ r with state := r.state.resize cols rows }, [])
  | .setNowMs ms => ({ r with state := { r.state with nowMs := some ms } }, [])
  | .setInputAuthor author => ({ r with state := { r.state with inputAuthor := author } }, [])
  | .stamp context => ({ r with state := stamp r.state context }, [])
  | .persist => ({ r with archive := r.archive.persist r.state.blocks }, r.archive.toStore r.state.blocks)

/-- The calls a chunk of bytes becomes. -/
def feed (vt : Vt) (p : vt.Parser) (chunk : List UInt8) : List RecorderCall :=
  (vt.advance p chunk).2.map RecorderCall.perform

end Recorder

end Zesterm
