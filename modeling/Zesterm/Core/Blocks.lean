/-
Zesterm.Core.Blocks — command blocks, `zest-core`'s `blocks.rs`.

A block is where a command started, what it printed and how it ended, by
absolute line id. `BlockIndex` keeps the blocks of one session, oldest
first, together with the floor `authoritativeFrom` that tells the two
reasons a block can be absent apart: the floor rises past what scrollback
evicted and falls to the lowest block a screen clear destroyed.

Block ids (`u32`), line ids and the embedder's clock are natural numbers;
an author's 32 opaque bytes are a list.
-/
import Zesterm.Core.Resize

namespace Zesterm

/-- A block, unique within a session. -/
abbrev BlockId := Nat

/-- How a command ended. -/
inductive BlockState where
  /-- The prompt is showing; nothing has been submitted. -/
  | prompt
  /-- Submitted, still producing output. -/
  | running
  /-- Finished, with the exit status if the shell reported one. -/
  | finished (exitCode : Option Int)
  deriving DecidableEq, Inhabited

namespace BlockState

def isFinished : BlockState → Bool
  | finished _ => true
  | _ => false

def exitCode : BlockState → Option Int
  | finished c => c
  | _ => none

end BlockState

/-- The surroundings a command ran in. -/
structure BlockContext where
  branch : Str := []
  venv : Str := []
  kube : Str := []
  deriving DecidableEq, Inhabited

def BlockContext.isEmpty (c : BlockContext) : Bool :=
  c.branch.isEmpty && c.venv.isEmpty && c.kube.isEmpty

/-- One command and its output. -/
structure Block where
  id : BlockId
  /-- First line of the prompt (OSC 133;A). -/
  promptLine : LineId
  /-- First line of output (OSC 133;C), once it starts. -/
  outputLine : Option LineId := none
  /-- Last line, once the command has finished (OSC 133;D). -/
  endLine : Option LineId := none
  state : BlockState := .prompt
  command : Str := []
  cwd : Str
  startedMs : Option Nat := none
  endedMs : Option Nat := none
  context : Option BlockContext := none
  author : Option (List UInt8) := none
  deriving DecidableEq, Inhabited

namespace Block

/-- Whether a line belongs to this block. -/
def contains (b : Block) (line : LineId) : Bool :=
  decide (b.promptLine ≤ line) && b.endLine.all fun stop => decide (line ≤ stop)

def isRunning (b : Block) : Bool := b.state == .running

/-- Whether this block ran something. -/
def isCommand (b : Block) : Bool :=
  b.state != .prompt && !b.command.all isWhitespace

/-- Whether the command reported a non-zero status. -/
def failed (b : Block) : Bool :=
  match b.state with
  | .finished (some c) => c != 0
  | _ => false

end Block

/-- The blocks of one session, oldest first. -/
structure BlockIndex where
  blocks : List Block := []
  nextId : BlockId := 0
  /-- The lowest id from which this index is complete. -/
  authoritativeFrom : BlockId := 0
  deriving DecidableEq, Inhabited

namespace BlockIndex

/-- The ids of an index, oldest first. -/
def ids (x : BlockIndex) : List BlockId := x.blocks.map Block.id

/-- The block a line belongs to, searched from the newest. -/
def blockAt (x : BlockIndex) (line : LineId) : Option Block :=
  x.blocks.reverse.find? fun b => b.contains line

def get (x : BlockIndex) (id : BlockId) : Option Block := x.blocks.find? fun b => b.id == id

def last (x : BlockIndex) : Option Block := x.blocks.getLast?

def lastCommand (x : BlockIndex) : Option Block := x.blocks.reverse.find? Block.isCommand

/-- The edit made through `blocks.last_mut()`. -/
def modifyLast (x : BlockIndex) (f : Block → Block) : BlockIndex :=
  { x with blocks := x.blocks.modify (x.blocks.length - 1) f }

/-- Begin a block at a prompt (OSC 133;A). A trailing block that is still
at its prompt is moved rather than left behind. -/
def beginPrompt (x : BlockIndex) (line : LineId) (cwd : Str) : BlockIndex :=
  let fresh : BlockIndex := { x with
    blocks := x.blocks ++ [{ id := x.nextId, promptLine := line, cwd := cwd }]
    nextId := x.nextId + 1 }
  match x.last with
  | some b =>
    if b.state = .prompt ∧ b.outputLine = none then
      x.modifyLast fun b => { b with promptLine := line, cwd := cwd, command := [] }
    else fresh
  | none => fresh

/-- Stamp where a block's command is running. -/
def setContext (x : BlockIndex) (id : BlockId) (context : BlockContext) : BlockIndex :=
  { x with blocks := x.blocks.modify (x.blocks.findIdx fun b => b.id == id) fun b =>
      { b with context := if context.isEmpty then none else some context } }

/-- A command was submitted and output begins (OSC 133;C). -/
def beginOutput (x : BlockIndex) (line : LineId) (command : Str) (nowMs : Option Nat)
    (author : Option (List UInt8)) : BlockIndex :=
  x.modifyLast fun b =>
    { b with outputLine := some line, command := command, state := .running,
             startedMs := nowMs, author := author }

/-- A command finished (OSC 133;D). A block finishes once. -/
def finish (x : BlockIndex) (line : LineId) (exitCode : Option Int) (nowMs : Option Nat) :
    BlockIndex :=
  x.modifyLast fun b =>
    if b.state.isFinished then b
    else { b with endLine := some line, state := .finished exitCode, endedMs := nowMs }

/-- Where `upsert` puts a block: over the one with its id, else before the
first newer one. -/
def upsertInto (block : Block) : List Block → List Block
  | [] => [block]
  | b :: bs =>
    if b.id = block.id then block :: bs
    else if block.id < b.id then block :: b :: bs
    else b :: upsertInto block bs

/-- Insert or replace a block a host computed. -/
def upsert (x : BlockIndex) (block : Block) : BlockIndex :=
  { x with
    blocks := upsertInto block x.blocks
    nextId :=
      if x.blocks.any fun b => b.id == block.id then x.nextId
      else max x.nextId (block.id + 1) }

/-- A block after a rewrap: dropped if its end did not survive, and
clamped to the oldest line where its start did not. -/
def reanchorBlock (reindex : Reindex) (oldest : LineId) (b : Block) : Option Block :=
  let start (b : Block) : Block :=
    { b with
      promptLine := (reindex.lookup b.promptLine).getD oldest
      outputLine := b.outputLine.map fun l => (reindex.lookup l).getD oldest }
  match b.endLine with
  | none => some (start b)
  | some stop =>
    match reindex.lookup stop with
    | some new => some (start { b with endLine := some new })
    | none => none

/-- Re-anchor every block after a width change renumbered the lines. -/
def reanchor (x : BlockIndex) (reindex : Reindex) : BlockIndex :=
  match reindex.oldest with
  | none => { x with blocks := [] }
  | some oldest => { x with blocks := x.blocks.filterMap (reanchorBlock reindex oldest) }

/-- Drop blocks whose lines have all fallen out of scrollback. -/
def evictBefore (x : BlockIndex) (oldestLine : LineId) : BlockIndex :=
  match x.last with
  | none => x
  | some newest =>
    let blocks := x.blocks.filter fun b => b.endLine.all fun stop => decide (oldestLine ≤ stop)
    let floor :=
      match blocks.head? with
      | some b => b.id
      | none => newest.id + 1
    { x with blocks := blocks, authoritativeFrom := max x.authoritativeFrom floor }

/-- Forget every block the screen just erased, keeping those wholly above
it. -/
def eraseScreen (x : BlockIndex) (first : LineId) : BlockIndex :=
  let blocks := x.blocks.filter fun b => b.endLine.any fun stop => decide (stop < first)
  if blocks.length = x.blocks.length then { x with blocks := blocks }
  else
    let lowestGone :=
      match blocks.getLast? with
      | some b => b.id + 1
      | none => 0
    { x with blocks := blocks, authoritativeFrom := min x.authoritativeFrom lowestGone }

/-- Keep only blocks older than `first`. -/
def retainBelow (x : BlockIndex) (first : BlockId) : BlockIndex :=
  { x with blocks := x.blocks.filter fun b => b.id < first }

end BlockIndex

/-! ## The operations of a host's index -/

/-- The operations of a host's block index. -/
inductive IndexOp where
  | beginPrompt (line : LineId) (cwd : Str)
  | beginOutput (line : LineId) (command : Str) (nowMs : Option Nat) (author : Option (List UInt8))
  | finish (line : LineId) (exitCode : Option Int) (nowMs : Option Nat)
  | setContext (id : BlockId) (context : BlockContext)
  /-- Scrollback lost the lines above `oldest`. -/
  | evictBefore (oldest : LineId)
  /-- A width change renumbered the lines. -/
  | reanchor (reindex : Reindex)
  /-- ED 2: the screen from its first line on was erased. -/
  | clearScreen (first : LineId)
  /-- ED 3: the screen, where it is the primary one, and all history. -/
  | clearHistory (first : Option LineId)

namespace IndexOp

def apply (x : BlockIndex) : IndexOp → BlockIndex
  | beginPrompt line cwd => x.beginPrompt line cwd
  | beginOutput line command nowMs author => x.beginOutput line command nowMs author
  | finish line exitCode nowMs => x.finish line exitCode nowMs
  | setContext id context => x.setContext id context
  | evictBefore oldest => x.evictBefore oldest
  | reanchor reindex => x.reanchor reindex
  | clearScreen first => x.eraseScreen first
  | clearHistory first =>
    match first with
    | some first => (x.eraseScreen first).eraseScreen 0
    | none => x.eraseScreen 0

/-- Whether what an operation removes is evicted. -/
def evicts : IndexOp → Bool
  | evictBefore _ => true
  | reanchor _ => true
  | _ => false

/-- Whether what an operation removes is destroyed. -/
def destroys : IndexOp → Bool
  | clearScreen _ => true
  | clearHistory _ => true
  | _ => false

end IndexOp

end Zesterm
