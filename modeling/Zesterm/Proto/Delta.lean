/-
Zesterm.Proto.Delta — the wire types of `zest-proto`'s `delta.rs`.

A line id crosses the wire as an `i64`, clamped at its greatest value, and
`unseenLine` (`i64::MIN`) marks a row a subscriber has never been sent. A
viewport coordinate is a `u16`, a scroll distance an `i16`; each is
written through the clamp the source writes it through. Serialisation is
left out: every type here is what one side hands to the other.
-/
import Zesterm.Core.Remote

namespace Zesterm

/-! ## Numbers on the wire -/

def i64Max : Int := 2 ^ 63 - 1

/-- `i64::MIN`, the id of a row never sent. -/
def unseenLine : Int := -2 ^ 63

/-- `i64::try_from(id).unwrap_or(i64::MAX)`. -/
def wireLine (id : LineId) : Int := min (id : Int) i64Max

/-- `u64::try_from(line).unwrap_or(0)`. -/
def lineId (line : Int) : LineId := line.toNat

/-- `u16::try_from(n).unwrap_or(u16::MAX)`. -/
def wireU16 (n : Nat) : Nat := min n 65535

/-- `i16::try_from(n).unwrap_or(i16::MAX)`. -/
def wireI16 (n : Int) : Int := if n < -32768 ∨ 32767 < n then 32767 else n

/-! ## Attributes -/

/-- An interned attribute, scoped to one session. -/
abbrev AttrId := Nat

/-- What makes two cells share a run. -/
abbrev AttrKey := Color × Color × CellFlags

def Cell.attrKey (c : Cell) : AttrKey := (c.fg, c.bg, c.flags)

/-- The style an `AttrId` stands for. -/
structure AttrDef where
  id : AttrId
  fg : Color
  bg : Color
  flags : CellFlags
  deriving DecidableEq, Inhabited

def AttrDef.key (a : AttrDef) : AttrKey := (a.fg, a.bg, a.flags)

/-- A client's interning table. -/
abbrev AttrTable := List AttrDef

namespace AttrTable

def get (t : AttrTable) (id : AttrId) : Option AttrDef := t.find? fun a => a.id == id

def insert (t : AttrTable) (a : AttrDef) : AttrTable := a :: t.filter fun b => b.id != a.id

/-- Take in every definition of a batch, in order. -/
def absorb (t : AttrTable) (attrs : List AttrDef) : AttrTable := attrs.foldl insert t

end AttrTable

/-! ## Rows -/

/-- Combining marks for one cell of a run. -/
structure CellMarks where
  /-- Offset of the cell within its run, in cells. -/
  atCell : Nat
  marks : Str
  deriving DecidableEq, Inhabited

/-- A stretch of cells sharing one attribute. -/
structure Run where
  attr : AttrId
  /-- How many grid cells this run occupies. -/
  cells : Nat
  text : Str
  marks : List CellMarks
  deriving DecidableEq, Inhabited

/-- One row, as runs. -/
structure RowPayload where
  line : Int
  runs : List Run
  wrapped : Bool
  deriving DecidableEq, Inhabited

/-- A row the subscriber has never been sent. -/
def RowPayload.unseen : RowPayload := { line := unseenLine, runs := [], wrapped := false }

structure CursorState where
  row : Nat
  col : Nat
  visible : Bool
  /-- DECSCUSR shape, as the program asked for it. -/
  shape : Nat
  deriving DecidableEq

def CursorState.default : CursorState := { row := 0, col := 0, visible := true, shape := 0 }

/-! ## Changes -/

/-- One change to the grid. -/
inductive DeltaOp where
  | scroll (top bottom : Nat) (lines : Int)
  | row (row : Nat) (payload : RowPayload)
  | erase (top left bottom right : Nat) (attr : AttrId)
  | cursor (cursor : CursorState)
  | sbPush (payload : RowPayload)
  | altScreen (active : Bool)
  | title (title : Str)
  | modes (bits : BitVec 32)
  deriving DecidableEq

namespace DeltaOp

def isScroll : DeltaOp → Bool
  | scroll .. => true
  | _ => false

def isRow : DeltaOp → Bool
  | row .. => true
  | _ => false

/-- The ops that choose which grid the rows after them land in. -/
def isSwitch : DeltaOp → Bool
  | altScreen _ => true
  | modes _ => true
  | _ => false

end DeltaOp

/-- One command and its output, as the host has it. -/
structure BlockPayload where
  id : BlockId
  promptLine : Int
  outputLine : Option Int
  endLine : Option Int
  state : BlockState
  command : Str
  cwd : Str
  startedMs : Option Nat
  endedMs : Option Nat
  context : Option BlockContext
  author : Option (List UInt8)
  deriving DecidableEq, Inhabited

namespace BlockPayload

/-- The wire form of a block the host parsed. -/
def fromBlock (b : Block) : BlockPayload :=
  { id := b.id
    promptLine := wireLine b.promptLine
    outputLine := b.outputLine.map wireLine
    endLine := b.endLine.map wireLine
    state := b.state
    command := b.command
    cwd := b.cwd
    startedMs := b.startedMs
    endedMs := b.endedMs
    context := b.context
    author := b.author }

/-- Back into the shape a terminal holds. -/
def toBlock (b : BlockPayload) : Block :=
  { id := b.id
    promptLine := lineId b.promptLine
    outputLine := b.outputLine.map lineId
    endLine := b.endLine.map lineId
    state := b.state
    command := b.command
    cwd := b.cwd
    startedMs := b.startedMs
    endedMs := b.endedMs
    context := b.context
    author := b.author }

end BlockPayload

/-- A batch applied atomically. -/
structure Delta where
  /-- Attributes first used in this batch. -/
  attrs : List AttrDef
  ops : List DeltaOp
  /-- Blocks that changed in this batch. -/
  blocks : List BlockPayload
  deriving DecidableEq

/-- A complete state. -/
structure Keyframe where
  cols : Nat
  rows : Nat
  rowsData : List RowPayload
  attrs : List AttrDef
  cursor : CursorState
  modes : Modes
  /-- Every block the host holds. -/
  blocks : List BlockPayload
  /-- The id from which `blocks` is authoritative. -/
  blocksFrom : BlockId
  /-- How many times ED 3 has destroyed the host's scrollback. -/
  historyClears : Nat
  title : Str
  deriving DecidableEq

end Zesterm
