/-
Zesterm.Proto.BlocksView — the rows of each block, as the web client's
blocks pane shows them (`blocks-view.ts`).

One cursor walks the rows and the blocks together. It moves past a block that
ended above the row, and past an open one where the next block starts; it
never moves back. `home` is the rule it stands for: the first block whose
range contains the row. `sliced` says that the walk puts every row where the
rule says, because both rows and prompts ascend: a block that was passed is
passed for every later row, and no block after the cursor's can start above
it.
-/
import Zesterm.Proto.WebView

namespace Zesterm.Web

/-- The rows of one block. -/
structure BlockSlice where
  block : BlockPayload
  promptRows : List RowPayload
  outputRows : List RowPayload
  /-- No end yet: the block renders to the bottom. -/
  isOpen : Bool
  deriving DecidableEq

structure BlocksLayout where
  /-- Rows before the first block. -/
  preamble : List RowPayload
  /-- One slice for each held block, rows or none. -/
  slices : List BlockSlice
  /-- Rows after the last finished block. -/
  tail : List RowPayload
  deriving DecidableEq

namespace BlocksView

/-! ## The walk -/

/-- A row below a block's last, or below an open block whose successor starts
at or above the row. -/
def passes (b : BlockPayload) (next : Option BlockPayload) (line : Int) : Bool :=
  match b.endLine with
  | some e => decide (e < line)
  | none => next.any fun n => decide (n.promptLine ≤ line)

/-- The inner loop: the cursor over the blocks from it on. -/
def advance (line : Int) : (blocks : List BlockPayload) → (bi : Nat) → Nat
  | [], bi => bi
  | b :: rest, bi => if passes b rest.head? line then advance line rest (bi + 1) else bi

/-- Where a row may go. -/
inductive Place where
  | preamble
  | prompt (i : Nat)
  | output (i : Nat)
  | tail
  deriving DecidableEq

/-- What the walk holds. -/
structure Walk where
  bi : Nat := 0
  preamble : List RowPayload := []
  tail : List RowPayload := []
  prompts : List (List RowPayload)
  outputs : List (List RowPayload)

/-- `push` on the list of a place. -/
def Walk.push (w : Walk) (row : RowPayload) : Place → Walk
  | .preamble => { w with preamble := w.preamble ++ [row] }
  | .prompt i => { w with prompts := w.prompts.modify i (· ++ [row]) }
  | .output i => { w with outputs := w.outputs.modify i (· ++ [row]) }
  | .tail => { w with tail := w.tail ++ [row] }

def atOutput (b : BlockPayload) (line : Int) : Bool := b.outputLine.any fun o => decide (o ≤ line)

/-- Where a row goes with the cursor at `bi`. -/
def place (blocks : List BlockPayload) (bi : Nat) (line : Int) : Place :=
  match blocks[bi]? with
  | none => .tail
  | some b =>
    if line < b.promptLine then if bi = 0 then .preamble else .tail
    else if atOutput b line then .output bi
    else .prompt bi

/-- One turn of the outer loop. -/
def Walk.step (blocks : List BlockPayload) (w : Walk) (row : RowPayload) : Walk :=
  let bi := advance row.line (blocks.drop w.bi) w.bi
  { w with bi }.push row (place blocks bi row.line)

/-- `walk`: the rows that have a position, oldest first. -/
def walk (v : GridView) : List RowPayload :=
  (v.scrollback.filter fun r => r.line != unseenLine) ++ v.rows.filter fun r => r.line != unseenLine

/-- `sliceBlocks`. -/
def sliceBlocks (v : GridView) : BlocksLayout :=
  let start : Walk := { prompts := v.blocks.map fun _ => [], outputs := v.blocks.map fun _ => [] }
  let w := (walk v).foldl (Walk.step v.blocks) start
  let slices := v.blocks.zipIdx.map fun p =>
    { block := p.1, promptRows := w.prompts.getD p.2 [], outputRows := w.outputs.getD p.2 [],
      isOpen := p.1.endLine.isNone }
  { preamble := w.preamble, slices, tail := w.tail }

/-! ## The rule -/

/-- `Block::contains`, an open block's range ending where the next one starts. -/
def contains (blocks : List BlockPayload) (line : Int) (i : Nat) : Bool :=
  match blocks[i]? with
  | none => false
  | some b =>
    decide (b.promptLine ≤ line) &&
      match b.endLine with
      | some e => decide (line ≤ e)
      | none => (blocks[i + 1]?).all fun n => decide (line < n.promptLine)

/-- The first block whose range contains a line. -/
def home (blocks : List BlockPayload) (line : Int) : Option Nat :=
  (List.range blocks.length).find? (contains blocks line)

/-- Whether a line is on a block's output side. -/
def isOutput (blocks : List BlockPayload) (i : Nat) (line : Int) : Bool :=
  (blocks[i]?).any fun b => atOutput b line

/-- Above the first block, which has not ended by then. -/
def isEarly (blocks : List BlockPayload) (line : Int) : Bool :=
  (blocks.head?).any fun b => decide (line < b.promptLine) && b.endLine.all fun e => decide (line ≤ e)

/-- Every row is where the rule says: each list is the rows of the walk that
belong in it, in the order of the session, and together they are the walk. -/
structure Sliced (v : GridView) (l : BlocksLayout) : Prop where
  blocks : l.slices.map BlockSlice.block = v.blocks
  prompts : ∀ i s, l.slices[i]? = some s → s.promptRows =
    (walk v).filter fun r => home v.blocks r.line == some i && !atOutput s.block r.line
  outputs : ∀ i s, l.slices[i]? = some s → s.outputRows =
    (walk v).filter fun r => home v.blocks r.line == some i && atOutput s.block r.line
  preamble : l.preamble =
    (walk v).filter fun r => home v.blocks r.line == none && isEarly v.blocks r.line
  tail : l.tail =
    (walk v).filter fun r => home v.blocks r.line == none && !isEarly v.blocks r.line
  once : (l.preamble ++ l.slices.flatMap (fun s => s.promptRows ++ s.outputRows) ++ l.tail).Perm
    (walk v)

end BlocksView

end Zesterm.Web
