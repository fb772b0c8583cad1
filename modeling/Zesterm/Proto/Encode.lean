/-
Zesterm.Proto.Encode — turning a grid into deltas, `zest-proto`'s
`encode.rs`.

One `Encoder` per subscriber holds the rows as that subscriber last saw
them, and the next delta is the difference. The encoder's hash table of
attributes is a list in order of insertion; a keyframe sorts it by id, so
no other order ever shows.
-/
import Zesterm.Proto.Delta

namespace Zesterm

/-- Per-subscriber encoding state. -/
structure Encoder where
  /-- Interning table, cumulative for the session. -/
  attrs : List (AttrKey × AttrId)
  /-- Attributes defined but not yet sent. -/
  pendingAttrs : List AttrDef
  /-- Rows as the subscriber last saw them. -/
  seen : List RowPayload
  /-- Blocks as the subscriber last saw them. -/
  seenBlocks : List BlockPayload
  cursor : CursorState
  modes : Modes
  title : Str
  nextAttr : AttrId
  deriving DecidableEq

namespace Encoder

def new : Encoder :=
  { attrs := []
    pendingAttrs := []
    seen := []
    seenBlocks := []
    cursor := CursorState.default
    modes := Modes.empty
    title := []
    nextAttr := 0 }

/-- Intern an attribute, defining it if this is the first time. -/
def attr (e : Encoder) (cell : Cell) : AttrId × Encoder :=
  match (e.attrs.find? fun p => p.1 == cell.attrKey).map Prod.snd with
  | some id => (id, e)
  | none =>
    let id := e.nextAttr
    (id,
      { e with
        nextAttr := (e.nextAttr + 1) % 65536
        attrs := e.attrs ++ [(cell.attrKey, id)]
        pendingAttrs := e.pendingAttrs ++
          [{ id := id, fg := cell.fg, bg := cell.bg, flags := cell.flags }] })

/-! ## Rows -/

/-- A trailing cell that is not sent. -/
def isTrailing (c : Cell) : Bool := c.ch == ' ' && c.bg == .default && c.flags == .empty

/-- The cells of a row that are sent. -/
def sentCells (row : Row) : List Cell := row.cells.rdropWhile isTrailing

/-- Split cells into maximal stretches of one attribute. -/
def splitRuns : List Cell → List (List Cell)
  | [] => []
  | c :: cells =>
    match splitRuns cells with
    | (d :: run) :: runs =>
      if c.attrKey = d.attrKey then (c :: d :: run) :: runs else [c] :: (d :: run) :: runs
    | _ => [[c]]

/-- The marks of one stretch, by offset. -/
def runMarks (row : Row) (run : List Cell) : List CellMarks :=
  run.zipIdx.filterMap fun (c, i) =>
    match row.extra c with
    | some extra =>
      if extra.zerowidth.isEmpty then none else some { atCell := wireU16 i, marks := extra.zerowidth }
    | none => none

/-- A stretch as a run. A wide character's spacer is counted and not
written. -/
def toRun (row : Row) (attr : AttrId) (run : List Cell) : Run :=
  { attr := attr
    cells := wireU16 run.length
    text := (run.filter fun c => !c.flags.contains .wideSpacer).map Cell.ch
    marks := runMarks row run }

/-- The runs of a row, interning as they come. -/
def encodeRuns (row : Row) : List (List Cell) → Encoder → List Run × Encoder
  | [], e => ([], e)
  | run :: runs, e =>
    let (id, e) := e.attr (run.headD Cell.blank)
    let (rest, e) := encodeRuns row runs e
    (toRun row id run :: rest, e)

/-- Split one grid row into runs. -/
def encodeRow (e : Encoder) (row : Row) : RowPayload × Encoder :=
  let (runs, e) := encodeRuns row (splitRuns (sentCells row)) e
  ({ line := wireLine row.id, runs := runs, wrapped := row.wrapped }, e)

/-- Encode rows in order. -/
def encodeRows : List Row → Encoder → List RowPayload × Encoder
  | [], e => ([], e)
  | row :: rows, e =>
    let (payload, e) := e.encodeRow row
    let (rest, e) := encodeRows rows e
    (payload :: rest, e)

/-- The rows of the live screen. -/
def activeRows (grid : Grid) : List Row := (List.range grid.rows).map grid.activeRow

def encodeAllRows (e : Encoder) (grid : Grid) : List RowPayload × Encoder :=
  encodeRows (activeRows grid) e

/-- Every attribute defined so far, in order of id. -/
def allAttrs (e : Encoder) : List AttrDef :=
  (e.attrs.map fun ((fg, bg, flags), id) =>
    ({ id := id, fg := fg, bg := bg, flags := flags } : AttrDef)).insertionSort fun a b =>
      a.id ≤ b.id

/-! ## Keyframes -/

/-- The whole state, and the subscriber's new baseline. -/
def keyframe (e : Encoder) (grid : Grid) (cursor : CursorState) (modes : Modes) (title : Str)
    (blocks : BlockIndex) : Keyframe × Encoder :=
  let (rows, e) := e.encodeAllRows grid
  let seenBlocks := blocks.blocks.map BlockPayload.fromBlock
  ({ cols := wireU16 grid.cols
     rows := wireU16 grid.rows
     rowsData := rows
     attrs := e.allAttrs
     cursor := cursor
     modes := modes
     blocks := seenBlocks
     blocksFrom := blocks.authoritativeFrom
     historyClears := grid.historyClears
     title := title },
    { e with
      pendingAttrs := []
      seen := rows
      cursor := cursor
      modes := modes
      title := title
      seenBlocks := seenBlocks })

/-- Whether an id is met in an ascending list, and what is left of the
list afterwards. -/
def mergeId (id : BlockId) : List BlockId → Bool × List BlockId
  | [] => (false, [])
  | x :: xs =>
    if x < id then mergeId id xs
    else if x = id then (true, xs)
    else (false, x :: xs)

/-- Whether some id of the first ascending list is missing from the
second. -/
def anyMissing : List BlockId → List BlockId → Bool
  | [], _ => false
  | id :: ids, fresh =>
    let (met, fresh) := mergeId id fresh
    !met || anyMissing ids fresh

/-- Whether the host has lost a block a delta cannot describe. -/
def blocksNeedKeyframe (e : Encoder) (blocks : BlockIndex) : Bool :=
  anyMissing
    ((e.seenBlocks.filter fun o => decide (blocks.authoritativeFrom ≤ o.id)).map BlockPayload.id)
    (blocks.blocks.map Block.id)

/-! ## Deltas -/

/-- Blocks of the second list that are new or changed against the first;
both ascend by id. -/
def changedBlocks : List BlockPayload → List BlockPayload → List BlockPayload
  | _, [] => []
  | old, b :: fresh =>
    match old.dropWhile fun o => decide (o.id < b.id) with
    | [] => b :: changedBlocks [] fresh
    | o :: old =>
      if o.id = b.id then
        if o = b then changedBlocks old fresh else b :: changedBlocks old fresh
      else b :: changedBlocks (o :: old) fresh

/-- The shadow, cut or padded to a length. -/
def resizeSeen (rows : List RowPayload) (len : Nat) : List RowPayload :=
  rows.take len ++ List.replicate (len - rows.length) RowPayload.unseen

/-- How far the viewport moved since the shadow, if that is a scroll. A
jump larger than the viewport is not one. -/
def scrollDistance (seen : List RowPayload) (grid : Grid) : Option Nat :=
  match seen.head? with
  | none => none
  | some first =>
    let moved := wireLine (grid.activeRow 0).id - first.line
    if 0 < moved ∧ moved < seen.length then some moved.toNat else none

/-- The ops of a screen switch, which come before everything. -/
def switchOps (old new : Modes) : List DeltaOp :=
  (if new.contains .altScreen ≠ old.contains .altScreen then
      [.altScreen (new.contains .altScreen)] else []) ++
    (if new ≠ old then [.modes new.bits] else [])

/-- The ops of a scroll by `n` rows. -/
def scrollOps (seen : List RowPayload) (n : Nat) : List DeltaOp :=
  .scroll 0 (wireU16 (seen.length - 1)) (wireI16 n) :: (seen.take n).map DeltaOp.sbPush

/-- A row op for every row that differs from the shadow. -/
def rowOps (seen fresh : List RowPayload) : List DeltaOp :=
  fresh.zipIdx.filterMap fun (row, i) =>
    if seen[i]? = some row then none else some (.row (wireU16 i) row)

/-- What changed since the last keyframe or delta. -/
def delta (e : Encoder) (grid : Grid) (cursor : CursorState) (modes : Modes) (title : Str)
    (blocks : BlockIndex) : Delta × Encoder :=
  let moved := scrollDistance e.seen grid
  let scrolled : List DeltaOp :=
    match moved with
    | some n => scrollOps e.seen n
    | none => []
  let seen : List RowPayload :=
    match moved with
    | some n => resizeSeen (e.seen.drop n) grid.rows
    | none => e.seen
  let switch := switchOps e.modes modes
  let (fresh, e) := { e with modes := modes }.encodeAllRows grid
  let seen := if fresh.length ≠ seen.length then resizeSeen seen fresh.length else seen
  let ops :=
    switch ++ scrolled ++ rowOps seen fresh ++
      (if cursor ≠ e.cursor then [.cursor cursor] else []) ++
      (if title ≠ e.title then [.title title] else [])
  let freshBlocks := blocks.blocks.map BlockPayload.fromBlock
  ({ attrs := e.pendingAttrs, ops := ops, blocks := changedBlocks e.seenBlocks freshBlocks },
    { e with
      pendingAttrs := []
      seen := fresh
      cursor := cursor
      title := title
      seenBlocks := freshBlocks })

/-- Encode rows of history, self-contained. -/
def history (e : Encoder) (rows : List Row) : (List RowPayload × List AttrDef) × Encoder :=
  let (payloads, e) := encodeRows rows e
  ((payloads, e.allAttrs), e)

end Encoder

/-- The cursor as the host reports it. -/
def cursorOf (s : TermState) : CursorState :=
  let c := s.activeGrid.cursor
  { row := if c.row ≤ 65535 then c.row else 0
    col := if c.col ≤ 65535 then c.col else 0
    visible := s.modes.contains .showCursor
    shape := s.cursorStyle.toDecscusr }

end Zesterm
