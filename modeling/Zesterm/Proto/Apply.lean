/-
Zesterm.Proto.Apply — applying keyframes and deltas into a terminal,
`zest-proto`'s `apply.rs`, the reference decoder for clients that hold a
terminal of their own.

The applier borrows the client's terminal for each call; here each
function takes the applier and the terminal state and gives both back. The
scratch row it reuses holds nothing between calls and is left out.
-/
import Zesterm.Proto.Decode

namespace Zesterm

/-- What the applier could not do. -/
inductive Applied where
  | ok
  /-- Applied as far as possible; the caller must ask for a keyframe. -/
  | needsKeyframe
  deriving DecidableEq

/-- Applies wire deltas into a terminal. -/
structure Applier where
  attrs : AttrTable := []
  /-- The sequence this client holds. -/
  applied : Nat := 0
  /-- The last announced-destruction count this client has honoured. -/
  historyClears : Nat := 0
  deriving DecidableEq

namespace Applier

def new : Applier := {}

/-! ## Rows -/

/-- The cells of one run: characters in order, and spaces once the text
runs out. -/
def runCells (def? : Option AttrDef) (run : Run) : List Cell :=
  (List.range run.cells).map fun i =>
    match def? with
    | some d =>
      { ch := run.text.getD i ' ', fg := d.fg, bg := d.bg, flags := d.flags, extra := noExtra }
    | none => { Cell.blank with ch := run.text.getD i ' ' }

/-- Turn runs into cells. -/
def fill (attrs : AttrTable) (payload : RowPayload) : List Cell :=
  payload.runs.flatMap fun run => runCells (attrs.get run.attr) run

/-- Whether every run names a known attribute. -/
def known (attrs : AttrTable) (payload : RowPayload) : Bool :=
  payload.runs.all fun run => (attrs.get run.attr).isSome

/-- Attach the marks of a row's runs, the first of which starts at `base`. -/
def writeMarks (row : Nat) : List Run → Nat → TermState → TermState
  | [], _, s => s
  | run :: runs, base, s =>
    writeMarks row runs (base + run.cells)
      (run.marks.foldl (fun s m => RemoteWriter.pushMarks s row (base + m.atCell) m.marks) s)

/-- Write one row of the wire; marks go on after the row. -/
def writeRow (a : Applier) (s : TermState) (row : Nat) (payload : RowPayload) :
    TermState × Bool :=
  let s := RemoteWriter.writeRow s row (lineId payload.line) (fill a.attrs payload) payload.wrapped
  (writeMarks row payload.runs 0 s, known a.attrs payload)

/-- Write a keyframe's rows, in order. -/
def writeRows (a : Applier) (rows : List RowPayload) (s : TermState) : TermState :=
  rows.zipIdx.foldl (fun s p => (a.writeRow s p.2 p.1).1) s

/-- Keep the client's line counter level with the host's. -/
def syncLines (s : TermState) (maxLine : Int) : TermState :=
  if maxLine > unseenLine then RemoteWriter.syncNextLineId s (lineId (min (maxLine + 1) i64Max))
  else s

def applyCursor (s : TermState) (cursor : CursorState) : TermState :=
  let s := RemoteWriter.setCursor s cursor.row cursor.col
  let s := RemoteWriter.setModes s (s.modes.set .showCursor cursor.visible)
  RemoteWriter.setCursorStyle s (CursorStyle.fromDecscusr cursor.shape)

/-! ## Keyframes -/

/-- How many rows at the top of the viewport a keyframe beginning at
`first` displaces. -/
def displaced (g : Grid) (first : LineId) : Nat :=
  let lastHeld :=
    if g.scrollbackLen > 0 then (g.line (g.scrollbackLen - 1)).map Row.id else none
  (((List.range g.rows).map fun r => (g.activeRow r).id).takeWhile fun id =>
    decide (id < first) && lastHeld.all fun l => decide (l < id)).length

/-- Bank the rows a keyframe displaces, or take back the ones it names. -/
def rebank (s : TermState) (named : List LineId) (cleared : Bool) : TermState :=
  match named.min? with
  | none => s
  | some first =>
    let n := if cleared then 0 else displaced s.activeGrid first
    if n > 0 then RemoteWriter.bankDisplaced s n else RemoteWriter.dropHistory s named

/-- The greatest line a batch of rows names. -/
def maxLine (rows : List RowPayload) : Int :=
  rows.foldl (fun m r => max m r.line) unseenLine

/-- Replace everything with a complete state. -/
def applyKeyframe (a : Applier) (s : TermState) (k : Keyframe) (seq : Nat) : Applier × TermState :=
  let a := { a with attrs := a.attrs.absorb k.attrs }
  let s :=
    if s.activeGrid.cols ≠ k.cols ∨ s.activeGrid.rows ≠ k.rows then
      RemoteWriter.resize s k.cols k.rows
    else s
  -- Modes before rows: they choose the grid the rows belong to.
  let s := RemoteWriter.setModes s k.modes
  let cleared := decide (k.historyClears > a.historyClears)
  let s := if cleared then RemoteWriter.clearHistory s else s
  let a : Applier := if cleared then { a with historyClears := k.historyClears } else a
  let named := ((k.rowsData.map RowPayload.line).filter fun l => decide (0 ≤ l)).map lineId
  let s := rebank s named cleared
  let s := a.writeRows k.rowsData s
  let s := syncLines s (maxLine k.rowsData)
  let s := applyCursor s k.cursor
  -- Blocks after the rows: they name lines by absolute id.
  let s := RemoteWriter.dropBlocksFrom s k.blocksFrom
  let s := k.blocks.foldl (fun s b => RemoteWriter.upsertBlock s b.toBlock) s
  let s := if k.title.isEmpty then s else RemoteWriter.setTitle s k.title
  ({ a with applied := seq }, RemoteWriter.setSeq (RemoteWriter.markFull s) seq)

/-! ## Deltas -/

/-- The state of the loop over a delta's ops. -/
structure Progress where
  term : TermState
  outcome : Applied
  maxLine : Int

/-- Apply one op of a batch; `scrolled` says that the batch has a scroll,
which has already filed the rows it displaced. -/
def applyOp (a : Applier) (scrolled : Bool) (p : Progress) : DeltaOp → Progress
  | .scroll top bottom lines => { p with term := RemoteWriter.scroll p.term top bottom lines }
  | .row row payload =>
    if row ≥ p.term.activeGrid.rows then { p with outcome := .needsKeyframe }
    else
      let (term, known) := a.writeRow p.term row payload
      { term := term
        outcome := if known then p.outcome else .needsKeyframe
        maxLine := max p.maxLine payload.line }
  | .erase top left bottom right attr =>
    match a.attrs.get attr with
    | none => { p with outcome := .needsKeyframe }
    | some d =>
      let template : Cell := { Cell.blank with fg := d.fg, bg := d.bg, flags := d.flags }
      { p with term := RemoteWriter.erase p.term top left bottom right template }
  | .cursor cursor => { p with term := applyCursor p.term cursor }
  | .sbPush payload =>
    if scrolled then p
    else
      let row := (lineId payload.line, fill a.attrs payload, payload.wrapped)
      { p with term := RemoteWriter.prependHistory p.term [row] }
  | .altScreen active => { p with term := RemoteWriter.setAltScreen p.term active }
  | .modes bits => { p with term := RemoteWriter.setModes p.term (Modes.fromBitsTruncate bits) }
  | .title title => { p with term := RemoteWriter.setTitle p.term title }

/-- Apply one batch. Nothing is applied to a state it was not built
against. -/
def applyDelta (a : Applier) (s : TermState) (d : Delta) (base seq : Nat) :
    (Applier × TermState) × Applied :=
  if base ≠ a.applied then ((a, s), .needsKeyframe)
  else
    let a := { a with attrs := a.attrs.absorb d.attrs }
    let scrolled := d.ops.any DeltaOp.isScroll
    let p := d.ops.foldl (a.applyOp scrolled) { term := s, outcome := .ok, maxLine := unseenLine }
    let s := syncLines p.term p.maxLine
    let s := d.blocks.foldl (fun s b => RemoteWriter.upsertBlock s b.toBlock) s
    ((if p.outcome = .ok then { a with applied := seq } else a, RemoteWriter.setSeq s seq),
      p.outcome)

/-- History fetched on request, oldest first. -/
def applyScrollback (a : Applier) (s : TermState) (rows : List RowPayload) : TermState :=
  RemoteWriter.prependHistory s
    (rows.map fun p => (lineId p.line, fill a.attrs p, p.wrapped))

/-- Learn attributes that arrived outside a delta. -/
def absorbAttrs (a : Applier) (attrs : List AttrDef) : Applier :=
  { a with attrs := a.attrs.absorb attrs }

end Applier

end Zesterm
