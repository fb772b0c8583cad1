/-
Zesterm.Proto.Decode — the flat decoder of `zest-proto`'s `decode.rs`,
the reference for clients that keep a list of rows rather than a terminal.
-/
import Zesterm.Proto.Encode

namespace Zesterm

/-- A client's reconstruction of a session. -/
structure GridView where
  cols : Nat := 0
  rows : List RowPayload := []
  attrs : AttrTable := []
  cursor : CursorState := CursorState.default
  altScreen : Bool := false
  modes : BitVec 32 := 0
  title : Str := []
  /-- Lines that left the viewport, oldest first. -/
  scrollback : List RowPayload := []
  /-- Command blocks, ascending by id. -/
  blocks : List BlockPayload := []
  historyClears : Nat := 0
  deriving DecidableEq

namespace GridView

def new : GridView := {}

/-! ## Keyframes -/

/-- Whether a row the view shows is one a keyframe beginning at `first`
displaces. -/
def isDisplaced (first : Int) (lastHeld : Option Int) (r : RowPayload) : Bool :=
  r.line != unseenLine && decide (r.line < first) && lastHeld.all fun l => decide (l < r.line)

/-- History across a keyframe of the same width: what leaves the viewport
becomes history, or what it takes back stops being history. -/
def rebank (scrollback rows fresh : List RowPayload) : List RowPayload :=
  match (fresh.map RowPayload.line).find? fun l => l != unseenLine with
  | none => scrollback
  | some first =>
    let lastHeld := scrollback.getLast?.map RowPayload.line
    let displaced := rows.filter (isDisplaced first lastHeld)
    if !displaced.isEmpty then scrollback ++ displaced
    else if lastHeld.any fun l => decide (first ≤ l) then
      scrollback.filter fun r => !(fresh.map RowPayload.line).contains r.line
    else scrollback

/-- Replace everything with a complete state. -/
def applyKeyframe (v : GridView) (k : Keyframe) : GridView :=
  let cleared := decide (k.historyClears > v.historyClears)
  let renumbered := decide (v.cols ≠ 0 ∧ k.cols ≠ v.cols)
  let scrollback := if cleared || renumbered then [] else v.scrollback
  let scrollback :=
    if v.cols = k.cols ∧ cleared = false then rebank scrollback v.rows k.rowsData else scrollback
  { v with
    cols := k.cols
    rows := k.rowsData
    attrs := v.attrs.absorb k.attrs
    cursor := k.cursor
    modes := k.modes.bits
    altScreen := k.modes.contains .altScreen
    scrollback := scrollback
    blocks := k.blocks
    historyClears := if cleared then k.historyClears else v.historyClears }

/-! ## Deltas -/

/-- Insert or replace a block, keeping the list ascending by id. -/
def upsertBlock (b : BlockPayload) : List BlockPayload → List BlockPayload
  | [] => [b]
  | x :: xs =>
    if x.id = b.id then b :: xs
    else if b.id < x.id then b :: x :: xs
    else x :: upsertBlock b xs

/-- Rows moved up by `n` within a region. Each row reads one below it, so
the source's loop reads none it has written. -/
def scrollRows (rows : List RowPayload) (top bottom n : Nat) : List RowPayload :=
  rows.mapIdx fun i r =>
    if top ≤ i ∧ i ≤ bottom then
      if i + n ≤ bottom then rows.getD (i + n) RowPayload.unseen else RowPayload.unseen
    else r

/-- A row put at an index, the list grown to reach it. -/
def putRow (rows : List RowPayload) (i : Nat) (payload : RowPayload) : List RowPayload :=
  if i < rows.length then rows.set i payload
  else rows ++ List.replicate (i - rows.length) RowPayload.unseen ++ [payload]

/-- A run list flattened to one attribute and character a cell. -/
def flatten (row : RowPayload) : List (AttrId × Char) :=
  row.runs.flatMap fun run => (List.range run.cells).map fun i => (run.attr, run.text.getD i ' ')

/-- Flat cells coalesced into runs. -/
def coalesce (cells : List (AttrId × Char)) : List Run :=
  cells.foldr
    (fun (attr, ch) runs =>
      match runs with
      | run :: rest =>
        if run.attr = attr then
          { run with cells := run.cells + 1, text := ch :: run.text } :: rest
        else { attr := attr, cells := 1, text := [ch], marks := [] } :: run :: rest
      | [] => [{ attr := attr, cells := 1, text := [ch], marks := [] }])
    []

/-- One row with a span replaced by blanks. -/
def eraseSpan (row : RowPayload) (left right : Nat) (attr : AttrId) : RowPayload :=
  let flat := flatten row
  let flat := flat ++ List.replicate (right + 1 - flat.length) (attr, ' ')
  let flat := flat.mapIdx fun i c => if left ≤ i ∧ i ≤ right then (attr, ' ') else c
  { row with runs := coalesce flat }

def applyOp (v : GridView) : DeltaOp → GridView
  | .scroll top bottom lines =>
    let n := lines.toNat
    if n = 0 ∨ top > bottom ∨ bottom ≥ v.rows.length then v
    else { v with rows := scrollRows v.rows top bottom n }
  | .row row payload => { v with rows := putRow v.rows row payload }
  | .erase top left bottom right attr =>
    if top > bottom ∨ left > right then v
    else
      { v with rows := v.rows.mapIdx fun i r =>
          if top ≤ i ∧ i ≤ bottom then eraseSpan r left right attr else r }
  | .cursor cursor => { v with cursor := cursor }
  | .sbPush payload => { v with scrollback := v.scrollback ++ [payload] }
  | .altScreen active => { v with altScreen := active }
  | .title title => { v with title := title }
  | .modes bits => { v with modes := bits }

/-- Apply a change. -/
def applyDelta (v : GridView) (d : Delta) : GridView :=
  let v := { v with attrs := v.attrs.absorb d.attrs }
  let v := d.ops.foldl applyOp v
  { v with blocks := d.blocks.foldl (fun bs b => upsertBlock b bs) v.blocks }

end GridView

end Zesterm
