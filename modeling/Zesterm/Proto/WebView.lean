/-
Zesterm.Proto.WebView — the flat decoder of the web client's `grid-view.ts`.

A second reading of the wire that `Decode` models the first of, kept here as
its own source has it: rows and runs are changed in place by loops, and the
list of blocks is searched by bisection. The values are those the wire hands
over, so both decoders read the same types; a line id that a JavaScript
number cannot hold exactly never gets here.

A loop over an array is a fold over its indices, in the same order.
-/
import Zesterm.Proto.Decode
import Zesterm.Lib.Bisect

namespace Zesterm.Web

/-- A client's reconstruction of a session. -/
structure GridView where
  cols : Nat := 0
  rows : List RowPayload := []
  attrs : AttrTable := []
  cursor : CursorState := { row := 0, col := 0, visible := true, shape := 0 }
  altScreen : Bool := false
  modes : BitVec 32 := 0
  title : Str := []
  /-- Lines that left the viewport, oldest first. -/
  scrollback : List RowPayload := []
  /-- Command blocks, ascending by id. -/
  blocks : List BlockPayload := []
  historyClears : Nat := 0
  deriving DecidableEq

namespace GridView

def new : GridView := {}

/-! ## Keyframes -/

/-- History across a keyframe that renumbers nothing. -/
def carryOver (scrollback rows fresh : List RowPayload) : List RowPayload :=
  match fresh.find? fun r => r.line != unseenLine with
  | none => scrollback
  | some firstRow =>
    let firstNew := firstRow.line
    let lastHeld := scrollback.getLast?.map RowPayload.line
    let displaced := rows.filter fun r =>
      r.line != unseenLine && decide (r.line < firstNew) &&
        (lastHeld.isNone || lastHeld.any fun l => decide (r.line > l))
    if displaced.length > 0 then scrollback ++ displaced
    else if lastHeld.any fun l => decide (l ≥ firstNew) then
      scrollback.filter fun r => !(fresh.map RowPayload.line).contains r.line
    else scrollback

/-- Replace everything with a complete state, save the blocks below the one
the keyframe's list begins to be authoritative at. -/
def applyKeyframe (v : GridView) (k : Keyframe) : GridView :=
  let cleared := decide (k.historyClears > v.historyClears)
  let scrollback := if cleared then [] else v.scrollback
  let renumbered := v.cols != 0 && k.cols != v.cols
  let scrollback := if renumbered then [] else scrollback
  let scrollback :=
    if !renumbered && !cleared then carryOver scrollback v.rows k.rowsData else scrollback
  let kept := if renumbered then [] else v.blocks.filter fun b => decide (b.id < k.blocksFrom)
  { v with
    cols := k.cols
    rows := k.rowsData
    attrs := k.attrs.foldl AttrTable.insert v.attrs
    cursor := k.cursor
    modes := k.modes.bits
    altScreen := k.modes.bits &&& Modes.altScreen.bits != 0
    scrollback := scrollback
    blocks := kept ++ k.blocks
    historyClears := if cleared then k.historyClears else v.historyClears }

/-! ## Deltas -/

/-- Insert or replace a block. -/
def upsertBlock (blocks : List BlockPayload) (b : BlockPayload) : List BlockPayload :=
  let lo := Bisect.lower BlockPayload.id blocks b.id 0 blocks.length
  if blocks[lo]?.map BlockPayload.id = some b.id then blocks.set lo b
  else blocks.take lo ++ b :: blocks.drop lo

/-- Rows moved up by `n` from `top` to `last`, in place. -/
def scroll (rows : List RowPayload) (top last n : Nat) : List RowPayload :=
  (List.range' top (last + 1 - top)).foldl
    (fun rows i =>
      rows.set i (if i + n ≤ last then rows.getD (i + n) RowPayload.unseen else RowPayload.unseen))
    rows

/-- Push blank rows up to an index, then the row. -/
def writeRow (rows : List RowPayload) (row : Nat) (payload : RowPayload) : List RowPayload :=
  if row < rows.length then rows.set row payload
  else rows ++ List.replicate (row - rows.length) RowPayload.unseen ++ [payload]

/-- One cell onto the last run, or a run of its own. -/
def pushCell (runs : List Run) (cell : AttrId × Char) : List Run :=
  match runs.getLast? with
  | some last =>
    if last.attr = cell.1 then
      runs.dropLast ++ [{ last with cells := last.cells + 1, text := last.text ++ [cell.2] }]
    else runs ++ [{ attr := cell.1, cells := 1, text := [cell.2], marks := [] }]
  | none => runs ++ [{ attr := cell.1, cells := 1, text := [cell.2], marks := [] }]

/-- One row with `[left, right]` replaced by blanks. -/
def eraseSpan (row : RowPayload) (left right : Nat) (attr : AttrId) : RowPayload :=
  let flat := row.runs.flatMap fun run =>
    (List.range run.cells).map fun i => (run.attr, run.text[i]?.getD ' ')
  let flat := flat ++ List.replicate (right + 1 - flat.length) (attr, ' ')
  let flat := (List.range' left (right + 1 - left)).foldl (fun flat i => flat.set i (attr, ' ')) flat
  { line := row.line, runs := flat.foldl pushCell [], wrapped := row.wrapped }

/-- A span erased from the row at an index, if there is one. -/
def eraseRow (left right : Nat) (attr : AttrId) (rows : List RowPayload) (r : Nat) :
    List RowPayload :=
  match rows[r]? with
  | some row => rows.set r (eraseSpan row left right attr)
  | none => rows

/-- A span erased from each row of `top` to `last` there is. -/
def erase (rows : List RowPayload) (top left last right : Nat) (attr : AttrId) : List RowPayload :=
  (List.range' top (last + 1 - top)).foldl (eraseRow left right attr) rows

def applyOp (v : GridView) : DeltaOp → GridView
  | .scroll top bottom lines =>
    let n := if lines > 0 then lines.toNat else 0
    if n = 0 ∨ top > bottom ∨ bottom ≥ v.rows.length then v
    else { v with rows := scroll v.rows top (min bottom (v.rows.length - 1)) n }
  | .row row payload => { v with rows := writeRow v.rows row payload }
  | .erase top left bottom right attr =>
    if top > bottom ∨ left > right ∨ v.rows.length = 0 then v
    else { v with rows := erase v.rows top left (min bottom (v.rows.length - 1)) right attr }
  | .cursor cursor => { v with cursor := cursor }
  | .sbPush payload => { v with scrollback := v.scrollback ++ [payload] }
  | .altScreen active => { v with altScreen := active }
  | .title title => { v with title := title }
  | .modes bits => { v with modes := bits }

/-- Apply a change. -/
def applyDelta (v : GridView) (d : Delta) : GridView :=
  let v := { v with attrs := d.attrs.foldl AttrTable.insert v.attrs }
  let v := d.ops.foldl applyOp v
  { v with blocks := d.blocks.foldl upsertBlock v.blocks }

end GridView

end Zesterm.Web
