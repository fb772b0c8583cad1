/-
Zesterm.Core.Resize — `Grid::resize` and the rewrap it calls,
`Grid::reflow`.

A width change joins each logical line back together and re-breaks it at
the new width, renumbering every row from the oldest id held; `Reindex`
says where each line went. The source collects a logical line inside the
loop that re-breaks it. Here the rows are first grouped (`groupLines`)
and the loop runs over the groups, so that the joining and the breaking
are two functions with a list of cells between them.

The height half has three cases, each a definition: a shrink, a grow that
something else will repaint, and a grow that pulls history back down.
-/
import Zesterm.Core.Grid

namespace Zesterm

/-! ## The line map of a rewrap -/

/-- Where each line went when a width change renumbered them: `(old, new)`
pairs, ascending by `old`. Empty for a height-only change. -/
structure Reindex where
  map : List (LineId × LineId) := []
  deriving DecidableEq, Inhabited

namespace Reindex

def isEmpty (x : Reindex) : Bool := x.map.isEmpty

/-- The oldest id that still exists after the rewrap. -/
def oldest (x : Reindex) : Option LineId := x.map.head?.map Prod.snd

/-- Where a line went, or `none` if it did not survive. -/
def lookup (x : Reindex) (old : LineId) : Option LineId :=
  (x.map.find? fun p => p.1 == old).map Prod.snd

end Reindex

/-! ## Joining -/

/-- The rows of a storage, grouped into logical lines: a row that wrapped
shares its group with the next one. -/
def groupLines : List Row → List (List Row)
  | [] => []
  | r :: rs =>
    if r.wrapped then
      match groupLines rs with
      | [] => [[r]]
      | line :: lines => (r :: line) :: lines
    else [r] :: groupLines rs

namespace Row

/-- How many of a row's cells its logical line keeps: all of them if it
wrapped, else the trimmed ones and a wide character's spacer after them. -/
def contentEnd (r : Row) : Nat :=
  let stop := if r.wrapped then r.len else r.trimmedLen
  match r.cells[stop]? with
  | some c => if c.flags.contains .wideSpacer then stop + 1 else stop
  | none => stop

/-- The cells a row contributes to its logical line. -/
def content (r : Row) : List (Cell × Option CellExtra) :=
  (r.cells.take r.contentEnd).map fun c => (c, r.extra c)

end Row

/-- One logical line, joined. -/
def joinLine (rows : List Row) : List (Cell × Option CellExtra) := rows.flatMap Row.content

/-- The cursor as an offset into its logical line, whose first row has
storage index `start`. -/
def cursorOffset (rows : List Row) (start cursorAbs cursorCol : Nat) : Option Nat :=
  if start ≤ cursorAbs then
    rows[cursorAbs - start]?.map fun row =>
      (joinLine (rows.take (cursorAbs - start))).length + min cursorCol row.len
  else none

/-! ## Breaking -/

/-- The state of the loop that re-breaks lines: the rows finished so far,
the row being filled and the column it is filled to. -/
structure Break where
  out : List Row
  row : Row
  nextId : LineId
  col : Nat
  cursorTarget : Option (Nat × Nat)

namespace Break

/-- Close the row in hand as wrapped and begin the next. -/
def pushRow (newCols : Nat) (b : Break) : Break :=
  { b with
    out := b.out ++ [b.row.setWrapped true]
    row := Row.new newCols (b.nextId + 1)
    nextId := b.nextId + 1
    col := 0 }

/-- Place one cell of a line. A wide character is never split across the
edge. -/
def place (newCols : Nat) (offset : Option Nat) (b : Break)
    (item : (Cell × Option CellExtra) × Nat) : Break :=
  let ((cell, extra), index) := item
  let b :=
    if cell.flags.contains .wide && decide (b.col + 1 ≥ newCols) && decide (newCols > 1) then
      b.pushRow newCols
    else b
  let b := if b.col ≥ newCols then b.pushRow newCols else b
  let b := if offset = some index then { b with cursorTarget := some (b.out.length, b.col) } else b
  { b with row := b.row.attach b.col cell extra, col := b.col + 1 }

/-- Re-break one joined line, from the row `nextId` on. -/
def line (newCols : Nat) (offset : Option Nat) (cells : List (Cell × Option CellExtra))
    (b : Break) : Break :=
  let b := { b with row := Row.new newCols b.nextId, col := 0 }
  let b := cells.zipIdx.foldl (place newCols offset) b
  -- The cursor can sit one past the last character.
  let past := if b.col ≥ newCols then (b.out.length + 1, 0) else (b.out.length, b.col)
  let b := if offset = some cells.length then { b with cursorTarget := some past } else b
  { b with out := b.out ++ [b.row], nextId := b.nextId + 1 }

end Break

/-- The loop over logical lines: `start` is the storage index of the first
row of the next one, `map` the line map so far. -/
def reflowLines (newCols cursorAbs cursorCol : Nat) :
    List (List Row) → Nat → List (LineId × LineId) → Break → List (LineId × LineId) × Break
  | [], _, map, b => (map, b)
  | line :: lines, start, map, b =>
    -- Every row of the line re-anchors to the first new row of it.
    let map := map ++ line.map fun r => (r.id, b.nextId)
    let offset := cursorOffset line start cursorAbs cursorCol
    reflowLines newCols cursorAbs cursorCol lines (start + line.length) map
      (b.line newCols offset (joinLine line))

namespace Grid

/-- Storage index of the row the cursor is on. -/
def storageIndexOfCursor (g : Grid) (total : Nat) : Nat := total - g.rows + g.cursor.row

/-- Rewrap every logical line to a new width. -/
def reflow (g : Grid) (newCols : Nat) (template : Cell) : Grid × Reindex :=
  let oldRows := g.storage.logical
  match oldRows with
  | [] => ({ g with storage := { g.storage with rows := [], origin := 0 } }, { map := [] })
  | first :: _ =>
    let cursorAbs := min (g.storageIndexOfCursor oldRows.length) (oldRows.length - 1)
    let start : Break :=
      { out := [], row := default, nextId := first.id, col := 0, cursorTarget := none }
    let (map, b) := reflowLines newCols cursorAbs g.cursor.col (groupLines oldRows) 0 [] start
    -- The viewport is the tail; everything above it is history.
    let missing := g.rows - b.out.length
    let out := b.out ++
      (List.range' b.nextId missing).map (Storage.blankRow newCols template)
    let nextId := b.nextId + missing
    let scrollback := out.length - g.rows
    let excess := scrollback - g.scrollbackLimit
    let out := out.drop excess
    let scrollback := scrollback - excess
    let map :=
      match out.head? with
      | some oldest => map.filter fun p => oldest.id ≤ p.2
      | none => map
    let storage := (g.storage.setNextId nextId).replaceAll out
    let cursor : Cursor :=
      match b.cursorTarget with
      | some (absRow, absCol) =>
        { row := min (absRow - (out.length - g.rows)) (g.rows - 1)
          col := min absCol (newCols - 1)
          pendingWrap := false }
      | none => { g.cursor with col := min g.cursor.col (newCols - 1), pendingWrap := false }
    ({ g with
        cols := newCols
        scrollbackLen := scrollback
        storage := storage
        cursor := cursor
        displayOffset := min g.displayOffset scrollback },
      { map := map })

/-! ## Resizing -/

/-- The width half of `resize`. The alternate screen, whose limit is zero,
is never rewrapped. -/
def resizeWidth (g : Grid) (cols : Nat) (template : Cell) : Grid × Reindex :=
  if cols = g.cols then (g, {})
  else
    let g := { g with settledPull := 0 }
    let (g, reindex) : Grid × Reindex :=
      if g.scrollbackLimit = 0 then
        ({ g with storage := g.storage.resizeCols cols template }, {})
      else g.reflow cols template
    ({ g with cols := cols }, reindex)

/-- A shrink gives up the rows below the cursor first; what cannot be found
there leaves over the top, where it becomes scrollback. -/
def shrinkRows (g : Grid) (rows : Nat) : Grid :=
  let below := g.rows - 1 - min g.cursor.row (g.rows - 1)
  let fromBottom := min (g.rows - rows) below
  let g := { g with storage := g.storage.truncateBottom fromBottom }
  let overTheTop := g.rows - rows - fromBottom
  if overTheTop > 0 then
    let banked := g.scrollbackLen
    let g := { g with
      scrollbackLen := min (g.scrollbackLen + overTheTop) g.scrollbackLimit
      cursor := { g.cursor with row := g.cursor.row - overTheTop } }
    let g : Grid :=
      if g.viewportRestatedElsewhere then
        { g with restateDebt := g.restateDebt + (g.scrollbackLen - banked) }
      else g
    { g with settledPull := g.settledPull - (g.scrollbackLen - banked) }
  else g

/-- A grow that a repaint will answer: note what is owed, move nothing. -/
def growRestated (g : Grid) (rows : Nat) : Grid :=
  let owed := min (rows - g.rows) g.restateDebt
  { g with pendingRestate := g.pendingRestate + owed, restateDebt := g.restateDebt - owed }

/-- A grow that pulls rows back down out of scrollback. -/
def growRows (g : Grid) (rows : Nat) : Grid :=
  let fromScrollback := min (rows - g.rows) g.scrollbackLen
  { g with
    scrollbackLen := g.scrollbackLen - fromScrollback
    cursor := { g.cursor with row := g.cursor.row + fromScrollback } }

/-- The height half of `resize`. -/
def resizeHeight (g : Grid) (cols rows : Nat) (template : Cell) : Grid :=
  if rows = g.rows then g
  else
    let g :=
      if rows < g.rows then g.shrinkRows rows
      else if g.viewportRestatedElsewhere then g.growRestated rows
      else g.growRows rows
    { g with
      storage := g.storage.resizeRows (g.scrollbackLen + rows) cols template
      rows := rows }

/-- Resize the viewport. -/
def resize (g : Grid) (cols rows : Nat) (template : Cell) : Grid × Reindex :=
  let cols := max cols 1
  let rows := max rows 1
  if cols = g.cols ∧ rows = g.rows then (g, {})
  else
    -- A repaint armed when this resize landed was laid out for a viewport
    -- that no longer exists.
    let g := if g.restating then { g with restating := false, sittingOut := true } else g
    let (g, reindex) := g.resizeWidth cols template
    let g := g.resizeHeight cols rows template
    ({ g with
        region := ScrollRegion.full g.rows
        cursor :=
          { row := min g.cursor.row (g.rows - 1)
            col := min g.cursor.col (g.cols - 1)
            pendingWrap := false }
        displayOffset := min g.displayOffset g.scrollbackLen },
      reindex)

end Grid

end Zesterm
