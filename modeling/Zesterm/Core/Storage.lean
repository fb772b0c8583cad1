/-
Zesterm.Core.Storage — rows and the row ring of `zest-core`'s
`grid/storage.rs`.

`Storage` keeps the ring of the source: a vector of rows, a rotating
origin and the counter that numbers lines. `Storage.logical` is what the
ring means, its rows oldest first; `StorageTheorems` shows what each
operation of the ring does to that list, and nothing above this module
looks at the origin again.

Line ids (`u64`) and lengths are natural numbers.
-/
import Zesterm.Core.Cell

namespace Zesterm

/-- Monotonic identifier of a line, counted from the first ever written. -/
abbrev LineId := Nat

/-- Side data of the rare cell that needs more than one character. -/
structure CellExtra where
  zerowidth : List Char := []
  hyperlink : Option Nat := none
  deriving DecidableEq, Inhabited

/-! ## Rows -/

/-- One line of the terminal. -/
structure Row where
  cells : List Cell
  extras : List CellExtra
  id : LineId
  deriving DecidableEq, Inhabited

namespace Row

def new (cols : Nat) (id : LineId) : Row :=
  { cells := List.replicate cols Cell.blank, extras := [], id := id }

def len (r : Row) : Nat := r.cells.length

/-- True if this row continues into the next. Read from the last cell. -/
def wrapped (r : Row) : Bool :=
  match r.cells.getLast? with
  | some c => c.flags.contains .wrapline
  | none => false

/-- Record on the last cell whether this row continues into the next. -/
def setWrapped (r : Row) (wrapped : Bool) : Row :=
  { r with
    cells := r.cells.modify (r.cells.length - 1) fun c =>
      { c with flags := c.flags.set .wrapline wrapped } }

/-- Resolve a cell's side-table entry, if it has one. -/
def extra (r : Row) (c : Cell) : Option CellExtra :=
  if c.extra == noExtra then none else r.extras[c.extra]?

/-- `*row.get_mut(col) = cell`, where there is such a cell. -/
def setCell (r : Row) (col : Nat) (cell : Cell) : Row :=
  { r with cells := r.cells.set col cell }

/-- Attach a combining mark to the cell at `col`, in a side-table slot
allocated on first use. A full table drops the mark. -/
def pushZerowidth (r : Row) (col : Nat) (mark : Char) : Row :=
  match r.cells[col]? with
  | none => r
  | some cell =>
    if cell.extra == noExtra then
      if r.extras.length ≥ noExtra then r
      else
        { r with
          cells := r.cells.set col { cell with extra := r.extras.length }
          extras := r.extras ++ [{ zerowidth := [mark] }] }
    else
      { r with
        extras := r.extras.modify cell.extra fun e =>
          { e with zerowidth := e.zerowidth ++ [mark] } }

/-- One cell with whatever the side table holds for it. -/
def detach (r : Row) (col : Nat) : Option (Cell × Option CellExtra) :=
  r.cells[col]?.map fun c => (c, r.extra c)

/-- Put a detached cell at `col`, re-interning its side-table entry. -/
def attach (r : Row) (col : Nat) (cell : Cell) (extra : Option CellExtra) : Row :=
  if col < r.cells.length then
    match extra with
    | some e =>
      if r.extras.length < noExtra then
        { r with
          cells := r.cells.set col { cell with extra := r.extras.length }
          extras := r.extras ++ [e] }
      else { r with cells := r.cells.set col { cell with extra := noExtra } }
    | none => { r with cells := r.cells.set col { cell with extra := noExtra } }
  else r

/-- Blank the row. -/
def reset (r : Row) (template : Cell) (id : LineId) : Row :=
  { cells := List.replicate r.cells.length template.blankWith, extras := [], id := id }

/-- Grow or shrink to `cols`, without reflowing. -/
def resize (r : Row) (cols : Nat) (template : Cell) : Row :=
  { r with cells :=
      r.cells.take cols ++ List.replicate (cols - r.cells.length) template.blankWith }

/-- Where the meaningful content ends. -/
def trimmedLen (r : Row) : Nat := (r.cells.rdropWhile Cell.isPadding).length

/-- The characters one cell contributes to the text of its row. -/
def cellText (r : Row) (c : Cell) : Str :=
  if c.flags.contains .wideSpacer then []
  else c.ch :: ((r.extra c).map CellExtra.zerowidth).getD []

/-- The row's text, ignoring attributes, combining marks included. -/
def text (r : Row) : Str := (r.cells.take r.trimmedLen).flatMap r.cellText

end Row

/-! ## The ring -/

/-- A ring of rows with a rotating origin. -/
structure Storage where
  rows : List Row
  /-- Index into `rows` of the logical first line. -/
  origin : Nat
  /-- Id to assign the next newly exposed line. -/
  nextId : LineId

namespace Storage

def new (len cols : Nat) : Storage :=
  { rows := (List.range len).map (Row.new cols), origin := 0, nextId := len }

def len (s : Storage) : Nat := s.rows.length

/-- The rows in logical order, oldest first. -/
def logical (s : Storage) : List Row := s.rows.rotate s.origin

/-- Adopt a counter decided elsewhere. Monotonic. -/
def setNextId (s : Storage) (id : LineId) : Storage := { s with nextId := max s.nextId id }

def physical (s : Storage) (i : Nat) : Nat := (s.origin + i) % s.rows.length

def row (s : Storage) (i : Nat) : Row := s.rows.getD (s.physical i) default

/-- `row_mut`, as the edit made through it. -/
def modifyRow (s : Storage) (i : Nat) (f : Row → Row) : Storage :=
  { s with rows := s.rows.modify (s.physical i) f }

/-- Insert rows above the oldest, as history that arrived after the fact. -/
def prepend (s : Storage) (rows : List (LineId × List Cell × Bool)) (cols : Nat) : Storage :=
  if rows.isEmpty then s
  else
    let built := rows.map fun (id, cells, wrapped) =>
      ({ (Row.new cols id) with
          cells := (List.range cols).map fun i => cells.getD i Cell.blank } : Row).setWrapped
            wrapped
    { s with rows := built ++ (List.range s.rows.length).map s.row, origin := 0 }

/-- Rotate the ring so that logical line `by` becomes line 0. -/
def rotateUp (s : Storage) (n : Nat) : Storage :=
  if s.rows.isEmpty then s else { s with origin := (s.origin + n) % s.rows.length }

/-- Recycle the row at logical index `i`, giving it a fresh id. -/
def recycle (s : Storage) (i : Nat) (template : Cell) : Storage :=
  { (s.modifyRow i fun r => r.reset template s.nextId) with nextId := s.nextId + 1 }

/-- Rotate the backing store so logical order matches physical order. -/
def normalize (s : Storage) : Storage := { s with rows := s.rows.rotate s.origin, origin := 0 }

/-- A blank row as the ring mints it. -/
def blankRow (cols : Nat) (template : Cell) (id : LineId) : Row :=
  (Row.new cols id).reset template id

/-- Grow at the bottom with fresh rows, or shrink from the top. -/
def resizeRows (s : Storage) (newLen cols : Nat) (template : Cell) : Storage :=
  if newLen = s.rows.length then s
  else
    let s := s.normalize
    if newLen > s.rows.length then
      let extra := newLen - s.rows.length
      { s with
        rows := s.rows ++ (List.range' s.nextId extra).map (blankRow cols template)
        nextId := s.nextId + extra }
    else { s with rows := s.rows.drop (s.rows.length - newLen) }

/-- Drop `n` rows from the bottom, keeping at least one. -/
def truncateBottom (s : Storage) (n : Nat) : Storage :=
  if n = 0 then s
  else
    let s := s.normalize
    { s with rows := s.rows.take (max (s.rows.length - n) 1) }

/-- Remove `n` rows starting at logical index `start`, never all of them. -/
def removeRange (s : Storage) (start n : Nat) : Storage :=
  if n = 0 ∨ start ≥ s.rows.length then s
  else
    let s := s.normalize
    let stop := min (start + n) s.rows.length
    if stop - start ≥ s.rows.length then s
    else { s with rows := s.rows.take start ++ s.rows.drop stop }

def resizeCols (s : Storage) (cols : Nat) (template : Cell) : Storage :=
  { s with rows := s.rows.map fun r => r.resize cols template }

/-- Replace every row, in logical order. -/
def replaceAll (s : Storage) (rows : List Row) : Storage := { s with rows := rows, origin := 0 }

end Storage

end Zesterm
