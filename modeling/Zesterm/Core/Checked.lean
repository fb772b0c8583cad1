/-
Zesterm.Core.Checked — the grid operations of a delta, with the panics of
the source.

`Grid` and `RemoteWriter` compute on where the source would stop: their
lookups have a default and their subtraction is truncated. Here the
functions that a delta reaches are written once more with the source's
checks in place. A row past the ring, rows of two widths copied over each
other, a ring about to be emptied and an unsigned difference below zero are
`none`; everything else is the model's own. `CheckedTheorems` says when the
two agree.

An index that a loop over the same rows produces, or that a binary search
found, is in range by what it is and is not checked again.
-/
import Zesterm.Core.Remote

namespace Zesterm

/-- `a - b` on unsigned integers. -/
def checkedSub (a b : Nat) : Option Nat := if b ≤ a then some (a - b) else none

/-! ## The ring -/

namespace Storage

/-- `row`, with the range check of `physical`. -/
def rowChecked (s : Storage) (i : Nat) : Option Row :=
  if i < s.len then some (s.row i) else none

/-- `row_mut`, with the range check of `physical`. -/
def modifyRowChecked (s : Storage) (i : Nat) (f : Row → Row) : Option Storage :=
  if i < s.len then some (s.modifyRow i f) else none

/-- `copy_from_slice`, which takes slices of one length. -/
def copyRowChecked (s : Storage) (src dst : Nat) : Option Storage := do
  let cells := (← s.rowChecked src).cells
  let row ← s.rowChecked dst
  if row.cells.length = cells.length then
    s.modifyRowChecked dst fun r => { r with cells := cells }
  else none

def recycleChecked (s : Storage) (i : Nat) (template : Cell) : Option Storage :=
  if i < s.len then some (s.recycle i template) else none

/-- `remove_range` asserts that it leaves a row. -/
def removeRangeChecked (s : Storage) (start n : Nat) : Option Storage :=
  if n = 0 ∨ start ≥ s.len then some s
  else if min (start + n) s.len - start < s.len then some (s.removeRange start n)
  else none

end Storage

/-! ## The grid -/

namespace Grid

def modifyRowChecked (g : Grid) (row : Nat) (f : Row → Row) : Option Grid := do
  let storage ← g.storage.modifyRowChecked (g.activeBase + row) f
  some { g with storage := storage }

def scrollScreenUp1Checked (g : Grid) (template : Cell) : Option Grid := do
  let g ←
    if g.scrollbackLen < g.scrollbackLimit then
      some { g with
        storage := g.storage.resizeRows (g.storage.len + 1) g.cols template
        scrollbackLen := g.scrollbackLen + 1 }
    else do
      let g :=
        if g.captureEvicted ∧ g.storage.len > 0 then
          { g with evicted := g.evicted ++ [evictRow (g.storage.row 0)] }
        else g
      let storage := g.storage.rotateUp 1
      let last ← checkedSub storage.len 1
      let storage ← storage.recycleChecked last template
      some { g with storage := storage }
  if g.displayOffset > 0 then
    some { g with displayOffset := min (g.displayOffset + 1) (g.storage.len - g.rows) }
  else some g

def scrollScreenUpChecked (g : Grid) (template : Cell) : Nat → Option Grid
  | 0 => some g
  | n + 1 => do (← g.scrollScreenUp1Checked template).scrollScreenUpChecked template n

def scrollRegionUpChecked (g : Grid) (n : Nat) (template : Cell) : Option Grid := do
  let base := g.activeBase
  let top := g.region.top
  let bottom := g.region.bottom
  let move (s : Storage) (row : Nat) : Option Storage :=
    if row + n ≤ bottom then s.copyRowChecked (base + (row + n)) (base + row)
    else s.modifyRowChecked (base + row) fun r => r.reset template r.id
  let storage ← (List.range' top (bottom + 1 - top)).foldlM move g.storage
  some { g with storage := storage }

/-- Whether the region is the whole screen; the rows are counted only where
it begins at the first. -/
def fullScreenChecked (g : Grid) : Option Bool :=
  if g.region.top = 0 then (checkedSub g.rows 1).map fun last => decide (g.region.bottom = last)
  else some false

def scrollUpChecked (g : Grid) (n : Nat) (template : Cell) : Option Grid :=
  if n = 0 then some g
  else do
    let height ← checkedSub g.region.bottom g.region.top
    let n := min n (height + 1)
    let fullScreen ← g.fullScreenChecked
    if g.viewportRestatedElsewhere && g.restatementOpen && fullScreen then
      let storage := g.storage.resizeRows (g.storage.len + n) g.cols template
      let storage ← storage.removeRangeChecked g.scrollbackLen n
      some { g with storage := storage }
    else
      let g := g.cancelRestateDebt
      if fullScreen then g.scrollScreenUpChecked template n else g.scrollRegionUpChecked n template

def scrollDownChecked (g : Grid) (n : Nat) (template : Cell) : Option Grid :=
  if n = 0 then some g
  else do
    let g := g.cancelRestateDebt
    let top := g.region.top
    let bottom := g.region.bottom
    let height ← checkedSub bottom top
    let n := min n (height + 1)
    let base := g.activeBase
    let move (s : Storage) (row : Nat) : Option Storage :=
      if row ≥ top + n then do
        let src ← checkedSub (base + row) n
        s.copyRowChecked src (base + row)
      else s.modifyRowChecked (base + row) fun r => r.reset template r.id
    let storage ← (List.range' top (bottom + 1 - top)).reverse.foldlM move g.storage
    some { g with storage := storage }

/-- A signed scroll: up where `lines` is positive. -/
def scrollByChecked (g : Grid) (lines : Int) (template : Cell) : Option Grid :=
  if lines > 0 then g.scrollUpChecked lines.toNat template
  else g.scrollDownChecked (-lines).toNat template

def eraseInRowChecked (g : Grid) (row start stop : Nat) (template : Cell) : Option Grid :=
  let g :=
    if g.viewportRestatedElsewhere then
      { g with restateRowsSeen := max g.restateRowsSeen (row + 1) }
    else g
  let blank := template.blankWith
  let stop := min stop (g.cols - 1)
  g.modifyRowChecked row fun r =>
    { r with cells := r.cells.mapIdx fun col c => if start ≤ col ∧ col ≤ stop then blank else c }

def clearAllChecked (g : Grid) (template : Cell) : Option Grid := do
  let erase (g : Grid) (row : Nat) : Option Grid := do
    g.eraseInRowChecked row 0 (← checkedSub g.cols 1) template
  let g ← (List.range g.rows).foldlM erase g
  some { g with cursor := {}, region := ScrollRegion.full g.rows }.cancelRestateDebt

def pushHistoryChecked (g : Grid) (rows : List (LineId × List Cell × Bool)) : Option Grid :=
  let room := g.scrollbackLimit - g.scrollbackLen
  if rows.isEmpty ∨ room = 0 then some g
  else do
    let take := min rows.length room
    let first ← checkedSub rows.length take
    some { g with
      storage := g.storage.prepend (rows.drop first) g.cols
      scrollbackLen := g.scrollbackLen + take }

end Grid

/-! ## The remote door -/

namespace TermState

/-- `grid_mut`, as an edit that may stop the program. -/
def modifyGridChecked (s : TermState) (f : Grid → Option Grid) : Option TermState :=
  match s.altGrid with
  | some g => (f g).map fun g => { s with altGrid := some g }
  | none => (f s.grid).map fun g => { s with grid := g }

/-- The alternate screen as it is entered. -/
def freshAltChecked (s : TermState) : Option Grid := do
  let alt ← (Grid.new s.grid.cols s.grid.rows 0).clearAllChecked s.template
  some (alt.setViewportRestatedElsewhere s.viewportRestatedElsewhere)

def setAltScreenChecked (s : TermState) (enable : Bool) : Option TermState :=
  if enable = s.altGrid.isSome then some s
  else do
    let s ← (if enable then do
        let alt ← s.freshAltChecked
        some { s with altGrid := some alt, modes := s.modes.union .altScreen }
      else some { s with altGrid := none, modes := s.modes.remove .altScreen } : Option TermState)
    some s.syncKittyModes.touchFull

end TermState

namespace RemoteWriter

def writeRowChecked (s : TermState) (row : Nat) (id : LineId) (cells : List Cell)
    (wrapped : Bool) : Option TermState :=
  if row ≥ s.activeGrid.rows then some s
  else do
    let write (target : Row) : Row :=
      ({ target with
          id := id
          cells := (List.range target.cells.length).map fun i =>
            cells.getD i Cell.blank } : Row).setWrapped wrapped
    let s ← s.modifyGridChecked fun g => g.modifyRowChecked row write
    some s.touch

def pushMarksChecked (s : TermState) (row col : Nat) (marks : Str) : Option TermState :=
  if marks.isEmpty ∨ row ≥ s.activeGrid.rows then some s
  else
    s.modifyGridChecked fun g => g.modifyRowChecked row fun r =>
      marks.foldl (fun r mark => r.pushZerowidth col mark) r

def scrollChecked (s : TermState) (top bottom : Nat) (lines : Int) : Option TermState :=
  if lines = 0 ∨ top > bottom then some s
  else do
    let template := s.template
    let rows := s.activeGrid.rows
    let full := decide (top = 0 ∧ bottom + 1 ≥ rows)
    let move (g : Grid) : Option Grid := do
      let saved := g.region
      let g : Grid :=
        if full then g else { g with region := { top := top, bottom := min bottom (rows - 1) } }
      let g ← g.scrollByChecked lines template
      if full then some g else some { g with region := saved }
    let s ← s.modifyGridChecked move
    some s.touchFull

def eraseChecked (s : TermState) (top left bottom right : Nat) (template : Cell) :
    Option TermState :=
  let rows := s.activeGrid.rows
  let cols := s.activeGrid.cols
  if top > bottom ∨ left > right ∨ top ≥ rows ∨ left ≥ cols then some s
  else do
    let lastRow ← checkedSub rows 1
    let lastCol ← checkedSub cols 1
    let s ← s.modifyGridChecked fun g =>
      (List.range' top (min bottom lastRow + 1 - top)).foldlM
        (fun g row => g.eraseInRowChecked row left (min right lastCol) template) g
    some s.touch

def prependHistoryChecked (s : TermState) (rows : List (LineId × List Cell × Bool)) :
    Option TermState :=
  if rows.isEmpty then some s
  else do
    let s ← s.modifyGridChecked fun g => g.pushHistoryChecked rows
    some s.touchFull

/-- `setModes`, whose only check is the alternate screen's. -/
def setModesChecked (s : TermState) (modes : Modes) : Option TermState := do
  let wantAlt := modes.contains .altScreen
  let s ← if wantAlt ≠ s.modes.contains .altScreen then s.setAltScreenChecked wantAlt else some s
  some { s with modes := modes }.touch

end RemoteWriter

end Zesterm
