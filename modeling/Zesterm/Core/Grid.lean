/-
Zesterm.Core.Grid — the character grid of `zest-core`'s `grid/mod.rs`:
viewport, scrollback, cursor, scroll region, editing, and the bookkeeping
of a viewport that something else restates.

The grid is a scrollback ring whose last `rows` rows are the viewport, so
the boundary between history and screen is one number, `scrollbackLen`,
and every operation that moves it moves no row. `Grid.resize` and the
rewrap it calls are in `Resize`.

A loop over rows of the source is a fold over the same range here, in the
same order; subtraction is truncated where the source writes
`saturating_sub` and where its operands cannot cross.
-/
import Zesterm.Core.Storage

namespace Zesterm

/-- A position in the grid, in viewport coordinates. -/
structure Cursor where
  row : Nat := 0
  col : Nat := 0
  /-- The cursor is logically past the last column. -/
  pendingWrap : Bool := false
  deriving DecidableEq, Inhabited

/-- Saved cursor state for DECSC/DECRC. -/
structure SavedCursor where
  cursor : Cursor := {}
  template : Cell := Cell.blank
  originMode : Bool := false
  deriving DecidableEq, Inhabited

/-- The scrolling region set by DECSTBM, as inclusive viewport rows. -/
structure ScrollRegion where
  top : Nat
  bottom : Nat
  deriving DecidableEq, Inhabited

namespace ScrollRegion

def full (rows : Nat) : ScrollRegion := { top := 0, bottom := rows - 1 }

def contains (r : ScrollRegion) (row : Nat) : Bool := decide (r.top ≤ row ∧ row ≤ r.bottom)

end ScrollRegion

/-- A row on its way out of the ring. -/
structure Evicted where
  id : LineId
  text : Str
  wrapped : Bool
  deriving DecidableEq, Inhabited

/-- The grid: a scrollback ring plus a viewport onto it. -/
structure Grid where
  storage : Storage
  cols : Nat
  rows : Nat
  /-- Maximum retained scrollback lines, the viewport not counted. -/
  scrollbackLimit : Nat
  evicted : List Evicted
  captureEvicted : Bool
  /-- How many scrollback lines currently exist above the viewport. -/
  scrollbackLen : Nat
  /-- Viewport offset from the bottom, in lines. -/
  displayOffset : Nat
  /-- Whether something else has the last word on the viewport after a
  resize. -/
  viewportRestatedElsewhere : Bool
  /-- Rows a restating shrink pushed over the top and a grow owes back. -/
  restateDebt : Nat
  /-- What the grow asked for, waiting on the repaint that answers it. -/
  pendingRestate : Nat
  restating : Bool
  sittingOut : Bool
  restatementOpen : Bool
  /-- How many rows the last settle pulled down, while provisional. -/
  settledPull : Nat
  restateRowsSeen : Nat
  /-- Times ED 3 destroyed this grid's scrollback. -/
  historyClears : Nat
  cursor : Cursor
  region : ScrollRegion

/-- `u32::MAX`. -/
def u32Max : Nat := 2 ^ 32 - 1

/-- `char::is_whitespace`: the characters with the White_Space property. -/
def isWhitespace (c : Char) : Bool :=
  let n := c.toNat
  (9 ≤ n && n ≤ 13) || n == 0x20 || n == 0x85 || n == 0xA0 || n == 0x1680 ||
    (0x2000 ≤ n && n ≤ 0x200A) || n == 0x2028 || n == 0x2029 || n == 0x202F ||
    n == 0x205F || n == 0x3000

namespace Grid

def new (cols rows scrollbackLimit : Nat) : Grid :=
  let cols := max cols 1
  let rows := max rows 1
  { storage := Storage.new rows cols
    cols := cols
    rows := rows
    scrollbackLimit := scrollbackLimit
    evicted := []
    captureEvicted := false
    scrollbackLen := 0
    displayOffset := 0
    viewportRestatedElsewhere := false
    restateDebt := 0
    pendingRestate := 0
    restating := false
    sittingOut := false
    restatementOpen := false
    settledPull := 0
    restateRowsSeen := 0
    historyClears := 0
    cursor := {}
    region := ScrollRegion.full rows }

instance : Inhabited Grid := ⟨new 1 1 0⟩

def setViewportRestatedElsewhere (g : Grid) (yes : Bool) : Grid :=
  { g with viewportRestatedElsewhere := yes }

/-- Start, or stop, keeping rows that fall off the top. -/
def setCaptureEvicted (g : Grid) (on : Bool) : Grid :=
  { g with captureEvicted := on, evicted := if on then g.evicted else [] }

/-- Take what has been evicted since the last call, oldest first. -/
def takeEvicted (g : Grid) : Grid × List Evicted := ({ g with evicted := [] }, g.evicted)

def totalLines (g : Grid) : Nat := g.storage.len

def nextLineId (g : Grid) : LineId := g.storage.nextId

def setNextLineId (g : Grid) (id : LineId) : Grid := { g with storage := g.storage.setNextId id }

/-- Prepend history fetched from a host, oldest first. -/
def pushHistory (g : Grid) (rows : List (LineId × List Cell × Bool)) : Grid :=
  let room := g.scrollbackLimit - g.scrollbackLen
  if rows.isEmpty ∨ room = 0 then g
  else
    let take := min rows.length room
    { g with
      storage := g.storage.prepend (rows.drop (rows.length - take)) g.cols
      scrollbackLen := g.scrollbackLen + take }

/-! ## Addressing -/

/-- Index into storage of the first visible row. Display space. -/
def viewportBase (g : Grid) : Nat := g.storage.len - (g.rows + g.displayOffset)

/-- Index into storage of the first row of the live screen. Active space. -/
def activeBase (g : Grid) : Nat := g.storage.len - g.rows

/-- A visible row. Display space. -/
def row (g : Grid) (row : Nat) : Row := g.storage.row (g.viewportBase + row)

/-- A row of the live screen. Active space. -/
def activeRow (g : Grid) (row : Nat) : Row := g.storage.row (g.activeBase + row)

/-- The line id of a row of the live screen. -/
def activeLineIdAt (g : Grid) (row : Nat) : Option LineId :=
  if row < g.rows then some (g.activeRow row).id else none

/-- The edit made through `row_mut`. -/
def modifyRow (g : Grid) (row : Nat) (f : Row → Row) : Grid :=
  { g with storage := g.storage.modifyRow (g.activeBase + row) f }

/-- `*cell_mut(row, col) = cell`, where there is such a cell. -/
def setCell (g : Grid) (row col : Nat) (cell : Cell) : Grid :=
  g.modifyRow row fun r => r.setCell col cell

def absIndex (g : Grid) (row : Nat) : Nat := g.viewportBase + row

def activeAbsIndex (g : Grid) (row : Nat) : Nat := g.activeBase + row

/-- A row by absolute index across scrollback plus viewport. -/
def line (g : Grid) (index : Nat) : Option Row :=
  if index < g.storage.len then some (g.storage.row index) else none

def cell (g : Grid) (row col : Nat) : Option Cell := (g.row row).cells[col]?

/-- The id of the oldest line still held, scrollback included. -/
def oldestLineId (g : Grid) : LineId := (g.storage.row 0).id

/-! ## A replica's scrollback -/

/-- The walk of `drop_scrollback_rows` from index `i` down: `stop` is the
end of the run of named rows in hand, if there is one. -/
def dropWalk (named : List LineId) (floor : LineId) :
    Nat → Option Nat → Storage → Nat → Storage × Nat
  | i, stop, s, removed =>
    let flush : Storage × Nat :=
      match stop with
      | some e => (s.removeRange i (e - i), removed + (e - i))
      | none => (s, removed)
    match i with
    | 0 => flush
    | i + 1 =>
      let id := (s.row i).id
      if floor ≤ id then
        if named.contains id then dropWalk named floor i (some (stop.getD (i + 1))) s removed
        else dropWalk named floor i none flush.1 flush.2
      else flush

/-- Drop the scrollback rows a keyframe names: exactly these, newest to
oldest, never by comparing ids. -/
def dropScrollbackRows (g : Grid) (named : List LineId) : Grid × Nat :=
  match named.insertionSort (· ≤ ·) with
  | [] => (g, 0)
  | floor :: rest =>
    let (storage, removed) := dropWalk (floor :: rest) floor g.scrollbackLen none g.storage 0
    let g := { g with storage := storage }
    if removed > 0 then
      ({ g with
          scrollbackLen := g.scrollbackLen - removed
          displayOffset := min (g.displayOffset - removed) (g.scrollbackLen - removed) },
        removed)
    else (g, removed)

/-- Destroy all scrollback, because ED 3 said to. -/
def clearHistory (g : Grid) : Grid :=
  let g :=
    if g.scrollbackLen > 0 then
      { g with storage := g.storage.removeRange 0 g.scrollbackLen, scrollbackLen := 0 }
    else g
  { g with displayOffset := 0, historyClears := min (g.historyClears + 1) u32Max }

/-- File the top `n` viewport rows as history. -/
def bankViewportTop (g : Grid) (n : Nat) (template : Cell) : Grid :=
  if n = 0 then g
  else
    let g : Grid := { g with
      storage := g.storage.resizeRows (g.storage.len + n) g.cols template
      scrollbackLen := g.scrollbackLen + n }
    let g : Grid :=
      if g.scrollbackLen > g.scrollbackLimit then
        let excess := g.scrollbackLen - g.scrollbackLimit
        { g with
          storage := g.storage.resizeRows (g.storage.len - excess) g.cols template
          scrollbackLen := g.scrollbackLimit }
      else g
    if g.displayOffset > 0 then
      { g with displayOffset := min (g.displayOffset + n) g.scrollbackLen }
    else g

/-! ## The restatement bookkeeping -/

/-- The repaint in hand has closed, however it went. -/
def endRestatementWindow (g : Grid) : Grid :=
  { g with restating := false, sittingOut := false, restatementOpen := false,
           restateRowsSeen := 0 }

/-- Forget what a restating grow owed. -/
def cancelRestateDebt (g : Grid) : Grid :=
  { g with restateDebt := 0, pendingRestate := 0, settledPull := 0 }.endRestatementWindow

/-- Take back a provisional settle, before the repaint that is opening
overwrites the rows it pulled. -/
def rebankSettled (g : Grid) (template : Cell) : Grid :=
  let k := g.settledPull
  let g := { g with settledPull := 0 }
  if k = 0 then g
  else
    { g with
      scrollbackLen := g.scrollbackLen + k
      storage := g.storage.resizeRows (g.scrollbackLen + k + g.rows) g.cols template
      cursor := { g.cursor with row := g.cursor.row - k }
      pendingRestate := g.pendingRestate + k
      displayOffset := min (g.displayOffset + k) (g.scrollbackLen + k) }

def needsStrand (g : Grid) : Bool := decide (g.settledPull > 0) && !g.restatementOpen

/-- Strand the last settle's pull into scrollback. -/
def strandSettled (g : Grid) (template : Cell) : Grid × Bool :=
  let k := g.settledPull
  let g := { g with settledPull := 0 }
  if k = 0 then (g, false)
  else
    let g := { g with
      restateDebt := 0
      pendingRestate := 0
      scrollbackLen := g.scrollbackLen + k
      storage := g.storage.resizeRows (g.scrollbackLen + k + g.rows) g.cols template
      cursor := { g.cursor with row := g.cursor.row - k } }
    (if g.displayOffset > 0 then
        { g with displayOffset := min (g.displayOffset + k) g.scrollbackLen }
      else g,
      true)

/-- The pty announced that it is restating the viewport. -/
def noteRestatementBegan (g : Grid) (cols rows : Nat) (template : Cell) : Grid :=
  let g := { g with restatementOpen := true }.rebankSettled template
  if g.pendingRestate = 0 then g
  else if cols = g.cols ∧ rows = g.rows then
    if g.restating then g else { g with restating := true, restateRowsSeen := 0 }
  else { g with sittingOut := true }

/-- The pty homed the cursor while it was hidden. -/
def noteCursorHomedWhileHidden (g : Grid) (template : Cell) : Grid :=
  let g := { g with restatementOpen := true }
  let g := if !g.sittingOut && !g.restating then g.rebankSettled template else g
  if g.pendingRestate > 0 ∧ g.sittingOut = false ∧ g.restating = false then
    { g with restating := true, restateRowsSeen := 0 }
  else g

/-- How many rows at the bottom of the viewport are blank. -/
def blankTail (g : Grid) : Nat :=
  ((List.range g.rows).reverse.takeWhile fun r =>
    (g.storage.row (g.activeBase + r)).trimmedLen == 0).length

/-- Give back what the grow owed, now that the repaint has closed. -/
def settleRestate (g : Grid) : Grid × Bool :=
  let covered := decide (g.restateRowsSeen ≥ g.rows)
  let g := g.endRestatementWindow
  if !covered then (g, false)
  else
    let owed := g.pendingRestate
    let belowCursor := g.rows - 1 - min g.cursor.row (g.rows - 1)
    let k := min (min (min owed g.blankTail) belowCursor) g.scrollbackLen
    let g := { g with pendingRestate := 0, restateDebt := g.restateDebt + (owed - k) }
    if k = 0 then (g, false)
    else
      ({ g with
          storage := g.storage.truncateBottom k
          scrollbackLen := g.scrollbackLen - k
          cursor := { g.cursor with row := g.cursor.row + k }
          displayOffset := min (g.displayOffset - k) (g.scrollbackLen - k)
          settledPull := k },
        true)

/-! ## Scrolling -/

/-- What a row leaves behind when it is recycled. -/
def evictRow (r : Row) : Evicted :=
  { id := r.id, text := (r.cells.map Cell.ch).rdropWhile isWhitespace, wrapped := r.wrapped }

/-- One turn of `scroll_screen_up`: history grows while it may, and is
recycled from its oldest row once it may not. -/
def scrollScreenUp1 (g : Grid) (template : Cell) : Grid :=
  let g :=
    if g.scrollbackLen < g.scrollbackLimit then
      { g with
        storage := g.storage.resizeRows (g.storage.len + 1) g.cols template
        scrollbackLen := g.scrollbackLen + 1 }
    else
      let g :=
        if g.captureEvicted ∧ g.storage.len > 0 then
          { g with evicted := g.evicted ++ [evictRow (g.storage.row 0)] }
        else g
      let storage := g.storage.rotateUp 1
      { g with storage := storage.recycle (storage.len - 1) template }
  if g.displayOffset > 0 then
    { g with displayOffset := min (g.displayOffset + 1) (g.storage.len - g.rows) }
  else g

/-- Scroll the whole screen up, `n` rows one at a time. -/
def scrollScreenUp (g : Grid) (template : Cell) : Nat → Grid
  | 0 => g
  | n + 1 => (g.scrollScreenUp1 template).scrollScreenUp template n

/-- Move within the region, `row` taking the cells of `row + n`. -/
def scrollRegionUp (g : Grid) (n : Nat) (template : Cell) : Grid :=
  let base := g.activeBase
  let top := g.region.top
  let bottom := g.region.bottom
  let move (s : Storage) (row : Nat) : Storage :=
    if row + n ≤ bottom then
      let src := (s.row (base + (row + n))).cells
      s.modifyRow (base + row) fun dst => { dst with cells := src }
    else s.modifyRow (base + row) fun r => r.reset template r.id
  { g with storage := (List.range' top (bottom + 1 - top)).foldl move g.storage }

/-- Scroll the region up by `n`, pushing lines into scrollback when the
region is the whole screen. -/
def scrollUp (g : Grid) (n : Nat) (template : Cell) : Grid :=
  if n = 0 then g
  else
    let n := min n (g.region.bottom - g.region.top + 1)
    let fullScreen := decide (g.region.top = 0 ∧ g.region.bottom = g.rows - 1)
    -- A repaint laid out taller than the grid: its overflow is dropped, and
    -- never banked a second time.
    if g.viewportRestatedElsewhere && g.restatementOpen && fullScreen then
      let storage := g.storage.resizeRows (g.storage.len + n) g.cols template
      { g with storage := storage.removeRange g.scrollbackLen n }
    else
      let g := g.cancelRestateDebt
      if fullScreen then g.scrollScreenUp template n else g.scrollRegionUp n template

/-- Scroll the region down, inserting blank lines at its top. -/
def scrollDown (g : Grid) (n : Nat) (template : Cell) : Grid :=
  if n = 0 then g
  else
    let g := g.cancelRestateDebt
    let top := g.region.top
    let bottom := g.region.bottom
    let n := min n (bottom - top + 1)
    let base := g.activeBase
    let move (s : Storage) (row : Nat) : Storage :=
      if row ≥ top + n then
        let src := (s.row (base + row - n)).cells
        s.modifyRow (base + row) fun dst => { dst with cells := src }
      else s.modifyRow (base + row) fun r => r.reset template r.id
    { g with storage := (List.range' top (bottom + 1 - top)).reverse.foldl move g.storage }

/-! ## Viewport scrolling -/

/-- Move the viewport through scrollback. Positive scrolls back. -/
def scrollDisplay (g : Grid) (delta : Int) : Grid :=
  let new : Int := g.displayOffset + delta
  { g with displayOffset := (max 0 (min new g.scrollbackLen)).toNat }

def scrollToBottom (g : Grid) : Grid := { g with displayOffset := 0 }

/-- Scroll the viewport so that the row bearing `line` is visible. -/
def scrollToLine (g : Grid) (line : LineId) : Grid × Bool :=
  match (List.range g.storage.len).find? fun i => (g.storage.row i).id == line with
  | none => (g, false)
  | some index =>
    ({ g with displayOffset := min (g.storage.len - g.rows - index) g.scrollbackLen }, true)

/-! ## Editing -/

/-- Erase a span of a row, inclusive of both ends. -/
def eraseInRow (g : Grid) (row start stop : Nat) (template : Cell) : Grid :=
  let g :=
    if g.viewportRestatedElsewhere then
      { g with restateRowsSeen := max g.restateRowsSeen (row + 1) }
    else g
  let blank := template.blankWith
  let stop := min stop (g.cols - 1)
  g.modifyRow row fun r =>
    { r with cells := r.cells.mapIdx fun col c => if start ≤ col ∧ col ≤ stop then blank else c }

def eraseRows (g : Grid) (first last : Nat) (template : Cell) : Grid :=
  (List.range' first (min last (g.rows - 1) + 1 - first)).foldl
    (fun g row => g.eraseInRow row 0 (g.cols - 1) template) g

/-- Insert `n` blank cells at the cursor, shifting the rest right. -/
def insertCells (g : Grid) (n : Nat) (template : Cell) : Grid :=
  let col := g.cursor.col
  let n := min n (g.cols - col)
  g.modifyRow g.cursor.row fun r =>
    let tail := r.cells.drop col
    { r with cells :=
        r.cells.take col ++ List.replicate n template.blankWith ++ tail.take (tail.length - n) }

/-- Delete `n` cells at the cursor, shifting the rest left. -/
def deleteCells (g : Grid) (n : Nat) (template : Cell) : Grid :=
  let col := g.cursor.col
  let n := min n (g.cols - col)
  g.modifyRow g.cursor.row fun r =>
    { r with cells :=
        r.cells.take col ++ (r.cells.drop col).drop n ++ List.replicate n template.blankWith }

/-- Insert `n` blank lines at the cursor row, within the scroll region. -/
def insertLines (g : Grid) (n : Nat) (template : Cell) : Grid :=
  if g.region.contains g.cursor.row then
    let saved := g.region
    let g := { g with region := { g.region with top := g.cursor.row } }.scrollDown n template
    { g with region := saved }
  else g

/-- Delete `n` lines at the cursor row, within the scroll region. -/
def deleteLines (g : Grid) (n : Nat) (template : Cell) : Grid :=
  if g.region.contains g.cursor.row then
    let saved := g.region
    let g := { g with region := { g.region with top := g.cursor.row } }.scrollUp n template
    { g with region := saved }
  else g

/-- Whole-grid reset, used when switching screen buffers. -/
def clearAll (g : Grid) (template : Cell) : Grid :=
  let g := (List.range g.rows).foldl
    (fun g row => g.eraseInRow row 0 (g.cols - 1) template) g
  { g with cursor := {}, region := ScrollRegion.full g.rows }.cancelRestateDebt

def setWrapped (g : Grid) (row : Nat) (wrapped : Bool) : Grid :=
  g.modifyRow row fun r => r.setWrapped wrapped

/-- The viewport as plain text, one line per row. -/
def screenText (g : Grid) : Str :=
  (List.range g.rows).flatMap fun row =>
    (g.row row).text ++ (if row + 1 < g.rows then ['\n'] else [])

/-- Lines from the top of scrollback, for the paged fetch. -/
def linesById (g : Grid) (start : LineId) (count : Nat) : List Row :=
  ((g.storage.logical.take g.scrollbackLen).filter fun r => start ≤ r.id).take count

end Grid

end Zesterm
