/-
Zesterm.Core.Remote — writing state that was computed somewhere else,
`zest-core`'s `apply.rs`.

`RemoteWriter` is a borrow of one terminal state; its methods are
functions of that state here. A terminal written through this door is a
replica, and is never fed bytes.
-/
import Zesterm.Core.Perform

namespace Zesterm

namespace RemoteWriter

/-- Overwrite one viewport row. Cells short of the grid's width are padded
with blanks, and the wrap comes from the wire's own bit. -/
def writeRow (s : TermState) (row : Nat) (id : LineId) (cells : List Cell) (wrapped : Bool) :
    TermState :=
  if row ≥ s.activeGrid.rows then s
  else
    let write (target : Row) : Row :=
      ({ target with
          id := id
          cells := (List.range target.cells.length).map fun i =>
            cells.getD i Cell.blank } : Row).setWrapped wrapped
    (s.modifyGrid fun g => g.modifyRow row write).touch

/-- Attach combining marks to a cell that has already been written. -/
def pushMarks (s : TermState) (row col : Nat) (marks : Str) : TermState :=
  if marks.isEmpty ∨ row ≥ s.activeGrid.rows then s
  else
    s.modifyGrid fun g => g.modifyRow row fun r =>
      marks.foldl (fun r mark => r.pushZerowidth col mark) r

/-- Move rows within a region. A full-height region feeds scrollback. -/
def scroll (s : TermState) (top bottom : Nat) (lines : Int) : TermState :=
  if lines = 0 ∨ top > bottom then s
  else
    let template := s.template
    let rows := s.activeGrid.rows
    let full := decide (top = 0 ∧ bottom + 1 ≥ rows)
    let move (g : Grid) : Grid :=
      let saved := g.region
      let g : Grid :=
        if full then g else { g with region := { top := top, bottom := min bottom (rows - 1) } }
      let g :=
        if lines > 0 then g.scrollUp lines.toNat template
        else g.scrollDown (-lines).toNat template
      if full then g else { g with region := saved }
    (s.modifyGrid move).touchFull

/-- Clear a rectangle to an attribute, corners inclusive. -/
def erase (s : TermState) (top left bottom right : Nat) (template : Cell) : TermState :=
  let rows := s.activeGrid.rows
  let cols := s.activeGrid.cols
  if top > bottom ∨ left > right ∨ top ≥ rows ∨ left ≥ cols then s
  else
    (s.modifyGrid fun g =>
      (List.range' top (min bottom (rows - 1) + 1 - top)).foldl
        (fun g row => g.eraseInRow row left (min right (cols - 1)) template) g).touch

/-- Prepend history this client did not hold, oldest first. -/
def prependHistory (s : TermState) (rows : List (LineId × List Cell × Bool)) : TermState :=
  if rows.isEmpty then s else (s.modifyGrid fun g => g.pushHistory rows).touchFull

/-- Drop history this keyframe is about to re-deliver as viewport rows. -/
def dropHistory (s : TermState) (named : List LineId) : TermState :=
  let removed := (s.activeGrid.dropScrollbackRows named).2
  let s := s.modifyGrid fun g => (g.dropScrollbackRows named).1
  if removed > 0 then s.touchFull else s

/-- File the top `n` viewport rows as history. -/
def bankDisplaced (s : TermState) (n : Nat) : TermState :=
  if n = 0 then s
  else
    let template := s.template
    (s.modifyGrid fun g => g.bankViewportTop n template).touchFull

/-- Destroy this replica's scrollback, the primary grid's. -/
def clearHistory (s : TermState) : TermState := { s with grid := s.grid.clearHistory }.touchFull

/-- Keep the client's line-id counter level with the host's. -/
def syncNextLineId (s : TermState) (next : LineId) : TermState :=
  s.modifyGrid fun g => g.setNextLineId next

def setCursor (s : TermState) (row col : Nat) : TermState :=
  (s.modifyGrid fun g =>
    { g with cursor :=
        { g.cursor with row := min row (g.rows - 1), col := min col (g.cols - 1) } }).touch

def setCursorStyle (s : TermState) (style : CursorStyle) : TermState :=
  { s with cursorStyle := style }.touch

/-- Switch between the primary and alternate screens. -/
def setAltScreen (s : TermState) (active : Bool) : TermState := s.setAltScreen active

def setTitle (s : TermState) (title : Str) : TermState := { s with title := title }.touch

def setProgress (s : TermState) (progress : Progress) : TermState := { s with progress := progress }

/-- Mirror the host's modes. The alternate screen is entered, not only
flagged. -/
def setModes (s : TermState) (modes : Modes) : TermState :=
  let wantAlt := modes.contains .altScreen
  let s := if wantAlt ≠ s.modes.contains .altScreen then s.setAltScreen wantAlt else s
  { s with modes := modes }.touch

/-- A grid resized through this door has its authority somewhere else. -/
def resize (s : TermState) (cols rows : Nat) : TermState :=
  (s.setViewportRestatedElsewhere true).resize cols rows

/-- Insert or replace a command block the host computed. -/
def upsertBlock (s : TermState) (block : Block) : TermState :=
  { s with blocks := s.blocks.upsert block }.touch

/-- Drop blocks from `first` up, before a keyframe restates them. -/
def dropBlocksFrom (s : TermState) (first : BlockId) : TermState :=
  { s with blocks := s.blocks.retainBelow first }.touch

/-- Adopt the host's sequence number. Assigned, never incremented. -/
def setSeq (s : TermState) (seq : Nat) : TermState := { s with seq := seq }

def markFull (s : TermState) : TermState := s.touchFull

end RemoteWriter

end Zesterm
