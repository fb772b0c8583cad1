/-
Zesterm.Core.Term — the terminal state of `zest-core`'s `term.rs`:
writing, cursor moves, screen switching, the keyboard flag stack, SGR and
resizing.

Two things come from other crates and are fields of `Vt`: the escape
parser, a state machine that turns bytes into actions whatever the state
it drives, and the display width of a character. The selection is left
out: nothing here reads it.

`self.grid()` of the source, the screen a program is drawing on, is
`activeGrid` here; the fields `grid` and `altGrid` keep their names.
-/
import Zesterm.Core.Blocks
import Zesterm.Core.Palette
import Zesterm.Core.Modes

namespace Zesterm

/-! ## What is not this repository's -/

/-- The parameters of a CSI sequence: groups of subparameters. -/
abbrev Params := List (List Nat)

/-- What the escape parser asks of the state it drives. -/
inductive Action where
  | print (ch : Char)
  | execute (byte : UInt8)
  | csi (params : Params) (intermediates : List UInt8) (ignore : Bool) (c : Char)
  | esc (intermediates : List UInt8) (ignore : Bool) (byte : UInt8)
  | osc (params : List (List UInt8)) (bellTerminated : Bool)

/-- The escape parser and the width table the terminal is built on. -/
structure Vt where
  Parser : Type
  new : Parser
  advance : Parser → List UInt8 → Parser × List Action
  /-- Display width; `none` for a control character. -/
  width : Char → Option Nat

/-! ## Events -/

/-- Why a session is asking to be noticed. -/
inductive AttentionCause where
  | bell
  | notify
  deriving DecidableEq

/-- The flavour of a determinate progress. -/
inductive ProgressState where
  | normal
  | error
  | warning
  deriving DecidableEq

/-- How a program says a long job is going. -/
inductive Progress where
  | none
  | at (percent : Nat) (state : ProgressState)
  | indeterminate
  deriving DecidableEq

/-- Things the terminal needs the host to do. -/
inductive TermEvent where
  | reply (bytes : List UInt8)
  | title (title : Str)
  | bell
  | attention (cause : AttentionCause)
  | cursorStyle (style : CursorStyle)
  | syncUpdate (on : Bool)
  | hyperlink (uri : Option Str)
  | viewportRebased
  | historyCleared
  | cwdChanged (host : Option Str) (path : Str)
  | shellFactsChanged
  deriving DecidableEq

/-- Damage accumulated since the last frame. -/
structure Damage where
  dirty : Bool := false
  full : Bool := false
  deriving DecidableEq

/-! ## The state -/

/-- How deep a keyboard flag stack goes before its oldest entry goes. -/
def kittyStackDepth : Nat := 8

def defaultTabs (cols : Nat) : List Bool :=
  (List.range cols).map fun c => decide (c > 0) && c % 8 == 0

/-- The mutable terminal state. -/
structure TermState where
  grid : Grid
  /-- The alternate screen, while a program is on it. -/
  altGrid : Option Grid := none
  viewportRestatedElsewhere : Bool := false
  /-- Current SGR state, the template of newly written cells. -/
  template : Cell := Cell.blank
  savedCursor : SavedCursor := {}
  savedCursorAlt : SavedCursor := {}
  kittyStack : List (BitVec 8) := []
  kittyStackAlt : List (BitVec 8) := []
  modes : Modes := Modes.initial
  palette : Palette := Palette.new PaletteSnapshot.initial
  tabs : List Bool
  events : List TermEvent := []
  damage : Damage := {}
  /-- Bumped on every mutation. -/
  seq : Nat := 0
  title : Str := []
  progress : Progress := .none
  cursorStyle : CursorStyle := CursorStyle.default
  cursorStyleFromProgram : Bool := false
  defaultCursorStyle : CursorStyle := CursorStyle.default
  currentHyperlink : Option Nat := none
  nextHyperlinkId : Nat := 0
  blocks : BlockIndex := {}
  cwd : Str := []
  cwdHost : Option Str := none
  /-- Environment facts by name, in name order. -/
  shellFacts : List (Str × Str) := []
  /-- Where the typed command starts, recorded at OSC 133;B. -/
  promptEnd : Option (LineId × Nat) := none
  /-- The command line as OSC 633;E stated it. -/
  pendingCommand : Option Str := none
  nowMs : Option Nat := none
  inputAuthor : Option (List UInt8) := none

namespace TermState

def new (cols rows scrollback : Nat) : TermState :=
  { grid := Grid.new cols rows scrollback, tabs := defaultTabs cols }

/-- The grid a program is drawing on. -/
def activeGrid (s : TermState) : Grid := s.altGrid.getD s.grid

/-- The edit made through `grid_mut`. -/
def modifyGrid (s : TermState) (f : Grid → Grid) : TermState :=
  match s.altGrid with
  | some alt => { s with altGrid := some (f alt) }
  | none => { s with grid := f s.grid }

def modifyCursor (s : TermState) (f : Cursor → Cursor) : TermState :=
  s.modifyGrid fun g => { g with cursor := f g.cursor }

def touch (s : TermState) : TermState :=
  { s with seq := s.seq + 1, damage := { s.damage with dirty := true } }

def touchFull (s : TermState) : TermState :=
  { s with seq := s.seq + 1, damage := { dirty := true, full := true } }

def pushEvent (s : TermState) (e : TermEvent) : TermState := { s with events := s.events ++ [e] }

def setModes (s : TermState) (m : Modes) (on : Bool) : TermState :=
  { s with modes := s.modes.set m on }

/-- Set the flag on every grid there is, and on the ones not built yet. -/
def setViewportRestatedElsewhere (s : TermState) (yes : Bool) : TermState :=
  { s with
    viewportRestatedElsewhere := yes
    grid := s.grid.setViewportRestatedElsewhere yes
    altGrid := s.altGrid.map fun g => g.setViewportRestatedElsewhere yes }

/-! ## The restating pty -/

/-- Pay back what a restating pty's grow owed. -/
def settleRestate (s : TermState) : TermState :=
  let moved := s.activeGrid.settleRestate.2
  let s := s.modifyGrid fun g => g.settleRestate.1
  if moved then (s.pushEvent .viewportRebased).touchFull else s

/-- End the restore before ordinary output lands on it. -/
def strandIfDiverged (s : TermState) : TermState :=
  if !s.activeGrid.needsStrand then s
  else
    let t := s.template
    let moved := (s.activeGrid.strandSettled t).2
    let s := s.modifyGrid fun g => (g.strandSettled t).1
    if moved then (s.pushEvent .viewportRebased).touchFull else s

/-! ## Writing -/

/-- Drop blocks whose lines have all fallen out of scrollback. Only the
oldest block can be the first to become evictable. -/
def evictBlocks (s : TermState) : TermState :=
  let oldest := s.grid.oldestLineId
  let evictable :=
    s.blocks.blocks.head?.any fun b => b.endLine.any fun stop => decide (stop < oldest)
  if evictable then { s with blocks := s.blocks.evictBefore oldest } else s

def linefeed (s : TermState) : TermState :=
  let s := s.strandIfDiverged
  let s :=
    if s.activeGrid.cursor.row = s.activeGrid.region.bottom then
      let t := s.template
      ((s.modifyGrid fun g => g.scrollUp 1 t).evictBlocks).touchFull
    else if s.activeGrid.cursor.row + 1 < s.activeGrid.rows then
      (s.modifyCursor fun c => { c with row := c.row + 1 }).touch
    else s
  s.modifyCursor fun c => { c with pendingWrap := false }

def carriageReturn (s : TermState) : TermState :=
  (s.strandIfDiverged.modifyCursor fun c => { c with col := 0, pendingWrap := false }).touch

def backspace (s : TermState) : TermState :=
  (s.strandIfDiverged.modifyCursor fun c =>
    { c with col := c.col - 1, pendingWrap := false }).touch

/-- A combining mark attaches to the cell before the cursor. -/
def writeMark (s : TermState) (ch : Char) : TermState :=
  let c := s.activeGrid.cursor
  if c.col > 0 then
    (s.modifyGrid fun g => g.modifyRow c.row fun r => r.pushZerowidth (c.col - 1) ch).touch
  else s

/-- Break the row at the cursor and go to the start of the next. -/
def wrapRow (s : TermState) : TermState :=
  let row := s.activeGrid.cursor.row
  (s.modifyGrid fun g => g.setWrapped row true).linefeed.modifyCursor fun c => { c with col := 0 }

/-- Write one character of `width` columns where the cursor now is. -/
def putChar (s : TermState) (ch : Char) (width : Nat) : TermState :=
  let t := s.template
  let s := if s.modes.contains .insert then s.modifyGrid fun g => g.insertCells width t else s
  let cols := s.activeGrid.cols
  let row := s.activeGrid.cursor.row
  let col := s.activeGrid.cursor.col
  let cell : Cell :=
    { t with ch := ch, flags := if width = 2 then t.flags.union .wide else t.flags }
  let s := s.modifyGrid fun g => g.setCell row col cell
  let s :=
    if width = 2 then
      let spacer : Cell := { t with ch := ' ', flags := t.flags.union .wideSpacer }
      s.modifyGrid fun g => g.setCell row (col + 1) spacer
    else s
  -- The wrap waits for the next character.
  let s :=
    if col + width ≥ cols then
      s.modifyCursor fun c => { c with col := cols - 1, pendingWrap := true }
    else s.modifyCursor fun c => { c with col := col + width }
  s.touch

def writeChar (vt : Vt) (s : TermState) (ch : Char) : TermState :=
  let s := s.strandIfDiverged
  let width := (vt.width ch).getD 0
  if width = 0 then s.writeMark ch
  else
    let cols := s.activeGrid.cols
    let s :=
      if s.activeGrid.cursor.pendingWrap && s.modes.contains .autoWrap then
        s.wrapRow.modifyCursor fun c => { c with pendingWrap := false }
      else s
    -- A double-width character will not straddle the right edge.
    if width = 2 ∧ s.activeGrid.cursor.col + 1 ≥ cols then
      if s.modes.contains .autoWrap then s.wrapRow.putChar ch width else s
    else s.putChar ch width

/-- The next tab stop after `col`, else the last column. -/
def nextTab (s : TermState) (cols col : Nat) : Nat :=
  ((List.range' (col + 1) (cols - (col + 1))).find? fun c => s.tabs.getD c false).getD (cols - 1)

def tab (s : TermState) (count : Nat) : TermState :=
  let s := s.strandIfDiverged
  let cols := s.activeGrid.cols
  let col := (s.nextTab cols)^[max count 1] s.activeGrid.cursor.col
  (s.modifyCursor fun c => { c with col := col, pendingWrap := false }).touch

/-! ## The cursor -/

/-- Move the cursor, honouring origin mode. -/
def goto (s : TermState) (row col : Nat) : TermState :=
  let s := s.strandIfDiverged
  let g := s.activeGrid
  let minRow := if s.modes.contains .origin then g.region.top else 0
  let maxRow := if s.modes.contains .origin then g.region.bottom else g.rows - 1
  let row := max minRow (min (row + minRow) maxRow)
  (s.modifyCursor fun _ => { row := row, col := min col (g.cols - 1), pendingWrap := false }).touch

def moveUp (s : TermState) (n : Nat) : TermState :=
  let s := s.strandIfDiverged
  let top := if s.modes.contains .origin then s.activeGrid.region.top else 0
  (s.modifyCursor fun c => { c with row := max (c.row - max n 1) top, pendingWrap := false }).touch

def moveDown (s : TermState) (n : Nat) : TermState :=
  let s := s.strandIfDiverged
  let g := s.activeGrid
  let bottom := if s.modes.contains .origin then g.region.bottom else g.rows - 1
  (s.modifyCursor fun c =>
    { c with row := min (c.row + max n 1) bottom, pendingWrap := false }).touch

def moveLeft (s : TermState) (n : Nat) : TermState :=
  (s.strandIfDiverged.modifyCursor fun c =>
    { c with col := c.col - max n 1, pendingWrap := false }).touch

def moveRight (s : TermState) (n : Nat) : TermState :=
  let s := s.strandIfDiverged
  let cols := s.activeGrid.cols
  (s.modifyCursor fun c =>
    { c with col := min (c.col + max n 1) (cols - 1), pendingWrap := false }).touch

def saveCursor (s : TermState) : TermState :=
  let saved : SavedCursor :=
    { cursor := s.activeGrid.cursor
      template := s.template
      originMode := s.modes.contains .origin }
  if s.altGrid.isSome then { s with savedCursorAlt := saved } else { s with savedCursor := saved }

def restoreCursor (s : TermState) : TermState :=
  let saved := if s.altGrid.isSome then s.savedCursorAlt else s.savedCursor
  let s := { s with template := saved.template }.setModes .origin saved.originMode
  let g := s.activeGrid
  (s.modifyCursor fun _ =>
    { row := min saved.cursor.row (g.rows - 1)
      col := min saved.cursor.col (g.cols - 1)
      pendingWrap := false }).touch

/-! ## The keyboard flag stack -/

def activeKittyStack (s : TermState) : List (BitVec 8) :=
  if s.altGrid.isSome then s.kittyStackAlt else s.kittyStack

def setKittyStack (s : TermState) (stack : List (BitVec 8)) : TermState :=
  if s.altGrid.isSome then { s with kittyStackAlt := stack } else { s with kittyStack := stack }

/-- Copy the top of the active stack into the mode word. -/
def syncKittyModes (s : TermState) : TermState :=
  let flags := (s.activeKittyStack.getLast?).getD 0
  let next := s.modes.withKittyFlags flags
  if next ≠ s.modes then { s with modes := next }.touch else s

def kittyFlags (s : TermState) : BitVec 8 := s.modes.kittyFlags

def kittyPush (s : TermState) (flags : BitVec 8) : TermState :=
  let stack := s.activeKittyStack
  let stack := if stack.length = kittyStackDepth then stack.drop 1 else stack
  (s.setKittyStack (stack ++ [flags &&& Modes.kittySupported])).syncKittyModes

def kittyPop (s : TermState) (count : Nat) : TermState :=
  let stack := s.activeKittyStack
  (s.setKittyStack (stack.take (stack.length - count))).syncKittyModes

/-- `CSI = flags ; mode u`. -/
def kittySet (s : TermState) (flags : BitVec 8) (mode : Nat) : TermState :=
  let flags := flags &&& Modes.kittySupported
  let current := s.kittyFlags
  let next :=
    match mode with
    | 2 => current ||| flags
    | 3 => current &&& ~~~ flags
    | _ => flags
  (s.setKittyStack (s.activeKittyStack.dropLast ++ [next])).syncKittyModes

/-- Drop both stacks, for RIS. -/
def kittyReset (s : TermState) : TermState :=
  { s with kittyStack := [], kittyStackAlt := [] }.syncKittyModes

/-! ## Screen switching -/

/-- The alternate screen as it is entered: no scrollback, and blank. -/
def freshAlt (s : TermState) : Grid :=
  ((Grid.new s.grid.cols s.grid.rows 0).clearAll s.template).setViewportRestatedElsewhere
    s.viewportRestatedElsewhere

def setAltScreen (s : TermState) (enable : Bool) : TermState :=
  if enable = s.altGrid.isSome then s
  else
    let s : TermState :=
      if enable then
        { s with altGrid := some s.freshAlt, modes := s.modes.union .altScreen }
      else { s with altGrid := none, modes := s.modes.remove .altScreen }
    s.syncKittyModes.touchFull

/-! ## SGR -/

/-- One value of an extended colour: what is in hand, else the first value
of the next group. -/
def nextParam (head : Option Nat) (iter : Params) : Option Nat × Params :=
  match head with
  | some v => (some v, iter)
  | none =>
    match iter with
    | [] => (none, [])
    | p :: ps => (p.head?, ps)

/-- Parse the tail of an SGR 38/48/58 parameter, in either spelling; the
second component is what is left of the parameters. -/
def parseExtendedColor (rest : List Nat) (iter : Params) : Option Color × Params :=
  let rgb (r g b : Nat) : Color := .rgb (UInt8.ofNat r) (UInt8.ofNat g) (UInt8.ofNat b)
  match nextParam rest.head? iter with
  | (none, iter) => (none, iter)
  | (some 2, iter) =>
    if rest.length ≥ 5 then (some (rgb (rest.getD 2 0) (rest.getD 3 0) (rest.getD 4 0)), iter)
    else if rest.length = 4 then
      (some (rgb (rest.getD 1 0) (rest.getD 2 0) (rest.getD 3 0)), iter)
    else
      match nextParam none iter with
      | (none, iter) => (none, iter)
      | (some r, iter) =>
        match nextParam none iter with
        | (none, iter) => (none, iter)
        | (some g, iter) =>
          match nextParam none iter with
          | (none, iter) => (none, iter)
          | (some b, iter) => (some (rgb r g b), iter)
  | (some 5, iter) =>
    if rest.length ≥ 2 then (some (.indexed (UInt8.ofNat (rest.getD 1 0))), iter)
    else
      match nextParam none iter with
      | (none, iter) => (none, iter)
      | (some idx, iter) => (some (.indexed (UInt8.ofNat idx)), iter)
  | (some _, iter) => (none, iter)

/-- The three underline flags together. -/
def underlines : CellFlags :=
  CellFlags.underline.union (CellFlags.doubleUnderline.union CellFlags.undercurl)

/-- An SGR parameter without subparameters. -/
def sgrSingle (t : Cell) (n : Nat) : Cell :=
  let add (f : CellFlags) : Cell := { t with flags := t.flags.union f }
  let sub (f : CellFlags) : Cell := { t with flags := t.flags.remove f }
  match n with
  | 0 => Cell.blank
  | 1 => add .bold
  | 2 => add .dim
  | 3 => add .italic
  | 4 => add .underline
  | 5 => add .blink
  | 6 => add .blink
  | 7 => add .inverse
  | 8 => add .hidden
  | 9 => add .strikeout
  | 21 => add .doubleUnderline
  | 22 => sub (CellFlags.bold.union CellFlags.dim)
  | 23 => sub .italic
  | 24 => sub underlines
  | 25 => sub .blink
  | 27 => sub .inverse
  | 28 => sub .hidden
  | 29 => sub .strikeout
  | 39 => { t with fg := .default }
  | 49 => { t with bg := .default }
  | n =>
    if 30 ≤ n ∧ n ≤ 37 then { t with fg := .indexed (UInt8.ofNat (n - 30)) }
    else if 40 ≤ n ∧ n ≤ 47 then { t with bg := .indexed (UInt8.ofNat (n - 40)) }
    else if 90 ≤ n ∧ n ≤ 97 then { t with fg := .indexed (UInt8.ofNat (n - 90 + 8)) }
    else if 100 ≤ n ∧ n ≤ 107 then { t with bg := .indexed (UInt8.ofNat (n - 100 + 8)) }
    else t

/-- One SGR parameter; an extended colour may take more of them. -/
def sgrParam (t : Cell) (param : List Nat) (iter : Params) : Cell × Params :=
  match param with
  | [4, 0] => ({ t with flags := t.flags.remove underlines }, iter)
  | [4, 2] => ({ t with flags := t.flags.union .doubleUnderline }, iter)
  | [4, 3] => ({ t with flags := t.flags.union .undercurl }, iter)
  | [4, _] => ({ t with flags := t.flags.union .underline }, iter)
  | 38 :: rest =>
    match parseExtendedColor rest iter with
    | (some c, iter) => ({ t with fg := c }, iter)
    | (none, iter) => (t, iter)
  | 48 :: rest =>
    match parseExtendedColor rest iter with
    | (some c, iter) => ({ t with bg := c }, iter)
    | (none, iter) => (t, iter)
  | 58 :: rest => (t, (parseExtendedColor rest iter).2)
  | [n] => (sgrSingle t n, iter)
  | _ => (t, iter)

/-- The loop over SGR parameters; every turn takes at least one, so their
number is fuel enough. -/
def sgrLoop : Nat → Params → Cell → Cell
  | 0, _, t => t
  | _ + 1, [], t => t
  | fuel + 1, param :: iter, t =>
    let (t, iter) := sgrParam t param iter
    sgrLoop fuel iter t

def applySgr (s : TermState) (params : Params) : TermState :=
  { s with template := sgrLoop params.length params s.template }.touch

/-! ## Resizing -/

/-- Where a restated primary screen's top line is before a width change,
and whether it continues a line above. -/
def resizeAnchor (s : TermState) (cols : Nat) : Option (LineId × Bool) :=
  if cols ≠ s.grid.cols ∧ s.grid.viewportRestatedElsewhere ∧ s.altGrid.isNone then
    let fragment :=
      decide (s.grid.scrollbackLen > 0) &&
        (s.grid.line (s.grid.scrollbackLen - 1)).any Row.wrapped
    some ((s.grid.activeRow 0).id, fragment)
  else none

/-- How many rows stand above the anchored line after the rewrap. -/
def anchorDepth (g : Grid) (reindex : Reindex) (anchor : Option (LineId × Bool)) : Nat :=
  (anchor.bind fun (old, fragment) =>
    (reindex.lookup old).bind fun new =>
      ((List.range g.rows).find? fun r => (g.activeRow r).id == new).map fun row =>
        row + fragment.toNat).getD 0

/-- Resize both screens; the line map is the primary's. -/
def resizeScreens (s : TermState) (cols rows : Nat) : TermState × Reindex :=
  let template := s.template
  let (grid, reindex) := s.grid.resize cols rows template
  ({ s with
      grid := grid
      altGrid := s.altGrid.map fun alt => (alt.resize cols rows template).1 },
    reindex)

/-- File the rows above the anchored line as history. -/
def rebase (s : TermState) (k : Nat) : TermState :=
  if k > 0 then
    { s with grid := s.grid.bankViewportTop k s.template }.pushEvent .viewportRebased
  else s

/-- Follow the lines a rewrap renumbered. -/
def reanchorBlocks (s : TermState) (reindex : Reindex) : TermState :=
  if !reindex.isEmpty then { s with blocks := s.blocks.reanchor reindex, promptEnd := none }
  else s

def resize (s : TermState) (cols rows : Nat) : TermState :=
  let anchor := s.resizeAnchor cols
  let (s, reindex) := s.resizeScreens cols rows
  let s := s.rebase (anchorDepth s.grid reindex anchor)
  let s := s.reanchorBlocks reindex
  { s with tabs := defaultTabs cols }.touchFull

end TermState

end Zesterm
