/-
Zesterm.Core.Perform — the dispatch of `zest-core`'s `perform.rs`: parsed
escape sequences to terminal operations, and the `Terminal` that feeds
bytes through the parser.

Every function of the source that handles one sequence is one function
here. The two places where the source can leave a state behind that this
module does not describe are arithmetic: a CPR reply in origin mode wraps
a negative row, as a release build does.
-/
import Zesterm.Core.Term

namespace Zesterm

namespace TermState

/-! ## Erasing -/

def eraseInRow (s : TermState) (row start stop : Nat) : TermState :=
  let t := s.template
  s.modifyGrid fun g => g.eraseInRow row start stop t

def eraseRows (s : TermState) (first last : Nat) : TermState :=
  let t := s.template
  s.modifyGrid fun g => g.eraseRows first last t

/-- The part of a full-screen erase that concerns the primary screen's
blocks: those that described the erased rows describe nothing now. -/
def eraseScreenBlocks (s : TermState) : TermState :=
  if s.altGrid.isNone then
    let s : TermState :=
      match s.grid.activeLineIdAt 0 with
      | some first => { s with blocks := s.blocks.eraseScreen first }
      | none => s
    { s with promptEnd := none, pendingCommand := none }
  else s

/-- What ED 3 destroys beyond the screen: the primary grid's scrollback,
and with it every block. -/
def eraseHistory (s : TermState) : TermState :=
  { s with grid := s.grid.clearHistory, blocks := s.blocks.eraseScreen 0 }.pushEvent
    .historyCleared

def eraseInDisplay (s : TermState) (mode : Nat) : TermState :=
  let s := s.strandIfDiverged
  let c := s.activeGrid.cursor
  let rows := s.activeGrid.rows
  let cols := s.activeGrid.cols
  let s :=
    match mode with
    | 0 =>
      let s := s.eraseInRow c.row c.col (cols - 1)
      if c.row + 1 < rows then s.eraseRows (c.row + 1) (rows - 1) else s
    | 1 =>
      let s := if c.row > 0 then s.eraseRows 0 (c.row - 1) else s
      s.eraseInRow c.row 0 c.col
    | 2 => ((s.eraseRows 0 (rows - 1)).eraseScreenBlocks).modifyGrid Grid.cancelRestateDebt
    | 3 =>
      (((s.eraseRows 0 (rows - 1)).eraseScreenBlocks).modifyGrid
        Grid.cancelRestateDebt).eraseHistory
    | _ => s
  s.touchFull

def eraseInLine (s : TermState) (mode : Nat) : TermState :=
  let s := s.strandIfDiverged
  let c := s.activeGrid.cursor
  let cols := s.activeGrid.cols
  let s :=
    match mode with
    | 0 => s.eraseInRow c.row c.col (cols - 1)
    | 1 => s.eraseInRow c.row 0 c.col
    | 2 => s.eraseInRow c.row 0 (cols - 1)
    | _ => s
  s.touch

def eraseChars (s : TermState) (n : Nat) : TermState :=
  let s := s.strandIfDiverged
  let c := s.activeGrid.cursor
  let cols := s.activeGrid.cols
  (s.eraseInRow c.row c.col (min (c.col + n) cols - 1)).touch

/-- DECALN: every cell of the screen shows an `E`. -/
def decaln (s : TermState) : TermState :=
  let rows := s.activeGrid.rows
  let fill (r : Row) : Row := { r with cells := r.cells.map fun c => { c with ch := 'E' } }
  ((List.range rows).foldl (fun s row => s.modifyGrid fun g => g.modifyRow row fill) s).touchFull

/-! ## Moving, beyond what `term.rs` has -/

def gotoAbsolute (s : TermState) (row col : Nat) : TermState :=
  let s := s.strandIfDiverged
  let cols := s.activeGrid.cols
  (s.modifyCursor fun _ => { row := row, col := min col (cols - 1), pendingWrap := false }).touch

/-- The tab stop before `col`, else the first column. -/
def prevTab (s : TermState) (col : Nat) : Nat :=
  ((List.range col).reverse.find? fun c => s.tabs.getD c false).getD 0

def backTab (s : TermState) (count : Nat) : TermState :=
  let s := s.strandIfDiverged
  let col := s.prevTab^[max count 1] s.activeGrid.cursor.col
  (s.modifyCursor fun c => { c with col := col }).touch

def reverseIndex (s : TermState) : TermState :=
  let s := s.strandIfDiverged
  if s.activeGrid.cursor.row = s.activeGrid.region.top then
    let t := s.template
    (s.modifyGrid fun g => g.scrollDown 1 t).touchFull
  else if s.activeGrid.cursor.row > 0 then
    (s.modifyCursor fun c => { c with row := c.row - 1 }).touch
  else s

def setTab (s : TermState) (on : Bool) : TermState :=
  { s with tabs := s.tabs.set s.activeGrid.cursor.col on }

/-! ## Replies -/

def reply (s : TermState) (bytes : List UInt8) : TermState := s.pushEvent (.reply bytes)

/-- `ESC [` and what follows it. -/
def csiReply (s : TermState) (tail : Str) : TermState := s.reply (0x1b :: 0x5b :: toUtf8 tail)

/-- Cursor position report, relative to the region in origin mode. -/
def reportCursor (s : TermState) : TermState :=
  let g := s.activeGrid
  let row :=
    if s.modes.contains .origin then (g.cursor.row + 2 ^ 64 - g.region.top) % 2 ^ 64
    else g.cursor.row
  s.csiReply (showNat ((row + 1) % 2 ^ 64) ++ ';' :: showNat (g.cursor.col + 1) ++ ['R'])

def raiseAttention (s : TermState) (cause : AttentionCause) : TermState :=
  s.pushEvent (.attention cause)

/-! ## Modes -/

/-- DECTCEM, which is also how a restating pty's repaint closes. -/
def setShowCursor (s : TermState) (on : Bool) : TermState :=
  let s := s.setModes .showCursor on
  if s.activeGrid.restating then s.settleRestate else s.modifyGrid Grid.endRestatementWindow

def setPrivateMode (s : TermState) (enable : Bool) (mode : Nat) : TermState :=
  match mode with
  | 1 => s.setModes .appCursor enable
  | 6 => (s.setModes .origin enable).goto 0 0
  | 7 => s.setModes .autoWrap enable
  | 25 => s.setShowCursor enable
  | 66 => s.setModes .appKeypad enable
  | 1000 => s.setModes .mouseClick enable
  | 1002 => s.setModes .mouseDrag enable
  | 1003 => s.setModes .mouseMotion enable
  | 1004 => s.setModes .focusReporting enable
  | 1006 => s.setModes .mouseSgr enable
  | 47 => s.setAltScreen enable
  | 1047 => s.setAltScreen enable
  | 1048 => if enable then s.saveCursor else s.restoreCursor
  | 1049 =>
    if enable then s.saveCursor.setAltScreen true else (s.setAltScreen false).restoreCursor
  | 2004 => s.setModes .bracketedPaste enable
  | 2026 => (s.setModes .syncUpdate enable).pushEvent (.syncUpdate enable)
  | 9001 => s.setModes .win32Input enable
  | _ => s

/-- The first value of each parameter group, in order. -/
def firsts (params : Params) : List Nat := params.filterMap List.head?

def setPrivateModes (s : TermState) (params : Params) (enable : Bool) : TermState :=
  ((firsts params).foldl (fun s mode => s.setPrivateMode enable mode) s).touch

def setAnsiMode (s : TermState) (enable : Bool) (mode : Nat) : TermState :=
  match mode with
  | 4 => s.setModes .insert enable
  | 20 => s.setModes .lineFeedNewLine enable
  | _ => s

def setAnsiModes (s : TermState) (params : Params) (enable : Bool) : TermState :=
  ((firsts params).foldl (fun s mode => s.setAnsiMode enable mode) s).touch

/-- DECSCUSR. Zero hands the cursor back to the default style. -/
def setCursorStyle (s : TermState) (param : Nat) : TermState :=
  let style := if param = 0 then s.defaultCursorStyle else CursorStyle.fromDecscusr param
  ({ s with cursorStyleFromProgram := param != 0, cursorStyle := style }.pushEvent
    (.cursorStyle style)).touch

/-- DECSTBM, which also homes the cursor. -/
def setScrollRegion (s : TermState) (top bottom : Nat) : TermState :=
  let rows := s.activeGrid.rows
  let region : ScrollRegion :=
    if top < bottom ∧ bottom < rows then { top := top, bottom := bottom }
    else ScrollRegion.full rows
  ((s.modifyGrid fun g => { g with region := region }).goto 0 0).touchFull

/-- CUP, or the opening home of a repaint. -/
def moveTo (s : TermState) (row col : Nat) : TermState :=
  let t := s.template
  let s :=
    if row = 1 ∧ col = 1 ∧ s.modes.contains .showCursor = false then
      s.modifyGrid fun g => g.noteCursorHomedWhileHidden t
    else s
  s.goto (row - 1) (col - 1)

/-- RIS. -/
def fullReset (s : TermState) : TermState :=
  let s := { s with template := Cell.blank, modes := Modes.initial }.kittyReset
  let s := (s.setAltScreen false).modifyGrid fun g => g.clearAll Cell.blank
  let palette :=
    (((s.palette.resetIndexed none).resetForeground).resetBackground).resetCursor
  { s with palette := palette, blocks := {}, promptEnd := none, pendingCommand := none }.touchFull

/-! ## Command blocks -/

/-- The line a marker names. `none` on the alternate screen, which
suppresses the marker. -/
def blockLine (s : TermState) : Option LineId :=
  if s.altGrid.isSome then none else s.grid.activeLineIdAt s.grid.cursor.row

def blockPromptStart (s : TermState) : TermState :=
  match s.blockLine with
  | none => s
  | some line =>
    { s with
      blocks := s.blocks.beginPrompt line s.cwd
      promptEnd := none
      pendingCommand := none }.touch

def blockPromptEnd (s : TermState) : TermState :=
  match s.blockLine with
  | none => s
  | some line => { s with promptEnd := some (line, s.grid.cursor.col) }

/-- The text of a command's rows from the prompt's end on, until a row
that neither wrapped nor is the last. -/
def commandRows (startLine startCol endLine : Nat) : List Row → Str
  | [] => []
  | row :: rows =>
    if row.id < startLine ∨ row.id > endLine then commandRows startLine startCol endLine rows
    else
      let start := if row.id = startLine then startCol else 0
      let stop := if row.wrapped then row.len else row.trimmedLen
      let text := ((row.cells.take stop).drop start).flatMap row.cellText
      if !row.wrapped ∧ row.id ≠ endLine then text
      else text ++ commandRows startLine startCol endLine rows

/-- The submitted command, read back from the grid between `B` and `C`. -/
def commandText (s : TermState) : Str :=
  match s.promptEnd, s.grid.activeLineIdAt s.grid.cursor.row with
  | some (startLine, startCol), some endLine =>
    trimEnd (commandRows startLine startCol endLine s.grid.storage.logical)
  | _, _ => []

def blockOutputStart (s : TermState) : TermState :=
  match s.blockLine with
  | none => s
  | some line =>
    let command := s.pendingCommand.getD s.commandText
    -- `C` comes before the newline is echoed, unless the column is zero.
    let line := if s.grid.cursor.col > 0 then line + 1 else line
    { s with
      blocks := s.blocks.beginOutput line command s.nowMs s.inputAuthor
      promptEnd := none
      pendingCommand := none }.touch

/-- The line a finished block ends on: the one above the cursor when the
output ended in a newline, and never above its own prompt. -/
def finishLine (s : TermState) (line : LineId) : LineId :=
  let line := if s.grid.cursor.col = 0 then line - 1 else line
  match s.blocks.last with
  | some b => max line b.promptLine
  | none => line

def blockFinish (s : TermState) (exitCode : Option Int) : TermState :=
  match s.blockLine with
  | none => s
  | some line =>
    { s with
      blocks := s.blocks.finish (s.finishLine line) exitCode s.nowMs
      promptEnd := none
      pendingCommand := none }.touch

/-! ## OSC -/

/-- A parameter as text. -/
def oscText (params : List (List UInt8)) (i : Nat) : Option Str := params[i]?.bind fromUtf8

/-- `A`, `B`, `C` and `D`, which OSC 133 and OSC 633 share. -/
def oscMarker (s : TermState) (params : List (List UInt8)) (kind : UInt8) : TermState :=
  if kind = 0x41 then s.blockPromptStart
  else if kind = 0x42 then s.blockPromptEnd
  else if kind = 0x43 then s.blockOutputStart
  else if kind = 0x44 then s.blockFinish (params[2]?.bind parseExitStatus)
  else s

/-- The first byte of a marker parameter; shells append tails to it. -/
def markerKind (params : List (List UInt8)) : Option UInt8 := params[1]?.bind List.head?

/-- `OSC 133 ; A|B|C|D [; exit]`. -/
def oscPrompt (s : TermState) (params : List (List UInt8)) : TermState :=
  match markerKind params with
  | none => s
  | some kind => s.oscMarker params kind

/-- Record a reported cwd, announcing it only when it moved. -/
def setCwd (s : TermState) (host : Option Str) (path : Str) : TermState :=
  if s.cwd = path ∧ s.cwdHost = host then s
  else { s with cwd := path, cwdHost := host }.pushEvent (.cwdChanged host path)

/-- The name a fact is kept under. -/
def factName (key : Str) : Option Str :=
  if key = ['V', 'e', 'n', 'v'] then some ['v', 'e', 'n', 'v']
  else if key = ['C', 'o', 'n', 'd', 'a'] then some ['c', 'o', 'n', 'd', 'a']
  else if key = ['A', 'w', 's', 'P', 'r', 'o', 'f', 'i', 'l', 'e'] then
    some ['a', 'w', 's', '_', 'p', 'r', 'o', 'f', 'i', 'l', 'e']
  else if key = ['N', 'v', 'm', 'B', 'i', 'n'] then some ['n', 'v', 'm', '_', 'b', 'i', 'n']
  else none

/-- Insert into a name-ordered table, over an entry of the same name. -/
def insertFact (name value : Str) : List (Str × Str) → List (Str × Str)
  | [] => [(name, value)]
  | (k, v) :: rest =>
    if k = name then (name, value) :: rest
    else if name.map Char.toNat < k.map Char.toNat then (name, value) :: (k, v) :: rest
    else (k, v) :: insertFact name value rest

/-- A shell-reported environment fact; an empty value removes it. -/
def setShellFact (s : TermState) (key value : Str) : TermState :=
  match factName key with
  | none => s
  | some name =>
    let held := (s.shellFacts.find? fun p => p.1 == name).map Prod.snd
    if value.isEmpty then
      if held.isSome then
        { s with shellFacts := s.shellFacts.filter fun p => p.1 != name }.pushEvent
          .shellFactsChanged
      else s
    else if held = some value then s
    else
      { s with shellFacts := insertFact name value s.shellFacts }.pushEvent .shellFactsChanged

/-- `OSC 633 ; ...`, VS Code's dialect. -/
def oscVscode (s : TermState) (params : List (List UInt8)) : TermState :=
  match markerKind params with
  | none => s
  | some kind =>
    if kind = 0x45 then
      match oscText params 2 with
      | some cmd => { s with pendingCommand := some (unescapeVscode cmd) }
      | none => s
    else if kind = 0x50 then
      match oscText params 2 with
      | some rest =>
        match stripPrefix ['C', 'w', 'd', '='] rest with
        | some path => s.setCwd none (unescapeVscode path)
        | none =>
          match splitOnce '=' rest with
          | some (key, value) => s.setShellFact key (unescapeVscode value)
          | none => s
      | none => s
    else s.oscMarker params kind

/-- `OSC 7 ; file://<host>/<path>`. -/
def oscCwd (s : TermState) (params : List (List UInt8)) : TermState :=
  match oscText params 1 with
  | none => s
  | some url =>
    match stripPrefix ['f', 'i', 'l', 'e', ':', '/', '/'] url with
    | none => s.setCwd none (percentDecode url)
    | some rest =>
      if rest.contains '/' then
        let authority := rest.takeWhile (· != '/')
        s.setCwd (if authority.isEmpty then none else some authority)
          (percentDecode (rest.dropWhile (· != '/')))
      else s.setCwd none (percentDecode rest)

/-- `OSC 9 ; 4 ; st ; pr`, the taskbar progress. -/
def oscProgress (s : TermState) (params : List (List UInt8)) : TermState :=
  let num (i : Nat) : Option Nat := (oscText params i).bind fun t => parseUnsigned u32Max (trim t)
  let percent := min ((num 3).getD 0) 100
  let progress : Progress :=
    match (num 2).getD 0 with
    | 1 => .at percent .normal
    | 2 => .at percent .error
    | 3 => .indeterminate
    | 4 => .at percent .warning
    | _ => .none
  let done := s.progress != .none && progress == .none
  let failed :=
    match progress with
    | .at _ .error => true
    | _ => false
  let s := { s with progress := progress }
  if done || failed then s.raiseAttention .notify else s

/-- The reply to a colour query, after its code. -/
def colorReply (s : TermState) (code : Str) (c : Rgb) : TermState :=
  let part (v : UInt8) : Str := showHex4 (v.toNat * 257)
  s.reply (0x1b :: 0x5d :: toUtf8
    (code ++ [';', 'r', 'g', 'b', ':'] ++ part c.r ++ '/' :: part c.g ++ '/' :: part c.b ++
      ['\x07']))

/-- `OSC 4 ; index ; spec`, possibly repeated. -/
def oscPalette (s : TermState) : List (List UInt8) → TermState
  | index :: spec :: rest =>
    let spec := (fromUtf8 spec).getD []
    let s :=
      match (fromUtf8 index).bind (parseUnsigned 255) with
      | none => s
      | some i =>
        if spec = ['?'] then
          s.colorReply ('4' :: ';' :: showNat i) (s.palette.live.colors (UInt8.ofNat i))
        else
          match parseColorSpec spec with
          | some c => { s with palette := s.palette.setIndexed (UInt8.ofNat i) c }.touchFull
          | none => s
    oscPalette s rest
  | _ => s

/-- OSC 10, 11 and 12: query or set a default colour. -/
def oscDynamicColor (s : TermState) (code : Nat) (params : List (List UInt8)) : TermState :=
  let spec := (oscText params 1).getD []
  let live := s.palette.live
  let current :=
    match code with
    | 10 => live.foreground
    | 11 => live.background
    | _ => live.cursor
  if spec = ['?'] then s.colorReply (showNat code) current
  else
    match parseColorSpec spec with
    | none => s
    | some c =>
      let palette :=
        match code with
        | 10 => s.palette.setForeground c
        | 11 => s.palette.setBackground c
        | _ => s.palette.setCursor c
      { s with palette := palette }.touchFull

def oscTitle (s : TermState) (params : List (List UInt8)) : TermState :=
  match oscText params 1 with
  | some title => { s with title := title }.pushEvent (.title title)
  | none => s

def oscHyperlink (s : TermState) (params : List (List UInt8)) : TermState :=
  let uri := (oscText params 2).getD []
  if uri.isEmpty then { s with currentHyperlink := none }.pushEvent (.hyperlink none)
  else
    { s with
      currentHyperlink := some s.nextHyperlinkId
      nextHyperlinkId := (s.nextHyperlinkId + 1) % 65536 }.pushEvent (.hyperlink (some uri))

/-! ## The dispatch -/

def oscDispatch (s : TermState) (params : List (List UInt8)) : TermState :=
  match (oscText params 0).bind (parseUnsigned 65535) with
  | some 0 => s.oscTitle params
  | some 2 => s.oscTitle params
  | some 4 => s.oscPalette (params.drop 1)
  | some 7 => s.oscCwd params
  | some 8 => s.oscHyperlink params
  | some 9 =>
    if (oscText params 1).getD [] = ['4'] then s.oscProgress params
    else s.raiseAttention .notify
  | some 10 => s.oscDynamicColor 10 params
  | some 11 => s.oscDynamicColor 11 params
  | some 12 => s.oscDynamicColor 12 params
  | some 104 =>
    let index := ((oscText params 1).bind (parseUnsigned 255)).map UInt8.ofNat
    { s with palette := s.palette.resetIndexed index }.touchFull
  | some 110 => { s with palette := s.palette.resetForeground }.touchFull
  | some 111 => { s with palette := s.palette.resetBackground }.touchFull
  | some 112 => { s with palette := s.palette.resetCursor }.touchFull
  | some 133 => s.oscPrompt params
  | some 633 => s.oscVscode params
  | some 777 =>
    if (oscText params 1).getD [] = ['n', 'o', 't', 'i', 'f', 'y'] then s.raiseAttention .notify
    else s
  | _ => s

def execute (s : TermState) (byte : UInt8) : TermState :=
  match byte.toNat with
  | 0x07 => (s.pushEvent .bell).raiseAttention .bell
  | 0x08 => s.backspace
  | 0x09 => s.tab 1
  | 0x0d => s.carriageReturn
  | n =>
    if 0x0a ≤ n ∧ n ≤ 0x0c then
      let s := s.linefeed
      if s.modes.contains .lineFeedNewLine then s.carriageReturn else s
    else s

def escDispatch (s : TermState) (intermediates : List UInt8) (byte : UInt8) : TermState :=
  let inter := intermediates.head?.map UInt8.toNat
  match byte.toNat with
  | 0x37 => s.saveCursor
  | 0x38 =>
    match inter with
    | none => s.restoreCursor
    | some 0x23 => s.decaln
    | some _ => s
  | 0x44 => s.linefeed
  | 0x45 => s.linefeed.carriageReturn
  | 0x4d => s.reverseIndex
  | 0x48 => s.setTab true
  | 0x63 => s.fullReset
  | _ => s

/-- A CSI parameter; an explicit zero reads as the default. -/
def arg (params : Params) (n default : Nat) : Nat :=
  match params[n]?.bind List.head? with
  | some 0 => default
  | some v => v
  | none => default

/-- The `u` sequences: the keyboard protocol, and SCORC. -/
def keyboardDispatch (s : TermState) (params : Params) (inter : Option Nat) : TermState :=
  match inter with
  | some 0x3f => s.csiReply ('?' :: showNat s.kittyFlags.toNat ++ ['u'])
  | some 0x3e => s.kittyPush (BitVec.ofNat 8 (arg params 0 0))
  | some 0x3c => s.kittyPop (arg params 0 1)
  | some 0x3d => s.kittySet (BitVec.ofNat 8 (arg params 0 0)) (arg params 1 1)
  | some _ => s
  | none => s.restoreCursor

def csiDispatch (s : TermState) (params : Params) (intermediates : List UInt8) (ignore : Bool)
    (c : Char) : TermState :=
  let t := s.template
  let inter := intermediates.head?.map UInt8.toNat
  let isPrivate := inter == some 0x3f
  let a := arg params
  if ignore then s
  else
    match c with
    | 'A' => s.moveUp (a 0 1)
    | 'B' => s.moveDown (a 0 1)
    | 'e' => s.moveDown (a 0 1)
    | 'C' => s.moveRight (a 0 1)
    | 'a' => s.moveRight (a 0 1)
    | 'D' => s.moveLeft (a 0 1)
    | 'E' => (s.moveDown (a 0 1)).carriageReturn
    | 'F' => (s.moveUp (a 0 1)).carriageReturn
    | 'G' => s.gotoAbsolute s.activeGrid.cursor.row (a 0 1 - 1)
    | '`' => s.gotoAbsolute s.activeGrid.cursor.row (a 0 1 - 1)
    | 'd' => s.goto (a 0 1 - 1) s.activeGrid.cursor.col
    | 'H' => s.moveTo (a 0 1) (a 1 1)
    | 'f' => s.moveTo (a 0 1) (a 1 1)
    | 'I' => s.tab (a 0 1)
    | 'Z' => s.backTab (a 0 1)
    | 'J' => s.eraseInDisplay (a 0 0)
    | 'K' => s.eraseInLine (a 0 0)
    | 'X' => s.eraseChars (a 0 1)
    | '@' => (s.modifyGrid fun g => g.insertCells (a 0 1) t).touch
    | 'P' => (s.modifyGrid fun g => g.deleteCells (a 0 1) t).touch
    | 'L' => (s.modifyGrid fun g => g.insertLines (a 0 1) t).touchFull
    | 'M' => (s.modifyGrid fun g => g.deleteLines (a 0 1) t).touchFull
    | 'S' => ((s.modifyGrid fun g => g.scrollUp (a 0 1) t).evictBlocks).touchFull
    | 'T' => (s.modifyGrid fun g => g.scrollDown (a 0 1) t).touchFull
    | 't' =>
      if !isPrivate ∧ a 0 0 = 8 then
        s.modifyGrid fun g => g.noteRestatementBegan (a 2 0) (a 1 0) t
      else s
    | 'h' => if isPrivate then s.setPrivateModes params true else s.setAnsiModes params true
    | 'l' => if isPrivate then s.setPrivateModes params false else s.setAnsiModes params false
    | 'm' => if inter = none then s.applySgr params else s
    | 'q' => if inter = some 0x20 then s.setCursorStyle (a 0 0) else s
    | 'r' =>
      if isPrivate then s else s.setScrollRegion (a 0 1 - 1) (a 1 s.activeGrid.rows - 1)
    | 'g' =>
      match a 0 0 with
      | 0 => s.setTab false
      | 3 => { s with tabs := s.tabs.map fun _ => false }
      | _ => s
    | 'c' => s.csiReply ['?', '6', '2', ';', '1', ';', '6', ';', '2', '2', 'c']
    | 'n' =>
      match a 0 0 with
      | 5 => s.csiReply ['0', 'n']
      | 6 => s.reportCursor
      | _ => s
    | 's' => s.saveCursor
    | 'u' => s.keyboardDispatch params inter
    | _ => s

/-- `vte::Perform` for the terminal state. -/
def perform (vt : Vt) (s : TermState) : Action → TermState
  | .print ch => s.writeChar vt ch
  | .execute byte => s.execute byte
  | .csi params intermediates ignore c => s.csiDispatch params intermediates ignore c
  | .esc intermediates _ byte => s.escDispatch intermediates byte
  | .osc params _ => s.oscDispatch params

end TermState

/-! ## The terminal -/

/-- A VT-parsing terminal. -/
structure Terminal (vt : Vt) where
  parser : vt.Parser
  state : TermState

namespace Terminal

variable {vt : Vt}

def new (vt : Vt) (cols rows scrollback : Nat) : Terminal vt :=
  { parser := vt.new, state := TermState.new cols rows scrollback }

/-- Feed PTY output. -/
def advance (t : Terminal vt) (bytes : List UInt8) : Terminal vt :=
  let (parser, actions) := vt.advance t.parser bytes
  { parser := parser, state := actions.foldl (TermState.perform vt) t.state }

def resize (t : Terminal vt) (cols rows : Nat) : Terminal vt :=
  { t with state := t.state.resize cols rows }

def setNowMs (t : Terminal vt) (ms : Nat) : Terminal vt :=
  { t with state := { t.state with nowMs := some ms } }

def setInputAuthor (t : Terminal vt) (author : Option (List UInt8)) : Terminal vt :=
  { t with state := { t.state with inputAuthor := author } }

def setBlockContext (t : Terminal vt) (id : BlockId) (context : BlockContext) : Terminal vt :=
  { t with state := { t.state with blocks := t.state.blocks.setContext id context }.touch }

def setPtyRestatesViewport (t : Terminal vt) (yes : Bool) : Terminal vt :=
  { t with state := t.state.setViewportRestatedElsewhere yes }

/-- Set the style DECSCUSR 0 resets to, and adopt it now unless a program
has asked for another. -/
def setDefaultCursorStyle (t : Terminal vt) (style : CursorStyle) : Terminal vt :=
  { t with state := { t.state with
      defaultCursorStyle := style
      cursorStyle := if t.state.cursorStyleFromProgram then t.state.cursorStyle else style } }

def setPalette (t : Terminal vt) (seed : PaletteSnapshot) : Terminal vt :=
  { t with state := { t.state with
      palette := t.state.palette.reseed seed
      damage := { dirty := true, full := true } } }

def takeEvents (t : Terminal vt) : Terminal vt × List TermEvent :=
  ({ t with state := { t.state with events := [] } }, t.state.events)

def takeDamage (t : Terminal vt) : Terminal vt × Damage :=
  ({ t with state := { t.state with damage := {} } }, t.state.damage)

def markFull (t : Terminal vt) : Terminal vt :=
  { t with state := { t.state with damage := { dirty := true, full := true } } }

def scrollDisplay (t : Terminal vt) (delta : Int) : Terminal vt :=
  { t with state := t.state.modifyGrid fun g => g.scrollDisplay delta }.markFull

def scrollToBottom (t : Terminal vt) : Terminal vt :=
  { t with state := t.state.modifyGrid Grid.scrollToBottom }.markFull

/-- Scroll so that the primary screen's row bearing `line` is visible. -/
def scrollToLine (t : Terminal vt) (line : LineId) : Terminal vt × Bool :=
  if t.state.altGrid.isSome then (t, false)
  else
    let (grid, found) := t.state.grid.scrollToLine line
    if found then ({ t with state := { t.state with grid := grid } }.markFull, true)
    else ({ t with state := { t.state with grid := grid } }, false)

end Terminal

/-! ## Pasted text

The text goes out with its line ends as a pty expects them, and between two
markers when the program has asked to be told a paste from typing. -/

/-- `str::replace("\r\n", "\r")`. -/
def replaceCrlf : Str → Str
  | '\r' :: '\n' :: cs => '\r' :: replaceCrlf cs
  | c :: cs => c :: replaceCrlf cs
  | [] => []

/-- `str::replace('\n', "\r")`. -/
def replaceLf (text : Str) : Str := text.map fun c => if c = '\n' then '\r' else c

/-- `CSI 200 ~`. -/
def pasteStart : List UInt8 := [0x1b, 0x5b, 0x32, 0x30, 0x30, 0x7e]

/-- `CSI 201 ~`. -/
def pasteEnd : List UInt8 := [0x1b, 0x5b, 0x32, 0x30, 0x31, 0x7e]

/-- Pasted text as bytes, in bracketed-paste markers when the program asked
for them. -/
def Terminal.encodePaste {vt : Vt} (t : Terminal vt) (text : Str) : List UInt8 :=
  let normalized := replaceLf (replaceCrlf text)
  if t.state.modes.contains Modes.bracketedPaste then
    pasteStart ++ toUtf8 normalized ++ pasteEnd
  else toUtf8 normalized

end Zesterm
