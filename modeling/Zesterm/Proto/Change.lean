/-
Zesterm.Proto.Change — what a subscriber could be told of a terminal, and
when the terminal's number moves.

`updateFor` is `zest-core`'s `subscribe.rs`: a subscriber is judged by the
number of the state it has. A `Picture` is everything an encoder reads off a
terminal, and the progress, which is polled beside it. The number is moved
by hand, by the `touch` of each handler; `touches` says of every sequence,
in the state it finds, whether it gets to one.
-/
import Zesterm.Proto.Encode

namespace Zesterm

/-! ## A subscriber's position -/

/-- `KEYFRAME_THRESHOLD`: how far behind a subscriber may fall. -/
def keyframeThreshold : Nat := 256

/-- What a subscriber should be sent next. -/
inductive ChangeUpdate where
  | idle
  | delta (start stop : Nat)
  | keyframe (seq : Nat)
  deriving DecidableEq

def updateFor (currentSeq acked : Nat) : ChangeUpdate :=
  if acked ≥ currentSeq then .idle
  else if currentSeq - acked > keyframeThreshold then .keyframe currentSeq
  else .delta acked currentSeq

/-! ## What there is to be seen -/

/-- What an encoder reads off the live screen. -/
structure ScreenView where
  cols : Nat
  rows : Nat
  lines : List Row
  /-- The line the top row bears, which is how a scroll is noticed. -/
  top : LineId
  cursorRow : Nat
  cursorCol : Nat
  /-- Where history ends and the screen begins. -/
  scrollbackLen : Nat
  oldestLine : LineId
  historyClears : Nat

def Grid.view (g : Grid) : ScreenView :=
  { cols := g.cols
    rows := g.rows
    lines := Encoder.activeRows g
    top := (g.activeRow 0).id
    cursorRow := g.cursor.row
    cursorCol := g.cursor.col
    scrollbackLen := g.scrollbackLen
    oldestLine := g.oldestLineId
    historyClears := g.historyClears }

/-- Everything of a terminal that a client could see. -/
structure Picture where
  screen : ScreenView
  modes : Modes
  cursorStyle : CursorStyle
  title : Str
  blocks : BlockIndex
  progress : Progress

def TermState.picture (s : TermState) : Picture :=
  { screen := s.activeGrid.view
    modes := s.modes
    cursorStyle := s.cursorStyle
    title := s.title
    blocks := s.blocks
    progress := s.progress }

/-! ## Which sequences move the number -/

namespace TermState

def linefeedTouches (s : TermState) : Bool :=
  let g := s.activeGrid
  g.needsStrand || decide (g.cursor.row = g.region.bottom) || decide (g.cursor.row + 1 < g.rows)

def reverseIndexTouches (s : TermState) : Bool :=
  let g := s.activeGrid
  g.needsStrand || decide (g.cursor.row = g.region.top) || decide (g.cursor.row > 0)

/-- A mark with no cell before it is dropped, and so is a wide character
that neither fits nor wraps. -/
def printTouches (vt : Vt) (s : TermState) (ch : Char) : Bool :=
  let g := s.activeGrid
  let width := (vt.width ch).getD 0
  g.needsStrand ||
    if width = 0 then decide (g.cursor.col > 0)
    else !(decide (width = 2 ∧ g.cursor.col + 1 ≥ g.cols) && !s.modes.contains .autoWrap)

def executeTouches (s : TermState) (byte : UInt8) : Bool :=
  match byte.toNat with
  | 0x08 => true
  | 0x09 => true
  | 0x0d => true
  | n =>
    if 0x0a ≤ n ∧ n ≤ 0x0c then s.linefeedTouches || s.modes.contains .lineFeedNewLine else false

def escTouches (s : TermState) (intermediates : List UInt8) (byte : UInt8) : Bool :=
  match byte.toNat with
  | 0x38 =>
    match intermediates.head?.map UInt8.toNat with
    | none => true
    | some 0x23 => true
    | some _ => false
  | 0x44 => s.linefeedTouches
  | 0x45 => true
  | 0x4d => s.reverseIndexTouches
  | 0x63 => true
  | _ => false

/-- Whether a keyboard flag stack with this on top changes the mode word. -/
def kittyTouches (s : TermState) (top : BitVec 8) : Bool := s.modes.withKittyFlags top != s.modes

def keyboardTouches (s : TermState) (params : Params) (inter : Option Nat) : Bool :=
  match inter with
  | some 0x3e => s.kittyTouches (BitVec.ofNat 8 (arg params 0 0) &&& Modes.kittySupported)
  | some 0x3c =>
    let stack := s.activeKittyStack
    s.kittyTouches (((stack.take (stack.length - arg params 0 1)).getLast?).getD 0)
  | some 0x3d =>
    let flags := BitVec.ofNat 8 (arg params 0 0) &&& Modes.kittySupported
    s.kittyTouches
      (match arg params 1 1 with
        | 2 => s.kittyFlags ||| flags
        | 3 => s.kittyFlags &&& ~~~ flags
        | _ => flags)
  | some _ => false
  | none => true

/-- CSI sequences that move the number whatever the state. -/
def csiMovers : List Char :=
  ['A', 'B', 'e', 'C', 'a', 'D', 'E', 'F', 'G', '`', 'd', 'H', 'f', 'I', 'Z', 'J', 'K', 'X', '@',
    'P', 'L', 'M', 'S', 'T', 'h', 'l']

def csiTouches (s : TermState) (params : Params) (intermediates : List UInt8) (ignore : Bool)
    (c : Char) : Bool :=
  let inter := intermediates.head?.map UInt8.toNat
  if ignore then false
  else if csiMovers.contains c then true
  else if c = 'm' then decide (inter = none)
  else if c = 'q' then decide (inter = some 0x20)
  else if c = 'r' then inter != some 0x3f
  else if c = 'u' then s.keyboardTouches params inter
  else false

def paletteTouches : List (List UInt8) → Bool
  | index :: spec :: rest =>
    let spec := (fromUtf8 spec).getD []
    (((fromUtf8 index).bind (parseUnsigned 255)).isSome && spec != ['?'] &&
      (parseColorSpec spec).isSome) || paletteTouches rest
  | _ => false

def dynamicColorTouches (params : List (List UInt8)) : Bool :=
  let spec := (oscText params 1).getD []
  spec != ['?'] && (parseColorSpec spec).isSome

/-- `A`, `C` and `D` do, where the screen has a line to name. -/
def markerTouches (s : TermState) (kind : UInt8) : Bool :=
  (kind == 0x41 || kind == 0x43 || kind == 0x44) && s.blockLine.isSome

def promptTouches (s : TermState) (params : List (List UInt8)) : Bool :=
  (markerKind params).any s.markerTouches

def oscTouches (s : TermState) (params : List (List UInt8)) : Bool :=
  match (oscText params 0).bind (parseUnsigned 65535) with
  | some 4 => paletteTouches (params.drop 1)
  | some 10 => dynamicColorTouches params
  | some 11 => dynamicColorTouches params
  | some 12 => dynamicColorTouches params
  | some 104 => true
  | some 110 => true
  | some 111 => true
  | some 112 => true
  | some 133 => s.promptTouches params
  | some 633 => s.promptTouches params
  | _ => false

/-- Whether a sequence gets to a `touch` in the state it finds. -/
def touches (vt : Vt) (s : TermState) : Action → Bool
  | .print ch => s.printTouches vt ch
  | .execute byte => s.executeTouches byte
  | .csi params intermediates ignore c => s.csiTouches params intermediates ignore c
  | .esc intermediates _ byte => s.escTouches intermediates byte
  | .osc params _ => s.oscTouches params

/-- No sequence of a run gets to a `touch`. -/
def Silent (vt : Vt) : TermState → List Action → Prop
  | _, [] => True
  | s, a :: actions => s.touches vt a = false ∧ Silent vt (s.perform vt a) actions

end TermState

/-! ## What a silent sequence may change -/

namespace Action

/-- The number of an OSC sequence. -/
def oscNumber (params : List (List UInt8)) : Option Nat :=
  (TermState.oscText params 0).bind (parseUnsigned 65535)

/-- The title an action sets: OSC 0 and OSC 2. -/
def title? : Action → Option Str
  | .osc params _ =>
    if oscNumber params = some 0 ∨ oscNumber params = some 2 then TermState.oscText params 1
    else none
  | _ => none

/-- The progress an action sets: OSC 9 ; 4. -/
def progress? : Action → Option Progress
  | .osc params _ =>
    if oscNumber params = some 9 ∧ (TermState.oscText params 1).getD [] = ['4'] then
      let num (i : Nat) : Option Nat :=
        (TermState.oscText params i).bind fun t => parseUnsigned u32Max (trim t)
      let percent := min ((num 3).getD 0) 100
      some (match (num 2).getD 0 with
        | 1 => .at percent .normal
        | 2 => .at percent .error
        | 3 => .indeterminate
        | 4 => .at percent .warning
        | _ => .none)
    else none
  | _ => none

/-- `CSI 8 ; rows ; cols t`, with which a pty announces a repaint. -/
def isRestatement : Action → Bool
  | .csi params intermediates ignore c =>
    !ignore && c == 't' && intermediates.head?.map UInt8.toNat != some 0x3f &&
      TermState.arg params 0 0 == 8
  | _ => false

/-- The title a run of actions leaves. -/
def titleAfter (title : Str) (actions : List Action) : Str :=
  (actions.filterMap title?).getLast?.getD title

/-- The progress a run of actions leaves. -/
def progressAfter (progress : Progress) (actions : List Action) : Progress :=
  (actions.filterMap progress?).getLast?.getD progress

end Action

end Zesterm
