/-
Zesterm.Proto.Session — a host terminal, one subscriber's encoder, and
the looks that subscriber takes.

A look encodes the screen that is live at that moment, with the cursor,
modes, title and blocks of the same state. How often a subscriber looks is
its own affair: any number of bytes may reach the host between two looks.
-/
import Zesterm.Proto.Apply

namespace Zesterm

namespace Terminal

variable {vt : Vt}

/-- A look that takes the whole state. -/
def keyframe (t : Terminal vt) (e : Encoder) : Keyframe × Encoder :=
  e.keyframe t.state.activeGrid (cursorOf t.state) t.state.modes t.state.title t.state.blocks

/-- A look that takes what changed. -/
def delta (t : Terminal vt) (e : Encoder) : Delta × Encoder :=
  e.delta t.state.activeGrid (cursorOf t.state) t.state.modes t.state.title t.state.blocks

/-- `e'` is what a look, of either kind, leaves of the encoder `e`. -/
def Encodes (t : Terminal vt) (e e' : Encoder) : Prop :=
  e' = (t.keyframe e).2 ∨ e' = (t.delta e).2

end Terminal

/-- The row an op files as history. -/
def DeltaOp.pushed : DeltaOp → Option RowPayload
  | .sbPush payload => some payload
  | _ => none

/-- The lines a delta files as history. -/
def Delta.pushedLines (d : Delta) : List Int :=
  (d.ops.filterMap DeltaOp.pushed).map RowPayload.line

/-! ## A flat client -/

/-- A host, its encoder for one subscriber, and that subscriber's rows. -/
structure FlatSession (vt : Vt) where
  host : Terminal vt
  encoder : Encoder
  view : GridView

namespace FlatSession

variable {vt : Vt}

/-- A look that takes the whole state, applied. -/
def keyframe (s : FlatSession vt) : FlatSession vt :=
  let (k, e) := s.host.keyframe s.encoder
  { s with encoder := e, view := s.view.applyKeyframe k }

/-- A look that takes what changed, applied. -/
def delta (s : FlatSession vt) : FlatSession vt :=
  let (d, e) := s.host.delta s.encoder
  { s with encoder := e, view := s.view.applyDelta d }

/-- Output reaches the host. -/
def output (s : FlatSession vt) (bytes : List UInt8) : FlatSession vt :=
  { s with host := s.host.advance bytes }

/-- A chunk of output, and a delta for it. -/
def feed (s : FlatSession vt) (bytes : List UInt8) : FlatSession vt := (s.output bytes).delta

/-- One keyframe, then a delta after every chunk. -/
def run (s : FlatSession vt) (chunks : List (List UInt8)) : FlatSession vt :=
  chunks.foldl feed s.keyframe

end FlatSession

/-! ## A client of the blocks -/

namespace BlockIndex

/-- What a keyframe makes of a client's blocks. -/
def restate (x : BlockIndex) (k : Keyframe) : BlockIndex :=
  k.blocks.foldl (fun x b => x.upsert b.toBlock) (x.retainBelow k.blocksFrom)

/-- What a delta makes of a client's blocks. -/
def amend (x : BlockIndex) (d : Delta) : BlockIndex :=
  d.blocks.foldl (fun x b => x.upsert b.toBlock) x

end BlockIndex

/-- A move of a host's index, or a look of its subscriber, with whatever
the host shows at that moment. -/
inductive BlockMove where
  | host (op : IndexOp)
  | look (grid : Grid) (cursor : CursorState) (modes : Modes) (title : Str)

/-- A host's index, its encoder for one subscriber, that subscriber's
blocks, and the blocks a clear on the host destroyed. -/
structure BlockSession where
  host : BlockIndex := {}
  encoder : Encoder := Encoder.new
  client : BlockIndex := {}
  destroyed : List BlockId := []

namespace BlockSession

/-- A look is a keyframe where the blocks ask for one, else a delta. -/
def look (s : BlockSession) (grid : Grid) (cursor : CursorState) (modes : Modes) (title : Str) :
    BlockSession :=
  if s.encoder.blocksNeedKeyframe s.host then
    let (k, e) := s.encoder.keyframe grid cursor modes title s.host
    { s with encoder := e, client := s.client.restate k }
  else
    let (d, e) := s.encoder.delta grid cursor modes title s.host
    { s with encoder := e, client := s.client.amend d }

def step (s : BlockSession) : BlockMove → BlockSession
  | .host op =>
    let host := op.apply s.host
    { s with
      host := host
      destroyed :=
        if op.destroys then s.destroyed ++ s.host.ids.filter (!host.ids.contains ·)
        else s.destroyed }
  | .look grid cursor modes title => s.look grid cursor modes title

def run (moves : List BlockMove) : BlockSession := moves.foldl step {}

end BlockSession

end Zesterm
