/-
Zesterm.Proto.Mirror — one encoder and the two kinds of client it feeds.

A subscriber's encoder takes looks at its host, whole or only what changed
since the last one, and what it makes of each look reaches a flat view and
an applier with its replica terminal, in order. Messages are numbered in
the order they are made; a delta is built against the one before it. A page
of history is read from the host by an encoder of its own and reaches the
applier by another door.
-/
import Zesterm.Proto.Session

namespace Zesterm

/-- A look at a host: whether the whole state is taken, and the host as it
is at that moment. -/
structure Look where
  whole : Bool
  host : TermState

namespace Look

/-- The whole state as an encoder takes it. -/
def keyframe (l : Look) (e : Encoder) : Keyframe × Encoder :=
  let h := l.host
  e.keyframe h.activeGrid (cursorOf h) h.modes h.title h.blocks

/-- What changed as an encoder takes it. -/
def delta (l : Look) (e : Encoder) : Delta × Encoder :=
  let h := l.host
  e.delta h.activeGrid (cursorOf h) h.modes h.title h.blocks

/-- The encoder a look leaves. -/
def encode (e : Encoder) (l : Look) : Encoder :=
  if l.whole then (l.keyframe e).2 else (l.delta e).2

end Look

/-! ## A client fed by anyone -/

/-- A message on its way to a client: a keyframe, or a delta with the
sequence it was built against. -/
inductive Delivery where
  | keyframe (k : Keyframe) (seq : Nat)
  | delta (d : Delta) (base seq : Nat)

/-- An applier and its replica. -/
structure Client where
  applier : Applier := {}
  replica : TermState

namespace Client

def deliver (c : Client) : Delivery → Client
  | .keyframe k seq =>
    let (a, s) := c.applier.applyKeyframe c.replica k seq
    { applier := a, replica := s }
  | .delta d base seq =>
    let ((a, s), _) := c.applier.applyDelta c.replica d base seq
    { applier := a, replica := s }

/-- A client as its messages leave it. -/
def after (c : Client) (messages : List Delivery) : Client := messages.foldl deliver c

end Client

/-! ## One encoder and two clients -/

/-- What a look sends; of a delta also what the applier answered. -/
inductive Message where
  | keyframe (k : Keyframe)
  | delta (d : Delta) (answer : Applied)

/-- An encoder, a flat view, and an applier with its replica. -/
structure Mirror where
  encoder : Encoder := Encoder.new
  view : GridView := {}
  applier : Applier := {}
  replica : TermState
  /-- The number of the last message. -/
  seq : Nat := 0

namespace Mirror

/-- One look, encoded and applied on both sides. -/
def look (m : Mirror) (l : Look) : Mirror × Message :=
  let seq := m.seq + 1
  if l.whole then
    let (k, e) := l.keyframe m.encoder
    let (a, s) := m.applier.applyKeyframe m.replica k seq
    ({ encoder := e, view := m.view.applyKeyframe k, applier := a, replica := s, seq := seq },
      .keyframe k)
  else
    let (d, e) := l.delta m.encoder
    let ((a, s), answer) := m.applier.applyDelta m.replica d m.seq seq
    ({ encoder := e, view := m.view.applyDelta d, applier := a, replica := s, seq := seq },
      .delta d answer)

/-- What `Session::scrollback` reads from a host. -/
def readPage (host : TermState) (fromLine : LineId) (count : Nat) :
    List RowPayload × List AttrDef :=
  (Encoder.new.history (host.activeGrid.linesById fromLine count)).1

/-- A page of history, absorbed and put above what the replica holds; the
lines it names are taken out first. -/
def page (m : Mirror) (rows : List RowPayload) (attrs : List AttrDef) : Mirror :=
  let a := m.applier.absorbAttrs attrs
  let named := (rows.filter fun r => decide (0 ≤ r.line)).map fun r => lineId r.line
  { m with
    applier := a
    replica := a.applyScrollback (RemoteWriter.dropHistory m.replica named) rows }

end Mirror

end Zesterm
