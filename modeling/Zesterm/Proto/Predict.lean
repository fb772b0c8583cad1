/-
Zesterm.Proto.Predict — predicted echo: `zest-proto`'s `predict.rs` and its
port `predict.ts`.

The state is one record, over the type of a glyph: a `char` natively, a
string of one code point in the browser. Averages are exact, where both
sources use floats. A `u16` sum wraps as in a release build. `reconcile`
also gives the verdicts it came to, in order, which neither source keeps.
Changing the policy of a live session, which only the native side can, is
left out.
-/
import Mathlib.Data.Rat.Defs
import Mathlib.Algebra.Order.Field.Rat
import Zesterm.Proto.Delta

namespace Zesterm

namespace Predict

/-- A keystroke as the caller knows it before encoding. -/
inductive Key (G : Type) where
  | printable (ch : G)
  | backspace
  | other
  deriving DecidableEq

/-- Whether predictions are made and shown. -/
inductive Policy where
  | auto
  | always
  | off
  deriving DecidableEq

/-- One predicted cell. -/
structure Prediction (G : Type) where
  row : Nat
  col : Nat
  ch : G
  /-- When the key was pressed, on the caller's clock. -/
  madeAt : Nat
  deriving DecidableEq

def showAboveMs : ℚ := 40
def hideBelowMs : ℚ := 20
def expireAfterRtts : ℚ := 3
def expireFloorMs : ℚ := 100
def expireUnmeasuredMs : Nat := 1000
def ewma : ℚ := 3 / 10

structure Predictor (G : Type) where
  policy : Policy
  pending : List (Prediction G)
  /-- Where the host's cursor is, per the last keyframe or cursor op. -/
  cursor : CursorState
  cols : Nat
  altScreen : Bool
  /-- A refutation happened and no prediction has confirmed since. -/
  quiet : Bool
  /-- Measured press-to-echo latency. -/
  latencyMs : Option ℚ
  /-- The caller's belief before any measurement. -/
  remoteHint : Bool
  /-- Latched by the hysteresis. -/
  showing : Bool
  deriving DecidableEq

/-- A predictor with a policy, once its caller has said what it believes of the link. -/
def Predictor.new {G : Type} (policy : Policy) (remote : Bool) : Predictor G :=
  { policy, pending := [], cursor := CursorState.default, cols := 0, altScreen := false,
    quiet := false, latencyMs := none, remoteHint := remote, showing := false }

/-- What happens to a predictor. -/
inductive Step where
  | input (key : Key Char) (nowMs : Nat)
  | keyframe (cursor : CursorState) (rows cols : Nat) (altScreen : Bool)
  | delta (delta : Delta) (nowMs : Nat)
  | tick (nowMs : Nat)

/-! ## The loop of `reconcile`, which both sides have -/

/-- Whether the host's cursor is past a cell. -/
def passed {G : Type} (cursor : CursorState) (p : Prediction G) : Bool :=
  cursor.row != p.row || p.col < cursor.col

/-- Judge the predictions in order, with those left in place so far: a
confirmed one goes, a refuted one ends the loop, and what time has passed
over goes at its end. -/
def judge {G : Type} (verdict : Prediction G → Option Bool)
    (confirm : Predictor G → Prediction G → Predictor G) (refute expire : Predictor G → Predictor G) :
    (rest kept : List (Prediction G)) → Predictor G → Predictor G × List Bool
  | [], kept, s => (expire { s with pending := kept }, [])
  | p :: rest, kept, s =>
    match verdict p with
    | some true =>
      let out := judge verdict confirm refute expire rest kept (confirm s p)
      (out.1, true :: out.2)
    | some false => (refute s, [false])
    | none => judge verdict confirm refute expire rest (kept ++ [p]) s

/-! ## The native side -/

namespace Native

/-- A character that occupies exactly one cell. -/
def narrow (ch : Char) : Bool :=
  let c := ch.toNat
  (0x20 ≤ c && c < 0x1100) && !(0x0300 ≤ c && c ≤ 0x036F) && c != 0x7F

/-- The character at a column, with `at` cells before the runs. -/
def charAtFrom (col : Nat) : (runs : List Run) → (start : Nat) → Char
  | [], _ => ' '
  | run :: runs, start =>
    let stop := (start + run.cells) % 65536
    if col < stop then (run.text[(col + 65536 - start) % 65536]?).getD ' '
    else charAtFrom col runs stop

def charAt (row : RowPayload) (col : Nat) : Char := charAtFrom col row.runs 0

def onKeyframe (s : Predictor Char) (cursor : CursorState) (cols : Nat) (altScreen : Bool) :
    Predictor Char :=
  { s with pending := [], cursor, cols, altScreen }

def onInput (s : Predictor Char) (key : Key Char) (nowMs : Nat) : Predictor Char :=
  if s.policy = .off then s
  else
    match key with
    | .printable ch =>
      if !narrow ch then { s with pending := [] }
      else if s.altScreen then s
      else
        let place :=
          match s.pending.getLast? with
          | some p => (p.row, p.col + 1)
          | none => (s.cursor.row, s.cursor.col)
        if s.cols ≤ place.2 then s
        else { s with pending := s.pending ++ [⟨place.1, place.2, ch, nowMs⟩] }
    | .backspace => { s with pending := s.pending.dropLast }
    | .other => { s with pending := [] }

def refute (s : Predictor Char) : Predictor Char := { s with pending := [], quiet := true }

def confirm (s : Predictor Char) (sampleMs : Nat) : Predictor Char :=
  let rtt : ℚ :=
    match s.latencyMs with
    | some prev => prev + (sampleMs - prev) * ewma
    | none => sampleMs
  { s with
    latencyMs := some rtt
    quiet := false
    showing := if rtt > showAboveMs then true else if rtt < hideBelowMs then false else s.showing }

def expire (s : Predictor Char) (nowMs : Nat) : Predictor Char :=
  match s.pending.head? with
  | none => s
  | some oldest =>
    let age := nowMs - oldest.madeAt
    match s.latencyMs with
    | some rtt => if (age : ℚ) > max (rtt * expireAfterRtts) expireFloorMs then refute s else s
    | none => if age > expireUnmeasuredMs then { s with pending := [] } else s

/-- What `reconcile` has read of a delta. -/
structure Reading where
  s : Predictor Char
  cursorMoved : Bool
  rows : List (Nat × RowPayload)

def readOp (r : Reading) : DeltaOp → Reading
  | .cursor cursor => { r with s := { r.s with cursor }, cursorMoved := true }
  | .row row payload => { r with rows := r.rows ++ [(row, payload)] }
  | .altScreen active => { r with s := { r.s with altScreen := active, pending := [] } }
  | .scroll .. => { r with s := { r.s with pending := [] } }
  | .erase .. => { r with s := { r.s with pending := [] } }
  | _ => r

def read (s : Predictor Char) (delta : Delta) : Reading :=
  delta.ops.foldl readOp ⟨s, false, []⟩

/-- The first write of a row. -/
def Reading.delivered (r : Reading) (row : Nat) : Option RowPayload :=
  (r.rows.find? fun e => e.1 = row).map Prod.snd

def verdict (r : Reading) (cursor : CursorState) (p : Prediction Char) : Option Bool :=
  match r.delivered p.row, passed cursor p with
  | some payload, true => some (charAt payload p.col == p.ch)
  | some _, false => none
  | none, true => if r.cursorMoved then some true else none
  | none, false => none

/-- Judge every pending prediction against a delta. -/
def reconcile (s : Predictor Char) (delta : Delta) (nowMs : Nat) : Predictor Char × List Bool :=
  let r := read s delta
  judge (verdict r r.s.cursor) (fun s p => confirm s (nowMs - p.madeAt)) refute
    (fun s => expire s nowMs) r.s.pending [] r.s

def step (s : Predictor Char) : Step → Predictor Char × List Bool
  | .input key nowMs => (onInput s key nowMs, [])
  | .keyframe cursor _ cols altScreen => (onKeyframe s cursor cols altScreen, [])
  | .delta delta nowMs => reconcile s delta nowMs
  | .tick nowMs => (expire s nowMs, [])

/-- The state a run of steps leads to. -/
def after (s : Predictor Char) (steps : List Step) : Predictor Char :=
  steps.foldl (fun s st => (step s st).1) s

def showing (s : Predictor Char) : Bool :=
  match s.policy with
  | .off => false
  | .always => !s.quiet
  | .auto =>
    if s.quiet then false
    else match s.latencyMs with
      | some _ => s.showing
      | none => s.remoteHint

/-- The cells to draw. -/
def overlay (s : Predictor Char) : List (Prediction Char) := if showing s then s.pending else []

end Native

/-! ## The browser's side -/

namespace Web

/-- A string of one code point that occupies exactly one cell. -/
def narrow : Str → Bool
  | [ch] =>
    let c := ch.toNat
    0x20 ≤ c && c < 0x1100 && !(0x0300 ≤ c && c ≤ 0x036f) && c != 0x7f
  | _ => false

def charAtFrom (col : Nat) : (runs : List Run) → (start : Nat) → Str
  | [], _ => [' ']
  | run :: runs, start =>
    let stop := start + run.cells
    if col < stop then ((run.text[col - start]?).map fun c => [c]).getD [' ']
    else charAtFrom col runs stop

def charAt (row : RowPayload) (col : Nat) : Str := charAtFrom col row.runs 0

def onKeyframe (s : Predictor Str) (cursor : CursorState) (cols : Nat) (altScreen : Bool) :
    Predictor Str :=
  { s with pending := [], cursor, cols, altScreen }

def onInput (s : Predictor Str) (key : Key Str) (nowMs : Nat) : Predictor Str :=
  if s.policy = .off then s
  else
    match key with
    | .printable ch =>
      if !narrow ch then { s with pending := [] }
      else if s.altScreen then s
      else
        let last := s.pending.getLast?
        let row := (last.map (·.row)).getD s.cursor.row
        let col := (last.map (·.col + 1)).getD s.cursor.col
        if s.cols ≤ col then s
        else { s with pending := s.pending ++ [⟨row, col, ch, nowMs⟩] }
    | .backspace => { s with pending := s.pending.dropLast }
    | .other => { s with pending := [] }

def refute (s : Predictor Str) : Predictor Str := { s with pending := [], quiet := true }

def confirm (s : Predictor Str) (sampleMs : Int) : Predictor Str :=
  let rtt : ℚ :=
    match s.latencyMs with
    | none => sampleMs
    | some prev => prev + (sampleMs - prev) * ewma
  { s with
    latencyMs := some rtt
    quiet := false
    showing := if rtt > showAboveMs then true else if rtt < hideBelowMs then false else s.showing }

def expire (s : Predictor Str) (nowMs : Nat) : Predictor Str :=
  match s.pending with
  | [] => s
  | oldest :: _ =>
    let age : Int := max 0 ((nowMs : Int) - oldest.madeAt)
    match s.latencyMs with
    | some latency =>
      if (age : ℚ) > max (latency * expireAfterRtts) expireFloorMs then refute s else s
    | none => if age > expireUnmeasuredMs then { s with pending := [] } else s

structure Reading where
  s : Predictor Str
  cursorMoved : Bool
  /-- A `Map` from row to its payload. -/
  rows : Nat → Option RowPayload

def readOp (r : Reading) : DeltaOp → Reading
  | .cursor cursor => { r with s := { r.s with cursor }, cursorMoved := true }
  | .row row payload => { r with rows := fun at' => if at' = row then some payload else r.rows at' }
  | .altScreen active => { r with s := { r.s with altScreen := active, pending := [] } }
  | .scroll .. => { r with s := { r.s with pending := [] } }
  | .erase .. => { r with s := { r.s with pending := [] } }
  | _ => r

def read (s : Predictor Str) (delta : Delta) : Reading :=
  delta.ops.foldl readOp ⟨s, false, fun _ => none⟩

def verdict (r : Reading) (cursor : CursorState) (p : Prediction Str) : Option Bool :=
  match r.rows p.row with
  | some delivered => if passed cursor p then some (charAt delivered p.col == p.ch) else none
  | none => if passed cursor p && r.cursorMoved then some true else none

def reconcile (s : Predictor Str) (delta : Delta) (nowMs : Nat) : Predictor Str × List Bool :=
  let r := read s delta
  judge (verdict r r.s.cursor) (fun s p => confirm s (max 0 ((nowMs : Int) - p.madeAt))) refute
    (fun s => expire s nowMs) r.s.pending [] r.s

/-- The same keystroke, its character a string. -/
def keyOf : Key Char → Key Str
  | .printable ch => .printable [ch]
  | .backspace => .backspace
  | .other => .other

def step (s : Predictor Str) : Step → Predictor Str × List Bool
  | .input key nowMs => (onInput s (keyOf key) nowMs, [])
  | .keyframe cursor _ cols altScreen => (onKeyframe s cursor cols altScreen, [])
  | .delta delta nowMs => reconcile s delta nowMs
  | .tick nowMs => (expire s nowMs, [])

def after (s : Predictor Str) (steps : List Step) : Predictor Str :=
  steps.foldl (fun s st => (step s st).1) s

def showing (s : Predictor Str) : Bool :=
  if s.policy = .off then false
  else if s.quiet then false
  else if s.policy = .always then true
  else if s.latencyMs = none then s.remoteHint
  else s.showing

def overlay (s : Predictor Str) : List (Prediction Str) := if showing s then s.pending else []

end Web

end Predict

end Zesterm
