/-
Zesterm.Daemon.Relay — the daemon's outbound leg: `zest-daemon`'s `relay.rs`.

`Relay::park` reads the messages of one control link until the link ends. A
turn of its loop is a `turn`, from what the reader gave and how the calls it
made came out: whether a text could be sent, whether the gate had a slot.
A pipe runs on its own thread; what `park` starts is the dial and the line
it puts the pipe's id on.

Slicing a string inside a character panics, so a slice is an `Option`. A
field of a log line is made only when the line is logged.

`serde_json` is left open: `Json` is what the source calls of it.
-/
import Zesterm.Mesh.Identity

namespace Zesterm.RelayLeg

/-! ## Text -/

/-- `&s[..n]`, or the panic. -/
def sliceTo : Nat → Str → Option Str
  | 0, _ => some []
  | _ + 1, [] => none
  | n + 1, c :: cs =>
    if c.utf8Size ≤ n + 1 then (sliceTo (n + 1 - c.utf8Size) cs).map (c :: ·) else none

/-- `char::len_utf16`. -/
def lenUtf16 (c : Char) : Nat := if c.toNat < 0x10000 then 1 else 2

/-- Truncate to `limit` UTF-16 code units, on a character boundary. -/
def truncateChars (s : Str) (limit : Nat) : Str := go 0 s
where
  go (units : Nat) : Str → Str
    | [] => []
    | c :: cs => if limit < units + lenUtf16 c then [] else c :: go (units + lenUtf16 c) cs

/-- Enough of an id to correlate two log lines, and never the whole of one. -/
def short (id : Str) : Str := id.take 8

def unhex (text : Str) : Option (List UInt8) :=
  if utf8Len text % 2 ≠ 0 then none else pairs (toUtf8 text)
where
  pairs : List UInt8 → Option (List UInt8)
    | a :: b :: rest => do
      let s ← fromUtf8 [a, b]
      let byte ←
        if s.any fun c => 'A' ≤ c ∧ c ≤ 'Z' then none else parseRadix 16 255 s
      let bytes ← pairs rest
      some (UInt8.ofNat byte :: bytes)
    | _ => some []

/-! ## The wire shapes -/

def controlPath : Str := "/v1/control".toList

def pipePath : Str := "/v1/pipe".toList

def controlVersion : UInt16 := 1

def maxLabelChars : Nat := 128

def pipeIdChars : Nat := 32

def keepaliveResponse : Str := "pong".toList

/-- What the daemon sends. -/
structure Hello where
  t : Str := "hello".toList
  v : UInt16
  host : Str
  label : Str
  sig : Str
  deriving DecidableEq

/-- What the relay sends. -/
inductive Down where
  | challenge (v : UInt16) (nonce relayKey : Str)
  | ready (v : UInt16)
  | open (v : UInt16) (pipe : Str) (exp : Option UInt64)
  | error (code : Str)
  | unknown
  deriving DecidableEq

/-- The calls into `serde_json`; the error is its text. -/
structure Json where
  read : Str → Except Str Down
  write : Hello → Str

inductive ErrorKind where
  | invalidData
  | permissionDenied
  | unsupported
  | other
  deriving DecidableEq

structure IoError where
  kind : ErrorKind
  message : Str
  deriving DecidableEq

def invalidData (message : Str) : IoError := ⟨.invalidData, message⟩

inductive Level where
  | off
  | error
  | warn
  | info
  | debug
  | trace
  deriving DecidableEq

/-- Whether a `debug!` line is logged. -/
def Level.debugs : Level → Bool
  | .debug | .trace => true
  | _ => false

/-! ## The leg -/

structure Origin where
  host : Str
  port : UInt16
  tls : Bool
  deriving DecidableEq

def Origin.hostHeader (o : Origin) : Str :=
  if o.port = (if o.tls then 443 else 80) then o.host
  else o.host ++ ':' :: showNat o.port.toNat

def Origin.show (o : Origin) : Str :=
  (if o.tls then "wss" else "ws").toList ++ "://".toList ++ o.hostHeader

structure Relay where
  origin : Origin
  identity : HostIdentity
  label : Str

def parseNonce (text : Str) : Except IoError Nonce :=
  match unhex text with
  | none => .error (invalidData "the nonce is not hex".toList)
  | some bytes =>
    if h : bytes.length = 32 then .ok ⟨⟨bytes.toArray, h⟩⟩
    else
      .error (invalidData ("a challenge nonce is 32 bytes; this one is ".toList ++
        showNat bytes.length))

def signChallenge (ed : Ed25519) (identity : HostIdentity) (nonce : Nonce) : Str :=
  hexEncode (identity.sign ed .auth nonce.bytes.toList).bytes.toList

/-- The `hello` for a nonce. -/
def hello (ed : Ed25519) (identity : HostIdentity) (label : Str) (nonce : Nonce) : Hello :=
  { v := controlVersion
    host := hexEncode identity.id.bytes.toList
    label := truncateChars label maxLabelChars
    sig := signChallenge ed identity nonce }

/-- The `hello` for a challenge, or why the challenge could not be
answered. -/
def helloFor (ed : Ed25519) (json : Json) (identity : HostIdentity) (label nonceHex : Str) :
    Except IoError Str := do
  let nonce ← parseNonce nonceHex
  pure (json.write (hello ed identity label nonce))

/-- Is this an id this relay could have issued? -/
def pipeIdIsWellFormed (id : Str) : Bool :=
  utf8Len id = pipeIdChars &&
    (toUtf8 id).all fun b => (48 ≤ b.toNat && b.toNat ≤ 57) || (97 ≤ b.toNat && b.toNat ≤ 102)

def refusalMessage (code : Str) (host : List UInt8) : Str :=
  if code = "unknown-host".toList then
    "the relay refused this host: unknown-host. ".toList ++
      "This machine is not enrolled in the account the relay serves. Its id is ".toList ++
      hexEncode host ++
      "; enrol it with --enroll <code>, using a code from the account's devices screen.".toList
  else "the relay refused this host: ".toList ++ code

def checkVersion (v : UInt16) : Except IoError Unit :=
  if v = controlVersion then .ok ()
  else
    .error ⟨.unsupported, "the relay speaks control protocol ".toList ++ showNat v.toNat ++
      ", this build speaks ".toList ++ showNat controlVersion.toNat⟩

/-- What a pipe's thread is to dial, and the line it puts the pipe on. -/
structure PipeLeg where
  host : Str
  port : UInt16
  header : Str
  path : Str
  remote : Str
  deriving DecidableEq

def servePipe (origin : Origin) (host pipe : Str) : PipeLeg :=
  { host := origin.host
    port := origin.port
    header := origin.hostHeader
    path := pipePath ++ "?host=".toList ++ host ++ "&pipe=".toList ++ pipe
    remote := "relay ".toList ++ origin.show ++ " pipe ".toList ++ short pipe }

/-- Dial back for one pipe; `slot` is whether the gate had one. -/
def spawnPipe (r : Relay) (slot : Bool) (pipe : Str) : List PipeLeg :=
  if ¬ pipeIdIsWellFormed pipe then []
  else if ¬ slot then []
  else [servePipe r.origin (hexEncode r.identity.id.bytes.toList) pipe]

/-- How `park` ends. -/
inductive Ending where
  | returned (why : Except IoError Unit)
  | panicked
  deriving DecidableEq

/-- A parked control link, while `park` reads it. -/
structure Link where
  /-- `ready` takes it for the keepalive. -/
  writer : Bool := true
  parked : Bool := false
  keepalive : Bool := false
  sent : List Str := []
  pipes : List PipeLeg := []
  ended : Option Ending := none
  deriving DecidableEq

/-- What the reader gives. -/
inductive Incoming where
  | text (text : Str)
  | binary
  | closed
  | failed (e : IoError)
  deriving DecidableEq

/-- A turn of the loop: what comes in, and how the calls come out. -/
structure Turn where
  incoming : Incoming
  /-- Why the writer failed, if it did. -/
  unsent : Option IoError := none
  slot : Bool := true
  deriving DecidableEq

def Link.stop (l : Link) (why : Except IoError Unit) : Link :=
  { l with ended := some (.returned why) }

section Park

variable (ed : Ed25519) (json : Json) (r : Relay) (level : Level)

/-- One control message. -/
def Link.handle (l : Link) (t : Turn) : Down → Link
  | .challenge v nonce _ =>
    match checkVersion v with
    | .error e => l.stop (.error e)
    | .ok () =>
      match helloFor ed json r.identity r.label nonce with
      | .error e => l.stop (.error e)
      | .ok text =>
        if ¬ l.writer then
          l.stop (.error (invalidData
            "the relay challenged a link it had already made ready".toList))
        else
          let l := { l with sent := l.sent ++ [text] }
          match t.unsent with
          | some e => l.stop (.error e)
          | none => l
  | .ready v =>
    match checkVersion v with
    | .error e => l.stop (.error e)
    | .ok () => { l with parked := true, writer := false, keepalive := l.keepalive || l.writer }
  | .open v pipe _ =>
    match checkVersion v with
    | .error e => l.stop (.error e)
    | .ok () =>
      -- The line's fields: the first eight bytes of the id.
      if level.debugs ∧ sliceTo (min (utf8Len pipe) 8) pipe = none then
        { l with ended := some .panicked }
      else if ¬ l.parked then
        l.stop (.error (invalidData
          "the relay asked for a pipe before the link was parked".toList))
      else { l with pipes := l.pipes ++ spawnPipe r t.slot pipe }
  | .error code =>
    l.stop (.error ⟨.permissionDenied, refusalMessage code r.identity.id.bytes.toList⟩)
  | .unknown => l

/-- One turn of `park`. -/
def Link.turn (l : Link) (t : Turn) : Link :=
  match l.ended with
  | some _ => l
  | none =>
    match t.incoming with
    | .failed e => l.stop (.error e)
    | .closed => l.stop (.ok ())
    | .binary =>
      l.stop (.error (invalidData "the relay sent a binary frame on the control link".toList))
    | .text text =>
      if text = keepaliveResponse then l
      else
        match json.read text with
        | .error e =>
          l.stop (.error (invalidData
            ("the relay sent something this build cannot read: ".toList ++ e)))
        | .ok message => l.handle ed json r level t message

/-- A turn as a call of a machine that answers nothing. -/
def Link.step (l : Link) (t : Turn) : Link × Unit := (l.turn ed json r level t, ())

end Park

end Zesterm.RelayLeg
