/-
Zesterm.Daemon.WebSocket — serving browsers: the frame codec of
`zest-daemon`'s `ws.rs`.

A connection is a stream of bytes in and a stream of bytes out. `stream`
lists what the reads of the socket will return, an empty read being the end
of it, and `written` is what has gone out under the write lock. Writes
succeed, and so does the draw of a mask: `nonce n` is the `n`-th one drawn.

Each loop of the source that waits for bytes carries a bound on its passes,
the bytes still ahead, which it never runs into: every pass takes bytes off
the stream or ends the loop.
-/
import Zesterm.Core.Text
import Zesterm.Lib.Delimited

namespace Zesterm.Ws

open Coding (bigEndian)

/-! ## Frames -/

def opContinuation : UInt8 := 0x0
def opText : UInt8 := 0x1
def opBinary : UInt8 := 0x2
def opClose : UInt8 := 0x8
def opPing : UInt8 := 0x9
def opPong : UInt8 := 0xA

/-- `FIN`. -/
def finBit : UInt8 := 0x80

/-- `RSV`. -/
def rsvBits : UInt8 := 0x70

/-- `MASKED`. -/
def maskedBit : UInt8 := 0x80

/-- `MAX_CONTROL_PAYLOAD`. -/
def maxControlPayload : Nat := 125

/-- `MAX_CONTROL_MESSAGE`. -/
def maxControlMessage : Nat := 64 * 1024

/-- Which end of the connection a codec is. -/
inductive Role where
  | server
  | client
  deriving DecidableEq

/-- `io::Error`, as far as the codec makes one. -/
inductive IoError where
  | invalidData (what : Str)
  | unexpectedEof (what : Str)
  deriving DecidableEq

def protocolError (what : String) : IoError := .invalidData ("websocket: ".toList ++ what.toList)

/-- A masking key. -/
abbrev Key := Vector UInt8 4

/-- Bytes against the mask, from an offset into it on. Masking and unmasking
are the same. -/
def xorMask (key : Key) (offset : Nat) (bytes : List UInt8) : List UInt8 :=
  (bytes.zipIdx offset).map fun p => p.1 ^^^ key[p.2 % 4]

/-- The bytes of one whole frame. -/
def writeFrame (opcode : UInt8) (payload : List UInt8) (mask : Option Key) : List UInt8 :=
  let maskBit := if mask.isSome then maskedBit else 0
  let len := payload.length
  let header :=
    if len < 126 then [finBit ||| opcode, maskBit ||| UInt8.ofNat len]
    else if len < 2 ^ 16 then [finBit ||| opcode, maskBit ||| 126] ++ bigEndian 2 len
    else [finBit ||| opcode, maskBit ||| 127] ++ bigEndian 8 len
  match mask with
  | some key => header ++ key.toList ++ xorMask key 0 payload
  | none => header ++ payload

/-- `from_be_bytes`. -/
def fromBigEndian (bytes : List UInt8) : Nat := bytes.foldl (fun n b => n * 256 + b.toNat) 0

/-- One data frame's header, once the control frames ahead of it are
answered. -/
structure DataFrame where
  opcode : UInt8
  fin : Bool
  len : Nat
  deriving DecidableEq

/-- A header as it is read. -/
structure Header where
  opcode : UInt8
  fin : Bool
  len : Nat
  key : Key
  size : Nat
  deriving DecidableEq

/-- How long a header is, by its second byte. -/
def headerLen (b1 : UInt8) : Nat :=
  let len7 := b1 &&& 0x7f
  2 + (if len7 = 126 then 2 else if len7 = 127 then 8 else 0) + if b1 &&& maskedBit ≠ 0 then 4 else 0

/-- Read a header off bytes that hold all of it. -/
def parseHeader (role : Role) (bytes : List UInt8) : Except IoError Header :=
  let b0 := bytes.getD 0 0
  let b1 := bytes.getD 1 0
  let len7 := b1 &&& 0x7f
  let masked := decide (b1 &&& maskedBit ≠ 0)
  let size := headerLen b1
  if b0 &&& rsvBits ≠ 0 then
    .error (protocolError "reserved bits set, but no extension was negotiated")
  else if role = .server ∧ masked = false then
    .error (protocolError "a client frame arrived unmasked")
  else if role = .client ∧ masked = true then
    .error (protocolError "the server masked a frame")
  else
    .ok
      { opcode := b0 &&& 0x0f
        fin := decide (b0 &&& finBit ≠ 0)
        len :=
          if len7 = 126 then fromBigEndian ((bytes.drop 2).take 2)
          else if len7 = 127 then fromBigEndian ((bytes.drop 2).take 8)
          else len7.toNat
        key :=
          if masked then
            #v[bytes.getD (size - 4) 0, bytes.getD (size - 3) 0, bytes.getD (size - 2) 0,
              bytes.getD (size - 1) 0]
          else #v[0, 0, 0, 0]
        size }

/-! ## The frame layer -/

/-- The frame layer both readers stand on. -/
structure FrameSource where
  role : Role
  /-- What the reads of the socket will return. -/
  stream : List (List UInt8)
  /-- What has been written as replies. -/
  written : List UInt8 := []
  /-- How many masks have been drawn. -/
  drawn : Nat := 0
  /-- Raw socket bytes, seeded with what arrived behind the upgrade. -/
  buf : List UInt8
  pos : Nat := 0
  /-- Payload bytes still owed by the current data frame. -/
  remaining : Nat := 0
  mask : Key := #v[0, 0, 0, 0]
  /-- Offset into the mask, mod 4. -/
  maskAt : Nat := 0
  /-- A message began and its last frame has not. -/
  inMessage : Bool := false
  closed : Bool := false

/-- A computation that may fail, on a state it leaves behind either way. -/
abbrev Io (σ α : Type) := EStateM IoError σ α

namespace FrameSource

/-- `FrameSource::new`, over a socket that has written nothing yet. -/
def new (stream : List (List UInt8)) (role : Role) (leftover : List UInt8) : FrameSource :=
  { role, stream, buf := leftover }

/-- The unread part of the buffer. -/
def front (s : FrameSource) : List UInt8 := s.buf.drop s.pos

/-- Every byte that is still to be read. -/
def ahead (s : FrameSource) : List UInt8 := s.front ++ s.stream.flatten

def eof : IoError := .unexpectedEof "websocket: the peer went away mid-frame".toList

def refill : Io FrameSource Unit := do
  let s ← get
  let s := if 0 < s.pos then { s with buf := s.buf.drop s.pos, pos := 0 } else s
  match s.stream with
  | [] => set s; throw eof
  | [] :: stream => set { s with stream }; throw eof
  | chunk :: stream => set { s with buf := s.buf ++ chunk, stream }

def available (s : FrameSource) : Nat := s.buf.length - s.pos

def needWithin (n : Nat) : Nat → Io FrameSource Unit
  | 0 => pure ()
  | passes + 1 => do
    let s ← get
    if s.available < n then
      refill
      needWithin n passes
    else pure ()

/-- Wait until that many bytes are buffered. -/
def need (n : Nat) : Io FrameSource Unit := do
  let s ← get
  needWithin n (s.stream.length + 1)

variable (nonce : Nat → Key)

/-- The mask for a frame this side sends. -/
def sendMask : Io FrameSource (Option Key) := do
  let s ← get
  match s.role with
  | .server => pure none
  | .client =>
    set { s with drawn := s.drawn + 1 }
    pure (some (nonce s.drawn))

/-- Write one control frame under the write lock. -/
def reply (opcode : UInt8) (payload : List UInt8) : Io FrameSource Unit := do
  let mask ← sendMask nonce
  modify fun s => { s with written := s.written ++ writeFrame opcode payload mask }

/-- What a turn of the loop of `nextDataFrame` comes to. -/
inductive Turn where
  | again
  | closed
  | data (frame : DataFrame)
  deriving DecidableEq

/-- A data frame begins. -/
def beginFrame (h : Header) (inMessage : Bool) : Io FrameSource Turn := do
  modify fun s => { s with inMessage, remaining := h.len, mask := h.key, maskAt := 0 }
  pure (.data { opcode := h.opcode, fin := h.fin, len := h.len })

/-- A control frame is read whole and answered. -/
def control (h : Header) : Io FrameSource Turn :=
  if h.fin = false then throw (protocolError "a fragmented control frame")
  else if h.len > maxControlPayload then throw (protocolError "an oversized control frame")
  else do
    need h.len
    let s ← get
    let payload := xorMask h.key 0 (s.front.take h.len)
    set { s with pos := s.pos + h.len }
    if h.opcode = opPing then
      reply nonce opPong payload
      pure .again
    else if h.opcode = opPong then pure .again
    else
      reply nonce opClose payload
      modify fun s => { s with closed := true }
      pure .closed

/-- What follows a header. -/
def dispatch (h : Header) : Io FrameSource Turn := do
  let s ← get
  if h.opcode = opBinary ∨ h.opcode = opText then
    if s.inMessage then throw (protocolError "a new message began inside a fragmented one")
    else beginFrame h (!h.fin)
  else if h.opcode = opContinuation then
    if s.inMessage = false then
      throw (protocolError "a continuation frame with nothing to continue")
    else beginFrame h (!h.fin)
  else if h.opcode = opClose ∨ h.opcode = opPing ∨ h.opcode = opPong then control nonce h
  else
    throw (.invalidData ("websocket: unknown opcode 0x".toList ++ Nat.toDigits 16 h.opcode.toNat))

/-- One turn of the loop: a frame's header and, of a control frame, all of
it. -/
def turn : Io FrameSource Turn := do
  let s ← get
  if s.closed then pure .closed
  else
    need 2
    let s ← get
    need (headerLen (s.front.getD 1 0))
    let s ← get
    match parseHeader s.role s.front with
    | .error e => throw e
    | .ok h =>
      set { s with pos := s.pos + h.size }
      dispatch nonce h

def nextWithin : Nat → Io FrameSource (Option DataFrame)
  | 0 => pure none
  | passes + 1 => do
    match ← turn nonce with
    | .again => nextWithin passes
    | .closed => pure none
    | .data frame => pure (some frame)

/-- Parse frames until a data frame's payload begins, answering control
frames inline. `none` once the peer has closed. -/
def nextDataFrame : Io FrameSource (Option DataFrame) := do
  let s ← get
  nextWithin nonce (s.ahead.length + 1)

/-- Copy out some of the current data frame's payload, at most `size`
bytes. -/
def readPayload (size : Nat) : Io FrameSource (List UInt8) := do
  let s ← get
  if s.remaining = 0 ∨ size = 0 then pure []
  else
    if s.available = 0 then refill
    let s ← get
    let n := min (min s.remaining s.available) size
    set { s with pos := s.pos + n, maskAt := (s.maskAt + n) % 4, remaining := s.remaining - n }
    pure (xorMask s.mask s.maskAt (s.front.take n))

end FrameSource

/-! ## The byte reader -/

/-- The read half: frames in, a plain byte stream out. -/
structure WsReader where
  src : FrameSource

namespace WsReader

variable (nonce : Nat → Key)

def readWithin (size : Nat) : Nat → Io FrameSource (List UInt8)
  | 0 => pure []
  | passes + 1 => do
    let s ← get
    if s.remaining = 0 then
      match ← FrameSource.nextDataFrame nonce with
      | none => pure []
      | some frame =>
        if frame.opcode = opText then throw (protocolError "a text frame on a binary protocol")
        else readWithin size passes
    else FrameSource.readPayload size

/-- `Read::read`, into a buffer of `size` bytes: the bytes put there. -/
def read (r : WsReader) (size : Nat) : WsReader × Except IoError (List UInt8) :=
  if size = 0 then (r, .ok [])
  else
    match (readWithin nonce size (r.src.ahead.length + 1)).run r.src with
    | .ok bytes src => ({ src }, .ok bytes)
    | .error e src => ({ src }, .error e)

end WsReader

/-! ## The message reader -/

/-- One whole message. -/
inductive WsMessage where
  | text (s : Str)
  | binary (bytes : List UInt8)
  deriving DecidableEq

/-- The read half for a link that speaks messages. -/
structure WsMessageReader where
  src : FrameSource
  /-- The opcode the message under construction began with. -/
  kind : UInt8 := opBinary
  /-- What of it has arrived. -/
  held : List UInt8 := []

namespace WsMessageReader

variable (nonce : Nat → Key)

/-- A call into the frame layer. -/
def onSource {α : Type} (x : Io FrameSource α) : Io WsMessageReader α := fun r =>
  match x.run r.src with
  | .ok a src => .ok a { r with src }
  | .error e src => .error e { r with src }

/-- `while remaining > 0`: the rest of the frame's payload. -/
def drain : Nat → Io WsMessageReader Unit
  | 0 => pure ()
  | passes + 1 => do
    let r ← get
    if r.src.remaining = 0 then pure ()
    else
      let chunk ← onSource (FrameSource.readPayload 4096)
      modify fun r => { r with held := r.held ++ chunk }
      drain passes

/-- Whether a frame still fits, and what it begins. -/
def admitFrame (frame : DataFrame) : Io WsMessageReader Unit := do
  let r ← get
  if frame.opcode = opContinuation then
    if frame.len > maxControlMessage - r.held.length then
      throw (protocolError "an oversized message")
    else pure ()
  else if frame.len > maxControlMessage then throw (protocolError "an oversized message")
  else set { r with kind := frame.opcode, held := [] }

/-- The message that has arrived whole. -/
def complete : Io WsMessageReader WsMessage := do
  let r ← get
  set { r with held := [] }
  if r.kind = opText then
    match String.fromUTF8? ⟨r.held.toArray⟩ with
    | some s => pure (.text s.toList)
    | none => throw (protocolError "a text message that was not UTF-8")
  else pure (.binary r.held)

def nextWithin : Nat → Io WsMessageReader (Option WsMessage)
  | 0 => pure none
  | passes + 1 => do
    match ← onSource (FrameSource.nextDataFrame nonce) with
    | none => pure none
    | some frame =>
      admitFrame frame
      let r ← get
      drain r.src.remaining
      if frame.fin = false then nextWithin passes
      else some <$> complete

/-- The next whole message. `none` once the peer has closed. -/
def next (r : WsMessageReader) : WsMessageReader × Except IoError (Option WsMessage) :=
  match (nextWithin nonce (r.src.ahead.length + 1)).run r with
  | .ok m r => (r, .ok m)
  | .error e r => (r, .error e)

end WsMessageReader

end Zesterm.Ws
