/-
Zesterm.Mesh.WebTurns — a web client turn by turn, `session-client.ts` and
`connection-client.ts` as the event loop runs them.

`WebClient` takes one frame at a time. Here a turn is what runs without a
break: a chunk of the stream is cut into frames and each of them is taken
up (`#onBytes`), and the continuation of a settled task goes on to drain
what was held behind it (`#drainStalled`). A frame that does not decode
throws out of either loop and leaves the rest where it is.

A reply says of every frame that was handed to `#onMessage` which dial it
was handed on, and whether an earlier frame of that dial was still being
handled.
-/
import Zesterm.Mesh.WebConnect

namespace Zesterm

/-! ## The two loops -/

/-- A call of `#onMessage`. -/
structure Handed where
  dial : Nat
  frame : List UInt8
  /-- The handling of an earlier frame of the dial is not over. -/
  busy : Bool
  deriving DecidableEq

/-- What the application makes of the frames of a turn, by their place among
those the turn hands out. -/
abbrev Responses := Nat → HostMessage → List Request

/-- What it makes of the frames after the first. -/
def Responses.next (respond : Responses) : Responses := fun k => respond (k + 1)

/-- What a turn puts out, and the frames it handed out. -/
structure TurnReply where
  outputs : List WebOutput
  handed : List Handed
  deriving DecidableEq

namespace TurnReply

/-- A turn that hands nothing out. -/
def quiet (outputs : List WebOutput) : TurnReply := ⟨outputs, []⟩

/-- One after the other. -/
def followedBy (r r' : TurnReply) : TurnReply := ⟨r.outputs ++ r'.outputs, r.handed ++ r'.handed⟩

end TurnReply

namespace WebClient

variable (w : Web)

/-- A task of this dial has not been resumed. -/
def busy (s : WebClient) : Bool := s.tasks.any fun t => t.seq == s.dialSeq

/-- `parseHostMessage(decode(body))` throws. -/
def throws (s : WebClient) (frame : List UInt8) : Bool :=
  match (s.openFrame w frame).2 with
  | none => false
  | some body =>
    match w.codec.decode body with
    | .error _ => true
    | .ok _ => false

/-- `#onMessage`, on record. -/
def hand (s : WebClient) (respond : Responses) (frame : List UInt8) : WebClient × TurnReply :=
  let (s', out) := s.onMessage w (respond 0) frame
  (s', ⟨out, [⟨s.dialSeq, frame, s.busy⟩]⟩)

/-- The loop of `#onBytes` over the frames the reader has, and those it is
left with when one of them throws. -/
def onBytes (s : WebClient) (respond : Responses) :
    List (List UInt8) → WebClient × List (List UInt8) × TurnReply
  | [] => (s, [], .quiet [])
  | body :: rest =>
    if s.signing then onBytes { s with stalled := s.stalled ++ [body] } respond rest
    else
      let (s', reply) := s.hand w respond body
      if s.throws w body then (s', rest, reply)
      else
        let (s'', unread, reply') := onBytes s' respond.next rest
        (s'', unread, reply.followedBy reply')

/-- The loop of `#drainStalled`, which goes round at most once for every
frame that is held when it starts. -/
def drainStalled (s : WebClient) (respond : Responses) : Nat → WebClient × TurnReply
  | 0 => (s, .quiet [])
  | n + 1 =>
    if s.signing then (s, .quiet [])
    else
      match s.stalled with
      | [] => (s, .quiet [])
      | body :: rest =>
        let held : WebClient := { s with stalled := rest }
        let (s', reply) := held.hand w respond body
        if held.throws w body then (s', reply)
        else
          let (s'', reply') := drainStalled s' respond.next n
          (s'', reply.followedBy reply')

/-- A continuation finds its connection gone. -/
def stale (s : WebClient) (seq : Nat) : Bool := seq != s.dialSeq || s.closed || !s.linked

/-- The continuation of a settled task, to its end. -/
def continuation (s : WebClient) (respond : Responses) (seq : Nat)
    (replies : List ClientMessage) : WebClient × TurnReply :=
  let (s', out) := s.resume w seq replies
  if s.stale seq then (s', .quiet out)
  else
    let (s'', reply) := s'.drainStalled w respond s'.stalled.length
    (s'', TurnReply.followedBy (.quiet out) reply)

end WebClient

/-! ## The client and what its dials leave behind -/

/-- A client, what the frame reader of its dial has not given out yet, and
the drivers of the dials before it, which their promises still hold. -/
structure WebTab where
  client : WebClient
  unread : List (List UInt8)
  past : List HandshakeDriver

/-- What the event loop runs. -/
inductive Turn where
  /-- The transport opened. -/
  | opened
  /-- A chunk arrived, which completes these frames. -/
  | chunk (respond : Responses) (bodies : List (List UInt8))
  /-- The stream cannot be cut into frames any more. -/
  | garbled (message : Str)
  /-- The promise of a challenge settled. -/
  | signed (i : Nat) (signed : Except Str Signature)
  /-- A settled task's continuation runs. -/
  | resumed (i : Nat) (respond : Responses)
  /-- The transport is gone. -/
  | dropped
  /-- The redial timer fired. -/
  | redial (nonce : Nonce) (ephemeral : EphemeralDh)
  /-- The caller asks for something. -/
  | request (r : Request)
  | resize (cols rows : Nat)
  | close

namespace WebTab

variable (w : Web)

/-- A tab that has just been told to connect. -/
def connect (kind : Kind) (signerId : ClientId) (label : Str) (expectedHost : Option HostId)
    (closesInline : Bool) (cols rows : Nat) (nonce : Nonce) (ephemeral : EphemeralDh) : WebTab :=
  { client := .connect kind signerId label expectedHost closesInline cols rows nonce ephemeral,
    unread := [], past := [] }

/-- The driver of a dial. -/
def driver (t : WebTab) (seq : Nat) : Option HandshakeDriver :=
  if seq = t.client.dialSeq then some t.client.handshake else t.past[seq - 1]?

/-- The same after a promise of that dial moved it. -/
def setDriver (t : WebTab) (seq : Nat) (d : HandshakeDriver) : WebTab :=
  if seq = t.client.dialSeq then { t with client := { t.client with handshake := d } }
  else { t with past := t.past.set (seq - 1) d }

/-- A turn that is one event of the client. -/
def lift (t : WebTab) (event : WebClient.Event) : WebTab × TurnReply :=
  let (client, out) := t.client.step w event
  ({ t with client := client }, .quiet out)

/-- One turn. -/
def step (t : WebTab) : Turn → WebTab × TurnReply
  | .opened => t.lift w .opened
  | .chunk respond bodies =>
    if t.client.up then
      let (client, unread, reply) := t.client.onBytes w respond (t.unread ++ bodies)
      ({ t with client := client, unread := unread }, reply)
    else (t, .quiet [])
  | .garbled message => t.lift w (.garbled message)
  | .signed i signed =>
    match t.client.tasks[i]? with
    | some ⟨seq, .answering ch⟩ =>
      match t.driver seq with
      | none => (t, .quiet [])
      | some driver =>
        let (driver, replies) := driver.answer w ch signed
        let t := t.setDriver seq driver
        let tasks := t.client.tasks.set i ⟨seq, .settled replies⟩
        ({ t with client := { t.client with tasks := tasks } }, .quiet [])
    | _ => (t, .quiet [])
  | .resumed i respond =>
    match t.client.tasks[i]? with
    | some ⟨seq, .settled replies⟩ =>
      let client : WebClient := { t.client with tasks := t.client.tasks.eraseIdx i }
      let (client, reply) := client.continuation w respond seq replies
      ({ t with client := client }, reply)
    | _ => (t, .quiet [])
  | .dropped => t.lift w .dropped
  | .redial nonce ephemeral =>
    if t.client.redialTimer && !t.client.closed then
      let old := t.client.handshake
      let (t, reply) := t.lift w (.redial nonce ephemeral)
      ({ t with unread := [], past := t.past ++ [old] }, reply)
    else t.lift w (.redial nonce ephemeral)
  | .request r => t.lift w (.request r)
  | .resize cols rows => t.lift w (.resize cols rows)
  | .close => t.lift w .close

end WebTab

end Zesterm
