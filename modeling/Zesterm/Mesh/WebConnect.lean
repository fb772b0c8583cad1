/-
Zesterm.Mesh.WebConnect — dialling a daemon from the web: the handshake
driver and the two clients around it, `handshake.ts`, `session-client.ts`
and `connection-client.ts`, over `@zesterm/auth`.

A device key signs asynchronously, so a client has promises in flight while
frames keep arriving. Each is a `Task`: the challenge that is being
answered, or the replies of one that has settled, waiting for its
continuation to run. Any task may settle, any settled one may resume and
any stalled frame may be drained at any time; that is more than the event
loop allows, and leaves its order out of the model.

The two clients share everything up to the welcome and differ in `Kind`:
what they greet a host with, and what they say of it. What a connected
client makes of its messages is its own affair, so an event says what it
sends (`respond`).
-/
import Zesterm.Mesh.Connect

namespace Zesterm

open Coding

/-! ## `@zesterm/auth` -/

/-- What the web client calls: the ciphers, the signature check of
`@noble/ed25519` on a key, a message and a signature, and the codec. -/
structure Web where
  suite : Suite
  verify : Vector UInt8 32 → List UInt8 → Vector UInt8 64 → Bool
  codec : Codec

/-- What a failing call throws. -/
inductive WebError where
  /-- `ChallengeError`. -/
  | challenge (message : Str)
  /-- Anything else, as `String(e)`. -/
  | other (text : Str)
  deriving DecidableEq

namespace Web

/-- A label with its length before it, refused where that does not fit. -/
def lenPrefixed (label : Str) : Except WebError (List UInt8) :=
  let bytes := toUtf8 label
  if bytes.length > 65535 then
    .error (.other ("Error: label is ".toList ++ showNat bytes.length ++
      " bytes, which will not fit in a transcript".toList))
  else .ok (bigEndian 2 bytes.length ++ bytes)

/-- The exact bytes both sides sign. -/
def authTranscript (t : Transcript) : Except WebError (List UInt8) := do
  let fixed := authDomain ++ bigEndian 2 t.version.toNat ++ t.host.bytes.toList ++
    t.client.bytes.toList ++ t.hostNonce.bytes.toList ++ t.clientNonce.bytes.toList ++
    t.hostDh.toList ++ t.clientDh.toList
  let hostLabel ← lenPrefixed t.hostLabel
  let clientLabel ← lenPrefixed t.clientLabel
  return fixed ++ hostLabel ++ clientLabel

/-- What `answerChallenge` refuses before it signs. -/
def checkChallenge (w : Web) (signerId : ClientId) (expectedHost : Option HostId) (t : Transcript)
    (hostSignature : Signature) : Except WebError (List UInt8) := do
  match expectedHost with
  | some expected =>
    if expected ≠ t.host then
      throw (.challenge ("dialled host ".toList ++ expected.short ++ "… but ".toList ++
        t.host.short ++ "… answered".toList))
  | none => pure ()
  if t.hostNonce.bytes = Vector.replicate 32 0 then
    throw (.challenge "the host sent no nonce; a signature over a constant is a replay".toList)
  if t.client ≠ signerId then
    throw (.challenge "the transcript names a different client than the one signing".toList)
  let bytes ← authTranscript t
  if w.verify t.host.bytes (preimage .host .auth bytes) hostSignature.bytes = false then
    throw (.challenge "the host did not prove its identity".toList)
  return bytes

/-- One direction of the port of `secure.rs`, which counts epochs without
bound. -/
def advance (c : Suite) (d : Direction) : Direction :=
  if d.counter + 1 < rekeyAfter then { d with counter := d.counter + 1 }
  else
    { key := c.hkdfFromPrk d.key (ascii "zesterm-rekey-v1"), counter := 0, epoch := d.epoch + 1 }

/-- `channel.seal`; `none` is a throw. -/
def sealWith (c : Suite) (s : SecureChannel) (plaintext : List UInt8) :
    SecureChannel × Option (List UInt8) :=
  match c.encrypt s.send.key s.send.nonce [] plaintext with
  | none => (s, none)
  | some out => ({ s with send := advance c s.send }, some out)

/-- `channel.open`; `none` is a throw, which leaves the counter alone. -/
def openWith (c : Suite) (s : SecureChannel) (ciphertext : List UInt8) :
    SecureChannel × Option (List UInt8) :=
  match c.decrypt s.recv.key s.recv.nonce [] ciphertext with
  | none => (s, none)
  | some out => ({ s with recv := advance c s.recv }, some out)

/-- `ephemeral.agree`, which the type system cannot stop being called
twice. -/
def agree (c : Suite) (dh : EphemeralDh) (theirs : DhPublic) (message : List UInt8) :
    Except WebError SecureChannel :=
  match dh.agree c theirs (c.sha256 message).toList .client with
  | .ok channel => .ok channel
  | .error (.badSignature text) => .error (.other ("Error: ".toList ++ text))
  | .error e => .error (.other ("Error: ".toList ++ e.display))

end Web

/-! ## The driver -/

inductive HandshakeState where
  | connecting
  | awaitingApproval (code : Str) (expiresInSecs : Nat)
  | welcomed (host : HostId) (hostLabel : Str)
  | failed (reason message : Str) (retryable : Bool)
  deriving DecidableEq

/-- `HandshakeDriver`, one per dial. -/
structure HandshakeDriver where
  signerId : ClientId
  label : Str
  watchSessions : Bool
  watchHosts : Bool
  expectedHost : Option HostId
  nonce : Nonce
  ephemeral : EphemeralDh
  channel : Option SecureChannel
  state : HandshakeState

/-- The wire's name of a failure. -/
def AuthFailure.wire : AuthFailure → Str
  | .signature => "signature".toList
  | .unknownClient => "unknown_client".toList
  | .denied => "denied".toList
  | .timedOut => "timed_out".toList
  | .revoked => "revoked".toList
  | .rateLimited => "rate_limited".toList
  | .version => "version".toList

namespace HandshakeDriver

variable (w : Web)

/-- The first message on the wire. -/
def hello (d : HandshakeDriver) : ClientMessage :=
  .hello protocolVersion d.signerId d.label d.nonce (d.ephemeral.public w.suite)
    d.watchSessions false d.watchHosts true false

/-- The transcript a challenge completes. -/
def transcript (d : HandshakeDriver) (ch : Challenge) : Transcript :=
  { version := ch.version
    host := ch.host
    client := d.signerId
    hostNonce := ch.nonce
    clientNonce := d.nonce
    hostLabel := ch.label
    clientLabel := d.label
    hostDh := ch.dh.bytes
    clientDh := (d.ephemeral.public w.suite).bytes }

/-- Where `onMessage` leaves a challenge once its promise settles; `signed`
is what became of `signer.sign`, if it was called. -/
def answer (d : HandshakeDriver) (ch : Challenge) (signed : Except Str Signature) :
    HandshakeDriver × List ClientMessage :=
  let result : Except WebError (Signature × SecureChannel) := do
    let bytes ← w.checkChallenge d.signerId d.expectedHost (d.transcript w ch) ch.signature
    let signature ← signed.mapError .other
    let channel ← Web.agree w.suite d.ephemeral ch.dh bytes
    return (signature, channel)
  match result with
  | .ok (signature, channel) => ({ d with channel := some channel }, [.auth signature])
  | .error (.challenge message) =>
    ({ d with state := .failed "host-unproven".toList message false }, [])
  | .error (.other text) =>
    let message := "this device could not sign: ".toList ++ text
    ({ d with state := .failed "signer-failed".toList message false }, [])

/-- What `onMessage` does with any other message, before it returns. -/
def onMessage (d : HandshakeDriver) : HostMessage → HandshakeDriver
  | .authPending code expiresInSecs => { d with state := .awaitingApproval code expiresInSecs }
  | .welcome _ host label => { d with state := .welcomed host label }
  | .authFailed reason message =>
    let retryable := !(["denied".toList, "version".toList].contains reason.wire)
    { d with state := .failed reason.wire message retryable }
  | _ => d

end HandshakeDriver

/-! ## The clients -/

/-- A call of `onMessage` that has not been resumed yet. -/
inductive Stage where
  | answering (ch : Challenge)
  | settled (replies : List ClientMessage)
  deriving DecidableEq

structure Task where
  seq : Nat
  stage : Stage
  deriving DecidableEq

/-- Which client it is. -/
inductive Kind where
  | session (addr : SessionAddr)
  | connection
  deriving DecidableEq

inductive ConnectionState where
  | connecting
  | awaitingApproval (code : Str)
  | connected
  | reconnecting (attempt : Nat)
  | failed (reason message : Str)
  deriving DecidableEq

/-- `SessionClient` or `ConnectionClient`. -/
structure WebClient where
  kind : Kind
  signerId : ClientId
  label : Str
  expectedHost : Option HostId
  /-- Whether the transport reports its close before `close` returns. -/
  closesInline : Bool
  /-- Whether the transport of this dial has yet to report its close. -/
  up : Bool
  /-- `#link !== null`. -/
  linked : Bool
  handshake : HandshakeDriver
  connected : Bool
  closed : Bool
  signing : Bool
  stalled : List (List UInt8)
  dialSeq : Nat
  tasks : List Task
  redialAttempt : Nat
  redialTimer : Bool
  cols : Nat
  rows : Nat

/-- What a client does that can be seen from outside. -/
inductive WebOutput where
  | sent (s : Sent)
  | connection (state : ConnectionState)
  | welcome (host : HostId) (label : Str)
  | error (message : Str)
  deriving DecidableEq

namespace WebClient

variable (w : Web)

/-- `#send`. With no link nothing is sealed either. -/
def send (s : WebClient) (msg : ClientMessage) : WebClient × List WebOutput :=
  match w.codec.encodeBody msg with
  | .error _ => (s, [])
  | .ok body =>
    if s.linked then
      match s.handshake.channel with
      | none => (s, [.sent { message := msg, record := none }])
      | some channel =>
        let (channel, record) := Web.sealWith w.suite channel body
        let s := { s with handshake := { s.handshake with channel := some channel } }
        match record with
        | none => (s, [])
        | some record => (s, [.sent { message := msg, record := some record }])
    else (s, [])

def sendAll (s : WebClient) : List ClientMessage → WebClient × List WebOutput
  | [] => (s, [])
  | msg :: msgs =>
    let (s, out) := s.send w msg
    let (s, outs) := s.sendAll msgs
    (s, out ++ outs)

/-- `#onClose`. -/
def onClose (s : WebClient) : WebClient × List WebOutput :=
  let s := { s with
    connected := false, linked := false, up := false, stalled := [], signing := false }
  if s.closed then (s, [])
  else
    let redial : WebClient × List WebOutput :=
      ({ s with redialAttempt := s.redialAttempt + 1, redialTimer := true },
        [.connection (.reconnecting (s.redialAttempt + 1))])
    match s.handshake.state with
    | .failed reason message retryable =>
      if retryable then redial else (s, [.connection (.failed reason message)])
    | _ => redial

/-- `#link?.close()`. -/
def closeLink (s : WebClient) : WebClient × List WebOutput :=
  if s.linked && s.up && s.closesInline then s.onClose else (s, [])

/-- `#dial`, with the nonce and the ephemeral key it draws. -/
def dial (s : WebClient) (nonce : Nonce) (ephemeral : EphemeralDh) : WebClient × List WebOutput :=
  if s.closed then (s, [])
  else
    let watches := decide (s.kind = .connection)
    ({ s with
        dialSeq := s.dialSeq + 1
        handshake :=
          { signerId := s.signerId, label := s.label, watchSessions := watches,
            watchHosts := watches, expectedHost := s.expectedHost, nonce := nonce,
            ephemeral := ephemeral, channel := none, state := .connecting }
        linked := true
        up := true },
      [.connection (if s.redialAttempt = 0 then .connecting else .reconnecting s.redialAttempt)])

/-- A frame read through the channel, if there is one yet; `none` is a frame
that does not open. -/
def openFrame (s : WebClient) (frame : List UInt8) : WebClient × Option (List UInt8) :=
  match s.handshake.channel with
  | none => (s, some frame)
  | some channel =>
    let (channel, body) := Web.openWith w.suite channel frame
    ({ s with handshake := { s.handshake with channel := some channel } }, body)

/-- `#onMessage`. A frame that does not decode throws, and is skipped. -/
def onMessage (s : WebClient) (respond : HostMessage → List Request) (frame : List UInt8) :
    WebClient × List WebOutput :=
  let (s, body) := s.openFrame w frame
  match body with
  | none =>
    let (s, out) := s.closeLink
    (s, .error "a sealed frame did not open".toList :: out)
  | some body =>
    match w.codec.decode body with
    | .error _ => (s, [])
    | .ok msg =>
      if s.connected then s.sendAll w ((respond msg).map .request)
      else
        let s := { s with signing := true }
        match msg with
        | .challenge ch => ({ s with tasks := s.tasks ++ [⟨s.dialSeq, .answering ch⟩] }, [])
        | msg =>
          ({ s with
              handshake := s.handshake.onMessage msg
              tasks := s.tasks ++ [⟨s.dialSeq, .settled []⟩] }, [])

/-- What follows a welcome. -/
def afterWelcome (s : WebClient) (host : HostId) (label : Str) : WebClient × List WebOutput :=
  let s := { s with connected := true, redialAttempt := 0 }
  match s.kind with
  | .session addr =>
    let (s, out) := s.send w (.request (.attach addr s.cols s.rows false))
    (s, out ++ [.connection .connected])
  | .connection =>
    let (s, out) := s.send w (.request .listSessions)
    (s, [.welcome host label, .connection .connected] ++ out)

/-- The continuation of a settled task, which may belong to a connection that
is gone, up to its `#drainStalled`. -/
def resume (s : WebClient) (seq : Nat) (replies : List ClientMessage) :
    WebClient × List WebOutput :=
  if seq ≠ s.dialSeq ∨ s.closed ∨ s.linked = false then
    ({ s with signing := false, stalled := [] }, [])
  else
    let (s, sent) := ({ s with signing := false } : WebClient).sendAll w replies
    let (s, out) : WebClient × List WebOutput :=
      match s.handshake.state with
      | .awaitingApproval code _ => (s, [.connection (.awaitingApproval code)])
      | .welcomed host label => s.afterWelcome w host label
      | .failed _ _ _ => s.closeLink
      | .connecting => (s, [])
    (s, sent ++ out)

/-- What happens to a client. -/
inductive Event where
  /-- The transport opened. -/
  | opened
  /-- A whole frame arrived. -/
  | frame (respond : HostMessage → List Request) (body : List UInt8)
  /-- The promise of a challenge settled. -/
  | signed (i : Nat) (signed : Except Str Signature)
  /-- A settled task's continuation runs. -/
  | resumed (i : Nat)
  /-- One turn of the loop of `#drainStalled`. -/
  | drain (respond : HostMessage → List Request)
  /-- The stream cannot be cut into frames any more. -/
  | garbled (message : Str)
  /-- The transport is gone. -/
  | dropped
  /-- The redial timer fired. -/
  | redial (nonce : Nonce) (ephemeral : EphemeralDh)
  /-- The caller asks for something. -/
  | request (r : Request)
  | resize (cols rows : Nat)
  | close

/-- One event. -/
def step (s : WebClient) : Event → WebClient × List WebOutput
  | .opened => s.send w (s.handshake.hello w)
  | .frame respond body =>
    if s.signing then ({ s with stalled := s.stalled ++ [body] }, [])
    else s.onMessage w respond body
  | .signed i signed =>
    match s.tasks[i]? with
    | some ⟨seq, .answering ch⟩ =>
      -- The driver of an earlier dial is held by this promise alone.
      if seq = s.dialSeq then
        let (driver, replies) := s.handshake.answer w ch signed
        ({ s with handshake := driver, tasks := s.tasks.set i ⟨seq, .settled replies⟩ }, [])
      else ({ s with tasks := s.tasks.set i ⟨seq, .settled []⟩ }, [])
    | _ => (s, [])
  | .resumed i =>
    match s.tasks[i]? with
    | some ⟨seq, .settled replies⟩ =>
      ({ s with tasks := s.tasks.eraseIdx i } : WebClient).resume w seq replies
    | _ => (s, [])
  | .drain respond =>
    if s.signing then (s, [])
    else
      match s.stalled with
      | [] => (s, [])
      | body :: rest => ({ s with stalled := rest } : WebClient).onMessage w respond body
  | .garbled message =>
    let (s, out) := s.closeLink
    (s, .error message :: out)
  | .dropped => if s.up then s.onClose else (s, [])
  | .redial nonce ephemeral =>
    if s.redialTimer then ({ s with redialTimer := false } : WebClient).dial nonce ephemeral
    else (s, [])
  | .request r => if s.connected then s.send w (.request r) else (s, [])
  | .resize cols rows =>
    if cols = s.cols ∧ rows = s.rows then (s, [])
    else
      let s := { s with cols := cols, rows := rows }
      match s.kind with
      | .session addr =>
        if s.connected then s.send w (.request (.resize addr cols rows)) else (s, [])
      | .connection => (s, [])
  | .close =>
    let s := { s with closed := true, redialTimer := false }
    let (s, out) := s.closeLink
    ({ s with linked := false }, out)

/-- A client that has just been told to connect. -/
def connect (kind : Kind) (signerId : ClientId) (label : Str) (expectedHost : Option HostId)
    (closesInline : Bool) (cols rows : Nat) (nonce : Nonce) (ephemeral : EphemeralDh) : WebClient :=
  { kind := kind, signerId := signerId, label := label, expectedHost := expectedHost,
    closesInline := closesInline, up := true, linked := true,
    handshake :=
      { signerId := signerId, label := label, watchSessions := decide (kind = .connection),
        watchHosts := decide (kind = .connection), expectedHost := expectedHost, nonce := nonce,
        ephemeral := ephemeral, channel := none, state := .connecting },
    connected := false, closed := false, signing := false, stalled := [], dialSeq := 1, tasks := [],
    redialAttempt := 0, redialTimer := false, cols := cols, rows := rows }

end WebClient

end Zesterm
