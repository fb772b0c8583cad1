/-
Zesterm.Daemon.Connection — one client connection up to its gate: the
handshake, the seal and the loop that writes, of `zest-daemon`'s
`server.rs`.

`on_bytes` is a loop over frames, so one turn of that loop is a call here; a
turn that ends the loop with an error ends the reading. What a call produces
waits in `outbox` until the writer encodes it. Two threads produce and one
writes, so the order of the writes is left open, and so is whether a message
is written at all.

What serving a client comes to is left open too: a run supplies, for each
message past the gate, the answers and what they leave of the attached
sessions and of the work that goes on beside the connection. The signature
of an `Auth` has its 64 bytes, so that it is malformed does not happen. Left
out: the hooks, the watch registrations and the approval prompt, whose
answer comes in at any time (`decide`).
-/
import Zesterm.Lib.Table
import Zesterm.Mesh.Connect

namespace Zesterm

/-! ## Messages -/

/-- A `Hello`. -/
structure Hello where
  version : UInt16
  client : ClientId
  label : Str
  nonce : Nonce
  dh : DhPublic
  watchSessions : Bool := false
  watchPairings : Bool := false
  watchHosts : Bool := false
  watchSignals : Bool := false
  agent : Bool := false

/-- What a client sends, as far as the gate tells messages apart. -/
inductive Incoming (R : Type) where
  | hello (h : Hello)
  | auth (signature : Signature)
  | other (r : R)

/-- What a connection sends: the handshake's own messages, the gate's
errors, and what only a served client is sent. -/
inductive Outgoing (M : Type) where
  | challenge (ch : Challenge)
  | authPending (code : Str) (expiresInSecs : Nat)
  | authFailed (reason : AuthFailure) (message : Str)
  | error (message : Str)
  | welcome (version : UInt16) (host : HostId) (label : Str)
  | served (m : M)

/-- The serialisation of messages, which fails with a text. -/
structure HostCodec (M R : Type) where
  encodeBody : Outgoing M → Except Str (List UInt8)
  decode : List UInt8 → Except Str (Incoming R)

/-- Map a refusal onto the wire's vocabulary. -/
def failureFor : Refusal → AuthFailure
  | .version => .version
  | .signature => .signature
  | .unknownClient => .unknownClient
  | .denied => .denied
  | .timedOut => .timedOut

/-- Human-facing text for a refusal. -/
def messageFor : AuthFailure → Str
  | .signature => "the connection did not prove its identity".toList
  | .unknownClient => "this device is not paired with this host".toList
  | .denied => "the request was declined".toList
  | .timedOut => "nobody answered the pairing request".toList
  | .revoked => "this device was removed".toList
  | .rateLimited => "too many attempts; try again shortly".toList
  | .version => "protocol versions are not compatible".toList

/-! ## The connection -/

/-- `Client`: who is on this connection, kept past the handshake. -/
structure ServedClient where
  id : Option ClientId
  label : Str
  agent : Bool
  deriving DecidableEq

/-- Whether a connection may be served. -/
inductive Gate where
  | handshaking (h : HostHandshake)
  | served (who : ServedClient)
  | refused

/-- This connection's channel, and whether the switch to it has been made on
the way out. -/
structure Seal where
  channel : SecureChannel
  out : Bool

/-- How a connection proves it may be served. -/
inductive Auth where
  /-- Authorized by the operating system. -/
  | transport
  /-- Must prove a key and be in the trust store. -/
  | proof
  deriving DecidableEq

def Auth.checksTrust : Auth → Bool
  | .transport => false
  | .proof => true

def Auth.mayApproveDevices : Auth → Bool
  | .transport => true
  | .proof => false

/-- `ALWAYS_TRUSTED`: a trust store that trusts everyone. -/
def alwaysTrusted : TrustStore where
  get client := .ok (some { client := client, label := "local".toList, pairedAt := 0, lastSeen := none })
  insert _ := .ok ()

inductive Decision where
  | approve
  | deny
  deriving DecidableEq

/-- One client connection. -/
structure Connection (M : Type) where
  reader : FrameReader := {}
  /-- Session id to this connection's subscriber handle. -/
  attached : Table Nat Nat := ∅
  gate : Gate
  auth : Auth
  host : HostId
  label : Str
  /-- A decision that arrived while this connection was waiting. -/
  decided : Option Decision := none
  /-- An enrolment a worker settled while this connection waited. -/
  enrollResult : Option M := none
  enrollRunning : Bool := false
  /-- Replies workers settled while this connection waited. -/
  deferred : List M := []
  deferredRunning : Nat := 0
  watchSessions : Bool := false
  watchHosts : Bool := false
  watchPairings : Bool := false
  watchSignals : Bool := false
  /-- `Hello.agent`, as declared, until the gate opens. -/
  declaredAgent : Bool := false
  «seal» : Option Seal := none
  /-- Produced and not yet written. -/
  outbox : List (Outgoing M) := []
  /-- The reading has ended. -/
  lost : Bool := false
  /-- The writing has ended. -/
  closed : Bool := false

/-- What serving a message leaves. -/
structure Outcome (M : Type) where
  answers : List M
  attached : Table Nat Nat
  enrollRunning : Bool
  deferredRunning : Nat

/-- What a turn of the reading finds: the system's randomness, the trust
store, and what serving would come to. -/
structure TurnEnv (M R : Type) where
  random : Option Nonce
  generate : Option EphemeralDh
  trust : TrustStore
  serve : R → Outcome M

/-- What a poll finds: the listing if it moved, the offer if it is new, the
approval pushes, and what each attached session has. -/
structure PollEnv (M : Type) where
  listing : Option M
  offer : Option M
  pairings : List M
  session : Nat → Nat → List M

namespace Connection

variable {M R : Type}

def new (identity : HostIdentity) (hostLabel : Str) (auth : Auth) (host : HostId) (label : Str) :
    Connection M :=
  { gate := .handshaking (.new identity hostLabel protocolVersion)
    auth := auth
    host := host
    label := label }

/-- `device_authority().is_ok()`. -/
def deviceAuthority (c : Connection M) : Bool :=
  match c.gate with
  | .served who => c.auth.mayApproveDevices && !who.agent
  | _ => false

/-- Say no, in terms the client can branch on. -/
def refuse (c : Connection M) (refusal : Refusal) : Connection M × List (Outgoing M) :=
  ({ c with gate := .refused }, [.authFailed (failureFor refusal) (messageFor (failureFor refusal))])

/-- Complete the handshake and start serving. -/
def welcome (c : Connection M) : Connection M × List (Outgoing M) :=
  let who : Option Transcript :=
    match c.gate with
    | .handshaking h => h.transcript
    | _ => none
  ({ c with
      gate := .served
        { id := who.map Transcript.client
          label := (who.map Transcript.clientLabel).getD []
          agent := c.declaredAgent } },
    [.welcome protocolVersion c.host c.label])

/-- Queue an approval request and tell the client to wait. -/
def askForApproval (c : Connection M) (code : Str) : List (Outgoing M) :=
  match c.gate with
  | .handshaking h =>
    match h.transcript with
    | some _ => [.authPending code 120]
    | none => []
  | _ => []

section Turn

variable (ed : Ed25519) (suite : Suite) (codec : HostCodec M R)

/-- A `Hello`. -/
def onHello (c : Connection M) (env : TurnEnv M R) (msg : Hello) :
    Connection M × List (Outgoing M) :=
  let c := { c with
    watchSessions := msg.watchSessions
    watchPairings := msg.watchPairings
    watchHosts := msg.watchHosts
    watchSignals := msg.watchSignals
    declaredAgent := msg.agent }
  match c.gate with
  | .handshaking h =>
    let (h, step) := h.onHello ed suite msg.version msg.client msg.label msg.nonce msg.dh env.random
      env.generate
    match step, h.transcript with
    | .challenge nonce dh signature, some t =>
      let challenge : Challenge :=
        { version := t.version, host := t.host, label := t.hostLabel, nonce := nonce, dh := dh,
          signature := signature }
      let (h, channel) := h.channel suite
      let c := { c with gate := .handshaking h }
      match channel with
      | some (.ok channel) =>
        ({ c with «seal» := some { channel := channel, out := false } }, [.challenge challenge])
      | _ => c.refuse .signature
    -- A challenged handshake has its transcript.
    | .challenge _ _ _, none => ({ c with gate := .handshaking h }, [])
    | .refused r, _ => c.refuse r
    | _, _ =>
      ({ c with gate := .handshaking h }, [.authFailed .signature "handshake failed".toList])
  | _ => (c, [.error "already connected".toList])

/-- An `Auth`. -/
def onAuth (c : Connection M) (env : TurnEnv M R) (signature : Signature) :
    Connection M × List (Outgoing M) :=
  match c.gate with
  | .handshaking h =>
    let store := if c.auth.checksTrust then env.trust else alwaysTrusted
    let (h, step, _) := h.onAuth ed suite signature store
    let c := { c with gate := .handshaking h }
    match step with
    | .welcome => c.welcome
    | .needsApproval code => (c, c.askForApproval code)
    | .refused r => c.refuse r
    | .challenge _ _ _ => (c, [.authFailed .signature "handshake failed".toList])
  | _ => (c, [.error "already connected".toList])

/-- One message. Nothing is served before the handshake completes. -/
def handle (c : Connection M) (env : TurnEnv M R) (msg : Incoming R) :
    Connection M × List (Outgoing M) :=
  match c.gate, msg with
  | .refused, _ => (c, [.error "this connection was refused".toList])
  | .handshaking _, .other _ => (c, [.error "expected Hello first".toList])
  | _, .hello h => c.onHello ed suite env h
  | _, .auth signature => c.onAuth ed suite env signature
  | .served _, .other r =>
    let outcome := env.serve r
    ({ c with
        attached := outcome.attached
        enrollRunning := outcome.enrollRunning
        deferredRunning := outcome.deferredRunning },
      outcome.answers.map .served)

/-- A message that does not parse is not fatal. -/
def read (c : Connection M) (env : TurnEnv M R) (plain : List UInt8) :
    Connection M × List (Outgoing M) :=
  match codec.decode plain with
  | .ok msg => c.handle ed suite env msg
  | .error e => (c, [.error ("could not understand that message: ".toList ++ e)])

end Turn

/-- Apply a decision that arrived while this connection was waiting. -/
def takeDecision (c : Connection M) (trust : TrustStore) (now : SystemTime) :
    Connection M × List (Outgoing M) :=
  match c.decided with
  | none => (c, [])
  | some decision =>
    let c := { c with decided := none }
    match c.gate, decision with
    | .handshaking h, .approve =>
      let (h, step, _) := h.approved trust now
      let c := { c with gate := .handshaking h }
      match step with
      | .welcome => c.welcome
      | .refused r => c.refuse r
      | _ => (c, [])
    | .handshaking _, .deny => c.refuse .denied
    | _, _ => (c, [])

def takeEnrollResult (c : Connection M) : Connection M × List (Outgoing M) :=
  match c.enrollResult with
  | none => (c, [])
  | some m => ({ c with enrollResult := none, enrollRunning := false }, [.served m])

def takeDeferred (c : Connection M) : Connection M × List (Outgoing M) :=
  ({ c with deferred := [] }, c.deferred.map .served)

/-- `poll_with`: what a connection is pushed, and to whom. -/
def poll (c : Connection M) (env : PollEnv M) : List (Outgoing M) :=
  let isServed := match c.gate with
    | .served _ => true
    | _ => false
  let listing := if c.watchSessions && isServed then env.listing.toList else []
  let offer := if c.watchHosts && isServed then env.offer.toList else []
  let pairings := if c.watchPairings && c.deviceAuthority then env.pairings else []
  let sessions := c.attached.entries.flatMap fun p => env.session p.1 p.2
  (listing ++ offer ++ pairings ++ sessions).map .served

/-- Whether a message is the challenge. -/
def isChallenge : Outgoing M → Bool
  | .challenge _ => true
  | _ => false

/-- A body as it leaves: sealed, if the switch has been made. -/
def sealBody (suite : Suite) (c : Connection M) (body : List UInt8) :
    Connection M × Option (List UInt8) :=
  match c.seal with
  | some s =>
    if s.out then
      let (channel, r) := s.channel.seal suite body
      ({ c with «seal» := some { s with channel := channel } }, r.toOption)
    else (c, some body)
  | none => (c, some body)

/-- Serialize one outgoing message, sealed if this connection is past the
challenge; `none` where that fails. -/
def encode (suite : Suite) (codec : HostCodec M R) (c : Connection M) (m : Outgoing M) :
    Connection M × Option (List UInt8) :=
  match codec.encodeBody m with
  | .error _ => (c, none)
  | .ok body =>
    let (c, body) := c.sealBody suite body
    match body.bind fun body => (frameBytes body).toOption with
    | none => (c, none)
    | some bytes =>
      -- This frame carries the host's key, so it is the last plaintext one.
      (if isChallenge m then { c with «seal» := c.seal.map fun s => { s with out := true } } else c,
        some bytes)

/-! ## The machine -/

inductive Call (M R : Type) where
  /-- Bytes arrive. -/
  | feed (bytes : List UInt8)
  /-- One turn of the loop over frames. -/
  | turn (env : TurnEnv M R)
  /-- A person, or the end of the wait, answers. -/
  | decide (decision : Decision)
  | enrollDone (m : M)
  | deferredDone (m : M)
  | takeDecision (trust : TrustStore) (now : SystemTime)
  | takeEnrollResult
  | takeDeferred
  | poll (env : PollEnv M)
  /-- The writer encodes one of the messages that wait. -/
  | write (i : Nat)

/-- What a call did: the messages it produced, the body of the frame it took
and the bytes it decoded, and what it wrote. -/
structure Reply (M : Type) where
  out : List (Outgoing M) := []
  body : Option (List UInt8) := none
  plain : Option (List UInt8) := none
  wrote : Option (Outgoing M × List UInt8) := none

/-- Let what was produced wait. -/
def queue (p : Connection M × List (Outgoing M)) : Connection M × Reply M :=
  ({ p.1 with outbox := p.1.outbox ++ p.2 }, { out := p.2 })

/-- One turn of the loop over frames. -/
def turn (ed : Ed25519) (suite : Suite) (codec : HostCodec M R) (c : Connection M)
    (env : TurnEnv M R) : Connection M × Reply M :=
  match c.reader.nextFrame with
  | (.error _, reader) => ({ c with reader := reader, lost := true }, {})
  | (.ok none, reader) => ({ c with reader := reader }, {})
  | (.ok (some body), reader) =>
    let c := { c with reader := reader }
    match c.seal with
    | some s =>
      let (channel, r) := s.channel.open suite body
      let c := { c with «seal» := some { s with channel := channel } }
      match r with
      | .ok plain =>
        let (c, reply) := queue (c.read ed suite codec env plain)
        (c, { reply with body := some body, plain := some plain })
      -- There is no position to resume from.
      | .error _ => ({ c with lost := true }, { body := some body })
    | none =>
      let (c, reply) := queue (c.read ed suite codec env body)
      (c, { reply with body := some body, plain := some body })

def step (ed : Ed25519) (suite : Suite) (codec : HostCodec M R) (c : Connection M) :
    Call M R → Connection M × Reply M
  | .feed bytes => ({ c with reader := c.reader.feed bytes }, {})
  | .turn env => if c.lost then (c, {}) else c.turn ed suite codec env
  | .decide decision => ({ c with decided := some decision }, {})
  | .enrollDone m => if c.enrollRunning then ({ c with enrollResult := some m }, {}) else (c, {})
  | .deferredDone m =>
    if c.deferredRunning > 0 then
      ({ c with deferred := c.deferred ++ [m], deferredRunning := c.deferredRunning - 1 }, {})
    else (c, {})
  | .takeDecision trust now => if c.closed then (c, {}) else queue (c.takeDecision trust now)
  | .takeEnrollResult => if c.closed then (c, {}) else queue c.takeEnrollResult
  | .takeDeferred => if c.closed then (c, {}) else queue c.takeDeferred
  | .poll env => if c.closed then (c, {}) else queue (c, c.poll env)
  | .write i =>
    if c.closed then (c, {})
    else
      match c.outbox[i]? with
      | none => (c, {})
      | some m =>
        match ({ c with outbox := c.outbox.eraseIdx i } : Connection M).encode suite codec m with
        | (c, none) => ({ c with closed := true }, {})
        | (c, some bytes) => (c, { wrote := some (m, bytes) })

end Connection

end Zesterm
