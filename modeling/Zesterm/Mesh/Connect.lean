/-
Zesterm.Mesh.Connect — dialling a daemon: the messages of a handshake and
the native client of `zest-daemon`'s `client.rs`.

`connect_impl` is a loop over what the host sends, so it is a step here:
`DaemonClient.connectStep` is one turn of that loop on one frame, and
`Connecting` is where the loop stands. What a step writes is part of its
result, with the record it left as where it was sealed.

Frames arrive whole, as the bodies `FrameReader` cuts from the stream, and
a write that fails ends the connection before anything else is written, so
writes succeed. The serialisation is a crate's; `Codec` leaves it open.
-/
import Zesterm.Mesh.Pairing

namespace Zesterm

/-! ## Messages -/

/-- `zest_proto::PROTOCOL_VERSION`. -/
def protocolVersion : UInt16 := 3

/-- Why a host will not serve a connection. -/
inductive AuthFailure where
  | signature
  | unknownClient
  | denied
  | timedOut
  | revoked
  | rateLimited
  | version
  deriving DecidableEq

/-- `{reason:?}`. -/
def AuthFailure.debug : AuthFailure → Str
  | .signature => "Signature".toList
  | .unknownClient => "UnknownClient".toList
  | .denied => "Denied".toList
  | .timedOut => "TimedOut".toList
  | .revoked => "Revoked".toList
  | .rateLimited => "RateLimited".toList
  | .version => "Version".toList

structure SessionAddr where
  host : HostId
  session : UInt64
  deriving DecidableEq

/-- What a client asks for once it is served. -/
inductive Request where
  | listSessions
  | createSession (command cwd : Str) (cols rows : Nat) (env : List (Str × Str)) (profile : Str)
  | attach (session : SessionAddr) (cols rows : Nat) (observe : Bool)
  | input (session : SessionAddr) (bytes : List UInt8)
  | resize (session : SessionAddr) (cols rows : Nat)
  | ack (session : SessionAddr) (seq : Nat)
  | requestKeyframe (session : SessionAddr)
  | requestScrollback (session : SessionAddr) (fromLine : Int) (count : Nat)
  | closeSession (session : SessionAddr)
  | searchBlocks (query : Str) (limit : Nat)
  deriving DecidableEq

/-- What a client sends. -/
inductive ClientMessage where
  | hello (version : UInt16) (client : ClientId) (label : Str) (nonce : Nonce) (dh : DhPublic)
      (watchSessions watchPairings watchHosts watchSignals agent : Bool)
  | auth (signature : Signature)
  | request (r : Request)
  deriving DecidableEq

/-- What a host sends, as far as a handshake tells messages apart. -/
inductive HostMessage where
  | challenge (ch : Challenge)
  | welcome (version : UInt16) (host : HostId) (label : Str)
  | authPending (code : Str) (expiresInSecs : Nat)
  | authFailed (reason : AuthFailure) (message : Str)
  | error (message : Str)
  | other
  deriving DecidableEq

/-- The serialisation of messages, which fails with a text. -/
structure Codec where
  encodeBody : ClientMessage → Except Str (List UInt8)
  decode : List UInt8 → Except Str HostMessage

/-- A message on its way out, and the record it went out as if it was
sealed. -/
structure Sent where
  message : ClientMessage
  record : Option (List UInt8)
  deriving DecidableEq

/-! ## The native client -/

inductive DaemonError where
  | transport (message : Str)
  | version (ours theirs : UInt16)
  | refused (message : Str)
  deriving DecidableEq

/-- `MeshError`'s text. -/
def MeshError.display : MeshError → Str
  | .identity reason => "identity unavailable: ".toList ++ reason
  | .badSignature who => who ++ " did not prove its identity".toList
  | .store reason => "trust store: ".toList ++ reason

/-- What a `Hello` subscribes to. -/
structure Watch where
  sessions : Bool := false
  pairings : Bool := false
  hosts : Bool := false
  signals : Bool := false
  deriving DecidableEq

inductive ClientKind where
  | interactive
  | agent
  deriving DecidableEq

/-- A connection to one daemon. -/
structure DaemonClient where
  host : HostId
  hostLabel : Str
  channel : Option SecureChannel
  sealingOut : Bool
  deriving DecidableEq

namespace DaemonClient

variable (ed : Ed25519) (c : Suite) (codec : Codec)

def new : DaemonClient :=
  { host := ⟨Vector.replicate 32 0⟩, hostLabel := [], channel := none, sealingOut := false }

/-- The record a body leaves as, if it is to be sealed. -/
def sealBody (client : DaemonClient) (body : List UInt8) :
    DaemonClient × Except MeshError (Option (List UInt8)) :=
  match client.channel with
  | some ch =>
    if client.sealingOut then
      let (ch, r) := ch.seal c body
      ({ client with channel := some ch }, r.map some)
    else (client, .ok none)
  | none => (client, .ok none)

def send (client : DaemonClient) (msg : ClientMessage) : DaemonClient × Except DaemonError Sent :=
  match codec.encodeBody msg with
  | .error e => (client, .error (.transport e))
  | .ok body =>
    let (client, r) := client.sealBody c body
    match r with
    | .error e => (client, .error (.transport e.display))
    | .ok record =>
      let len := (record.getD body).length
      if len > maxFrame then
        (client, .error (.transport ("frame of ".toList ++ showNat len ++
          " bytes exceeds the ".toList ++ showNat maxFrame ++ " byte limit".toList)))
      else (client, .ok { message := msg, record := record })

/-- `recv`, on the next whole frame. -/
def recv (client : DaemonClient) (frame : List UInt8) :
    DaemonClient × Except DaemonError HostMessage :=
  let (client, body) : DaemonClient × Except MeshError (List UInt8) :=
    match client.channel with
    | some ch =>
      let (ch, r) := ch.open c frame
      ({ client with channel := some ch }, r)
    | none => (client, .ok frame)
  (client,
    match body with
    | .error e => .error (.transport e.display)
    | .ok body => (codec.decode body).mapError .transport)

/-- Where the loop of `connect_impl` stands. -/
inductive Connecting where
  | waiting (client : DaemonClient) (hs : ClientHandshake)
  | connected (client : DaemonClient)
  | failed (e : DaemonError)

/-- What is written before the loop: the `Hello`. -/
def connectStart (hs : ClientHandshake) (watch : Watch) (kind : ClientKind) :
    Connecting × List Sent :=
  let dh := (hs.dh.map fun dh => dh.public c).getD ⟨Vector.replicate 32 0⟩
  let hello := ClientMessage.hello protocolVersion hs.identity.id hs.label hs.nonce dh
    watch.sessions watch.pairings watch.hosts watch.signals (decide (kind = .agent))
  match new.send c codec hello with
  | (_, .error e) => (.failed e, [])
  | (client, .ok sent) => (.waiting client hs, [sent])

/-- One turn of the loop. -/
def connectStep (expectHost : Option HostId) (client : DaemonClient) (hs : ClientHandshake)
    (frame : List UInt8) : Connecting × List Sent :=
  match client.recv c codec frame with
  | (_, .error e) => (.failed e, [])
  | (client, .ok (.challenge ch)) =>
    if ch.version ≠ protocolVersion then (.failed (.version protocolVersion ch.version), [])
    else
      match hs.onChallenge ed c expectHost ch with
      | (_, .error e) => (.failed (.refused e.display), [])
      | (hs, .ok (sig, _, channel)) =>
        -- Incoming is sealed from the next frame, outgoing from this `Auth`.
        let client := { client with channel := some channel, sealingOut := true }
        match client.send c codec (.auth sig) with
        | (_, .error e) => (.failed e, [])
        | (client, .ok sent) => (.waiting client hs, [sent])
  | (client, .ok (.welcome version host label)) =>
    if version ≠ protocolVersion then (.failed (.version protocolVersion version), [])
    else (.connected { client with host := host, hostLabel := label }, [])
  | (_, .ok (.authFailed reason message)) =>
    (.failed (.refused (reason.debug ++ ": ".toList ++ message)), [])
  | (_, .ok (.error message)) => (.failed (.refused message), [])
  -- Not an error: nobody has said yes yet, or not this loop's business.
  | (client, .ok (.authPending _ _)) => (.waiting client hs, [])
  | (client, .ok .other) => (.waiting client hs, [])

/-- What happens to a connection: a frame arrives, or the caller, once it has
the client, asks for something. -/
inductive ConnectCall where
  | frame (body : List UInt8)
  | request (r : Request)

/-- One step of a connection: the loop until it returns, and after that the
methods of the client, each of which sends through `send` and reads through
`recv`. -/
def Connecting.call (expectHost : Option HostId) : Connecting → ConnectCall → Connecting × List Sent
  | .waiting client hs, .frame body => client.connectStep ed c codec expectHost hs body
  | .connected client, .frame body => (.connected (client.recv c codec body).1, [])
  | .connected client, .request r =>
    match client.send c codec (.request r) with
    | (client, .ok sent) => (.connected client, [sent])
    | (client, .error _) => (.connected client, [])
  | s, _ => (s, [])

end DaemonClient

end Zesterm
