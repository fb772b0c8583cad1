/-
Zesterm.Mesh.Pairing — proving who is on the other end: the transcript both
sides sign and the two handshakes of `zest-mesh`'s `pairing.rs`.

The operating system's randomness is an argument of the call that draws it
(`none` when there is none), and so is the trust store, which every call
finds as it is by then. A call that asks the store says what it asked, so
that the order of the checks is part of the model.
-/
import Zesterm.Mesh.Secure

namespace Zesterm

open Coding

/-! ## What both sides sign -/

/-- Domain separator for the authentication transcript. -/
def authDomain : List UInt8 := ascii "zesterm-auth-v2"

/-- Domain separator for the matching code. -/
def codeDomain : List UInt8 := ascii "zesterm-pairing-code-v1\x00"

/-- How many digits a person compares. -/
def pairingCodeDigits : Nat := 6

/-- Everything both ends agree they are talking about. -/
structure Transcript where
  version : UInt16
  host : HostId
  client : ClientId
  hostNonce : Nonce
  clientNonce : Nonce
  hostLabel : Str
  clientLabel : Str
  hostDh : Vector UInt8 32
  clientDh : Vector UInt8 32
  deriving DecidableEq

def lenPrefix (bytes : List UInt8) (what : Str) : Except MeshError Nat :=
  if bytes.length < 65536 then .ok bytes.length
  else .error (.badSignature (what ++ " is too long to sign unambiguously".toList))

/-- The exact bytes both sides sign. -/
def authTranscript (t : Transcript) : Except MeshError (List UInt8) := do
  let hostLabel := toUtf8 t.hostLabel
  let clientLabel := toUtf8 t.clientLabel
  let hostLen ← lenPrefix hostLabel "host label".toList
  let clientLen ← lenPrefix clientLabel "client label".toList
  return authDomain ++ bigEndian 2 t.version.toNat ++ t.host.bytes.toList ++
    t.client.bytes.toList ++ t.hostNonce.bytes.toList ++ t.clientNonce.bytes.toList ++
    t.hostDh.toList ++ t.clientDh.toList ++ bigEndian 2 hostLen ++ hostLabel ++
    bigEndian 2 clientLen ++ clientLabel

/-- The code a person compares between two screens. -/
def pairingCode (c : Suite) (t : Transcript) : Except MeshError Str := do
  let message ← authTranscript t
  let digest := (c.sha256 (codeDomain ++ message)).toList
  let n := (digest.take 4).foldl (fun n b => n * 256 + b.toNat) 0
  let digits := showNat (n % 10 ^ pairingCodeDigits)
  return List.replicate (pairingCodeDigits - digits.length) '0' ++ digits

/-! ## The trust store -/

/-- `SystemTime`: nanoseconds from the epoch, which a clock may stand
before. -/
abbrev SystemTime := Int

/-- One device this host will serve. -/
structure TrustRecord where
  client : ClientId
  label : Str
  pairedAt : SystemTime
  lastSeen : Option SystemTime
  deriving DecidableEq

/-- Where paired clients live, as one call finds it. -/
structure TrustStore where
  get : ClientId → Except MeshError (Option TrustRecord)
  insert : TrustRecord → Except MeshError Unit

/-- What a call asked of the store. -/
inductive TrustCall where
  | get (client : ClientId)
  | insert (record : TrustRecord)
  deriving DecidableEq

/-! ## The host half -/

/-- Why a host refused. -/
inductive Refusal where
  | version
  | signature
  | unknownClient
  | denied
  | timedOut
  deriving DecidableEq

/-- What the host should do next. -/
inductive HostStep where
  | challenge (nonce : Nonce) (dh : DhPublic) (signature : Signature)
  | welcome
  | needsApproval (code : Str)
  | refused (reason : Refusal)
  deriving DecidableEq

/-- `State`. -/
inductive HostState where
  | greeting
  | challenged (t : Transcript)
  | pending (t : Transcript)
  | ready (t : Transcript)
  | refused
  deriving DecidableEq

/-- The host half of the handshake, for one connection. -/
structure HostHandshake where
  identity : HostIdentity
  label : Str
  version : UInt16
  state : HostState
  /-- This connection's ephemeral secret, until the channel is taken. -/
  dh : Option EphemeralDh

namespace HostHandshake

def new (identity : HostIdentity) (label : Str) (version : UInt16) : HostHandshake :=
  { identity := identity, label := label, version := version, state := .greeting, dh := none }

def isReady (h : HostHandshake) : Bool :=
  match h.state with
  | .ready _ => true
  | _ => false

/-- The transcript under negotiation. -/
def transcript (h : HostHandshake) : Option Transcript :=
  match h.state with
  | .challenged t | .pending t | .ready t => some t
  | .greeting | .refused => none

/-- `self.state = State::Refused; HostStep::Refused(reason)`. -/
def refuse (h : HostHandshake) (reason : Refusal) : HostHandshake × HostStep :=
  ({ h with state := .refused }, .refused reason)

variable (ed : Ed25519) (c : Suite)

/-- Take this connection's secure channel, once. -/
def channel (h : HostHandshake) : HostHandshake × Option (Except MeshError SecureChannel) :=
  match h.dh with
  | none => (h, none)
  | some dh =>
    let h := { h with dh := none }
    match h.transcript with
    | none => (h, none)
    | some t =>
      match authTranscript t with
      | .error e => (h, some (.error e))
      | .ok message =>
        (h, some (dh.agree c ⟨t.clientDh⟩ (c.sha256 message).toList .host))

/-- Answer a `Hello`. `random` and `generate` are what the system gave for
the nonce and the ephemeral key. -/
def onHello (h : HostHandshake) (version : UInt16) (client : ClientId) (clientLabel : Str)
    (clientNonce : Nonce) (clientDh : DhPublic) (random : Option Nonce)
    (generate : Option EphemeralDh) : HostHandshake × HostStep :=
  if h.state ≠ .greeting then h.refuse .signature
  else if version ≠ h.version then h.refuse .version
  -- An absent nonce arrives as zeroes.
  else if clientNonce.bytes = Vector.replicate 32 0 then h.refuse .signature
  else
    match random, generate with
    | some hostNonce, some hostDh =>
      let transcript : Transcript :=
        { version := h.version
          host := h.identity.id
          client := client
          hostNonce := hostNonce
          clientNonce := clientNonce
          hostLabel := h.label
          clientLabel := clientLabel
          hostDh := (hostDh.public c).bytes
          clientDh := clientDh.bytes }
      match authTranscript transcript with
      | .error _ => h.refuse .signature
      | .ok message =>
        ({ h with dh := some hostDh, state := .challenged transcript },
          .challenge hostNonce (hostDh.public c) (h.identity.sign ed .auth message))
    | _, _ => h.refuse .signature

/-- Check the client's proof, then whether it is trusted. -/
def onAuth (h : HostHandshake) (signature : Signature) (trust : TrustStore) :
    HostHandshake × HostStep × List TrustCall :=
  let refuse (reason : Refusal) (calls : List TrustCall) : HostHandshake × HostStep × List TrustCall :=
    ({ h with state := .refused }, .refused reason, calls)
  match h.state with
  | .challenged transcript =>
    match authTranscript transcript with
    | .error _ => refuse .signature []
    | .ok message =>
      match verifyClient ed transcript.client .auth message signature with
      | .error _ => refuse .signature []
      | .ok () =>
        let asked := [TrustCall.get transcript.client]
        match trust.get transcript.client with
        | .ok (some _) => ({ h with state := .ready transcript }, .welcome, asked)
        | .ok none =>
          match pairingCode c transcript with
          | .ok code => ({ h with state := .pending transcript }, .needsApproval code, asked)
          | .error _ => refuse .signature asked
        | .error _ => refuse .unknownClient asked
  | _ => refuse .signature []

/-- A person said yes: the record is written before the welcome. -/
def approved (h : HostHandshake) (trust : TrustStore) (now : SystemTime) :
    HostHandshake × HostStep × List TrustCall :=
  match h.state with
  | .pending transcript =>
    let record : TrustRecord :=
      { client := transcript.client, label := transcript.clientLabel, pairedAt := now,
        lastSeen := none }
    match trust.insert record with
    | .error _ => ({ h with state := .refused }, .refused .unknownClient, [.insert record])
    | .ok () => ({ h with state := .ready transcript }, .welcome, [.insert record])
  | _ => (h, .refused .denied, [])

/-- A person said no, or nobody answered. -/
def denied (h : HostHandshake) (reason : Refusal) : HostHandshake × HostStep := h.refuse reason

end HostHandshake

/-- A call on the host half, with everything it finds. -/
inductive HostCall where
  | onHello (version : UInt16) (client : ClientId) (clientLabel : Str) (clientNonce : Nonce)
      (clientDh : DhPublic) (random : Option Nonce) (generate : Option EphemeralDh)
  | onAuth (signature : Signature) (trust : TrustStore)
  | approved (trust : TrustStore) (now : SystemTime)
  | denied (reason : Refusal)
  | channel

/-- What a call gave back, and what it asked of the trust store. -/
structure HostReply where
  step : Option HostStep := none
  asked : List TrustCall := []
  channel : Option (Except MeshError SecureChannel) := none

def HostHandshake.call (ed : Ed25519) (c : Suite) (h : HostHandshake) :
    HostCall → HostHandshake × HostReply
  | .onHello version client label nonce dh random generate =>
    let (h, step) := h.onHello ed c version client label nonce dh random generate
    (h, { step := some step })
  | .onAuth signature trust =>
    let (h, step, asked) := h.onAuth ed c signature trust
    (h, { step := some step, asked := asked })
  | .approved trust now =>
    let (h, step, asked) := h.approved trust now
    (h, { step := some step, asked := asked })
  | .denied reason =>
    let (h, step) := h.denied reason
    (h, { step := some step })
  | .channel =>
    let (h, given) := h.channel c
    (h, { channel := given })

/-! ## The client half -/

/-- Check that the machine which answered is the one that was dialled. -/
def verifyChallenge (ed : Ed25519) (expected : Option HostId) (transcript : Transcript)
    (signature : Signature) : Except MeshError Unit := do
  match expected with
  | some expected =>
    if expected ≠ transcript.host then
      throw (.badSignature ("dialled ".toList ++ expected.short ++ " and reached ".toList ++
        transcript.host.short))
  | none => pure ()
  verifyHost ed transcript.host .auth (← authTranscript transcript) signature

/-- A `Challenge` as the client received it. -/
structure Challenge where
  version : UInt16
  host : HostId
  label : Str
  nonce : Nonce
  dh : DhPublic
  signature : Signature
  deriving DecidableEq

/-- The client half of the handshake, for one connection. -/
structure ClientHandshake where
  identity : ClientIdentity
  label : Str
  nonce : Nonce
  dh : Option EphemeralDh

namespace ClientHandshake

/-- The transcript a challenge completes. -/
def transcript (c : Suite) (h : ClientHandshake) (dh : EphemeralDh) (ch : Challenge) :
    Transcript :=
  { version := ch.version
    host := ch.host
    client := h.identity.id
    hostNonce := ch.nonce
    clientNonce := h.nonce
    hostLabel := ch.label
    clientLabel := h.label
    hostDh := ch.dh.bytes
    clientDh := (dh.public c).bytes }

/-- Verify the host, sign the transcript and derive the channel, in that
order. -/
def onChallenge (ed : Ed25519) (c : Suite) (h : ClientHandshake) (expectHost : Option HostId)
    (ch : Challenge) :
    ClientHandshake × Except MeshError (Signature × Transcript × SecureChannel) :=
  match h.dh with
  | none => (h, .error (.badSignature "a second challenge on one connection".toList))
  | some dh =>
    let transcript := h.transcript c dh ch
    ({ h with dh := none }, do
      verifyChallenge ed expectHost transcript ch.signature
      let message ← authTranscript transcript
      let proof := h.identity.sign ed .auth message
      let channel ← dh.agree c ch.dh (c.sha256 message).toList .client
      return (proof, transcript, channel))

end ClientHandshake

end Zesterm
