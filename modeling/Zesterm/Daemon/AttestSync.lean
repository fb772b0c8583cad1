/-
Zesterm.Daemon.AttestSync — devices the account vouches for:
`attest_sync.rs` of `zest-daemon`.

`AttestedTrustStore` fills the misses of the trust file from the account's
set of attestations, which one thread fetches and applies, and a pairing
request is answered by a person or by an apply. All of these run side by
side, and what a call reads and what it writes are steps of their own, so a
machine here goes one such step at a time: a call on the store is a `Task`,
the apply an `Applying`, and each lock is held for one step but the read lock
of a search for a voucher, which keeps the set from being replaced.

The inner store is what it holds and what its file holds: a write that fails
leaves the file as it was. A feed arrives as the set it verified to. Where a
record came from, and which clients have been revoked, is ours to say: no
step reads `Origin`, `acted` or `barred`.
-/
import Zesterm.Daemon.Approvals
import Zesterm.Mesh.Attest

namespace Zesterm.AttestSync

/-! ## The account's set -/

/-- What one fetch produced. -/
structure FetchedSet where
  /-- The attestations whose signature stood. -/
  verified : List Attestation := []
  revoked : List ClientId := []
  deriving DecidableEq

/-- `ATTESTED_MARKER`: how a label says that its record came from an
attestation. -/
def attestedMarker : Str := " (attested)".toList

/-- `label.ends_with(ATTESTED_MARKER)`. -/
def marked (label : Str) : Bool := attestedMarker.isSuffixOf label

/-- The test of one attestation in `granting`. -/
def FetchedSet.admits (f : FetchedSet) (client : ClientId) (nowMs : UInt64)
    (trustedBy : ClientId → Bool) (a : Attestation) : Bool :=
  a.device == client && decide (a.iat ≤ nowMs) && decide (nowMs < a.exp) &&
    !f.revoked.contains a.approver && trustedBy a.approver

/-! ## The machine -/

/-- Who let a record in: a person at this machine, who may have done so after
an applied revocation of the client, or an attestation. -/
inductive Origin where
  | person (restoring : Bool)
  | attestation
  deriving DecidableEq

/-- A record and where it came from. -/
structure Held where
  record : TrustRecord
  origin : Origin
  deriving DecidableEq

/-- An approval on its way to the connection that asked. -/
structure Verdict where
  request : PairingRequest
  origin : Origin
  deriving DecidableEq

/-- A call on `AttestedTrustStore`, by what it has done. -/
inductive Task where
  | get (client : ClientId)
  /-- The file had no record. -/
  | missed (client : ClientId)
  /-- Under the read lock, with the attestations still to test. -/
  | scanning (client : ClientId) (nowMs : UInt64) (rest : List Attestation)
  | granting (a : Attestation)
  | noted (a : Attestation)
  | insert (record : TrustRecord) (origin : Origin)
  /-- The label is settled, the record not written. -/
  | marking (record : TrustRecord) (origin : Origin)
  | remove (client : ClientId)
  | forgotten (client : ClientId)
  deriving DecidableEq

/-- Does a call hold the read lock of the set? -/
def Task.isScanning : Task → Bool
  | .scanning .. => true
  | _ => false

/-- How far `apply` is. Of the revoked ids it has begun on some and not on
others. -/
inductive Stage where
  | revoking (begun todo : List ClientId)
  | forgot (client : ClientId) (begun todo : List ClientId)
  /-- There is a record to remove. -/
  | found (client : ClientId) (begun todo : List ClientId)
  /-- The set is replaced. -/
  | listing
  | welcoming (waiting : List PairingRequest)
  | scanning (request : PairingRequest) (rest : List Attestation) (waiting : List PairingRequest)
  | granting (request : PairingRequest) (waiting : List PairingRequest)
  | noted (request : PairingRequest) (waiting : List PairingRequest)
  deriving DecidableEq

/-- A call of `apply` under way. -/
structure Applying where
  feed : FetchedSet
  nowMs : UInt64
  stage : Stage
  deriving DecidableEq

structure Sync where
  /-- What the inner store holds. -/
  index : Table ClientId Held := ∅
  /-- What its file holds. -/
  saved : Table ClientId Held := ∅
  /-- Ids admitted because of an attestation. -/
  granted : Finset ClientId := ∅
  fetched : FetchedSet := {}
  /-- `PairingQueue`. -/
  pending : List PairingRequest := []
  verdicts : List Verdict := []
  tasks : List Task := []
  applying : Option Applying := none
  /-- The clients a finished apply listed as revoked. -/
  acted : Finset ClientId := ∅
  /-- Those of them that no person has approved since. -/
  barred : Finset ClientId := ∅

/-- What a step finds of the world: the clock, and whether a write reaches
the file. -/
structure Tick where
  nowMs : UInt64 := 0
  time : SystemTime := 0
  saves : Bool := true
  deriving DecidableEq

/-- What a step shows: a client granted by its approver's attestation. -/
inductive Reply where
  | none
  | grant (client approver : ClientId)
  deriving DecidableEq

namespace Sync

/-! ## The inner store -/

/-- Write a record. -/
def put (s : Sync) (client : ClientId) (held : Held) (saves : Bool) : Sync :=
  let index := s.index.insert client held
  { s with index := index, saved := if saves then index else s.saved }

/-- Remove a record, if there is one. -/
def drop (s : Sync) (client : ClientId) (saves : Bool) : Sync :=
  match s.index.lookup client with
  | none => s
  | some _ =>
    let index := s.index.erase client
    { s with index := index, saved := if saves then index else s.saved }

/-- Note when a client was last seen. -/
def touch (s : Sync) (client : ClientId) (time : SystemTime) (saves : Bool) : Sync :=
  match s.index.lookup client with
  | none => s
  | some held =>
    s.put client { held with record := { held.record with lastSeen := some time } } saves

/-- `may_vouch`: there is a record, and not by attestation. -/
def mayVouch (s : Sync) (approver : ClientId) : Bool :=
  match s.index.lookup approver with
  | some held => !marked held.record.label
  | none => false

/-! ## Calls on the store -/

/-- The record an attestation makes. -/
def attestedRecord (a : Attestation) (time : SystemTime) : TrustRecord :=
  { client := a.device, label := a.label ++ attestedMarker, pairedAt := time, lastSeen := none }

/-- Keep the marker on what was admitted by attestation. -/
def keepMarker (s : Sync) (record : TrustRecord) : TrustRecord :=
  if record.client ∈ s.granted ∧ marked record.label = false then
    { record with label := record.label ++ attestedMarker }
  else record

/-- One step of a call, and what is left of it. -/
def stepTask (s : Sync) (tick : Tick) : Task → Sync × Option Task × Reply
  | .get client =>
    match s.index.lookup client with
    | some _ => (s, none, .none)
    | none => (s, some (.missed client), .none)
  | .missed client =>
    if s.fetched.revoked.contains client then (s, none, .none)
    else (s, some (.scanning client tick.nowMs s.fetched.verified), .none)
  | .scanning _ _ [] => (s, none, .none)
  | .scanning client nowMs (a :: rest) =>
    if s.fetched.admits client nowMs s.mayVouch a then
      (s, some (.granting a), .grant client a.approver)
    else (s, some (.scanning client nowMs rest), .none)
  | .granting a => ({ s with granted := insert a.device s.granted }, some (.noted a), .none)
  | .noted a =>
    (s.put a.device ⟨attestedRecord a tick.time, .attestation⟩ tick.saves, none, .none)
  | .insert record origin => (s, some (.marking (s.keepMarker record) origin), .none)
  | .marking record origin => (s.put record.client ⟨record, origin⟩ tick.saves, none, .none)
  | .remove client => ({ s with granted := s.granted.erase client }, some (.forgotten client), .none)
  | .forgotten client => (s.drop client tick.saves, none, .none)

/-! ## The apply -/

/-- `PairingQueue::resolve` with an approval. -/
def resolve (s : Sync) (client : ClientId) (origin : Origin) : Sync :=
  { s with
    pending := s.pending.filter fun r => r.client ≠ client
    verdicts := s.verdicts ++
      (s.pending.filter fun r => r.client = client).map fun r => ⟨r, origin⟩ }

/-- One step of an apply. -/
def stepApply (s : Sync) (a : Applying) (saves : Bool) : Sync × Reply :=
  let go (s : Sync) (stage : Stage) : Sync :=
    { s with applying := some { a with stage := stage } }
  match a.stage with
  | .revoking begun (client :: todo) =>
    (go { s with granted := s.granted.erase client } (.forgot client (begun ++ [client]) todo), .none)
  | .forgot client begun todo =>
    match s.index.lookup client with
    | none => (go s (.revoking begun todo), .none)
    | some _ => (go s (.found client begun todo), .none)
  | .found client begun todo => (go (s.drop client saves) (.revoking begun todo), .none)
  | .revoking _ [] =>
    -- The set is written when nobody reads it.
    if s.tasks.any Task.isScanning then (s, .none)
    else (go { s with fetched := a.feed } .listing, .none)
  | .listing => (go s (.welcoming s.pending), .none)
  | .welcoming (request :: waiting) =>
    if s.fetched.revoked.contains request.client then (go s (.welcoming waiting), .none)
    else (go s (.scanning request s.fetched.verified waiting), .none)
  | .scanning _ [] waiting => (go s (.welcoming waiting), .none)
  | .scanning request (v :: rest) waiting =>
    if s.fetched.admits request.client a.nowMs s.mayVouch v then
      (go s (.granting request waiting), .grant request.client v.approver)
    else (go s (.scanning request rest waiting), .none)
  | .granting request waiting =>
    (go { s with granted := insert request.client s.granted } (.noted request waiting), .none)
  | .noted request waiting => (go (s.resolve request.client .attestation) (.welcoming waiting), .none)
  | .welcoming [] =>
    ({ s with
      applying := none
      acted := s.acted ∪ a.feed.revoked.toFinset
      barred := s.barred ∪ a.feed.revoked.toFinset }, .none)

/-! ## Runs -/

inductive Act where
  /-- A handshake asks for a client. -/
  | get (client : ClientId)
  /-- `trust_now`: a person trusts a client that is not asking. -/
  | trust (record : TrustRecord)
  | remove (client : ClientId)
  | touch (client : ClientId) (time : SystemTime) (saves : Bool)
  /-- A call on the store goes one step on. -/
  | advance (i : Nat) (tick : Tick)
  /-- A feed is in, and an apply begins. -/
  | fetch (feed : FetchedSet) (nowMs : UInt64)
  | apply (saves : Bool)
  | ask (request : PairingRequest)
  /-- A person at this machine answers. -/
  | decide (client : ClientId) (approve : Bool)
  /-- A request is cancelled or too old. -/
  | giveUp (i : Nat)
  /-- A connection takes up its verdict: `HostHandshake::approved`. -/
  | take (i : Nat) (time : SystemTime)
  /-- A connection goes, and its verdict with it. -/
  | hangUp (i : Nat)
  | restart
  deriving DecidableEq

/-- A person approves a client. -/
def approved (s : Sync) (client : ClientId) : Sync × Origin :=
  ({ s with barred := s.barred.erase client }, .person (client ∈ s.acted))

/-- The record of an approved request. -/
def pairedRecord (request : PairingRequest) (time : SystemTime) : TrustRecord :=
  { client := request.client, label := request.label, pairedAt := time, lastSeen := none }

def begin (s : Sync) (task : Task) : Sync := { s with tasks := s.tasks ++ [task] }

def step (s : Sync) : Act → Sync × Reply
  | .get client => (s.begin (.get client), .none)
  | .trust record =>
    let (s, origin) := s.approved record.client
    (s.begin (.insert record origin), .none)
  | .remove client => (s.begin (.remove client), .none)
  | .touch client time saves => (s.touch client time saves, .none)
  | .advance i tick =>
    match s.tasks[i]? with
    | none => (s, .none)
    | some task =>
      let (s, next, reply) := s.stepTask tick task
      ({ s with tasks := s.tasks.eraseIdx i ++ next.toList }, reply)
  | .fetch feed nowMs =>
    -- One thread fetches and applies.
    match s.applying with
    | some _ => (s, .none)
    | none => ({ s with applying := some ⟨feed, nowMs, .revoking [] feed.revoked⟩ }, .none)
  | .apply saves =>
    match s.applying with
    | none => (s, .none)
    | some a => s.stepApply a saves
  | .ask request => ({ s with pending := s.pending ++ [request] }, .none)
  | .decide client approve =>
    if s.pending.any fun r => r.client = client then
      if approve then
        let (s, origin) := s.approved client
        (s.resolve client origin, .none)
      else ({ s with pending := s.pending.filter fun r => r.client ≠ client }, .none)
    else (s, .none)
  | .giveUp i => ({ s with pending := s.pending.eraseIdx i }, .none)
  | .take i time =>
    match s.verdicts[i]? with
    | none => (s, .none)
    | some v =>
      ({ s with verdicts := s.verdicts.eraseIdx i }.begin
        (.insert (pairedRecord v.request time) v.origin), .none)
  | .hangUp i => ({ s with verdicts := s.verdicts.eraseIdx i }, .none)
  | .restart =>
    -- Only the file outlives the process, and what has been done to whom.
    ({ index := s.saved, saved := s.saved, acted := s.acted, barred := s.barred }, .none)

end Sync

end Zesterm.AttestSync
