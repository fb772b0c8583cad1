/-
Zesterm.Cloud.Registry — the machines and browsers an account owns, and what
is kept about them: `db/registry.ts`, `db/machine-tokens.ts`, `db/link.ts` and
`db/attestations.ts` of the account service.

Every function here is one SQL statement or the reading of one row, so it is
atomic. A statement with a `RETURNING` answers with the row it left, beside
the tables; one that throws (a key that is taken) answers with `none` for the
tables. Rows of `users` are read here and never written, and the columns no
statement here reads are left out.
-/
import Zesterm.Core.Cell
import Zesterm.Lib.Table
import Mathlib.Data.Char
import Mathlib.Data.List.Lex

namespace Zesterm.Cloud

/-! ## The tables -/

/-- Which table a code enrols into, and which role its signature carries. -/
inductive EnrollKind where
  | host
  | device
  deriving DecidableEq

inductive DeviceKind where
  | browser
  | phone
  | desktop
  deriving DecidableEq

inductive DeviceStatus where
  | pending
  | approved
  deriving DecidableEq

structure HostRow where
  userId : Str
  label : Str
  platform : Str
  enrolledAt : Int
  lastSeenAt : Option Int := none
  revokedAt : Option Int := none
  deriving DecidableEq

structure DeviceRow where
  userId : Str
  label : Str
  kind : DeviceKind
  status : DeviceStatus := .approved
  approvedAt : Option Int := none
  approvedBy : Option Str := none
  enrolledAt : Int
  lastSeenAt : Option Int := none
  revokedAt : Option Int := none
  deriving DecidableEq

structure EnrollCodeRow where
  userId : Str
  kind : EnrollKind
  createdAt : Int
  expiresAt : Int
  usedAt : Option Int := none
  usedBy : Option Str := none
  deriving DecidableEq

structure TokenRow where
  userId : Str
  principalKind : EnrollKind
  principalId : Str
  createdAt : Int
  lastSeenAt : Int
  expiresAt : Int
  revokedAt : Option Int := none
  deriving DecidableEq

/-- A row of `device_attestations`, under its subject and its approver. -/
structure AttestationRow where
  userId : Str
  blob : Str
  iat : Int
  exp : Int
  revokedAt : Option Int := none
  deriving DecidableEq

structure LinkGrantRow where
  deviceId : Str
  label : Str
  kind : DeviceKind
  platform : Str
  createdAt : Int
  expiresAt : Int
  approvedAt : Option Int := none
  approvedByUser : Option Str := none
  claimedAt : Option Int := none
  deriving DecidableEq

structure Registry where
  /-- `disabled_at` of each account. -/
  users : Table Str (Option Int) := ∅
  hosts : Table Str HostRow := ∅
  devices : Table Str DeviceRow := ∅
  enrollCodes : Table Str EnrollCodeRow := ∅
  machineTokens : Table Str TokenRow := ∅
  /-- Under `(device_id, by_device)`. -/
  attestations : Table (Str × Str) AttestationRow := ∅
  linkGrants : Table Str LinkGrantRow := ∅

/-- What an existing registry row says, when deciding whether a key may enrol. -/
structure Incumbent where
  userId : Str
  revokedAt : Option Int
  deriving DecidableEq

namespace Registry

/-! ## Hosts and devices -/

def existingHost (db : Registry) (id : Str) : Option Incumbent :=
  (db.hosts.lookup id).map fun row => ⟨row.userId, row.revokedAt⟩

def existingDevice (db : Registry) (id : Str) : Option Incumbent :=
  (db.devices.lookup id).map fun row => ⟨row.userId, row.revokedAt⟩

def enrolHost (db : Registry) (id userId label platform : Str) (now : Int) :
    Registry × Option HostRow :=
  let new : HostRow := { userId := userId, label := label, platform := platform, enrolledAt := now }
  let ours := fun row : HostRow => row.userId == userId && row.revokedAt.isNone
  let set := fun row : HostRow => { row with label := label, platform := platform }
  ({ db with hosts := db.hosts.upsert id new ours set }, db.hosts.upserted id new ours set)

def enrolDevice (db : Registry) (id userId label : Str) (kind : DeviceKind) (now : Int) :
    Registry × Option DeviceRow :=
  let new : DeviceRow := { userId := userId, label := label, kind := kind, enrolledAt := now }
  let ours := fun row : DeviceRow => row.userId == userId && row.revokedAt.isNone
  let set := fun row : DeviceRow => { row with label := label, kind := kind, status := .approved }
  ({ db with devices := db.devices.upsert id new ours set }, db.devices.upserted id new ours set)

/-- The answer is when the host was revoked. -/
def revokeHost (db : Registry) (id userId : Str) (now : Int) : Registry × Option Int :=
  let owned := fun row : HostRow => row.userId == userId
  let set := fun row : HostRow => { row with revokedAt := some (row.revokedAt.getD now) }
  ({ db with hosts := db.hosts.updateWhere id owned set },
    (db.hosts.updated id owned set).bind (·.revokedAt))

def revokeDevice (db : Registry) (id userId : Str) (now : Int) : Registry × Option Int :=
  let owned := fun row : DeviceRow => row.userId == userId
  let set := fun row : DeviceRow => { row with revokedAt := some (row.revokedAt.getD now) }
  ({ db with devices := db.devices.updateWhere id owned set },
    (db.devices.updated id owned set).bind (·.revokedAt))

/-- The first statement of `restoreHost`; the answer is whether it changed
the row. -/
def restoreHost (db : Registry) (id userId : Str) : Registry × Bool :=
  let revoked := fun row : HostRow => row.userId == userId && row.revokedAt.isSome
  let set := fun row : HostRow => { row with revokedAt := none }
  ({ db with hosts := db.hosts.updateWhere id revoked set },
    (db.hosts.updated id revoked set).isSome)

def restoreDevice (db : Registry) (id userId : Str) : Registry × Bool :=
  let revoked := fun row : DeviceRow => row.userId == userId && row.revokedAt.isSome
  let set := fun row : DeviceRow => { row with revokedAt := none }
  ({ db with devices := db.devices.updateWhere id revoked set },
    (db.devices.updated id revoked set).isSome)

/-- A live device row of this account. -/
def liveDevice (db : Registry) (id userId : Str) : Option DeviceStatus :=
  ((db.devices.lookup id).filter fun row => row.userId == userId && row.revokedAt.isNone).map
    (·.status)

/-- Mark a device approved; the answer is whether there is a live row. -/
def approveDevice (db : Registry) (id userId byDevice : Str) (now : Int) : Registry × Bool :=
  let live := fun row : DeviceRow => row.userId == userId && row.revokedAt.isNone
  let set := fun row : DeviceRow =>
    { row with
      status := .approved
      approvedAt := some (row.approvedAt.getD now)
      approvedBy := some (row.approvedBy.getD byDevice) }
  ({ db with devices := db.devices.updateWhere id live set },
    (db.devices.updated id live set).isSome)

/-! ## Enrolment codes -/

def enrollCodeTtlMs : Int := 10 * 60 * 1000

/-- One attempt of `createEnrollCode`. -/
def insertEnrollCode (db : Registry) (code userId : Str) (kind : EnrollKind) (now : Int) :
    Option Registry :=
  if code ∈ db.enrollCodes then none
  else some { db with
    enrollCodes := db.enrollCodes.insert code
      { userId := userId, kind := kind, createdAt := now, expiresAt := now + enrollCodeTtlMs } }

def findLiveEnrollCode (db : Registry) (code : Str) (now : Int) : Option EnrollCodeRow :=
  (db.enrollCodes.lookup code).filter fun row => row.usedAt.isNone && decide (now < row.expiresAt)

/-- The answer is the code's kind, if this caller is the one who spent it. -/
def spendEnrollCode (db : Registry) (code usedBy : Str) (now : Int) :
    Registry × Option EnrollKind :=
  let live := fun row : EnrollCodeRow => row.usedAt.isNone && decide (now < row.expiresAt)
  let set := fun row : EnrollCodeRow => { row with usedAt := some now, usedBy := some usedBy }
  ({ db with enrollCodes := db.enrollCodes.updateWhere code live set },
    (db.enrollCodes.updated code live set).map (·.kind))

/-! ## Machine tokens -/

def machineTokenTtlMs : Int := 90 * 24 * 60 * 60 * 1000

/-- `LAST_SEEN_GRANULARITY_MS` of the sessions. -/
def lastSeenGranularityMs : Int := 60 * 60 * 1000

/-- The first statement of `createMachineToken`. -/
def revokeTokens (db : Registry) (kind : EnrollKind) (principalId : Str) (now : Int) : Registry :=
  { db with
    machineTokens := db.machineTokens.mapWithKey fun _ row =>
      if row.principalKind = kind ∧ row.principalId = principalId ∧ row.revokedAt = none then
        { row with revokedAt := some now }
      else row }

/-- The second, under the hash of the new token. -/
def insertToken (db : Registry) (id userId : Str) (kind : EnrollKind) (principalId : Str)
    (now : Int) : Option Registry :=
  if id ∈ db.machineTokens then none
  else some { db with
    machineTokens := db.machineTokens.insert id
      { userId := userId, principalKind := kind, principalId := principalId, createdAt := now,
        lastSeenAt := now, expiresAt := now + machineTokenTtlMs } }

/-- Is the principal of a token live, in its own table? -/
def principalLive (db : Registry) (row : TokenRow) : Bool :=
  match row.principalKind with
  | .host => (db.hosts.lookup row.principalId).any fun host =>
      host.userId == row.userId && host.revokedAt.isNone
  | .device => (db.devices.lookup row.principalId).any fun device =>
      device.userId == row.userId && device.revokedAt.isNone && device.status == .approved

/-- `RESOLVE_HOST` and `RESOLVE_DEVICE`, by the kind. -/
def resolveToken (db : Registry) (kind : EnrollKind) (id : Str) (now : Int) : Option TokenRow :=
  (db.machineTokens.lookup id).filter fun row =>
    row.principalKind == kind && row.revokedAt.isNone && decide (now < row.expiresAt) &&
      db.principalLive row && db.users.lookup row.userId == some none

/-- The sliding renewal of a token that resolved. -/
def touchToken (db : Registry) (id : Str) (now : Int) : Registry :=
  { db with
    machineTokens := db.machineTokens.adjust id fun row =>
      { row with lastSeenAt := now, expiresAt := now + machineTokenTtlMs } }

def touchPrincipal (db : Registry) (kind : EnrollKind) (id : Str) (now : Int) : Registry :=
  match kind with
  | .host => { db with hosts := db.hosts.adjust id fun row => { row with lastSeenAt := some now } }
  | .device =>
    { db with devices := db.devices.adjust id fun row => { row with lastSeenAt := some now } }

/-! ## Link grants -/

def linkGrantTtlMs : Int := 10 * 60 * 1000

/-- Park a fresh grant for a key, replacing any it already had. -/
def startLinkGrant (db : Registry) (id deviceId label : Str) (kind : DeviceKind) (platform : Str)
    (now : Int) : Option Registry :=
  if id ∈ db.linkGrants then none
  else some { db with
    linkGrants := (db.linkGrants.keep fun _ row => row.deviceId ≠ deviceId).insert id
      { deviceId := deviceId, label := label, kind := kind, platform := platform,
        createdAt := now, expiresAt := now + linkGrantTtlMs } }

def findLiveLinkGrant (db : Registry) (id : Str) (now : Int) : Option LinkGrantRow :=
  (db.linkGrants.lookup id).filter fun row => row.claimedAt.isNone && decide (now < row.expiresAt)

/-- Stamp the approval; the answer is when the grant was first approved. -/
def approveLinkGrant (db : Registry) (id userId : Str) (now : Int) : Registry × Option Int :=
  let live := fun row : LinkGrantRow => row.claimedAt.isNone && decide (now < row.expiresAt)
  let set := fun row : LinkGrantRow =>
    { row with
      approvedAt := some (row.approvedAt.getD now)
      approvedByUser := some (row.approvedByUser.getD userId) }
  ({ db with linkGrants := db.linkGrants.updateWhere id live set },
    (db.linkGrants.updated id live set).bind (·.approvedAt))

/-- Deny by deletion; the answer is whether there was anything live. -/
def denyLinkGrant (db : Registry) (id : Str) (now : Int) : Registry × Bool :=
  if (db.findLiveLinkGrant id now).isSome then
    ({ db with linkGrants := db.linkGrants.erase id }, true)
  else (db, false)

/-- Spend an approved grant; the answer is the row it left. -/
def claimLinkGrant (db : Registry) (id deviceId : Str) (now : Int) :
    Registry × Option LinkGrantRow :=
  let spendable := fun row : LinkGrantRow =>
    row.deviceId == deviceId && row.approvedAt.isSome && row.claimedAt.isNone &&
      decide (now < row.expiresAt)
  let set := fun row : LinkGrantRow => { row with claimedAt := some now }
  ({ db with linkGrants := db.linkGrants.updateWhere id spendable set },
    db.linkGrants.updated id spendable set)

/-! ## Attestations -/

/-- Store a voucher, replacing this approver's earlier one about the device. -/
def putAttestation (db : Registry) (deviceId byDevice userId blob : Str) (iat exp : Int) :
    Registry :=
  { db with
    attestations := db.attestations.upsert (deviceId, byDevice)
      { userId := userId, blob := blob, iat := iat, exp := exp } (·.userId == userId)
      fun row => { row with blob := blob, iat := iat, exp := exp, revokedAt := none } }

/-- Is a voucher the account's, unrevoked and inside its window? -/
def served (row : AttestationRow) (userId : Str) (now : Int) : Bool :=
  row.userId == userId && row.revokedAt.isNone && decide (row.iat ≤ now) && decide (now < row.exp)

/-- The account's live vouchers, under their parties. `ORDER BY iat, device_id`
is a stable sort of what the table gives. -/
def liveAttestations (db : Registry) (userId : Str) (now : Int) :
    List ((Str × Str) × AttestationRow) :=
  ((db.attestations.entries.map fun e => (e.1, e.2)).filter (served ·.2 userId now)).insertionSort
    fun a b => a.2.iat < b.2.iat ∨ (a.2.iat = b.2.iat ∧ a.1.1 ≤ b.1.1)

def listAttestations (db : Registry) (userId : Str) (now : Int) : List Str :=
  (db.liveAttestations userId now).map (·.2.blob)

/-- The devices of the account that are revoked, by when. -/
def revokedDeviceIds (db : Registry) (userId : Str) : List Str :=
  let revoked := (db.devices.entries.filterMap fun e =>
    if e.2.userId = userId then e.2.revokedAt.map (·, e.1) else none)
  (revoked.insertionSort fun a b => a.1 < b.1 ∨ (a.1 = b.1 ∧ a.2 ≤ b.2)).map (·.2)

/-- Revoke every attestation a device appears in, as subject or approver. -/
def revokeAttestationsFor (db : Registry) (deviceId userId : Str) (now : Int) : Registry :=
  { db with
    attestations := db.attestations.mapWithKey fun key row =>
      if row.userId = userId ∧ (key.1 = deviceId ∨ key.2 = deviceId) then
        { row with revokedAt := some (row.revokedAt.getD now) }
      else row }

end Registry

end Zesterm.Cloud
