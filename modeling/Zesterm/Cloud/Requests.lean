/-
Zesterm.Cloud.Requests — the handlers of the registry: `api/enroll.ts`,
`api/link.ts`, `api/attest.ts`, `api/registry.ts` and the resolving of a
machine token.

A handler awaits one SQL statement after another, with no transaction around
them, so a request is a value between two statements. What it has told the
store to do next is `writes` (`none` is a read), and `resume` is what is left
of it once that statement has answered. A statement that throws changes
nothing and its request fails.

A request begins where its shape has been checked: the code, label, key and
signature of a claim are well formed, and a caller has been resolved. What the
handlers call and this model leaves open is in `Outside`; the ids and tokens
they draw are arguments. Registry events and the account name a machine prints
are left out.
-/
import Zesterm.Cloud.Registry
import Zesterm.Lib.Interleave
import Zesterm.Mesh.Identity

namespace Zesterm.Cloud

/-! ## What is asked -/

/-- The fields of an attestation; `byDevice` is `by`. -/
structure AttestationFields where
  account : Str
  device : Str
  byDevice : Str
  iat : Int
  exp : Int
  deriving DecidableEq

/-- Calls that are not statements. -/
structure Outside where
  /-- `verifyAsync` of the signature scheme, with `zip215: false`. -/
  verifyAsync : Vector UInt8 64 → List UInt8 → Vector UInt8 32 → Bool
  decodeAttestation : Str → Option AttestationFields
  /-- Does an attestation verify over the bytes it arrived in? -/
  attestationSignatureOk : Str → Bool
  /-- The hash a token is stored under. -/
  sessionIdOf : Str → Str

/-- Who approves: a person, or a device with its token. A host's token is
refused before anything is read. -/
inductive Approver where
  | user (id : Str)
  | device (id userId : Str)
  deriving DecidableEq

def Approver.userId : Approver → Str
  | .user id => id
  | .device _ userId => userId

/-- `POST /api/devices/:id/approve`. -/
structure Approve where
  principal : Approver
  id : Str
  blob : Str
  now : Int
  deriving DecidableEq

/-- `POST /api/enroll/code`; the codes are what `newEnrollCode` draws. -/
structure MintCode where
  userId : Str
  kind : EnrollKind
  now : Int
  codes : List Str
  deriving DecidableEq

/-- `POST /api/enroll/claim`. -/
structure ClaimCode where
  code : Str
  key : Vector UInt8 32
  label : Str
  signature : Vector UInt8 64
  platform : Option Str
  deviceKind : Option DeviceKind
  now : Int
  /-- What `newMachineToken` draws. -/
  token : Str
  deriving DecidableEq

/-- `POST /api/link/start`. -/
structure StartLink where
  key : Vector UInt8 32
  label : Str
  kind : Option DeviceKind
  platform : Option Str
  signature : Vector UInt8 64
  now : Int
  /-- What `newLinkGrantId` draws. -/
  grant : Str
  deriving DecidableEq

/-- `POST /api/link/claim`. -/
structure ClaimLink where
  grant : Str
  key : Vector UInt8 32
  signature : Vector UInt8 64
  now : Int
  token : Str
  deriving DecidableEq

def ClaimCode.id (args : ClaimCode) : Str := hexEncode args.key.toList

def StartLink.id (args : StartLink) : Str := hexEncode args.key.toList

def ClaimLink.id (args : ClaimLink) : Str := hexEncode args.key.toList

/-- What a request asks for. -/
inductive Call where
  | approve (args : Approve)
  | listAttestations (userId : Str) (now : Int)
  | revoke (kind : EnrollKind) (id userId : Str) (now : Int)
  | restore (kind : EnrollKind) (id userId : Str)
  | mintCode (args : MintCode)
  | claimCode (args : ClaimCode)
  | startLink (args : StartLink)
  | approveLink (id userId : Str) (now : Int)
  | denyLink (id : Str) (now : Int)
  | claimLink (args : ClaimLink)
  | resolve (token : Str) (now : Int)

/-- What a handler answers. -/
inductive Response where
  | badRequest (detail : Str)
  | badSignature
  | forbidden
  | notFound
  | device (id : Str)
  | attestations (blobs revoked : List Str)
  | revoked (id : Str) (revokedAt : Int)
  | restored (id : Str)
  | code (code : Str) (expiresAt : Int)
  | invalidCode
  | wrongKind (kind : EnrollKind)
  | alreadyEnrolled (detail : Str)
  | enrolled (kind : EnrollKind) (id token : Str)
  | grant (id : Str) (expiresAt : Int)
  | approved (approvedAt : Int)
  | denied
  | invalidGrant
  | pending
  | principal (kind : EnrollKind) (id userId : Str)
  | unresolved
  /-- A statement threw. -/
  | failed
  deriving DecidableEq

/-! ## Signatures -/

/-- `pushLenPrefixed`; `none` is its `RangeError`. -/
def lenPrefixed (text : Str) : Option (List UInt8) :=
  let bytes := toUtf8 text
  if bytes.length > 0xffff then none
  else some (UInt8.ofNat (bytes.length / 256) :: UInt8.ofNat (bytes.length % 256) :: bytes)

def enrollmentRequest (code : Str) (key : Vector UInt8 32) (label : Str) : Option (List UInt8) := do
  let code ← lenPrefixed code
  let label ← lenPrefixed label
  return ascii "zesterm-enroll-v1" ++ code ++ key.toList ++ label

def linkRequest (key : Vector UInt8 32) (label : Str) : Option (List UInt8) := do
  let label ← lenPrefixed label
  return ascii "zesterm-link-v1" ++ [1] ++ key.toList ++ label

def linkClaim (grant : Str) (key : Vector UInt8 32) : Option (List UInt8) := do
  let grant ← lenPrefixed grant
  return ascii "zesterm-link-v1" ++ [2] ++ grant ++ key.toList

/-- Does a signature verify over an enrolment message? A message that cannot
be built does not verify. -/
def Outside.verifies (out : Outside) (role : Role) (key : Vector UInt8 32)
    (signature : Vector UInt8 64) (message : Option (List UInt8)) : Bool :=
  message.any fun message => out.verifyAsync signature (preimage role .enrollment message) key

def ClaimCode.verifyEnrollment (out : Outside) (args : ClaimCode) (role : Role) : Bool :=
  out.verifies role args.key args.signature (enrollmentRequest args.code args.key args.label)

def StartLink.verifyLinkRequest (out : Outside) (args : StartLink) : Bool :=
  out.verifies .client args.key args.signature (linkRequest args.key args.label)

def ClaimLink.verifyLinkClaim (out : Outside) (args : ClaimLink) : Bool :=
  out.verifies .client args.key args.signature (linkClaim args.grant args.key)

/-- The role a code's kind asks for. -/
def EnrollKind.role : EnrollKind → Role
  | .host => .host
  | .device => .client

/-- `incumbentRefusal`. -/
def incumbentRefusal (incumbent : Option Incumbent) (ownerUserId : Str) : Option Response :=
  match incumbent with
  | none => none
  | some row =>
    if row.userId ≠ ownerUserId then some (.alreadyEnrolled "other_account".toList)
    else if row.revokedAt.isSome then some (.alreadyEnrolled "revoked".toList)
    else none

/-! ## Requests between two statements -/

/-- Which statement of `approveDevice` is next. -/
inductive ApprovePhase where
  | subject (fields : AttestationFields)
  | approver (fields : AttestationFields)
  | putAttestation (fields : AttestationFields)
  | approveDevice (fields : AttestationFields)
  | answered (response : Response)
  deriving DecidableEq

inductive ListPhase where
  | attestations
  | revokedIds (blobs : List Str)
  | answered (response : Response)
  deriving DecidableEq

inductive RevokePhase where
  | principal
  | attestations (revokedAt : Int)
  | answered (response : Response)
  deriving DecidableEq

inductive RestorePhase where
  | update
  | reread
  | answered (response : Response)
  deriving DecidableEq

inductive MintPhase where
  | insert (attempt : Nat)
  | answered (response : Response)
  deriving DecidableEq

/-- Of either claim: the row it found, and the account it enrols into. -/
inductive ClaimPhase (Row : Type) where
  | find
  | incumbent (row : Row)
  | spend (row : Row) (owner : Str)
  | enrol (row : Row) (owner : Str)
  | revokeTokens (row : Row) (owner : Str)
  | insertToken (row : Row) (owner : Str)
  | answered (response : Response)
  deriving DecidableEq

inductive OncePhase where
  | statement
  | answered (response : Response)
  deriving DecidableEq

inductive ResolvePhase where
  | host
  | device
  | touchToken (row : TokenRow)
  | touchPrincipal (row : TokenRow)
  | answered (response : Response)
  deriving DecidableEq

inductive Request where
  | approve (args : Approve) (phase : ApprovePhase)
  | listAttestations (userId : Str) (now : Int) (phase : ListPhase)
  | revoke (kind : EnrollKind) (id userId : Str) (now : Int) (phase : RevokePhase)
  | restore (kind : EnrollKind) (id userId : Str) (phase : RestorePhase)
  | mintCode (args : MintCode) (phase : MintPhase)
  | claimCode (args : ClaimCode) (phase : ClaimPhase EnrollCodeRow)
  | startLink (args : StartLink) (phase : OncePhase)
  | approveLink (id userId : Str) (now : Int) (phase : OncePhase)
  | denyLink (id : Str) (now : Int) (phase : OncePhase)
  | claimLink (args : ClaimLink) (phase : ClaimPhase LinkGrantRow)
  | resolve (token : Str) (now : Int) (phase : ResolvePhase)
  deriving DecidableEq

/-- A statement that may change the store. -/
inductive Write where
  | enrolHost (id userId label platform : Str) (now : Int)
  | enrolDevice (id userId label : Str) (kind : DeviceKind) (now : Int)
  | revokeHost (id userId : Str) (now : Int)
  | revokeDevice (id userId : Str) (now : Int)
  | restoreHost (id userId : Str)
  | restoreDevice (id userId : Str)
  | approveDevice (id userId byDevice : Str) (now : Int)
  | insertEnrollCode (code userId : Str) (kind : EnrollKind) (now : Int)
  | spendEnrollCode (code usedBy : Str) (now : Int)
  | revokeTokens (kind : EnrollKind) (principalId : Str) (now : Int)
  | insertToken (id userId : Str) (kind : EnrollKind) (principalId : Str) (now : Int)
  | touchToken (id : Str) (now : Int)
  | touchPrincipal (kind : EnrollKind) (id : Str) (now : Int)
  | startLinkGrant (id deviceId label : Str) (kind : DeviceKind) (platform : Str) (now : Int)
  | approveLinkGrant (id userId : Str) (now : Int)
  | denyLinkGrant (id : Str) (now : Int)
  | claimLinkGrant (id deviceId : Str) (now : Int)
  | putAttestation (deviceId byDevice userId blob : Str) (iat exp : Int)
  | revokeAttestationsFor (deviceId userId : Str) (now : Int)
  deriving DecidableEq

/-- What a statement leaves; one that throws leaves everything. -/
def Write.run (db : Registry) : Write → Registry
  | .enrolHost id userId label platform now => (db.enrolHost id userId label platform now).1
  | .enrolDevice id userId label kind now => (db.enrolDevice id userId label kind now).1
  | .revokeHost id userId now => (db.revokeHost id userId now).1
  | .revokeDevice id userId now => (db.revokeDevice id userId now).1
  | .restoreHost id userId => (db.restoreHost id userId).1
  | .restoreDevice id userId => (db.restoreDevice id userId).1
  | .approveDevice id userId byDevice now => (db.approveDevice id userId byDevice now).1
  | .insertEnrollCode code userId kind now => (db.insertEnrollCode code userId kind now).getD db
  | .spendEnrollCode code usedBy now => (db.spendEnrollCode code usedBy now).1
  | .revokeTokens kind principalId now => db.revokeTokens kind principalId now
  | .insertToken id userId kind principalId now =>
    (db.insertToken id userId kind principalId now).getD db
  | .touchToken id now => db.touchToken id now
  | .touchPrincipal kind id now => db.touchPrincipal kind id now
  | .startLinkGrant id deviceId label kind platform now =>
    (db.startLinkGrant id deviceId label kind platform now).getD db
  | .approveLinkGrant id userId now => (db.approveLinkGrant id userId now).1
  | .denyLinkGrant id now => (db.denyLinkGrant id now).1
  | .claimLinkGrant id deviceId now => (db.claimLinkGrant id deviceId now).1
  | .putAttestation deviceId byDevice userId blob iat exp =>
    db.putAttestation deviceId byDevice userId blob iat exp
  | .revokeAttestationsFor deviceId userId now => db.revokeAttestationsFor deviceId userId now

namespace Request

/-- A handler up to its first statement. -/
def begin (out : Outside) : Call → Request
  | .approve args => .approve args <|
    match out.decodeAttestation args.blob with
    | none => .answered (.badRequest "attestation".toList)
    | some a =>
      if a.account ≠ args.principal.userId then .answered (.badRequest "account".toList)
      else if a.device ≠ args.id then .answered (.badRequest "device".toList)
      else if a.byDevice = a.device then .answered (.badRequest "by".toList)
      else .subject a
  | .listAttestations userId now => .listAttestations userId now .attestations
  | .revoke kind id userId now => .revoke kind id userId now .principal
  | .restore kind id userId => .restore kind id userId .update
  | .mintCode args => .mintCode args (.insert 0)
  | .claimCode args => .claimCode args .find
  | .startLink args => .startLink args <|
    if args.verifyLinkRequest out then .statement else .answered .badSignature
  | .approveLink id userId now => .approveLink id userId now .statement
  | .denyLink id now => .denyLink id now .statement
  | .claimLink args => .claimLink args <|
    if args.verifyLinkClaim out then .find else .answered .invalidGrant
  | .resolve token now => .resolve token now .host

/-- What the next statement of a request writes, if it does. -/
def writes (out : Outside) : Request → Option Write
  | .approve args (.putAttestation a) =>
    some (.putAttestation a.device a.byDevice args.principal.userId args.blob a.iat a.exp)
  | .approve args (.approveDevice a) =>
    some (.approveDevice a.device args.principal.userId a.byDevice args.now)
  | .revoke .host id userId now .principal => some (.revokeHost id userId now)
  | .revoke .device id userId now .principal => some (.revokeDevice id userId now)
  | .revoke _ id userId now (.attestations _) => some (.revokeAttestationsFor id userId now)
  | .restore .host id userId .update => some (.restoreHost id userId)
  | .restore .device id userId .update => some (.restoreDevice id userId)
  | .mintCode args (.insert attempt) => args.codes[attempt]?.map fun code =>
    .insertEnrollCode code args.userId args.kind args.now
  | .claimCode args (.spend _ _) => some (.spendEnrollCode args.code args.id args.now)
  | .claimCode args (.enrol row owner) => some <|
    match row.kind with
    | .host => .enrolHost args.id owner args.label (args.platform.getD []) args.now
    | .device => .enrolDevice args.id owner args.label (args.deviceKind.getD .desktop) args.now
  | .claimCode args (.revokeTokens row _) => some (.revokeTokens row.kind args.id args.now)
  | .claimCode args (.insertToken row owner) =>
    some (.insertToken (out.sessionIdOf args.token) owner row.kind args.id args.now)
  | .startLink args .statement =>
    some (.startLinkGrant args.grant args.id args.label (args.kind.getD .desktop)
      (args.platform.getD []) args.now)
  | .approveLink id userId now .statement => some (.approveLinkGrant id userId now)
  | .denyLink id now .statement => some (.denyLinkGrant id now)
  | .claimLink args (.spend _ _) => some (.claimLinkGrant args.grant args.id args.now)
  | .claimLink args (.enrol row owner) =>
    some (.enrolDevice args.id owner row.label row.kind args.now)
  | .claimLink args (.revokeTokens _ _) => some (.revokeTokens .device args.id args.now)
  | .claimLink args (.insertToken _ owner) =>
    some (.insertToken (out.sessionIdOf args.token) owner .device args.id args.now)
  | .resolve token now (.touchToken _) => some (.touchToken (out.sessionIdOf token) now)
  | .resolve _ now (.touchPrincipal row) =>
    some (.touchPrincipal row.principalKind row.principalId now)
  | _ => none

end Request

/-! ## What a statement's answer leads to -/

def attestationTtlMs : Int := 365 * 24 * 60 * 60 * 1000

def attestationIatSkewMs : Int := 5 * 60 * 1000

/-- `approveDevice` after the two devices have been read. -/
def Approve.checked (out : Outside) (args : Approve) (a : AttestationFields) : ApprovePhase :=
  if (match args.principal with | .user _ => false | .device id _ => id ≠ a.byDevice) then
    .answered .forbidden
  else if a.exp ≤ a.iat ∨ a.exp - a.iat > attestationTtlMs then
    .answered (.badRequest "exp".toList)
  else if a.exp ≤ args.now then .answered (.badRequest "exp".toList)
  else if |a.iat - args.now| > attestationIatSkewMs then .answered (.badRequest "iat".toList)
  else if out.attestationSignatureOk args.blob = false then .answered .badSignature
  else .putAttestation a

def ApprovePhase.resume (out : Outside) (db : Registry) (args : Approve) :
    ApprovePhase → ApprovePhase
  | .subject a =>
    match db.liveDevice a.device args.principal.userId with
    | none => .answered .notFound
    | some _ => .approver a
  | .approver a =>
    match db.liveDevice a.byDevice args.principal.userId with
    | some .approved => Approve.checked out args a
    | _ => .answered (.badRequest "by".toList)
  | .putAttestation a => .approveDevice a
  | .approveDevice a =>
    if (db.approveDevice a.device args.principal.userId a.byDevice args.now).2 then
      .answered (.device a.device)
    else .answered .notFound
  | .answered response => .answered response

def ListPhase.resume (db : Registry) (userId : Str) (now : Int) : ListPhase → ListPhase
  | .attestations => .revokedIds (db.listAttestations userId now)
  | .revokedIds blobs => .answered (.attestations blobs (db.revokedDeviceIds userId))
  | .answered response => .answered response

def RevokePhase.resume (db : Registry) (kind : EnrollKind) (id userId : Str) (now : Int) :
    RevokePhase → RevokePhase
  | .principal =>
    match kind with
    | .host =>
      match (db.revokeHost id userId now).2 with
      | none => .answered .notFound
      | some revokedAt => .answered (.revoked id revokedAt)
    | .device =>
      match (db.revokeDevice id userId now).2 with
      | none => .answered .notFound
      | some revokedAt => .attestations revokedAt
  | .attestations revokedAt => .answered (.revoked id revokedAt)
  | .answered response => .answered response

def RestorePhase.resume (db : Registry) (kind : EnrollKind) (id userId : Str) :
    RestorePhase → RestorePhase
  | .update =>
    let changed := match kind with
      | .host => (db.restoreHost id userId).2
      | .device => (db.restoreDevice id userId).2
    if changed then .answered (.restored id) else .reread
  | .reread =>
    let row := match kind with
      | .host => db.existingHost id
      | .device => db.existingDevice id
    if row.any (·.userId == userId) then .answered (.restored id) else .answered .notFound
  | .answered response => .answered response

/-- Three attempts, then the failure is real. -/
def MintPhase.resume (db : Registry) (args : MintCode) : MintPhase → MintPhase
  | .insert attempt =>
    match args.codes[attempt]? with
    | none => .answered .failed
    | some code =>
      match db.insertEnrollCode code args.userId args.kind args.now with
      | some _ => .answered (.code code (args.now + Registry.enrollCodeTtlMs))
      | none => if attempt ≥ 2 then .answered .failed else .insert (attempt + 1)
  | .answered response => .answered response

/-- What a code claim makes of the code's row: the signature is checked under
the role the account minted the code for. -/
def ClaimCode.found (out : Outside) (args : ClaimCode) (row : EnrollCodeRow) :
    ClaimPhase EnrollCodeRow :=
  if args.verifyEnrollment out row.kind.role then .incumbent row
  else
    let other := match row.kind.role with | .host => Role.client | .client => Role.host
    if args.verifyEnrollment out other then .answered (.wrongKind row.kind)
    else .answered .invalidCode

/-- What either claim makes of the incumbent. -/
def ClaimPhase.admitted {Row : Type} (row : Row) (owner : Str) (incumbent : Option Incumbent) :
    ClaimPhase Row :=
  match incumbentRefusal incumbent owner with
  | some refusal => .answered refusal
  | none => .spend row owner

def claimCodeResume (out : Outside) (db : Registry) (args : ClaimCode) :
    ClaimPhase EnrollCodeRow → ClaimPhase EnrollCodeRow
  | .find =>
    match db.findLiveEnrollCode args.code args.now with
    | none => .answered .invalidCode
    | some row => args.found out row
  | .incumbent row => .admitted row row.userId <|
    match row.kind with
    | .host => db.existingHost args.id
    | .device => db.existingDevice args.id
  | .spend row owner =>
    match (db.spendEnrollCode args.code args.id args.now).2 with
    | none => .answered .invalidCode
    | some _ => .enrol row owner
  | .enrol row owner =>
    let enrolled := match row.kind with
      | .host => (db.enrolHost args.id owner args.label (args.platform.getD []) args.now).2.isSome
      | .device =>
        (db.enrolDevice args.id owner args.label (args.deviceKind.getD .desktop) args.now).2.isSome
    if enrolled then .revokeTokens row owner
    else .answered (.alreadyEnrolled "revoked".toList)
  | .revokeTokens row owner => .insertToken row owner
  | .insertToken row owner =>
    match db.insertToken (out.sessionIdOf args.token) owner row.kind args.id args.now with
    | none => .answered .failed
    | some _ => .answered (.enrolled row.kind args.id args.token)
  | .answered response => .answered response

def StartLink.resume (db : Registry) (args : StartLink) : OncePhase → OncePhase
  | .statement =>
    match db.startLinkGrant args.grant args.id args.label (args.kind.getD .desktop)
      (args.platform.getD []) args.now with
    | none => .answered .failed
    | some _ => .answered (.grant args.grant (args.now + Registry.linkGrantTtlMs))
  | .answered response => .answered response

def approveLinkResume (db : Registry) (id userId : Str) (now : Int) : OncePhase → OncePhase
  | .statement =>
    match (db.approveLinkGrant id userId now).2 with
    | none => .answered .notFound
    | some approvedAt => .answered (.approved approvedAt)
  | .answered response => .answered response

def denyLinkResume (db : Registry) (id : Str) (now : Int) : OncePhase → OncePhase
  | .statement => if (db.denyLinkGrant id now).2 then .answered .denied else .answered .notFound
  | .answered response => .answered response

def claimLinkResume (out : Outside) (db : Registry) (args : ClaimLink) :
    ClaimPhase LinkGrantRow → ClaimPhase LinkGrantRow
  | .find =>
    match db.findLiveLinkGrant args.grant args.now with
    | none => .answered .invalidGrant
    | some row =>
      if row.deviceId ≠ args.id then .answered .invalidGrant
      else if row.approvedAt = none then .answered .pending
      else .incumbent row
  | .incumbent row =>
    match row.approvedByUser with
    | none => .answered .invalidGrant
    | some owner => .admitted row owner (db.existingDevice args.id)
  | .spend row owner =>
    match (db.claimLinkGrant args.grant args.id args.now).2 with
    | none => .answered .invalidGrant
    | some _ => .enrol row owner
  | .enrol row owner =>
    match (db.enrolDevice args.id owner row.label row.kind args.now).2 with
    | none => .answered (.alreadyEnrolled "revoked".toList)
    | some _ => .revokeTokens row owner
  | .revokeTokens row owner => .insertToken row owner
  | .insertToken _ owner =>
    match db.insertToken (out.sessionIdOf args.token) owner .device args.id args.now with
    | none => .answered .failed
    | some _ => .answered (.enrolled .device args.id args.token)
  | .answered response => .answered response

/-- A token that resolved is renewed if it has not been for an hour. -/
def resolved (row : TokenRow) (now : Int) : ResolvePhase :=
  if now - row.lastSeenAt > Registry.lastSeenGranularityMs then .touchToken row
  else .answered (.principal row.principalKind row.principalId row.userId)

def ResolvePhase.resume (out : Outside) (db : Registry) (token : Str) (now : Int) :
    ResolvePhase → ResolvePhase
  | .host =>
    match db.resolveToken .host (out.sessionIdOf token) now with
    | some row => resolved row now
    | none => .device
  | .device =>
    match db.resolveToken .device (out.sessionIdOf token) now with
    | some row => resolved row now
    | none => .answered .unresolved
  | .touchToken row => .touchPrincipal row
  | .touchPrincipal row => .answered (.principal row.principalKind row.principalId row.userId)
  | .answered response => .answered response

namespace Request

/-- What is left of a request once its next statement has run on `db`. -/
def resume (out : Outside) (db : Registry) : Request → Request
  | .approve args phase => .approve args (phase.resume out db args)
  | .listAttestations userId now phase => .listAttestations userId now (phase.resume db userId now)
  | .revoke kind id userId now phase => .revoke kind id userId now (phase.resume db kind id userId now)
  | .restore kind id userId phase => .restore kind id userId (phase.resume db kind id userId)
  | .mintCode args phase => .mintCode args (phase.resume db args)
  | .claimCode args phase => .claimCode args (claimCodeResume out db args phase)
  | .startLink args phase => .startLink args (StartLink.resume db args phase)
  | .approveLink id userId now phase =>
    .approveLink id userId now (approveLinkResume db id userId now phase)
  | .denyLink id now phase => .denyLink id now (denyLinkResume db id now phase)
  | .claimLink args phase => .claimLink args (claimLinkResume out db args phase)
  | .resolve token now phase => .resolve token now (phase.resume out db token now)

/-- The next statement of a request. -/
def runStatement (out : Outside) (db : Registry) (request : Request) : Registry × Request :=
  (((request.writes out).map (Write.run db)).getD db, request.resume out db)

/-- The answer, once there is one. -/
def answer : Request → Option Response
  | .approve _ (.answered response) | .listAttestations _ _ (.answered response)
  | .revoke _ _ _ _ (.answered response) | .restore _ _ _ (.answered response)
  | .mintCode _ (.answered response) | .claimCode _ (.answered response)
  | .startLink _ (.answered response) | .approveLink _ _ _ (.answered response)
  | .denyLink _ _ (.answered response) | .claimLink _ (.answered response)
  | .resolve _ _ (.answered response) => some response
  | _ => none

end Request

/-- The tables and every request there has been. -/
abbrev Service := Interleave.State Registry Request

/-- One statement of one request, or a request that begins. -/
def Service.act (out : Outside) : Service → Interleave.Move Call → Service × Unit :=
  Interleave.act (Request.begin out) (Request.runStatement out)

end Zesterm.Cloud
