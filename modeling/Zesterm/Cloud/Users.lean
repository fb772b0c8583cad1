/-
Zesterm.Cloud.Users — turning a provider profile into an account: `db/users.ts`
of the account service.

`upsertUser` is several SQL statements with no transaction around them, so a
call is a value between two statements (`UpsertUser`) and `runStatement` runs
its next one. A statement that throws rejects the call and changes nothing.
The fresh id `newUserId` draws is an argument of the call, and so is the row
a `LIMIT 1` with no order picks. The schema's foreign keys are enforced: an
identity needs its user's row, and deleting a user deletes their identities.
-/
import Zesterm.Core.Cell
import Zesterm.Lib.Interleave
import Zesterm.Lib.Table

namespace Zesterm.Cloud

/-! ## The tables -/

/-- A row of `users`. -/
structure UserRow where
  email : Option Str
  displayName : Str
  avatarUrl : Option Str
  createdAt : Int
  updatedAt : Int
  disabledAt : Option Int := none
  deriving DecidableEq

/-- A row of `oauth_identities`, under its provider and subject. -/
structure IdentityRow where
  userId : Str
  email : Option Str
  emailVerified : Bool
  createdAt : Int
  lastLoginAt : Int
  deriving DecidableEq

/-- Does an identity assert this address, verified? -/
def IdentityRow.asserts (row : IdentityRow) (email : Str) : Bool :=
  row.email == some email && row.emailVerified

/-- `(provider, subject)`. -/
abbrev IdentityKey := Str × Str

structure Accounts where
  users : Table Str UserRow := ∅
  identities : Table IdentityKey IdentityRow := ∅

/-- What a provider tells of someone. -/
structure Profile where
  subject : Str
  email : Option Str
  emailVerified : Bool
  displayName : Str
  avatarUrl : Option Str
  deriving DecidableEq

/-- `LIMIT 1` with no order: some row, if there is one. -/
structure AnyOne (α : Type) where
  pick : List α → Option α
  mem : ∀ l a, pick l = some a → a ∈ l
  some_of_ne_nil : ∀ l, l ≠ [] → (pick l).isSome

namespace Accounts

/-- `SELECT user_id FROM oauth_identities WHERE provider = ? AND subject = ?`. -/
def owner (db : Accounts) (key : IdentityKey) : Option Str := (db.identities.lookup key).map (·.userId)

/-- `UPDATE oauth_identities SET last_login_at, email, email_verified`. -/
def touchIdentity (db : Accounts) (key : IdentityKey) (profile : Profile) (now : Int) : Accounts :=
  { db with
    identities := db.identities.adjust key fun row =>
      { row with lastLoginAt := now, email := profile.email, emailVerified := profile.emailVerified } }

/-- `UPDATE users SET display_name, avatar_url, updated_at`. -/
def touchUser (db : Accounts) (userId : Str) (profile : Profile) (now : Int) : Accounts :=
  { db with
    users := db.users.adjust userId fun row =>
      { row with displayName := profile.displayName, avatarUrl := profile.avatarUrl, updatedAt := now } }

/-- `SELECT user_id FROM oauth_identities WHERE email = ? AND email_verified = 1
LIMIT 1`. -/
def linkable (db : Accounts) (limit1 : AnyOne IdentityRow) (email : Str) : Option Str :=
  (limit1.pick (db.identities.values.filter (IdentityRow.asserts · email))).map (·.userId)

/-- `INSERT INTO users`; `none` is a conflict with the primary key. -/
def insertUser (db : Accounts) (userId : Str) (profile : Profile) (now : Int) : Option Accounts :=
  if userId ∈ db.users then none
  else some { db with
    users := db.users.insert userId
      { email := profile.email, displayName := profile.displayName,
        avatarUrl := profile.avatarUrl, createdAt := now, updatedAt := now } }

/-- `INSERT INTO oauth_identities … ON CONFLICT (provider, subject) DO NOTHING`;
`none` is a user that is not there. -/
def insertIdentity (db : Accounts) (key : IdentityKey) (userId : Str) (profile : Profile)
    (now : Int) : Option Accounts :=
  if key ∈ db.identities then some db
  else if userId ∈ db.users then
    some { db with
      identities := db.identities.insert key
        { userId := userId, email := profile.email, emailVerified := profile.emailVerified,
          createdAt := now, lastLoginAt := now } }
  else none

/-- `DELETE FROM users WHERE id = ?`, and what refers to the row. -/
def deleteUser (db : Accounts) (userId : Str) : Accounts :=
  { users := db.users.erase userId
    identities := db.identities.keep fun _ row => row.userId ≠ userId }

end Accounts

/-! ## A call -/

/-- Which statement of `upsertUser` is next, and what is known by then. -/
inductive UpsertPhase where
  | lookup
  | touchIdentity (userId : Str)
  | touchUser (userId : Str)
  | link
  | create
  /-- The identity is to be inserted; `createdUserId` is the row this call made. -/
  | attach (userId : Str) (createdUserId : Option Str)
  | settle (userId : Str) (createdUserId : Option Str)
  | discard (winner createdUserId : Str)
  | done (userId : Str)
  /-- A statement threw. -/
  | rejected
  deriving DecidableEq

/-- The arguments of `upsertUser`, and what it draws. -/
structure UpsertArgs where
  provider : Str
  profile : Profile
  now : Int
  /-- What `newUserId` gives this call. -/
  newUserId : Str
  limit1 : AnyOne IdentityRow

/-- A call of `upsertUser` between two of its statements. -/
structure UpsertUser extends UpsertArgs where
  phase : UpsertPhase

namespace UpsertUser

def begin (args : UpsertArgs) : UpsertUser := { args with phase := .lookup }

def key (call : UpsertUser) : IdentityKey := (call.provider, call.profile.subject)

/-- After the look-up found nothing: is there an address to link on? -/
def afterLookup (call : UpsertUser) : UpsertPhase :=
  if call.profile.emailVerified && call.profile.email.isSome then .link else .create

/-- After the identity has been read back: `winner` is whose it is. -/
def afterSettle (winner : Str) : Option Str → UpsertPhase
  | some createdUserId =>
    if winner ≠ createdUserId then .discard winner createdUserId else .done winner
  | none => .done winner

/-- The next statement of a call. -/
def runStatement (db : Accounts) (call : UpsertUser) : Accounts × UpsertUser :=
  match call.phase with
  | .lookup =>
    match db.owner call.key with
    | some userId => (db, { call with phase := .touchIdentity userId })
    | none => (db, { call with phase := call.afterLookup })
  | .touchIdentity userId =>
    (db.touchIdentity call.key call.profile call.now, { call with phase := .touchUser userId })
  | .touchUser userId =>
    (db.touchUser userId call.profile call.now, { call with phase := .done userId })
  | .link =>
    match call.profile.email.bind (db.linkable call.limit1) with
    | some userId => (db, { call with phase := .attach userId none })
    | none => (db, { call with phase := .create })
  | .create =>
    match db.insertUser call.newUserId call.profile call.now with
    | some db => (db, { call with phase := .attach call.newUserId (some call.newUserId) })
    | none => (db, { call with phase := .rejected })
  | .attach userId createdUserId =>
    match db.insertIdentity call.key userId call.profile call.now with
    | some db => (db, { call with phase := .settle userId createdUserId })
    | none => (db, { call with phase := .rejected })
  | .settle userId createdUserId =>
    (db, { call with phase := afterSettle ((db.owner call.key).getD userId) createdUserId })
  | .discard winner createdUserId =>
    (db.deleteUser createdUserId, { call with phase := .done winner })
  | .done _ | .rejected => (db, call)

/-- Has the call been answered? -/
def answered (call : UpsertUser) : Bool :=
  match call.phase with
  | .done _ | .rejected => true
  | _ => false

end UpsertUser

/-- The accounts and every call of `upsertUser` there has been. -/
abbrev SignIns := Interleave.State Accounts UpsertUser

/-- One statement of one call, or a call that begins. -/
def SignIns.act : SignIns → Interleave.Move UpsertArgs → SignIns × Unit :=
  Interleave.act UpsertUser.begin UpsertUser.runStatement

end Zesterm.Cloud
