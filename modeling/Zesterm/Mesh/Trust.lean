/-
Zesterm.Mesh.Trust — the trust store that is a file: `FileTrustStore` of
`zest-mesh`'s `trust.rs`.

The index in memory and the file on disk are edited in two steps, each of
which may be the last: `flush` serialises, makes the directory, writes a
temporary file and renames it, and what each of these met is an argument of
the call (`Disk`). The file is what the rename left; the temporary one is
never read. The TOML crate is a parameter, and so are the texts of the
system's errors.
-/
import Zesterm.Lib.Table
import Zesterm.Mesh.Pairing

namespace Zesterm

/-! ## The file format -/

/-- Unix seconds, of a clock that may stand before the epoch. -/
def toUnix (t : SystemTime) : Nat := (t / 10 ^ 9).toNat

def fromUnix (secs : Nat) : SystemTime := secs * 10 ^ 9

structure ClientEntry where
  id : ClientId
  label : Str
  pairedAt : Nat
  lastSeen : Option Nat
  deriving DecidableEq

structure TrustFile where
  version : Nat
  clients : List ClientEntry
  deriving DecidableEq

/-- `FORMAT_VERSION`. -/
def formatVersion : Nat := 1

/-- The TOML crate, for this file. -/
structure Toml where
  write : TrustFile → Except Str Str
  read : Str → Except Str TrustFile

/-- What is written reads back. -/
def Toml.Faithful (toml : Toml) : Prop :=
  ∀ file text, toml.write file = .ok text → toml.read text = .ok file

def TrustRecord.entry (r : TrustRecord) : ClientEntry :=
  { id := r.client, label := r.label, pairedAt := toUnix r.pairedAt, lastSeen := r.lastSeen.map toUnix }

def ClientEntry.record (c : ClientEntry) : TrustRecord :=
  { client := c.id, label := c.label, pairedAt := fromUnix c.pairedAt,
    lastSeen := c.lastSeen.map fromUnix }

/-! ## The store -/

/-- `BTreeMap<[u8; 32], TrustRecord>`. -/
abbrev TrustIndex := Table ClientId TrustRecord

/-- The records in key order. -/
def TrustIndex.values (index : TrustIndex) : List TrustRecord :=
  (index.entries.mergeSort fun a b => decide (a.1.bytes.toList ≤ b.1.bytes.toList)).map Sigma.snd

/-- What reading the file comes to. -/
inductive FileFound where
  | text (text : Str)
  | notFound
  | unreadable (reason : Str)
  deriving DecidableEq

/-- What the steps of a write meet. -/
structure Disk where
  createDir : Except Str Unit := .ok ()
  writeTmp : Except Str Unit := .ok ()
  rename : Except Str Unit := .ok ()

/-- A store and where it keeps its records. -/
structure FileTrustStore where
  path : Str
  /-- The parent of `path`, if it has one. -/
  dir : Option Str
  /-- `path` under the extension of the temporary file. -/
  tmp : Str
  index : TrustIndex := ∅
  dirtySince : Option SystemTime := none

/-- `LAST_SEEN_DEBOUNCE`. -/
def lastSeenDebounce : Int := 60 * 10 ^ 9

/-- An error of the store, naming a path. -/
def storeError (path reason : Str) : MeshError := .store (path ++ ": ".toList ++ reason)

def parse (toml : Toml) (text path : Str) : Except MeshError TrustIndex :=
  match toml.read text with
  | .error e => .error (.store (path ++ " is not readable: ".toList ++ e))
  | .ok file =>
    if file.version > formatVersion then
      .error (.store (path ++ " is version ".toList ++ showNat file.version ++
        " and this build understands ".toList ++ showNat formatVersion))
    else
      -- Of two entries for one client the later stands.
      .ok (file.clients.reverse.map fun c => (⟨c.id, c.record⟩ : Sigma fun _ => TrustRecord)).toAList

namespace FileTrustStore

/-- Open, with an empty store where there is no file yet. -/
def «open» (toml : Toml) (path : Str) (dir : Option Str) (tmp : Str) :
    FileFound → Except MeshError FileTrustStore
  | .text text => (parse toml text path).map fun index => { path, dir, tmp, index }
  | .notFound => .ok { path, dir, tmp }
  | .unreadable reason => .error (storeError path reason)

/-- The file an index is written as. -/
def fileOf (index : TrustIndex) : TrustFile :=
  { version := formatVersion, clients := index.values.map TrustRecord.entry }

/-- Write the whole file: its new text, or why there is none. -/
def flush (toml : Toml) (disk : Disk) (s : FileTrustStore) (index : TrustIndex) :
    Except MeshError Str := do
  let text ← (toml.write (fileOf index)).mapError fun e => .store ("serializing trust: ".toList ++ e)
  match s.dir with
  | some dir => disk.createDir.mapError (storeError dir)
  | none => pure ()
  disk.writeTmp.mapError (storeError s.tmp)
  disk.rename.mapError (storeError s.path)
  return text

def get (s : FileTrustStore) (client : ClientId) : Except MeshError (Option TrustRecord) :=
  .ok (s.index.lookup client)

def list (s : FileTrustStore) : Except MeshError (List TrustRecord) := .ok s.index.values

def insert (toml : Toml) (disk : Disk) (s : FileTrustStore) (record : TrustRecord) :
    FileTrustStore × Except MeshError Str :=
  let s := { s with index := s.index.insert record.client record }
  (s, s.flush toml disk s.index)

/-- `Ok` with no text where nothing had to be written. -/
def remove (toml : Toml) (disk : Disk) (s : FileTrustStore) (client : ClientId) :
    FileTrustStore × Except MeshError (Option Str) :=
  let existed := (s.index.lookup client).isSome
  let s := { s with index := s.index.erase client }
  (s, if existed then (s.flush toml disk s.index).map some else .ok none)

/-- Note when a client was last seen; written once a minute at most. -/
def touch (toml : Toml) (disk : Disk) (s : FileTrustStore) (client : ClientId) (at' : SystemTime) :
    FileTrustStore × Except MeshError (Option Str) :=
  match s.index.lookup client with
  | none => (s, .ok none)
  | some record =>
    let s := { s with index := s.index.insert client { record with lastSeen := some at' } }
    let due := s.dirtySince.all fun since => decide (max (at' - since) 0 ≥ lastSeenDebounce)
    if due then ({ s with dirtySince := some at' }, (s.flush toml disk s.index).map some)
    else (s, .ok none)

end FileTrustStore

/-! ## The store over its file -/

/-- A store and the file it keeps. -/
structure TrustKeeper where
  store : FileTrustStore
  file : Option Str

namespace TrustKeeper

inductive Call where
  | insert (record : TrustRecord) (disk : Disk)
  | remove (client : ClientId) (disk : Disk)

/-- What reading a file that is there or not comes to. -/
def found : Option Str → FileFound
  | some text => .text text
  | none => .notFound

/-- A call that may leave a new text in the file. -/
def settle (k : TrustKeeper) : FileTrustStore × Except MeshError (Option Str) →
    TrustKeeper × Except MeshError Unit
  | (s, .error e) => ({ k with store := s }, .error e)
  | (s, .ok none) => ({ k with store := s }, .ok ())
  | (s, .ok (some text)) => ({ store := s, file := some text }, .ok ())

def step (toml : Toml) (k : TrustKeeper) : Call → TrustKeeper × Except MeshError Unit
  | .insert record disk =>
    let (s, written) := k.store.insert toml disk record
    k.settle (s, written.map some)
  | .remove client disk => k.settle (k.store.remove toml disk client)

end TrustKeeper

end Zesterm
