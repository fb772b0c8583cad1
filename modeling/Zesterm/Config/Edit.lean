/-
Zesterm.Config.Edit — editing the settings file in place: the writers of
`zest-config`.

A settings file is TOML that people write by hand, so an edit reads it,
changes one place of the document and writes the document back. The document
is a nested table here (`KeyTree`): what is neither a table nor an inline
table, an array of tables included, is a value of some type `V`, and comments
and order are not modelled. Indexing a value by a key panics; indexing a
table makes the key.

`toml_edit` is a parameter that parses what it prints. Saving goes by a
sibling file and a rename, each call of which may fail; the file then stands
as it stood.
-/
import Zesterm.Core.Text
import Zesterm.Lib.KeyTree

namespace Zesterm.Config

open KeyTree

variable {V : Type}

/-- A document: its root table. -/
abbrev Doc (V : Type) := Entries Str V

/-- `toml_edit`, of documents as nested tables. -/
structure Toml (V : Type) where
  parse : Str → Except Str (Doc V)
  print : Doc V → Str
  parse_nil : parse [] = .ok []
  parse_print : ∀ doc, parse (print doc) = .ok doc

/-! ## The file -/

/-- A file that is there, and whether its mode lets it be read. -/
structure File where
  bytes : ByteArray
  readable : Bool

instance : DecidableEq File := fun a b =>
  decidable_of_iff (a.bytes.data = b.bytes.data ∧ a.readable = b.readable) (by
    cases a
    cases b
    simp [ByteArray.ext_iff])

/-- `io::ErrorKind`, as far as the writers give one. -/
inductive ErrorKind where
  | notFound
  | permissionDenied
  | invalidData
  | alreadyExists
  | other
  deriving DecidableEq

/-- `io::Error`. -/
structure OsError where
  kind : ErrorKind
  text : Str
  deriving DecidableEq

/-- `fs::read_to_string`. -/
def readToString : Option File → Except OsError Str
  | none => .error ⟨.notFound, "No such file or directory (os error 2)".toList⟩
  | some f =>
    if f.readable then
      match String.fromUTF8? f.bytes with
      | some s => .ok s.toList
      | none => .error ⟨.invalidData, "stream did not contain valid UTF-8".toList⟩
    else .error ⟨.permissionDenied, "Permission denied (os error 13)".toList⟩

/-- `read_to_string` with `unwrap_or_default`. -/
def readOrDefault (file : Option File) : Str :=
  match readToString file with
  | .ok text => text
  | .error _ => []

/-- How the calls of one save go. -/
structure SaveCalls where
  /-- The path has a parent: it is neither `/` nor empty. -/
  hasParent : Bool
  /-- The error of writing a path that has none, and names no file. -/
  direct : OsError
  createDirAll : Option OsError
  create : Option OsError
  writeAll : Option OsError
  syncAll : Option OsError
  setPermissions : Bool
  rename : Option OsError
  deriving DecidableEq

/-- Replace the file with `text`. -/
def save (file : Option File) (text : Str) (calls : SaveCalls) : Except OsError Unit × Option File :=
  if calls.hasParent then
    match calls.createDirAll with
    | some e => (.error e, file)
    | none =>
      match calls.create <|> calls.writeAll <|> calls.syncAll with
      | some e => (.error e, file)
      | none =>
        -- The sibling is born readable and takes the mode of the file it
        -- replaces, if there is one.
        let readable := match file with
          | some f => if calls.setPermissions then f.readable else true
          | none => true
        match calls.rename with
        | some e => (.error e, file)
        | none => (.ok (), some ⟨(String.ofList text).toUTF8, readable⟩)
  else (.error calls.direct, file)

/-! ## Documents -/

/-- What a writer makes of the document it read. -/
inductive Edited (V : Type) where
  | save (doc : Doc V)
  | leave
  | fail (e : OsError)
  | panicked

/-- `write_at`'s walk to the place of the value. `none` is the panic of an
index into a value. -/
def writeIn (value : KeyTree.Item Str V) : List Str → Doc V → Option (Doc V)
  | [], table => some table
  | [last], table => some (put last value table)
  | group :: next :: rest, table =>
    match find group table with
    | none => (writeIn value (next :: rest) []).map fun child => put group (.table child) table
    | some (.table child) =>
      (writeIn value (next :: rest) child).map fun child => put group (.table child) table
    | some (.value _) => none

def writeDoc (parts : List Str) (value : KeyTree.Item Str V) (doc : Doc V) : Edited V :=
  if parts = [] then .leave
  else
    match writeIn value parts doc with
    | some doc => .save doc
    | none => .panicked

/-- `Item::get` of a key. -/
def itemGet (name : Str) : KeyTree.Item Str V → Option (KeyTree.Item Str V)
  | .value _ => none
  | .table entries => find name entries

def profilesKey : Str := "profiles".toList

def createDoc (name : Str) (doc : Doc V) : Edited V :=
  if ((find profilesKey doc).bind (itemGet name)).isSome then .leave
  else
    match find profilesKey doc with
    | none => .save (put profilesKey (.table [(name, .table [])]) doc)
    | some (.table profiles) => .save (put profilesKey (.table (put name (.table []) profiles)) doc)
    | some (.value _) => .panicked

def copyDoc (origin target : Str) (doc : Doc V) : Edited V :=
  match (find profilesKey doc).bind (itemGet origin) with
  | none => .fail ⟨.notFound, "no profile `".toList ++ origin ++ "` to copy".toList⟩
  | some source =>
    match find profilesKey doc with
    | some (.table profiles) => .save (put profilesKey (.table (put target source profiles)) doc)
    | _ => .panicked

def renameDoc (origin target : Str) (doc : Doc V) : Edited V :=
  match find profilesKey doc with
  | some (.table profiles) =>
    if (find target profiles).isSome then
      .fail ⟨.alreadyExists, "a profile named `".toList ++ target ++ "` already exists".toList⟩
    else
      match find origin profiles with
      | some source =>
        .save (put profilesKey (.table (put target source (drop origin profiles))) doc)
      | none => .fail ⟨.notFound, "no profile `".toList ++ origin ++ "` to rename".toList⟩
  | _ => .fail ⟨.notFound, "no profile `".toList ++ origin ++ "` to rename".toList⟩

/-- `remove_in`: whether it removed, and the table afterwards. -/
def removeIn : List Str → Doc V → Bool × Doc V
  | [], table => (false, table)
  | [last], table => ((find last table).isSome, drop last table)
  | head :: next :: rest, table =>
    match find head table with
    | some (.table child) =>
      let removed := removeIn (next :: rest) child
      if removed.1 ∧ removed.2 = [] then (true, drop head table)
      else (removed.1, put head (.table removed.2) table)
    | _ => (false, table)

def removeDoc (parts : List Str) (doc : Doc V) : Edited V :=
  let removed := removeIn parts doc
  if removed.1 then .save removed.2 else .leave

/-- `list_profiles`. -/
def listProfiles (doc : Doc V) : List Str :=
  match find profilesKey doc with
  | some (.table profiles) => (profiles.map Prod.fst).filter (· ≠ "defaults".toList)
  | _ => []

/-! ## Writers -/

/-- A call of one of the writers. A value may be an inline table. -/
inductive Call (V : Type) where
  | writeValue (key : Str) (value : KeyTree.Item Str V)
  | writeProfileValue (profile key : Str) (value : KeyTree.Item Str V)
  | removeValue (key : Str)
  | removeProfileValue (profile key : Str)
  | createProfile (name : Str)
  | copyProfile (origin target : Str)
  | renameProfile (origin target : Str)
  | removeProfile (name : Str)

/-- How a call ends. -/
inductive Outcome where
  | done
  | failed (e : OsError)
  | panicked
  deriving DecidableEq

section Writers

variable (toml : Toml V) (calls : SaveCalls) (file : Option File)

/-- The end of a writer. -/
def commit : Edited V → Outcome × Option File
  | .save doc =>
    match save file (toml.print doc) calls with
    | (.ok _, file) => (.done, file)
    | (.error e, file) => (.failed e, file)
  | .leave => (.done, file)
  | .fail e => (.failed e, file)
  | .panicked => (.panicked, file)

/-- Parse, edit and save. -/
def editText (text : Str) (edit : Doc V → Edited V) : Outcome × Option File :=
  match toml.parse text with
  | .error e => (.failed ⟨.invalidData, e⟩, file)
  | .ok doc => commit toml calls file (edit doc)

def writeAt (parts : List Str) (value : KeyTree.Item Str V) : Outcome × Option File :=
  editText toml calls file (readOrDefault file) (writeDoc parts value)

def removeAt (parts : List Str) : Outcome × Option File :=
  match readToString file with
  | .error _ => (.done, file)
  | .ok text => editText toml calls file text (removeDoc parts)

def writeValue (key : Str) (value : KeyTree.Item Str V) : Outcome × Option File :=
  writeAt toml calls file (splitOn '.' key) value

/-- The profile's name is one part of the path, never split. -/
def writeProfileValue (profile key : Str) (value : KeyTree.Item Str V) : Outcome × Option File :=
  writeAt toml calls file (profilesKey :: profile :: splitOn '.' key) value

def removeValue (key : Str) : Outcome × Option File :=
  removeAt toml calls file (splitOn '.' key)

def removeProfileValue (profile key : Str) : Outcome × Option File :=
  removeAt toml calls file (profilesKey :: profile :: splitOn '.' key)

def removeProfile (name : Str) : Outcome × Option File :=
  removeAt toml calls file [profilesKey, name]

def createProfile (name : Str) : Outcome × Option File :=
  editText toml calls file (readOrDefault file) (createDoc name)

def copyProfile (origin target : Str) : Outcome × Option File :=
  match readToString file with
  | .error e => (.failed e, file)
  | .ok text => editText toml calls file text (copyDoc origin target)

def renameProfile (origin target : Str) : Outcome × Option File :=
  if origin = target then (.done, file)
  else
    match readToString file with
    | .error e => (.failed e, file)
    | .ok text => editText toml calls file text (renameDoc origin target)

/-- One call. -/
def run : Call V → Outcome × Option File
  | .writeValue key value => writeValue toml calls file key value
  | .writeProfileValue profile key value => writeProfileValue toml calls file profile key value
  | .removeValue key => removeValue toml calls file key
  | .removeProfileValue profile key => removeProfileValue toml calls file profile key
  | .createProfile name => createProfile toml calls file name
  | .copyProfile origin target => copyProfile toml calls file origin target
  | .renameProfile origin target => renameProfile toml calls file origin target
  | .removeProfile name => removeProfile toml calls file name

end Writers

end Zesterm.Config
