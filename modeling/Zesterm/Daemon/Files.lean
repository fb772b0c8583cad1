/-
Zesterm.Daemon.Files — reading and writing one file for the built-in editor:
`zest-daemon`'s `files.rs`.

Each connection has a thread of its own, and a request is a few calls of the
file system with nothing held between them. So a request is a task here,
`OneFile.step` is the next call of one task, and a run is any order of such
calls. What is modelled is one file: the path requests lead to, over however
many symbolic links, and what stands there. Links and directories do not
change, and nothing but the requests writes the file.

A call that fails does so with a text (`Fault`), which may happen to any
call. An open file is a file a rename can replace but not change, so opening
and reading are one call. SHA-256 is a parameter.
-/
import Zesterm.Lib.Table
import Zesterm.Lib.Trace
import Zesterm.Mesh.Identity

namespace Zesterm.Files

/-- `READ_CAP`. -/
def readCap : Nat := 4 * 1024 * 1024

/-- `SNIFF`. -/
def sniff : Nat := 8 * 1024

/-- SHA-256. -/
abbrev Sha256 := List UInt8 → Vector UInt8 32

/-- Lowercase hex of a digest. -/
def hashHex (sha256 : Sha256) (bytes : List UInt8) : Str := hexEncode (sha256 bytes).toList

/-- The text of an `io::Error`. -/
abbrev Fault := { text : Str // text ≠ [] }

/-- What stands at the path. -/
inductive Node where
  | regular (bytes : List UInt8) (readonly : Bool)
  | directory
  /-- A socket, a pipe or a device. -/
  | special
  deriving DecidableEq

/-- Why this is not something the editor can open, if it is not. -/
def notARegularFile : Node → Option Str
  | .regular _ _ => none
  | .directory => some "that is a directory".toList
  | .special => some "that is not a regular file".toList

/-- `io::ErrorKind::NotFound`. -/
def notFound : Str := "No such file or directory (os error 2)".toList

/-! ## Requests -/

/-- How a request leads to the file: what the client named, how many
symbolic links stand between that and the file, and the directory they end
in as the last of them spells it. -/
structure Route where
  path : Str
  cwd : Str
  links : Nat
  dir : Str
  deriving DecidableEq

/-- Where a client's path lands on this file system. -/
def Route.join (r : Route) : Except Str Str :=
  if r.path = [] then .error "no path given".toList
  else if r.path.head? = some '/' then .ok r.path
  else if r.cwd = [] then
    .error (r.path ++ " is relative and no working directory came with it".toList)
  else if r.cwd.getLast? = some '/' then .ok (r.cwd ++ r.path)
  else .ok (r.cwd ++ '/' :: r.path)

/-- `MAX_HOPS`. -/
def maxHops : Nat := 16

/-- What a request is answered with. -/
inductive FileReply where
  | contents (path : Str) (data : List UInt8) (truncated binary : Bool) (hash : Str) (size : Nat)
      (readonly : Bool) (error : Str)
  | written (path hash : Str) (conflict : Bool) (error : Str)
  deriving DecidableEq

def readRefusal (path why : Str) : FileReply := .contents path [] false false [] 0 false why

def writeRefusal (path why : Str) : FileReply := .written path [] false why

/-- What is being saved. -/
structure Save where
  data : List UInt8
  baseHash : Str
  deriving DecidableEq

/-- The call a request makes next. -/
inductive Task where
  | readResolve (route : Route)
  | readStat
  | readOpen (size : Nat) (readonly : Bool)
  | writeResolve (route : Route) (save : Save)
  /-- The directory is resolved, of a file that is not there. -/
  | writeParent (route : Route) (save : Save)
  | writeStat (save : Save)
  /-- `disk_hash`, of a file that is there. -/
  | writeHash (save : Save) (readonly : Bool)
  /-- The sibling is written and flushed. `existing` is the mode to carry
  over, `seen` the hash the file was found to have, if there was one. -/
  | writeTmp (save : Save) (existing : Option Bool) (seen : Option Str)
  /-- The mode of the file is put on the sibling. -/
  | writeMode (save : Save) (readonly : Bool) (seen : Option Str)
  | writeRename (save : Save) (readonly : Bool) (seen : Option Str)
  deriving DecidableEq

/-- What a call leads to: another call, or the answer. -/
inductive Next where
  | call (task : Task)
  | reply (r : FileReply)
  deriving DecidableEq

/-! ## Calls -/

section Calls

variable (sha256 : Sha256)

/-- `read_file`, up to the path being known. -/
def readResolve (route : Route) (node : Option Node) (fault : Option Fault) : Next :=
  match route.join with
  | .error why => .reply (readRefusal route.path why)
  | .ok joined =>
    match fault, node with
    | some e, _ => .reply (readRefusal joined e.val)
    | none, none => .reply (readRefusal joined notFound)
    | none, some _ => .call .readStat

def readStat (shown : Str) (node : Option Node) (fault : Option Fault) : Next :=
  match fault, node with
  | some e, _ => .reply (readRefusal shown e.val)
  | none, none => .reply (readRefusal shown notFound)
  | none, some (.regular bytes readonly) => .call (.readOpen bytes.length readonly)
  | none, some .directory => .reply (readRefusal shown "that is a directory".toList)
  | none, some .special => .reply (readRefusal shown "that is not a regular file".toList)

/-- What a read hands over of the bytes of a file. -/
def fileContents (shown : Str) (size : Nat) (readonly : Bool) (bytes : List UInt8) : FileReply :=
  let data := bytes.take (readCap + 1)
  let truncated := decide (data.length > readCap)
  let data := data.take readCap
  .contents shown data truncated ((data.take sniff).any (· == 0))
    (if truncated then [] else hashHex sha256 data) size readonly []

def readOpen (shown : Str) (size : Nat) (readonly : Bool) (node : Option Node)
    (fault : Option Fault) : Next :=
  match fault, node with
  | some e, _ => .reply (readRefusal shown e.val)
  | none, some (.regular bytes _) => .reply (fileContents sha256 shown size readonly bytes)
  | none, none => .reply (readRefusal shown notFound)
  | none, some .directory => .reply (readRefusal shown "Is a directory (os error 21)".toList)
  | none, some .special => .reply (readRefusal shown "No such device or address (os error 6)".toList)

/-- `resolve_for_write`, up to the path as a whole: a file that is not there
yet is found by following the links by hand. -/
def writeResolve (route : Route) (save : Save) (node : Option Node) (fault : Option Fault) : Next :=
  match route.join with
  | .error why => .reply (writeRefusal route.path why)
  | .ok joined =>
    match fault, node with
    | some e, _ => .reply (writeRefusal route.path (joined ++ ": ".toList ++ e.val))
    | none, some _ => .call (.writeStat save)
    | none, none =>
      if maxHops < route.links then
        .reply (writeRefusal route.path (joined ++ ": too many symbolic links".toList))
      else .call (.writeParent route save)

def writeParent (route : Route) (save : Save) (fault : Option Fault) : Next :=
  match fault with
  | some e =>
    let dir := if route.dir = [] then ['.'] else route.dir
    .reply (writeRefusal route.path (dir ++ ": ".toList ++ e.val))
  | none => .call (.writeStat save)

/-- The stat of a write and the four ways the disk can stand to the base. A
stat that fails counts as no file. -/
def writeStat (shown : Str) (save : Save) (node : Option Node) (fault : Option Fault) : Next :=
  match (if fault = none then node else none) with
  | some (.regular _ readonly) => .call (.writeHash save readonly)
  | some .directory => .reply (writeRefusal shown "that is a directory".toList)
  | some .special => .reply (writeRefusal shown "that is not a regular file".toList)
  | none =>
    if save.baseHash = [] then .call (.writeTmp save none none)
    else .reply (.written shown [] true "the file is gone".toList)

/-- The hash of what is on disk. -/
def diskHash (node : Option Node) (fault : Option Fault) : Except Str Str :=
  match fault, node with
  | some e, _ => .error e.val
  | none, none => .error notFound
  | none, some .directory => .error "that is a directory".toList
  | none, some .special => .error "that is not a regular file".toList
  | none, some (.regular bytes _) =>
    if (bytes.take (readCap + 1)).length > readCap then
      .error "that file is too large for the editor to check against".toList
    else .ok (hashHex sha256 (bytes.take (readCap + 1)))

def writeHash (shown : Str) (save : Save) (readonly : Bool) (node : Option Node)
    (fault : Option Fault) : Next :=
  match diskHash sha256 node fault with
  | .error why => .reply (writeRefusal shown why)
  | .ok disk =>
    if save.baseHash = [] then .reply (.written shown disk true "a file is already there".toList)
    else if disk ≠ save.baseHash then
      .reply (.written shown disk true "the file changed on disk since it was opened".toList)
    else .call (.writeTmp save (some readonly) (some disk))

def writeTmp (shown : Str) (save : Save) (existing : Option Bool) (seen : Option Str)
    (fault : Option Fault) : Next :=
  match fault with
  | some e => .reply (writeRefusal shown e.val)
  | none =>
    match existing with
    | some readonly => .call (.writeMode save readonly seen)
    | none => .call (.writeRename save false seen)

/-- A mode that cannot be set is let go. -/
def writeMode (save : Save) (readonly : Bool) (seen : Option Str) (fault : Option Fault) : Next :=
  .call (.writeRename save (readonly && fault.isNone) seen)

/-- The rename: what stands at the path after it, and the answer. -/
def writeRename (shown : Str) (save : Save) (readonly : Bool) (node : Option Node)
    (fault : Option Fault) : Option Node × FileReply :=
  match fault, node with
  | some e, _ => (node, writeRefusal shown e.val)
  | none, some .directory => (node, writeRefusal shown "Is a directory (os error 21)".toList)
  | none, _ =>
    (some (.regular save.data readonly), .written shown (hashHex sha256 save.data) false [])

end Calls

/-! ## The file and the requests on it -/

/-- The file and the requests that are being answered, by connection. -/
structure OneFile where
  /-- The path as it is shown, links followed. -/
  shown : Str
  node : Option Node
  tasks : Table Nat Task := ∅

/-- What happens next: a request arrives on a connection that waits for
none, or the request of a connection makes its next call. -/
inductive FileEvent where
  | readFile (conn : Nat) (route : Route)
  | writeFile (conn : Nat) (route : Route) (save : Save)
  | call (conn : Nat) (fault : Option Fault)
  deriving DecidableEq

namespace OneFile

/-- A request arrives, unless the connection is still waiting for one. -/
def begin (s : OneFile) (conn : Nat) (task : Task) : OneFile :=
  if (s.tasks.lookup conn).isSome then s else { s with tasks := s.tasks.insert conn task }

/-- A request goes on or is answered. -/
def advance (s : OneFile) (conn : Nat) : Next → OneFile × Option FileReply
  | .call task => ({ s with tasks := s.tasks.insert conn task }, none)
  | .reply r => ({ s with tasks := s.tasks.erase conn }, some r)

/-- The next call of a request. -/
def perform (sha256 : Sha256) (s : OneFile) (conn : Nat) (fault : Option Fault) :
    Task → OneFile × Option FileReply
  | .readResolve route => s.advance conn (readResolve route s.node fault)
  | .readStat => s.advance conn (readStat s.shown s.node fault)
  | .readOpen size readonly => s.advance conn (readOpen sha256 s.shown size readonly s.node fault)
  | .writeResolve route save => s.advance conn (writeResolve route save s.node fault)
  | .writeParent route save => s.advance conn (writeParent route save fault)
  | .writeStat save => s.advance conn (writeStat s.shown save s.node fault)
  | .writeHash save readonly =>
    s.advance conn (writeHash sha256 s.shown save readonly s.node fault)
  | .writeTmp save existing seen => s.advance conn (writeTmp s.shown save existing seen fault)
  | .writeMode save readonly seen => s.advance conn (writeMode save readonly seen fault)
  | .writeRename save readonly _ =>
    let after := writeRename sha256 s.shown save readonly s.node fault
    { s with node := after.1 }.advance conn (.reply after.2)

def step (sha256 : Sha256) (s : OneFile) : FileEvent → OneFile × Option FileReply
  | .readFile conn route => (s.begin conn (.readResolve route), none)
  | .writeFile conn route save => (s.begin conn (.writeResolve route save), none)
  | .call conn fault =>
    match s.tasks.lookup conn with
    | none => (s, none)
    | some task => s.perform sha256 conn fault task

end OneFile

end Zesterm.Files
