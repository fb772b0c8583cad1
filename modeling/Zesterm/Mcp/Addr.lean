/-
Zesterm.Mcp.Addr — how a tool call names a session: `zest-mcp`'s `addr.rs`.

The hosts a resolver knows are keyed by their hex in the source, which spells
the id out; here by the id, and listed in the order of the hex.
-/
import Zesterm.Lib.Table
import Zesterm.Mesh.Connect

namespace Zesterm.Mcp

/-- `AddrError`. -/
inductive AddrError where
  | malformed (text : Str)
  | badSession (text : Str)
  | unknownHost (asked known : Str)
  | ambiguousHost (asked : Str) (count : Nat) (candidates : Str)
  deriving DecidableEq

/-- The hosts this process has listed. -/
structure Resolver where
  /-- The label each host goes by. -/
  known : Table HostId Str := ∅

/-- Full hex. -/
def hex32 (host : HostId) : Str := hexEncode host.bytes.toList

/-- `str::to_ascii_lowercase`. -/
def toAsciiLowercase (s : Str) : Str := s.map Char.toLower

/-- `str::rsplit_once`. -/
def rsplitOnce (sep : Char) : Str → Option (Str × Str)
  | [] => none
  | c :: cs =>
    match rsplitOnce sep cs with
    | some (before, after) => some (c :: before, after)
    | none => if c = sep then some ([], cs) else none

/-- The greatest session number. -/
def u64Max : Nat := 2 ^ 64 - 1

namespace Resolver

def learn (r : Resolver) (host : HostId) (label : Str) : Resolver :=
  { known := r.known.insert host label }

/-- What is known, in the order of the hex. -/
def values (r : Resolver) : List (HostId × Str) :=
  (r.known.entries.map fun e => (e.1, e.2)).insertionSort fun a b =>
    a.1.bytes.toList ≤ b.1.bytes.toList

/-- How this server spells an address back. -/
def format (addr : SessionAddr) : Str := addr.host.short ++ ':' :: showNat addr.session.toNat

def describe (hosts : List (HostId × Str)) : Str :=
  ", ".toList.intercalate (hosts.map fun h => h.1.short ++ " (".toList ++ h.2 ++ [')'])

def summary (r : Resolver) : Str :=
  if r.known.entries.isEmpty then "nothing yet -- call `hosts` first".toList
  else describe r.values

/-- One spelling of "say which". -/
def ambiguous (asked : Str) (hosts : List (HostId × Str)) : AddrError :=
  .ambiguousHost asked hosts.length (describe hosts)

/-- Resolve a host: by an exact label first, then by a prefix of the hex. -/
def host (r : Resolver) (asked : Str) : Except AddrError HostId :=
  let needle := toAsciiLowercase asked
  match r.values.filter fun h => toAsciiLowercase h.2 = needle with
  | [h] => .ok h.1
  | h :: h' :: rest => .error (ambiguous asked (h :: h' :: rest))
  | [] =>
    match r.values.filter fun h => needle.isPrefixOf (hex32 h.1) with
    | [h] => .ok h.1
    | [] => .error (.unknownHost asked r.summary)
    | h :: h' :: rest => .error (ambiguous asked (h :: h' :: rest))

/-- Parse `<host>:<session>` against the hosts this process has listed. -/
def resolve (r : Resolver) (s : Str) : Except AddrError SessionAddr :=
  match rsplitOnce ':' s with
  | none => .error (.malformed s)
  | some (hostPart, sessionPart) =>
    if hostPart.isEmpty then .error (.malformed s)
    else
      match parseUnsigned u64Max sessionPart with
      | none => .error (.badSession sessionPart)
      | some session =>
        match r.host hostPart with
        | .error e => .error e
        | .ok host => .ok { host := host, session := UInt64.ofNat session }

end Resolver

end Zesterm.Mcp
