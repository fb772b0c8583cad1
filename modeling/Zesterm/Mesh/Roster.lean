/-
Zesterm.Mesh.Roster — who is out there and how sure we are: `roster.rs` and
the reading half of `txt.rs`, in `zest-mesh`'s discovery.

The roster is a state machine over what the link reports, with no socket in
it. `Roster.step` is one call into it; the responder's thread and the
dialling callers are whoever makes the calls, in any order.

An `Instant` is a count of nanoseconds, and the difference of two of them
stops at zero as `duration_since` does. Addresses are written as the
standard library writes them, since they are sorted by that text.
-/
import Zesterm.Lib.Table
import Zesterm.Lib.Trace
import Zesterm.Mesh.Identity
import Mathlib.Data.Char
import Mathlib.Data.List.Lex

namespace Zesterm

/-- `std::time::Instant`. -/
abbrev Instant := Nat

/-! ## Addresses -/

/-- `std::net::IpAddr`. -/
inductive IpAddr where
  | v4 (octets : Vector UInt8 4)
  | v6 (segments : Vector UInt16 8)
  deriving DecidableEq

/-- The longest run of zero segments, the first of several: where it starts
and how long it is. -/
def longestZeroes (segments : List UInt16) : Nat × Nat :=
  let visit := fun (s : (Nat × Nat) × (Nat × Nat)) (p : UInt16 × Nat) =>
    if p.1 = 0 then
      let current := (if s.2.2 = 0 then p.2 else s.2.1, s.2.2 + 1)
      (if s.1.2 < current.2 then current else s.1, current)
    else (s.1, (0, 0))
  (segments.zipIdx.foldl visit ((0, 0), (0, 0))).1

/-- Segments in hexadecimal, with colons between them. -/
def showSegments (segments : List UInt16) : Str :=
  [':'].intercalate (segments.map fun s => Nat.toDigits 16 s.toNat)

def showOctets (octets : List UInt8) : Str :=
  ['.'].intercalate (octets.map fun b => showNat b.toNat)

/-- `Display` of an IPv6 address. A mapped IPv4 address keeps its dots. -/
def showV6 (segments : List UInt16) : Str :=
  if segments.take 6 = [0, 0, 0, 0, 0, 0xffff] then
    "::ffff:".toList ++
      showOctets ((segments.drop 6).flatMap fun s : UInt16 => [(s >>> 8).toUInt8, s.toUInt8])
  else
    let zeroes := longestZeroes segments
    if 1 < zeroes.2 then
      showSegments (segments.take zeroes.1) ++ "::".toList ++
        showSegments (segments.drop (zeroes.1 + zeroes.2))
    else showSegments segments

/-- `ip.to_string()`. -/
def IpAddr.show : IpAddr → Str
  | .v4 octets => showOctets octets.toList
  | .v6 segments => showV6 segments.toList

/-- `SocketAddr::new(ip, port).to_string()`. -/
def showSocketAddr : IpAddr → UInt16 → Str
  | .v4 octets, port => showOctets octets.toList ++ ':' :: showNat port.toNat
  | .v6 segments, port =>
    '[' :: showV6 segments.toList ++ "]:".toList ++ showNat port.toNat

/-- `fe80::/10`. -/
def isUnicastLinkLocal (segments : Vector UInt16 8) : Bool :=
  segments[0] &&& 0xffc0 == 0xfe80

/-- Whether an address is worth putting in front of a caller. -/
def dialable : IpAddr → Bool
  | .v4 octets => octets[0] ≠ 127 && octets.toList ≠ [0, 0, 0, 0]
  | .v6 segments =>
    segments.toList ≠ [0, 0, 0, 0, 0, 0, 0, 1] && segments.toList ≠ [0, 0, 0, 0, 0, 0, 0, 0] &&
      !isUnicastLinkLocal segments

def rank : IpAddr → Nat
  | .v4 octets => if octets[0] = 169 ∧ octets[1] = 254 then 2 else 0
  | .v6 _ => 1

/-! ## Peers -/

/-- How a peer was found. -/
inductive Reachability where
  | loopback
  | lan
  | cloud
  deriving DecidableEq

/-- Somewhere a host can be reached. -/
structure Endpoint where
  host : HostId
  reachability : Reachability
  address : Str
  deriving DecidableEq

/-- A host with every way currently known to reach it. -/
structure Peer where
  host : HostId
  label : Str
  endpoints : List Endpoint
  deriving DecidableEq

/-- How present a peer is. -/
inductive Presence where
  | online
  | away
  | unseen
  | unreachable
  deriving DecidableEq

structure PeerRecord where
  peer : Peer
  presence : Presence
  lastSeen : Option Instant
  deriving DecidableEq

/-- `MAX_ENDPOINTS`. -/
def maxEndpoints : Nat := 4

/-- The order addresses are dialled in: by rank, then by text. -/
def dialsBefore (a b : IpAddr) : Prop :=
  rank a < rank b ∨ rank a = rank b ∧ a.show ≤ b.show

instance : DecidableRel dialsBefore := fun a b =>
  inferInstanceAs (Decidable (rank a < rank b ∨ rank a = rank b ∧ a.show ≤ b.show))

def endpointsFor (host : HostId) (addrs : List IpAddr) (port : UInt16) : List Endpoint :=
  let usable := ((addrs.filter dialable).insertionSort dialsBefore).destutter (· ≠ ·)
  (usable.take maxEndpoints).map fun ip =>
    { host, reachability := .lan, address := showSocketAddr ip port }

/-! ## What a host says about itself -/

/-- A claim about one host, as `txt.rs` decodes it. -/
structure Advertisement where
  host : HostId
  label : Str
  version : Nat
  deriving DecidableEq

def keyVersion : Str := "v".toList

def keyHostId : Str := "id".toList

def keyLabel : Str := "lbl".toList

/-- `TXT_VERSION`. -/
def txtVersion : Nat := 1

/-- The value of a digit in a base up to 16. -/
def digitOf (base : Nat) (c : Char) : Option Nat :=
  let value :=
    if '0' ≤ c ∧ c ≤ '9' then some (c.toNat - '0'.toNat)
    else if 'a' ≤ c ∧ c ≤ 'f' then some (c.toNat - 'a'.toNat + 10)
    else if 'A' ≤ c ∧ c ≤ 'F' then some (c.toNat - 'A'.toNat + 10)
    else none
  value.filter (· < base)

/-- `from_str_radix` of an unsigned integer below `bound`: one `+` may stand
ahead of the digits, and there is at least one of them. -/
def fromStrRadix (base bound : Nat) (text : Str) : Option Nat :=
  let digits := if text.head? = some '+' then text.tail else text
  if digits = [] then none
  else
    (digits.foldlM (fun n c => (digitOf base c).map (n * base + ·)) 0).filter (· < bound)

/-- The bytes that a text's characters spell, two by two. -/
def hexPairs : Str → Option (List UInt8)
  | [] => some []
  | [_] => none
  | a :: b :: rest => do
    let byte ← fromStrRadix 16 256 [a, b]
    let bytes ← hexPairs rest
    some (UInt8.ofNat byte :: bytes)

/-- Exactly 64 hex characters, or nothing. A character of more than one
byte is no hex digit, so the slices of the source can be read as pairs. -/
def decodeHostId (text : Str) : Option HostId :=
  if (text.map Char.utf8Size).sum ≠ 64 then none
  else do
    let bytes ← hexPairs text
    if h : bytes.length = 32 then some ⟨⟨bytes.toArray, h⟩⟩ else none

def Advertisement.parse (get : Str → Option Str) (fallbackLabel : Str) : Option Advertisement := do
  let id ← get keyHostId
  let host ← decodeHostId id
  let version ←
    match get keyVersion with
    | some text => fromStrRadix 10 (2 ^ 32) text
    | none => some txtVersion
  let label := ((get keyLabel).filter (· ≠ [])).getD fallbackLabel
  some { host, label, version }

/-- The part of a full name before `._`, or all of it. -/
def instanceOf : Str → Str
  | [] => []
  | '.' :: '_' :: _ => []
  | c :: rest => c :: instanceOf rest

/-- One resolved advertisement. -/
structure ResolvedRecord where
  fullname : Str
  txt : List (Str × Str)
  port : UInt16
  addresses : List IpAddr
  deriving DecidableEq

/-- The peer a record claims, when it is one of ours. -/
def ResolvedRecord.claim (record : ResolvedRecord) : Option Peer :=
  let lookup := fun key => (record.txt.find? fun p => p.1 = key).map Prod.snd
  (Advertisement.parse lookup (instanceOf record.fullname)).map fun advertised =>
    { host := advertised.host, label := advertised.label,
      endpoints := endpointsFor advertised.host record.addresses record.port }

/-- Something happened on the link. -/
inductive Observation where
  | resolved (record : ResolvedRecord)
  | removed (fullname : Str)
  deriving DecidableEq

/-! ## The roster -/

structure Roster where
  localHost : HostId
  byHost : Table HostId PeerRecord := ∅
  byFullname : Table Str HostId := ∅
  sawSelf : Bool := false

def Roster.new (localHost : HostId) : Roster := { localHost }

/-- Put a host's row. -/
def Roster.setRow (r : Roster) (host : HostId) (record : PeerRecord) : Roster :=
  { r with byHost := r.byHost.insert host record }

def Roster.resolved (r : Roster) (record : ResolvedRecord) (now : Instant) : Roster × Bool :=
  match record.claim with
  -- Not one of ours, or malformed.
  | none => (r, false)
  | some peer =>
    if peer.host = r.localHost then ({ r with sawSelf := true }, !r.sawSelf)
    else
      let r := { r with byFullname := r.byFullname.insert record.fullname peer.host }
      match r.byHost.lookup peer.host with
      | some existing =>
        if existing.presence = .unreachable ∧ existing.peer = peer then
          (r.setRow peer.host { existing with lastSeen := some now }, false)
        else
          (r.setRow peer.host { peer, presence := .online, lastSeen := some now },
            decide (existing.peer ≠ peer ∨ existing.presence ≠ .online))
      | none => (r.setRow peer.host { peer, presence := .online, lastSeen := some now }, true)

/-- A row without routes, of a host that went away. -/
def PeerRecord.gone (record : PeerRecord) : PeerRecord :=
  { record with peer := { record.peer with endpoints := [] }, presence := .away }

def Roster.removed (r : Roster) (fullname : Str) : Roster × Bool :=
  -- The name stays in the index: the same instance re-appearing has to map
  -- back to the same row.
  match r.byFullname.lookup fullname with
  | none => (r, false)
  | some host =>
    match r.byHost.lookup host with
    | none => (r, false)
    | some record =>
      if record.presence = .away ∧ record.peer.endpoints = [] then (r, false)
      else (r.setRow host record.gone, true)

def Roster.apply (r : Roster) (observation : Observation) (now : Instant) : Roster × Bool :=
  match observation with
  | .resolved record => r.resolved record now
  | .removed fullname => r.removed fullname

/-- Whether a sweep takes a row down. -/
def PeerRecord.stale (record : PeerRecord) (now : Instant) (maxAge : Nat) : Bool :=
  decide (record.presence = .online ∨ record.presence = .unreachable) &&
    record.lastSeen.all fun seen => maxAge ≤ now - seen

def Roster.sweep (r : Roster) (now : Instant) (maxAge : Nat) : Roster × Bool :=
  ({ r with byHost := r.byHost.mapWithKey fun _ record =>
      if record.stale now maxAge then record.gone else record },
    r.byHost.values.any (·.stale now maxAge))

def Roster.reportDial (r : Roster) (host : HostId) (connected : Bool) (now : Instant) :
    Roster × Bool :=
  match r.byHost.lookup host with
  -- Dialled from an address book we never advertised.
  | none => (r, false)
  | some record =>
    if connected then
      let changed := decide (record.presence = .unreachable)
      (r.setRow host
        { record with
          presence := if changed then .online else record.presence
          lastSeen := some now },
        changed)
    else
      let changed := decide (record.presence = .online)
      (r.setRow host
        { record with presence := if changed then .unreachable else record.presence }, changed)

/-- A call into the roster, from the discovery thread or from a caller that
dialled. -/
inductive RosterCall where
  | apply (observation : Observation) (now : Instant)
  | sweep (now : Instant) (maxAge : Nat)
  | reportDial (host : HostId) (connected : Bool) (now : Instant)
  deriving DecidableEq

def Roster.step (r : Roster) : RosterCall → Roster × Bool
  | .apply observation now => r.apply observation now
  | .sweep now maxAge => r.sweep now maxAge
  | .reportDial host connected now => r.reportDial host connected now

end Zesterm
