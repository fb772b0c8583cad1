/-
Zesterm.Daemon.Approvals — devices waiting to be let in, and the connection
that shows them: `PairingQueue` of `zest-mesh`'s `pairing.rs` and the
approval pushes of `Connection::poll_with`.

A call on the queue edits it under its lock and counts the edit, by `touch`,
after letting go; a poll notes the count and reads the queue afterwards. So
the calls of the machine are the edits, the touches, and the two halves of a
poll. A submit takes its id and pushes in one: an id is only ever compared.

The announced clients are a hash set in the source; here they stand in order
of insertion, and the order in which their tombstones go out does not show.
Times are nanoseconds on the monotonic clock. Left out: the callers waiting
for an answer, and the wakers.
-/
import Zesterm.Lib.Table
import Zesterm.Mesh.Pairing

namespace Zesterm

/-! ## The queue -/

/-- A device asking to be let in. -/
structure PairingRequest where
  client : ClientId
  label : Str
  code : Str
  remote : Str
  requestedAt : Nat
  deriving DecidableEq

/-- `APPROVAL_TIMEOUT`: how long a request waits before it gives up. -/
def approvalTimeout : Nat := 120 * 10 ^ 9

/-- Requests waiting for a person. -/
structure PairingQueue where
  pending : List (Nat × PairingRequest) := []
  nextId : Nat := 0
  /-- How many edits have been counted. -/
  generation : Nat := 0
  /-- Calls that have made their edit and not counted it yet. -/
  touching : Nat := 0

namespace PairingQueue

def submit (q : PairingQueue) (request : PairingRequest) : PairingQueue :=
  { q with
    pending := q.pending ++ [(q.nextId, request)]
    nextId := q.nextId + 1
    touching := q.touching + 1 }

/-- Take requests out, and count that if there were any. -/
def remove (q : PairingQueue) (gone : Nat × PairingRequest → Bool) : PairingQueue :=
  { q with
    pending := q.pending.filter fun p => !gone p
    touching := if q.pending.any gone then q.touching + 1 else q.touching }

/-- Answer every request from a client. -/
def resolve (q : PairingQueue) (client : ClientId) : PairingQueue :=
  q.remove fun p => p.2.client == client

/-- Give up on anything too old. -/
def expire (q : PairingQueue) (now : Nat) : PairingQueue :=
  q.remove fun p => decide (now - p.2.requestedAt ≥ approvalTimeout)

/-- The device hung up. -/
def cancel (q : PairingQueue) (id : Nat) : PairingQueue :=
  if q.pending.any fun p => p.1 == id then
    { q with pending := q.pending.eraseP fun p => p.1 == id, touching := q.touching + 1 }
  else q

def touch (q : PairingQueue) : PairingQueue :=
  if q.touching = 0 then q
  else { q with generation := q.generation + 1, touching := q.touching - 1 }

/-- `PairingQueue::pending`. -/
def listing (q : PairingQueue) : List PairingRequest := q.pending.map Prod.snd

end PairingQueue

/-! ## The pushes -/

/-- `HostMessage::PairingRequested`. -/
structure PairingRequested where
  client : ClientId
  label : Str
  code : Str
  remote : Str
  expiresInSecs : Nat
  resolved : Bool
  deriving DecidableEq

/-- A live request's remaining validity, for the wire: ceiled, and never
0. -/
def pairingExpirySecs (left : Nat) : Nat :=
  let ceiled := left / 10 ^ 9 + if left % 10 ^ 9 > 0 then 1 else 0
  min (max ceiled 1) u32Max

/-- Show a request. -/
def requested (now : Nat) (r : PairingRequest) : PairingRequested :=
  { client := r.client
    label := r.label
    code := r.code
    remote := r.remote
    expiresInSecs := pairingExpirySecs (approvalTimeout - (now - r.requestedAt))
    resolved := false }

/-- Stop showing a client's. -/
def tombstone (client : ClientId) : PairingRequested :=
  { client := client, label := [], code := [], remote := [], expiresInSecs := 0, resolved := true }

/-- What a connection remembers of its pushes. -/
structure PairingPush where
  /-- The queue generation this connection last pushed from. -/
  seen : Nat := 0
  /-- Which clients it has announced and not yet tombstoned. -/
  announced : List ClientId := []

/-- Announce each client that is not announced yet, by its first request. -/
def announce (now : Nat) : List PairingRequest → List ClientId → List PairingRequested × List ClientId
  | [], announced => ([], announced)
  | r :: pending, announced =>
    if announced.contains r.client then announce now pending announced
    else
      let (out, announced) := announce now pending (announced ++ [r.client])
      (requested now r :: out, announced)

/-- One diff against what was announced already. -/
def PairingPush.diff (p : PairingPush) (pending : List PairingRequest) (now : Nat) :
    PairingPush × List PairingRequested :=
  let (shown, announced) := announce now pending p.announced
  let waits (client : ClientId) : Bool := pending.any fun r => r.client == client
  ({ p with announced := announced.filter waits },
    shown ++ (announced.filter fun client => !waits client).map tombstone)

/-! ## The machine -/

/-- The queue, and one connection watching it. -/
structure Approvals where
  queue : PairingQueue := {}
  push : PairingPush := {}
  /-- A poll that has noted a generation and has yet to read the queue. -/
  reading : Bool := false

namespace Approvals

inductive Call where
  | submit (request : PairingRequest)
  | resolve (client : ClientId)
  | expire (now : Nat)
  | cancel (id : Nat)
  /-- One of the calls that made an edit counts it. -/
  | touch
  /-- A poll, up to the note of the generation. Whether it may look at all
  is the connection's to say. -/
  | poll (watching : Bool)
  /-- The rest of that poll. -/
  | read (now : Nat)

def step (s : Approvals) : Call → Approvals × List PairingRequested
  | .submit request => ({ s with queue := s.queue.submit request }, [])
  | .resolve client => ({ s with queue := s.queue.resolve client }, [])
  | .expire now => ({ s with queue := s.queue.expire now }, [])
  | .cancel id => ({ s with queue := s.queue.cancel id }, [])
  | .touch => ({ s with queue := s.queue.touch }, [])
  | .poll watching =>
    if s.reading = false ∧ watching = true ∧ s.queue.generation ≠ s.push.seen then
      ({ s with push := { s.push with seen := s.queue.generation }, reading := true }, [])
    else (s, [])
  | .read now =>
    if s.reading then
      let (push, out) := s.push.diff s.queue.listing now
      ({ s with push := push, reading := false }, out)
    else (s, [])

end Approvals

end Zesterm
