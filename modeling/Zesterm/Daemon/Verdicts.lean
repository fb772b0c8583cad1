/-
Zesterm.Daemon.Verdicts — the devices waiting for an answer: `submit`,
`resolve`, `expire`, `cancel` and the `notify` each request came with, of
`PairingQueue` in `zest-mesh`'s `pairing.rs`.

A call takes requests out under the queue's lock and answers them after
letting go, one after the other, since a `notify` is arbitrary code. So a
call is two kinds of call here: the one that takes, and a `notify` for each
request it took (`answering` keeps what is still to be answered, call by
call). What a call counts in between is a `touch`, at any time; wakers and
the callback that raises a prompt are left out.
-/
import Zesterm.Daemon.Approvals
import Zesterm.Daemon.Connection

namespace Zesterm

/-- The queue, and the calls that have taken requests out of it and are yet
to answer them. -/
structure Verdicts where
  queue : PairingQueue := {}
  answering : List (List Nat × Decision) := []

namespace Verdicts

inductive Call where
  | submit (request : PairingRequest)
  /-- A person answers every request of a client. -/
  | resolve (client : ClientId) (decision : Decision)
  | expire (now : Nat)
  /-- The waiter's handle is dropped. -/
  | cancel (id : Nat)
  | touch
  /-- One of the calls in progress answers the next request it took. -/
  | notify (i : Nat)

inductive Reply where
  | done
  | submitted (id : Nat)
  | answered (id : Nat) (decision : Decision)
  deriving DecidableEq

/-- Requests a call has taken out, to be answered one way. -/
def take (s : Verdicts) (queue : PairingQueue) (taken : List (Nat × PairingRequest))
    (decision : Decision) : Verdicts :=
  { queue := queue, answering := s.answering ++ [(taken.map Prod.fst, decision)] }

def step (s : Verdicts) : Call → Verdicts × Reply
  | .submit request => ({ s with queue := s.queue.submit request }, .submitted s.queue.nextId)
  | .resolve client decision =>
    let taken := s.queue.pending.filter fun p => p.2.client == client
    (s.take (s.queue.resolve client) taken decision, .done)
  | .expire now =>
    let taken := s.queue.pending.filter fun p => decide (now - p.2.requestedAt ≥ approvalTimeout)
    (s.take (s.queue.expire now) taken .deny, .done)
  | .cancel id =>
    let taken := (s.queue.pending.find? fun p => p.1 == id).toList
    (s.take (s.queue.cancel id) taken .deny, .done)
  | .touch => ({ s with queue := s.queue.touch }, .done)
  | .notify i =>
    match s.answering[i]? with
    | none => (s, .done)
    | some ([], _) => ({ s with answering := s.answering.eraseIdx i }, .done)
    | some (id :: ids, decision) =>
      ({ s with answering := s.answering.set i (ids, decision) }, .answered id decision)

end Verdicts

end Zesterm
