/-
Zesterm.Daemon.Lan — the mid-handshake gate of the daemon and the watchdog
of each connection: `zest-daemon`'s `lan.rs`.

Three threads touch a connection. Its own waits for the serving to end, asks
the watchdog how it went and settles with the gate; the hooks of the
connection run wherever its bytes are read; the watchdog sleeps and looks.
A step is one atomic access of one of them: a load, a store, a swap, the
counter. Any of them may come next, and time may pass at any point.

A watchdog has no thread where the socket could not be cloned. A relayed
connection has no key, and nothing is settled for it. What the limiter read
for a peer may be old when the slot is taken; `cleared` are those it let by.
What happened to a connection is kept beside it: `given`, `completed`,
`cutAt` and `told` are no state of the source.
-/
import Zesterm.Core.Text

namespace Zesterm.Lan

/-- How many connections may be mid-handshake at once. -/
def maxUnauthenticated : Nat := 32

/-- Failed handshakes from one peer before it is made to wait. -/
def maxFailures : Nat := 5

/-- How long a rate-limited peer waits, in milliseconds. -/
def cooldown : Nat := 60000

/-! ## One connection -/

/-- Where the watching thread is. -/
inductive Dog where
  | off
  | spawned
  /-- It is about to read `armed`. -/
  | looking
  | armed
  /-- It has read the deadline. -/
  | wants (deadline : Nat)
  /-- It is about to swap `armed`. -/
  | expired
  /-- It won the swap. -/
  | won
  /-- `fired` is stored. -/
  | fired
  | done
  deriving DecidableEq

/-- Where the connection's own thread is. -/
inductive Phase where
  | admitted
  | serving
  /-- The serving ended. -/
  | ended
  /-- `armed` was read, and was not set. -/
  | unarmed
  /-- It is known what to settle, if anything is to be. -/
  | disarming (authenticated : Option Bool)
  | settling (authenticated : Bool)
  | over
  deriving DecidableEq

/-- Where the `ready` hook is, which owns the countdown. -/
inductive Hook where
  | waiting
  /-- `completed` was called. -/
  | called
  | gone
  deriving DecidableEq

structure Conn (K : Type) where
  key : Option K
  /-- `Countdown(Some)`. -/
  held : Bool := true
  armed : Bool := true
  fired : Bool := false
  /-- Milliseconds from `started`. -/
  deadline : Nat := 0
  started : Nat := 0
  dog : Dog := .off
  phase : Phase := .admitted
  hook : Hook := .waiting
  /-- How often the slot was given back. -/
  given : Nat := 0
  completed : Bool := false
  /-- How old the connection was when it was cut, and its deadline then. -/
  cutAt : Option (Nat × Nat) := none
  /-- What was settled. -/
  told : Option Bool := none
  deriving DecidableEq

variable {K : Type}

/-- What one of a connection's threads does next. -/
inductive Move where
  -- the connection's own thread
  | watch (timeout : Nat)
  | unwatched (timeout : Nat)
  | finish
  | unwind
  | loadArmed
  | loadFired
  | disarm
  | settle
  -- the hooks
  | complete
  | release
  | drop
  | awaitApproval (window : Nat)
  -- the watchdog
  | dogStart
  | dogArmed
  | dogDeadline
  | dogElapsed
  | dogSwap
  | dogFire
  | dogCut
  deriving DecidableEq

namespace Conn

def age (c : Conn K) (now : Nat) : Nat := now - c.started

/-- `Countdown::release`, on this side of the counter. -/
def giveBack (c : Conn K) : Conn K :=
  if c.held then { c with held := false, given := c.given + 1 } else c

/-- One move of one thread. -/
def move (now : Nat) (c : Conn K) : Move → Option (Conn K)
  -- the connection's own thread
  | .watch timeout =>
    if c.phase = .admitted then
      some { c with phase := .serving, deadline := timeout, dog := .spawned }
    else none
  | .unwatched timeout =>
    if c.phase = .admitted then some { c with phase := .serving, deadline := timeout } else none
  | .finish =>
    if c.phase = .serving then
      some { c with phase := if c.key.isSome then .ended else .disarming none }
    else none
  -- a panic, or an early return of a relayed connection
  | .unwind => if c.phase = .serving then some { c with phase := .over } else none
  -- `!armed && !fired`: the second is read only when the first is not set
  | .loadArmed =>
    if c.phase = .ended then
      some { c with phase := if c.armed then .disarming (some false) else .unarmed }
    else none
  | .loadFired =>
    if c.phase = .unarmed then some { c with phase := .disarming (some !c.fired) } else none
  | .disarm =>
    match c.phase with
    | .disarming (some v) => some { c with armed := false, phase := .settling v }
    | .disarming none => some { c with armed := false, phase := .over }
    | _ => none
  | .settle =>
    match c.phase with
    | .settling v => some { c with told := some v, phase := .over }
    | _ => none
  -- the hooks, and the countdown that `ready` owns
  | .complete =>
    if c.phase ≠ .admitted ∧ c.hook = .waiting then
      some { c with armed := false, completed := c.completed || c.armed, hook := .called }
    else none
  | .release => if c.hook = .called then some { c.giveBack with hook := .gone } else none
  | .drop => if c.hook = .waiting then some { c.giveBack with hook := .gone } else none
  | .awaitApproval window =>
    if c.phase ≠ .admitted then some { c with deadline := max c.deadline window } else none
  -- the watching thread
  | .dogStart =>
    if c.dog = .spawned then some { c with dog := .looking, started := now } else none
  | .dogArmed =>
    if c.dog = .looking then some { c with dog := if c.armed then .armed else .done } else none
  | .dogDeadline => if c.dog = .armed then some { c with dog := .wants c.deadline } else none
  | .dogElapsed =>
    match c.dog with
    | .wants deadline =>
      some { c with dog := if deadline < c.age now then .expired else .looking }
    | _ => none
  | .dogSwap =>
    if c.dog = .expired then
      some { c with armed := false, dog := if c.armed then .won else .done }
    else none
  | .dogFire => if c.dog = .won then some { c with fired := true, dog := .fired } else none
  | .dogCut =>
    if c.dog = .fired then some { c with cutAt := some (c.age now, c.deadline), dog := .done }
    else none

end Conn

/-! ## The gate -/

structure State (K : Type) where
  now : Nat := 0
  /-- `Gate::unauthenticated`. -/
  slots : Nat := 0
  /-- `RateLimiter::seen`: the failures of a peer, and the last of them. -/
  seen : K → Option (Nat × Nat)
  cleared : List K := []
  conns : List (Conn K) := []

/-- No peer has failed, and nobody is connected. -/
def State.new : State K := { seen := fun _ => none }

inductive Act (K : Type) where
  | tick (ms : Nat)
  /-- `RateLimiter::blocked`, for a peer that is not. -/
  | check (key : K)
  /-- `take_slot`, for a peer that was checked. -/
  | admitPeer (key : K)
  | admitRelayed
  | conn (i : Nat) (m : Move)
  deriving DecidableEq

namespace State

variable [DecidableEq K]

/-- Whether this peer must wait. -/
def blocked (s : State K) (key : K) : Bool :=
  match s.seen key with
  | none => false
  | some (failures, last) => maxFailures ≤ failures && s.now - last < cooldown

/-- `take_slot`: a slot, or `Busy`. -/
def takeSlot (s : State K) (key : Option K) : State K :=
  if s.slots < maxUnauthenticated then
    { s with slots := s.slots + 1, conns := s.conns ++ [{ key }] }
  else s

/-- `fetch_sub`, which wraps. -/
def giveSlot (s : State K) (c : Conn K) : State K :=
  if c.held then { s with slots := (s.slots + 2 ^ 64 - 1) % 2 ^ 64 } else s

/-- `Gate::settle`. -/
def settle (s : State K) (c : Conn K) : State K :=
  match c.key, c.phase with
  | some key, .settling true => { s with seen := Function.update s.seen key none }
  | some key, .settling false =>
    let failures := ((s.seen key).map Prod.fst).getD 0
    { s with seen := Function.update s.seen key (some (min (failures + 1) (2 ^ 32 - 1), s.now)) }
  | _, _ => s

def step (s : State K) : Act K → Option (State K)
  | .tick ms => some { s with now := s.now + ms }
  | .check key => if s.blocked key then none else some { s with cleared := key :: s.cleared }
  | .admitPeer key =>
    if key ∈ s.cleared then some ({ s with cleared := s.cleared.erase key }.takeSlot (some key))
    else none
  | .admitRelayed => some (s.takeSlot none)
  | .conn i m => do
    let c ← s.conns[i]?
    let c' ← c.move s.now m
    let s :=
      match m with
      | .release | .drop => s.giveSlot c
      | .settle => s.settle c
      | _ => s
    return { s with conns := s.conns.set i c' }

def run (s : State K) (acts : List (Act K)) : Option (State K) := acts.foldlM step s

end State

end Zesterm.Lan
