/-
Zesterm.Daemon.Pulse — the pulse that says a daemon's session list has
changed: `Pulse` in `zest-daemon`'s `server.rs`.

`touch_coalesced` bumps at most four times a second. A report inside the
window arms a trailing thread, and reports until it wakes are covered by it.
The flag and the stamp change under one lock; the thread is spawned and the
bump is made after the lock is let go, so a call is several moves: what it
decides under the lock, then what it does about it. Times are nanoseconds of
the monotonic clock. Which watchers a touch wakes is left out.
-/
import Zesterm.Lib.Fair

namespace Zesterm

/-- `COALESCE_WINDOW`. -/
def coalesceWindow : Nat := 250000000

/-- Where a thread is: a caller in `touch_coalesced`, or a trailing thread it
spawned. -/
inductive Phase where
  /-- Called; the lock is yet to be taken. -/
  | entering
  /-- To touch, and nothing else. -/
  | bumping
  /-- Armed; the trailing thread is yet to be spawned. -/
  | arming (wait : Nat)
  /-- The spawn failed; yet to disarm. -/
  | refused
  /-- A trailing thread, asleep until then or later. -/
  | asleep (wakes : Nat)
  | done
  deriving DecidableEq

/-- The pulse, the clock, and the threads under way. -/
structure Pulse where
  generation : Nat := 0
  last : Option Nat := none
  armed : Bool := false
  now : Nat := 0
  threads : List Phase := []
  deriving DecidableEq

namespace Pulse

inductive Move where
  /-- `touch_coalesced` is called. -/
  | call
  /-- Time passes. -/
  | tick (d : Nat)
  /-- A thread goes on; `spawns` says if the operating system gives it the
  thread it asks for. -/
  | run (i : Nat) (spawns : Bool)
  deriving DecidableEq

/-- What a report decides under the lock. -/
def enter (p : Pulse) (i : Nat) : Pulse :=
  if p.armed then { p with threads := p.threads.set i .done }
  else
    match p.last with
    | some last =>
      if p.now - last < coalesceWindow then
        { p with armed := true
                 threads := p.threads.set i (.arming (coalesceWindow - (p.now - last))) }
      else { p with last := some p.now, threads := p.threads.set i .bumping }
    | none => { p with last := some p.now, threads := p.threads.set i .bumping }

/-- Disarm and stamp, under the lock; the bump comes after. -/
def disarm (p : Pulse) (i : Nat) : Pulse :=
  { p with armed := false, last := some p.now, threads := p.threads.set i .bumping }

/-- `touch`. -/
def touch (p : Pulse) (i : Nat) : Pulse :=
  { p with generation := p.generation + 1, threads := p.threads.set i .done }

/-- The spawn of a trailing thread. -/
def spawn (p : Pulse) (i wait : Nat) (spawns : Bool) : Pulse :=
  if spawns then { p with threads := p.threads.set i .done ++ [.asleep (p.now + wait)] }
  else { p with threads := p.threads.set i .refused }

def step (p : Pulse) : Move → Option Pulse
  | .call => some { p with threads := p.threads ++ [.entering] }
  | .tick d => some { p with now := p.now + d }
  | .run i spawns =>
    match p.threads[i]? with
    | some .entering => some (p.enter i)
    | some .bumping => some (p.touch i)
    | some (.arming wait) => some (p.spawn i wait spawns)
    | some .refused => some (p.disarm i)
    | some (.asleep wakes) => if p.now < wakes then none else some (p.disarm i)
    | some .done => none
    | none => none

end Pulse

end Zesterm
