/-
Zesterm.Daemon.Deferral — the questions a connection answers off its reader
thread: `Enroll`, `GitDiff` and `SearchBlocks` in `zest-daemon`'s
`server.rs`.

The reader claims a place under the connection's lock and spawns a worker.
The worker leaves its answer in the one-place `enroll_result` or the queue
`deferred`, and the writer's loop takes both. A place for an enrolment is
freed when its answer is taken; one of the `MAX_DEFERRED` is given back by the
worker, after its answer is queued, or by the reader if no worker came of it.
What the reader and a worker do between two accesses of what they share is
one move. The lock is held from the claim to the end of the spawn, so in
between the writer takes nothing and no other question begins.

A question is named by its number, which the answers carry as a ghost. The
enrolment itself, `git` and the rows a store finds are left to the moves; so
are the live matches at each time they are read. The waking of the writer is
left out: the writer may take what there is at any time.
-/
import Zesterm.Fleet.Matches

namespace Zesterm

/-! ## Questions and answers -/

inductive Question where
  | enroll (code : Str)
  | gitDiff (cwd : Str)
  | searchBlocks (query : Str) (limit : Nat)
  deriving DecidableEq

/-- What a `GitDiffResult` says beside the directory it echoes. -/
structure GitDiff where
  repoRoot : Str := []
  diff : Str := []
  truncated : Bool := false
  untracked : List Str := []
  untrackedTruncated : Bool := false
  error : Str := []
  deriving DecidableEq

inductive HostAnswer where
  | error (message : Str)
  | enrollResult (ok : Bool) (account : Option Str) (message : Str)
  | gitDiffResult (cwd : Str) (diff : GitDiff)
  | blockMatches (query : Str) (rows : List BlockMatch) (truncated : Bool) (sessions : Nat)
    (error : Str)
  deriving DecidableEq

/-- `LIMIT_DEFAULT`. -/
def limitDefault : Nat := 50

/-- `LIMIT_CAP`. -/
def limitCap : Nat := 200

/-- `clamp_limit`. -/
def clampLimit (asked : Nat) : Nat := if asked = 0 then limitDefault else min asked limitCap

/-- `MAX_DEFERRED`. -/
def maxDeferred : Nat := 4

/-- Why a served client may not decide about devices. -/
inductive NoAuthority where
  | notLocal
  | agent
  deriving DecidableEq

/-- What of a connection's place and settings the three handlers read. -/
structure Seams where
  host : HostId
  /-- `device_authority`. -/
  authority : Except NoAuthority Unit
  /-- Whether there is an enrolment seam. -/
  enrolls : Bool
  /-- Whether there is a block history. -/
  hasStore : Bool

/-- The matching blocks of the live sessions, and how many sessions there
were. -/
structure LiveMatches where
  live : List (Nat × BlockMatch) := []
  sessions : Nat := 0
  deriving DecidableEq

/-- What a worker is to do. -/
inductive Job where
  | enroll
  | gitDiff (cwd : Str)
  | search (query : Str) (limit : Nat) (found : LiveMatches)
  deriving DecidableEq

/-- Whether the job takes one of the `MAX_DEFERRED`. -/
def Job.slotted : Job → Bool
  | .enroll => false
  | _ => true

/-- What a job came to: an enrolment's account or its refusal, what `git` said,
and the rows of the store with its `capped`. -/
structure JobOutcome where
  enrolled : Except Str (Option Str)
  diff : GitDiff
  stored : Except Str (List StoredBlock × Bool)

namespace HostAnswer

/-- `search_blocks`, with what it is to say was not searched. -/
def searchBlocks (s : Seams) (query : Str) (limit : Nat) (found : LiveMatches) (error : Str) : HostAnswer :=
  let (out, truncated) := BlockStore.merge found.live [] s.host (clampLimit limit)
  .blockMatches query out truncated found.sessions error

/-- What a worker answers. -/
def ofOutcome (s : Seams) (o : JobOutcome) : Job → HostAnswer
  | .enroll =>
    match o.enrolled with
    | .ok account => .enrollResult true account []
    | .error why => .enrollResult false none why
  | .gitDiff cwd => .gitDiffResult cwd o.diff
  | .search query limit found =>
    match o.stored with
    | .ok (stored, capped) =>
      let (out, truncated) := BlockStore.merge found.live stored s.host (clampLimit limit)
      .blockMatches query out (truncated || capped) found.sessions []
    | .error why =>
      searchBlocks s query limit found ("history not searched: ".toList ++ why)

/-- What is answered for a job no thread could be had for. -/
def ofNoThread (s : Seams) (why : Str) (found : LiveMatches) : Job → HostAnswer
  | .enroll => .enrollResult false none ("no thread for the enrolment: ".toList ++ why)
  | .gitDiff cwd => .gitDiffResult cwd { error := "no thread for the diff: ".toList ++ why }
  | .search query limit _ =>
    searchBlocks s query limit found ("history not searched: no thread for it: ".toList ++ why)

end HostAnswer

/-! ## The connection -/

inductive WorkerPhase where
  | working
  /-- The answer is queued; the slot is yet to be given back. -/
  | posted
  | finished
  deriving DecidableEq

structure Worker where
  number : Nat
  job : Job
  phase : WorkerPhase := .working
  deriving DecidableEq

/-- What the questions of a connection come to, and the questions it was
asked and the answers it gave. -/
structure Deferral where
  enrollRunning : Bool := false
  enrollResult : Option (Nat × HostAnswer) := none
  deferred : List (Nat × HostAnswer) := []
  deferredRunning : Nat := 0
  /-- A question whose place is claimed and whose worker is yet to be
  spawned. -/
  handling : Option (Nat × Job) := none
  workers : List Worker := []
  asked : List Question := []
  sent : List (Nat × HostAnswer) := []
  deriving DecidableEq

namespace Deferral

inductive Move where
  /-- A question arrives; `found` is what the live sessions hold. -/
  | ask (q : Question) (found : LiveMatches)
  /-- The thread that was asked for runs. -/
  | spawned
  /-- There is no thread to be had. -/
  | refused (why : Str) (found : LiveMatches)
  /-- A worker leaves its answer. -/
  | finish (i : Nat) (o : JobOutcome)
  /-- A worker gives its slot back. -/
  | release (i : Nat)
  /-- `take_enroll_result`. -/
  | takeEnrollResult
  /-- `take_deferred`. -/
  | takeDeferred

/-- Answered at once. -/
def reply (d : Deferral) (r : HostAnswer) : Deferral :=
  { d with sent := d.sent ++ [(d.asked.length - 1, r)] }

/-- Claim one of the `MAX_DEFERRED` for a job, if there is one. -/
def claim (d : Deferral) (job : Job) (busy : HostAnswer) : Deferral :=
  if d.deferredRunning < maxDeferred then
    { d with deferredRunning := d.deferredRunning + 1, handling := some (d.asked.length - 1, job) }
  else d.reply busy

/-- The handlers, as far as a place is claimed. -/
def handle (s : Seams) (d : Deferral) (found : LiveMatches) : Question → Deferral
  | .enroll _ =>
    match s.authority with
    | .error .notLocal => d.reply (.error "only a local client may enroll this machine".toList)
    | .error .agent => d.reply (.error "an agent may not enroll this machine".toList)
    | .ok () =>
      if ¬ s.enrolls then
        d.reply (.enrollResult false none
          "this daemon cannot enroll: its key is ephemeral (start it without --ephemeral, or run zest-daemon --enroll <code>)".toList)
      else if d.enrollRunning then
        d.reply (.enrollResult false none
          "an enrolment is already running; wait for it to finish".toList)
      else { d with enrollRunning := true, handling := some (d.asked.length - 1, .enroll) }
  | .gitDiff cwd =>
    d.claim (.gitDiff cwd)
      (.gitDiffResult cwd { error := "too many git questions in flight; ask again".toList })
  | .searchBlocks query limit =>
    if ¬ s.hasStore then d.reply (HostAnswer.searchBlocks s query limit found [])
    else
      d.claim (.search query limit found) (HostAnswer.searchBlocks s query limit found
        "history not searched: too many questions in flight; ask again".toList)

/-- The place a job had, when no worker came of it. -/
def giveBack (d : Deferral) : Job → Deferral
  | .enroll => { d with enrollRunning := false }
  | _ => { d with deferredRunning := d.deferredRunning - 1 }

/-- A worker's answer, where its kind of answer goes. -/
def post (d : Deferral) (i : Nat) (w : Worker) (r : HostAnswer) : Deferral :=
  if w.job.slotted then
    { d with deferred := d.deferred ++ [(w.number, r)]
             workers := d.workers.set i { w with phase := .posted } }
  else
    { d with enrollResult := some (w.number, r)
             workers := d.workers.set i { w with phase := .finished } }

def step (s : Seams) (d : Deferral) : Move → Option Deferral
  | .ask q found =>
    match d.handling with
    | none => some ({ d with asked := d.asked ++ [q] }.handle s found q)
    | some _ => none
  | .spawned =>
    match d.handling with
    | none => none
    | some (n, job) =>
      some { d with handling := none, workers := d.workers ++ [{ number := n, job }] }
  | .refused why found =>
    match d.handling with
    | none => none
    | some (n, job) =>
      let d := { d with handling := none, sent := d.sent ++ [(n, HostAnswer.ofNoThread s why found job)] }
      some (d.giveBack job)
  | .finish i o =>
    match d.workers[i]? with
    | none => none
    | some w =>
      if w.phase = .working then some (d.post i w (HostAnswer.ofOutcome s o w.job)) else none
  | .release i =>
    match d.workers[i]? with
    | none => none
    | some w =>
      if w.phase = .posted then
        some { d with deferredRunning := d.deferredRunning - 1
                      workers := d.workers.set i { w with phase := .finished } }
      else none
  | .takeEnrollResult =>
    match d.handling, d.enrollResult with
    | none, some answer =>
      some { d with enrollRunning := false, enrollResult := none, sent := d.sent ++ [answer] }
    | none, none => some d
    | some _, _ => none
  | .takeDeferred =>
    match d.handling with
    | none => some { d with deferred := [], sent := d.sent ++ d.deferred }
    | some _ => none

end Deferral

end Zesterm
