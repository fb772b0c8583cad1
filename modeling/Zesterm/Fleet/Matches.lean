/-
Zesterm.Fleet.Matches — the rows of a search over every host's blocks:
`zest-proto`'s `search.rs`, the merge a daemon makes of its live sessions and
its store (`block_store.rs`), and the merge a client makes of the answers it
has (`merge_matches` in `zest-fleet`).

A row names its block by session and number. A session that has ended has no
name any more, and its blocks' numbers were given in a run of their own; the
run is known to the daemon only.
-/
import Zesterm.Daemon.BlockStore
import Zesterm.Lib.Newest
import Zesterm.Mesh.Identity
import Mathlib.Data.Prod.Lex

namespace Zesterm

/-! ## A row -/

/-- One block, as a host names it in an answer. -/
structure BlockMatch where
  /-- Whose block. -/
  host : HostId
  /-- The session that holds it; `none` once only a store remembers it. -/
  session : Option Nat
  block : BlockId
  title : Str
  command : Str
  commandTruncated : Bool
  cwd : Str
  state : BlockState
  startedMs : Option Nat
  endedMs : Option Nat
  context : Option BlockContext
  author : Option (List UInt8)
  deriving DecidableEq

namespace BlockMatch

/-- The search form of a block the host parsed. -/
def fromBlock (host : HostId) (session : Option Nat) (title : Str) (b : Block) : BlockMatch :=
  { host, session
    block := b.id
    title
    command := b.command
    commandTruncated := false
    cwd := b.cwd
    state := b.state
    startedMs := b.startedMs
    endedMs := b.endedMs
    context := b.context
    author := b.author }

/-- When a block happened, for ordering: its end if it has one, its start
while it runs. -/
def recency (m : BlockMatch) : Nat := (m.endedMs.or m.startedMs).getD 0

/-- What rows are ordered by: among blocks with one stamp the higher number is
the newer. -/
def rankOf (m : BlockMatch) : Nat ×ₗ Nat := toLex (m.recency, m.block)

/-- `rank`: newest first. The sort is stable. -/
def rank (ms : List BlockMatch) : List BlockMatch :=
  ms.insertionSort fun a b => b.rankOf ≤ a.rankOf

end BlockMatch

/-- The search form of a stored block: its session is gone. -/
def StoredBlock.toMatch (s : StoredBlock) (host : HostId) : BlockMatch :=
  { host
    session := none
    block := s.id
    title := []
    command := s.command
    commandTruncated := s.commandTruncated
    cwd := s.cwd
    state := .finished s.exitCode
    startedMs := some s.startedMs
    endedMs := some s.endedMs
    context := if s.branch.isEmpty then none else some { branch := s.branch }
    author := s.author }

/-! ## The two merges -/

namespace BlockStore

/-- `merge` in `block_store.rs`: live and stored as one answer. A live
session's finished blocks are in the store too; the live row wins. -/
def merge (live : List (Nat × BlockMatch)) (stored : List StoredBlock) (host : HostId)
    (limit : Nat) : List BlockMatch × Bool :=
  let seen := live.map fun l => (l.1, l.2.block)
  let out := live.map Prod.snd ++
    (stored.filter fun s => (s.run, s.id) ∉ seen).map fun s => s.toMatch host
  ((BlockMatch.rank out).take limit, decide (limit < out.length))

end BlockStore

namespace Fleet

/-- What `merge_matches` tells rows apart by. -/
def key (m : BlockMatch) : HostId × Option Nat × BlockId := (m.host, m.session, m.block)

/-- The fleet's blocks: every host's answer to one query and, for hosts that
have not answered, what the window's replicas hold. -/
def mergeMatches (answers : List (HostId × List BlockMatch)) (seed : List BlockMatch)
    (cap : Nat) : List BlockMatch :=
  let answered := answers.map Prod.fst
  let out := answers.flatMap Prod.snd ++ seed.filter fun m => m.host ∉ answered
  (Newest.firsts key [] (BlockMatch.rank out)).take cap

/-- `search_blocks` of the tools: the hosts' answers, each with whether it was
cut, as one, with whether that was. -/
def searchBlocks (answers : List (HostId × List BlockMatch × Bool)) (cap : Nat) :
    List BlockMatch × Bool :=
  let rows := answers.map fun a => (a.1, a.2.1)
  (mergeMatches rows [] cap,
    answers.any (·.2.2) || decide (cap < (rows.map (·.2.length)).sum))

end Fleet

end Zesterm
