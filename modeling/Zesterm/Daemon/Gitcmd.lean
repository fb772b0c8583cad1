/-
Zesterm.Daemon.Gitcmd — one bounded run of `git`, and the answer of a diff:
`zest-daemon`'s `gitcmd.rs`.

A run reads one byte past its cap and closes the pipe. What the child had
written by then waits in the pipe (`Child.buffered`); a child with more than
that still to write ends without success. Whether it ends before the deadline
is a fact about it (`Child.inTime`).

Three bounds follow one another: the drain's, the run's and the trim's. A
text is kept as its bytes.
-/
import Zesterm.Lib.Lossy

namespace Zesterm.Gitcmd

/-- A `String`, by its UTF-8 bytes. -/
abbrev Text : Type := List UInt8

def newline : UInt8 := 10

/-! ## One run -/

/-- A child of `git` that was spawned with its output piped. -/
structure Child where
  /-- All it wants to write. -/
  output : List UInt8
  /-- How much of the output the pipe takes past what is read from it. -/
  buffered : Nat := 0
  /-- It exits with 0 once all is written. -/
  succeeds : Bool := true
  inTime : Bool := true
  deriving DecidableEq

structure GitRun where
  out : List UInt8
  ok : Bool
  truncated : Bool
  deriving DecidableEq

/-- `run_git`, of what was spawned. -/
def runGit (spawned : Option Child) (cap : Nat) : Option GitRun :=
  match spawned with
  | none => none
  | some child =>
    -- one byte past the cap, then the pipe is closed
    let out := child.output.take (cap + 1)
    if child.inTime then
      some {
        out := out.take cap
        ok := child.succeeds && child.output.length ≤ cap + 1 + child.buffered
        truncated := cap < out.length }
    else none

/-! ## The diff -/

/-- `diff --git `, which begins the header of a file. -/
def header : Text := [100, 105, 102, 102, 32, 45, 45, 103, 105, 116, 32]

/-- `str::split_inclusive('\n')`. -/
def splitInclusive : Text → List Text
  | [] => []
  | b :: rest =>
    if b = newline then [b] :: splitInclusive rest
    else
      match splitInclusive rest with
      | [] => [[b]]
      | line :: lines => (b :: line) :: lines

/-- The loop of `trim_to_file_boundary`: the last header that starts at or
before the cap. -/
def lastHeader (cap : Nat) : List Text → (start cut : Nat) → Nat
  | [], _, cut => cut
  | line :: lines, start, cut =>
    if start > cap then cut
    else
      lastHeader cap lines (start + line.length)
        (if header.isPrefixOf line && decide (0 < start) then start else cut)

/-- What is kept, and whether anything was dropped. -/
def trimToFileBoundary (diff : Text) (cap : Nat) : Text × Bool :=
  if diff.length ≤ cap then (diff, false)
  else
    let cut := lastHeader cap (splitInclusive diff) 0 0
    -- one file, already over the cap
    if cut = 0 then ([], true) else (diff.take cut, true)

-- A header inside a hunk is no boundary.
example : trimToFileBoundary (header ++ [97, 10, 43] ++ header ++ [10] ++ header ++ [98]) 30 =
    (header ++ [97, 10, 43] ++ header ++ [10], true) := by decide

def diffCap : Nat := 1024 * 1024

/-! ## The untracked names -/

def untrackedCap : Nat := 1000

/-- How much of a status `git_diff` reads. -/
def statusCap : Nat := 512 * 1024

/-- The mark of an untracked entry: two question marks and a blank. -/
def mark : Text := [63, 63, 32]

/-- `<[u8]>::split` at NUL. -/
def splitNul : List UInt8 → List (List UInt8)
  | [] => [[]]
  | b :: rest =>
    if b = 0 then [] :: splitNul rest
    else
      match splitNul rest with
      | [] => [[b]]
      | entry :: entries => (b :: entry) :: entries

def isMarked (entry : List UInt8) : Bool := 3 < entry.length && entry.take 3 == mark

/-- The names of the marked entries, as bytes. -/
def marked (entries : List (List UInt8)) : List (List UInt8) :=
  (entries.filter isMarked).map (·.drop 3)

/-- The entries `untracked_names` looks at: the last one of a capped output is
a fragment unless its terminator is there. -/
def wholeEntries (out : List UInt8) (truncated : Bool) : List (List UInt8) :=
  if truncated && out.getLast? != some 0 then (splitNul out).dropLast else splitNul out

def untrackedNames (out : List UInt8) (truncated : Bool) : List Text × Bool :=
  let names := (marked (wholeEntries out truncated)).map Utf8.lossy
  (names.take untrackedCap, truncated || decide (untrackedCap < names.length))

/-! ## The answer -/

/-- The characters `char::is_whitespace` accepts, as UTF-8 writes them. -/
def whitespace : List Text :=
  [[9], [10], [11], [12], [13], [32], [0xC2, 0x85], [0xC2, 0xA0], [0xE1, 0x9A, 0x80],
    [0xE2, 0x80, 0x80], [0xE2, 0x80, 0x81], [0xE2, 0x80, 0x82], [0xE2, 0x80, 0x83],
    [0xE2, 0x80, 0x84], [0xE2, 0x80, 0x85], [0xE2, 0x80, 0x86], [0xE2, 0x80, 0x87],
    [0xE2, 0x80, 0x88], [0xE2, 0x80, 0x89], [0xE2, 0x80, 0x8A], [0xE2, 0x80, 0xA8],
    [0xE2, 0x80, 0xA9], [0xE2, 0x80, 0xAF], [0xE2, 0x81, 0x9F], [0xE3, 0x80, 0x80]]

/-- Drops words of a list from the front, `fuel` at most. -/
def dropWords (words : List Text) : (fuel : Nat) → Text → Text
  | 0, text => text
  | fuel + 1, text =>
    match words.find? (·.isPrefixOf text) with
    | none => text
    | some word => dropWords words fuel (text.drop word.length)

/-- `str::trim`. No character is empty, so a text has as many as bytes at most. -/
def trim (text : Text) : Text :=
  let rest := dropWords whitespace text.length text
  (dropWords (whitespace.map List.reverse) rest.length rest.reverse).reverse

structure GitDiffResult where
  cwd : Text
  repoRoot : Text := []
  diff : Text := []
  truncated : Bool := false
  untracked : List Text := []
  untrackedTruncated : Bool := false
  error : String := ""
  deriving DecidableEq

/-- What spawning `git` in a directory gives, by its arguments. -/
abbrev Git : Type := Text → List String → Option Child

def topArgs : List String := ["rev-parse", "--show-toplevel"]

def headArgs : List String := ["rev-parse", "-q", "--verify", "HEAD"]

def statusArgs : List String := ["status", "--porcelain", "-z"]

/-- Whether the repository has a commit. -/
def born (git : Git) (repoRoot : Text) : Bool :=
  ((runGit (git repoRoot headArgs) 1024).map GitRun.ok).getD false

def diffArgs (git : Git) (repoRoot : Text) : List String :=
  if born git repoRoot then ["diff", "HEAD", "--no-color", "--no-ext-diff"]
  else ["diff", "--no-color", "--no-ext-diff"]

/-- The untracked names and whether some are missing, of what was spawned. -/
def untracked (spawned : Option Child) : List Text × Bool :=
  match (runGit spawned statusCap).filter GitRun.ok with
  | none => ([], false)
  | some st => untrackedNames st.out st.truncated

def gitDiff (git : Git) (cwd : Text) : GitDiffResult :=
  match runGit (git cwd topArgs) (8 * 1024) with
  | none => { cwd, error := "git could not be run here" }
  | some rootRun =>
    if !rootRun.ok then { cwd, error := "that is not a git repository" }
    else
      let repoRoot := trim (Utf8.lossy rootRun.out)
      if repoRoot = [] then { cwd, error := "that is not a git repository" }
      else
        match runGit (git repoRoot (diffArgs git repoRoot)) (diffCap + 1) with
        | none => { cwd, error := "git did not answer in time" }
        | some diffRun =>
          if !diffRun.ok then { cwd, error := "git could not describe the changes here" }
          else
            let kept := trimToFileBoundary (Utf8.lossy diffRun.out) diffCap
            let names := untracked (git repoRoot statusArgs)
            { cwd, repoRoot, diff := kept.1, truncated := kept.2 || diffRun.truncated,
              untracked := names.1, untrackedTruncated := names.2 }

end Zesterm.Gitcmd
