/-
Zesterm.Daemon.CommandLine — the command line a daemon is started with on
Windows (`command_line`, `push_program`, `push_quoted` and `to_wide` of
`spawn.rs`), and the rule by which it is taken apart again.

A backslash means three things to that rule: before a quote a run of them is
halved, and an odd one escapes the quote; elsewhere it is itself; and in the
program's name, which is read by another rule, it is always itself.
`push_quoted` counts a run before it writes it. `words_quoted` says that
what it writes of an argument is read as that argument, by induction on the
argument, the run that is counted but not yet written being part of what the
reader has before it.
-/
import Mathlib.Data.List.Basic

namespace Zesterm.CommandLine

/-- Text as Windows has it: UTF-16 units, any of them. -/
abbrev OsStr := List UInt16

def quote : UInt16 := 0x22

def backslash : UInt16 := 0x5c

def space : UInt16 := 0x20

def tab : UInt16 := 0x09

/-! ## What is written -/

/-- `push_program`: the program, in quotes. -/
def pushProgram (out program : OsStr) : OsStr :=
  out ++ quote :: program.filter (· ≠ quote) ++ [quote]

/-- The loop of `push_quoted`. A run of backslashes is counted, and written
when it is known what follows it. -/
def quoted (backslashes : Nat) : OsStr → OsStr
  | [] => List.replicate (backslashes * 2) backslash
  | unit :: rest =>
    if unit = backslash then quoted (backslashes + 1) rest
    else if unit = quote then
      List.replicate (backslashes * 2 + 1) backslash ++ unit :: quoted 0 rest
    else List.replicate backslashes backslash ++ unit :: quoted 0 rest

/-- `push_quoted`: one argument. -/
def pushQuoted (out arg : OsStr) : OsStr := out ++ quote :: quoted 0 arg ++ [quote]

/-- `command_line`. -/
def commandLine (binary : OsStr) (args : List OsStr) : OsStr :=
  args.foldl (fun units arg => pushQuoted (units ++ [space]) arg) (pushProgram [] binary)

/-- `to_wide`: the units and a NUL, or a refusal where there is one already. -/
def toWide (s : OsStr) : Option OsStr := if s.contains 0 then none else some (s ++ [0])

/-! ## How it is read -/

def isBlank (unit : UInt16) : Bool := unit = space || unit = tab

/-- An argument while it is read. -/
structure Word where
  text : OsStr := []
  /-- Backslashes read since, which are themselves unless a quote follows. -/
  backslashes : Nat := 0
  /-- Quotes read since the last that was closed: one opens, two close. -/
  quotes : Nat := 0
  /-- The last unit was a quote. -/
  afterQuote : Bool := false
  deriving DecidableEq

namespace Word

/-- The quotes that count once the run of quotes is over. -/
def depth (w : Word) : Nat := if w.afterQuote && w.quotes == 2 then 0 else w.quotes

/-- The argument as it stands. -/
def close (w : Word) : OsStr := w.text ++ List.replicate w.backslashes backslash

/-- Whether this unit ends the argument. -/
def ends (w : Word) (unit : UInt16) : Bool := isBlank unit && w.depth == 0

/-- One more unit. In a run of quotes the third is text. -/
def read (w : Word) (unit : UInt16) : Word :=
  if unit = quote then
    if w.afterQuote then
      if w.quotes + 1 = 3 then { w with text := w.text ++ [quote], quotes := 0 }
      else { w with quotes := w.quotes + 1 }
    else
      let text := w.text ++ List.replicate (w.backslashes / 2) backslash
      if w.backslashes % 2 = 0 then
        { text, backslashes := 0, quotes := w.quotes + 1, afterQuote := true }
      else { text := text ++ [quote], backslashes := 0, quotes := w.quotes, afterQuote := true }
  else if unit = backslash then
    { w with backslashes := w.backslashes + 1, quotes := w.depth, afterQuote := false }
  else { text := w.close ++ [unit], backslashes := 0, quotes := w.depth, afterQuote := false }

end Word

variable (done : List OsStr)

/-- The arguments that are complete, and the one that is not. -/
structure Reader where
  done : List OsStr := []
  word : Option Word := none
  deriving DecidableEq

def Reader.read (r : Reader) (unit : UInt16) : Reader :=
  match r.word with
  | none => if isBlank unit then r else { r with word := some (({} : Word).read unit) }
  | some w =>
    if w.ends unit then ⟨r.done ++ [w.close], none⟩ else { r with word := some (w.read unit) }

def Reader.finish (r : Reader) : List OsStr := r.done ++ (r.word.map Word.close).toList

/-- The arguments after the program. -/
def words (units : OsStr) : List OsStr := (units.foldl Reader.read {}).finish

/-- The rule of `CommandLineToArgvW` for a line that is not empty: a program in
quotes ends at the next quote, whatever stands before it; one without ends
at the first blank. -/
def split : OsStr → List OsStr
  | [] => []
  | unit :: rest =>
    if unit = quote then
      rest.takeWhile (· ≠ quote) :: words ((rest.dropWhile (· ≠ quote)).drop 1)
    else
      (unit :: rest).takeWhile (fun u => !isBlank u) ::
        words ((unit :: rest).dropWhile (fun u => !isBlank u))

/-- `CommandLineToArgvW` reads up to the first NUL. -/
def commandLineToArgv (raw : OsStr) : List OsStr := split (raw.takeWhile (· ≠ 0))

/-! ## What is written is read -/

theorem read_word {w : Word} {unit : UInt16} (h : w.ends unit = false) :
    Reader.read ⟨done, some w⟩ unit = ⟨done, some (w.read unit)⟩ := by
  simp [Reader.read, h]

/-- A run of backslashes in quotes. -/
theorem read_run (text : OsStr) (k : Nat) : ∀ (n : Nat) (after : Bool),
    (List.replicate k backslash).foldl Reader.read ⟨done, some ⟨text, n, 1, after⟩⟩ =
      ⟨done, some ⟨text, n + k, 1, after && k == 0⟩⟩ := by
  induction k with
  | zero =>
    intro n after
    simp
  | succ k ih =>
    intro n after
    have hread : Reader.read ⟨done, some ⟨text, n, 1, after⟩⟩ backslash =
        ⟨done, some ⟨text, n + 1, 1, false⟩⟩ := by
      simp [Reader.read, Word.ends, Word.read, Word.depth, isBlank, backslash, quote, space, tab]
    rw [List.replicate_succ, List.foldl_cons, hread, ih, Nat.add_right_comm, Nat.add_assoc]
    simp

/-- The quote that closes halves the run before it. -/
theorem read_close (text : OsStr) (k : Nat) (after : Bool) :
    Reader.read ⟨done, some ⟨text, k * 2, 1, after && k == 0⟩⟩ quote =
      ⟨done, some ⟨text ++ List.replicate k backslash, 0, 2, true⟩⟩ := by
  rw [read_word done rfl]
  cases hafter : after && k == 0 with
  | true =>
    obtain ⟨-, hk⟩ := (Bool.and_eq_true _ _).mp hafter
    rw [beq_iff_eq.mp hk]
    simp [Word.read]
  | false => simp [Word.read]

/-- A quote after a run of odd length is text. -/
theorem read_escaped (text : OsStr) (k : Nat) :
    Reader.read ⟨done, some ⟨text, k * 2 + 1, 1, false⟩⟩ quote =
      ⟨done, some ⟨text ++ List.replicate k backslash ++ [quote], 0, 1, true⟩⟩ := by
  have hhalf : (k * 2 + 1) / 2 = k := by omega
  have hodd : (k * 2 + 1) % 2 = 1 := by omega
  rw [read_word done rfl]
  simp [Word.read, hhalf, hodd]

/-- Any other unit in quotes is text, and so is the run before it. -/
theorem read_plain (text : OsStr) (k : Nat) (after : Bool) {unit : UInt16} (hquote : unit ≠ quote)
    (hbackslash : unit ≠ backslash) :
    Reader.read ⟨done, some ⟨text, k, 1, after⟩⟩ unit =
      ⟨done, some ⟨text ++ List.replicate k backslash ++ [unit], 0, 1, false⟩⟩ := by
  simp [Reader.read, Word.ends, Word.read, Word.depth, Word.close, hquote, hbackslash]

/-- What is written of the rest of an argument is read as that rest, after the
run that was counted before it. -/
theorem read_quoted (rest : OsStr) : ∀ (k : Nat) (text : OsStr) (after : Bool),
    (quoted k rest ++ [quote]).foldl Reader.read ⟨done, some ⟨text, 0, 1, after⟩⟩ =
      ⟨done, some ⟨text ++ List.replicate k backslash ++ rest, 0, 2, true⟩⟩ := by
  induction rest with
  | nil =>
    intro k text after
    have heven : (k * 2 == 0) = (k == 0) := by cases k <;> rfl
    rw [quoted, List.foldl_append, read_run, Nat.zero_add, heven, List.foldl_cons, List.foldl_nil,
      read_close, List.append_nil]
  | cons unit rest ih =>
    intro k text after
    rw [quoted]
    split
    · next hunit =>
      rw [ih, List.replicate_succ', hunit]
      simp only [List.append_assoc, List.singleton_append]
    split
    · next hunit =>
      have hodd : (k * 2 + 1 == 0) = false := rfl
      rw [List.append_assoc, List.foldl_append, read_run, Nat.zero_add, hodd, Bool.and_false,
        List.cons_append, List.foldl_cons, hunit, read_escaped, ih, List.replicate_zero]
      simp only [List.append_assoc, List.singleton_append, List.append_nil]
    · next hbackslash hquote =>
      rw [List.append_assoc, List.foldl_append, read_run, Nat.zero_add, List.cons_append,
        List.foldl_cons, read_plain _ _ _ _ hquote hbackslash, ih, List.replicate_zero]
      simp only [List.append_assoc, List.singleton_append, List.append_nil]

/-- An argument in quotes, as it stands when it has been read. -/
def Word.whole (arg : OsStr) : Word := ⟨arg, 0, 2, true⟩

/-- An argument and the blank ahead of it, after a program or an argument. -/
theorem read_argument (arg : OsStr) (last : Option OsStr) :
    (space :: quote :: quoted 0 arg ++ [quote]).foldl Reader.read ⟨done, last.map Word.whole⟩ =
      ⟨done ++ last.toList, some (Word.whole arg)⟩ := by
  have hblank : Reader.read ⟨done, last.map Word.whole⟩ space = ⟨done ++ last.toList, none⟩ := by
    cases last with
    | none => simp [Reader.read, isBlank]
    | some arg =>
      simp [Reader.read, Word.ends, Word.depth, Word.close, Word.whole, isBlank]
  have hopen : Reader.read ⟨done ++ last.toList, none⟩ quote =
      ⟨done ++ last.toList, some ⟨[], 0, 1, true⟩⟩ := by
    simp [Reader.read, isBlank, Word.read, quote, space, tab]
  rw [List.cons_append, List.cons_append, List.foldl_cons, List.foldl_cons, hblank, hopen,
    read_quoted]
  rfl

/-- What `command_line` writes after the program. -/
def arguments (args : List OsStr) : OsStr :=
  args.flatMap fun arg => space :: quote :: quoted 0 arg ++ [quote]

theorem words_arguments (args : List OsStr) : ∀ (done : List OsStr) (last : Option OsStr),
    ((arguments args).foldl Reader.read ⟨done, last.map Word.whole⟩).finish =
      done ++ last.toList ++ args := by
  induction args with
  | nil =>
    intro done last
    cases last <;> simp [arguments, Reader.finish, Word.whole, Word.close]
  | cons arg args ih =>
    intro done last
    rw [arguments, List.flatMap_cons, List.foldl_append, read_argument, ← arguments]
    have hrest := ih (done ++ last.toList) (some arg)
    rw [Option.map_some] at hrest
    rw [hrest, Option.toList_some, List.append_assoc, List.singleton_append]

theorem commandLine_eq (binary : OsStr) (args : List OsStr) :
    commandLine binary args = quote :: binary.filter (· ≠ quote) ++ [quote] ++ arguments args := by
  have hfold : ∀ (args : List OsStr) (out : OsStr),
      args.foldl (fun units arg => pushQuoted (units ++ [space]) arg) out =
        out ++ arguments args := by
    intro args
    induction args with
    | nil => simp [arguments]
    | cons arg args ih =>
      intro out
      rw [List.foldl_cons, ih, pushQuoted, arguments, arguments, List.flatMap_cons]
      simp only [List.append_assoc, List.cons_append, List.nil_append]
  rw [commandLine, hfold, pushProgram, List.nil_append]

/-- The rule takes a command line apart into what it was made of. -/
theorem split_commandLine {program : OsStr} (hprogram : quote ∉ program) (args : List OsStr) :
    split (commandLine program args) = program :: args := by
  have hplain : ∀ unit ∈ program, decide (unit ≠ quote) = true := fun unit hunit =>
    decide_eq_true fun heq => hprogram (heq ▸ hunit)
  have hstop : decide (quote ≠ quote) = false := rfl
  rw [commandLine_eq, List.filter_eq_self.mpr hplain, List.append_assoc, List.cons_append,
    List.singleton_append, split, if_pos rfl, List.takeWhile_append_of_pos hplain,
    List.dropWhile_append_of_pos hplain, List.takeWhile_cons_of_neg (by simp),
    List.dropWhile_cons_of_neg (by simp), List.append_nil, List.drop_one, List.tail_cons]
  exact congrArg _ (words_arguments args [] none)

/-! ## Through the NUL -/

/-- Nothing but backslashes is written beside the argument's own units. -/
theorem mem_quoted {unit : UInt16} {rest : OsStr} : ∀ {k : Nat}, unit ∈ quoted k rest →
    unit = backslash ∨ unit ∈ rest := by
  induction rest with
  | nil => exact fun h => .inl (List.eq_of_mem_replicate h)
  | cons first rest ih =>
    intro k h
    rw [quoted] at h
    have hsplit : ∀ n, unit ∈ List.replicate n backslash ++ first :: quoted 0 rest →
        unit = backslash ∨ unit ∈ first :: rest := by
      intro n h
      rcases List.mem_append.mp h with h | h
      · exact .inl (List.eq_of_mem_replicate h)
      rcases List.mem_cons.mp h with rfl | h
      · exact .inr List.mem_cons_self
      · exact (ih h).imp_right (List.mem_cons_of_mem first)
    split at h
    · exact (ih h).imp_right (List.mem_cons_of_mem first)
    · split at h
      · exact hsplit _ h
      · exact hsplit _ h

theorem zero_notMem_arguments {args : List OsStr} (hargs : ∀ arg ∈ args, 0 ∉ arg) :
    0 ∉ arguments args := by
  intro h
  obtain ⟨arg, harg, h⟩ := List.mem_flatMap.mp h
  rcases List.mem_append.mp h with h | h
  · rcases List.mem_cons.mp h with h | h
    · cases h
    rcases List.mem_cons.mp h with h | h
    · cases h
    rcases mem_quoted h with h | h
    · cases h
    · exact hargs arg harg h
  · cases List.mem_singleton.mp h

theorem zero_mem_commandLine {program : OsStr} {args : List OsStr} (hargs : ∀ arg ∈ args, 0 ∉ arg) :
    0 ∈ commandLine program args ↔ 0 ∈ program := by
  have hquote : (0 : UInt16) ≠ quote := by decide
  rw [commandLine_eq, List.mem_append, or_iff_left (zero_notMem_arguments hargs), List.mem_append,
    List.mem_singleton, or_iff_left hquote, List.mem_cons, or_iff_right hquote, List.mem_filter]
  exact and_iff_left (decide_eq_true hquote)

/-- A program without a quote and arguments without a NUL are read as they were
given; and through `to_wide`, which refuses a program with a NUL. -/
theorem command_line_read (program : OsStr) (args : List OsStr) (hprogram : quote ∉ program)
    (hargs : ∀ arg ∈ args, 0 ∉ arg) :
    split (commandLine program args) = program :: args ∧
      (0 ∈ program → toWide (commandLine program args) = none) ∧
      (0 ∉ program → ∃ raw, toWide (commandLine program args) = some raw ∧
        commandLineToArgv raw = program :: args) := by
  have hsplit := split_commandLine hprogram args
  have hzero : 0 ∈ commandLine program args ↔ 0 ∈ program := zero_mem_commandLine hargs
  refine ⟨hsplit, fun h => ?_, fun h => ?_⟩
  · rw [toWide, if_pos (List.contains_iff_mem.mpr (hzero.mpr h))]
  · have hline : (0 : UInt16) ∉ commandLine program args := mt hzero.mp h
    refine ⟨commandLine program args ++ [0], ?_, ?_⟩
    · rw [toWide, if_neg (mt List.contains_iff_mem.mp hline)]
    · have hkept : ∀ unit ∈ commandLine program args, decide (unit ≠ 0) = true := fun unit hunit =>
        decide_eq_true fun heq => hline (heq ▸ hunit)
      rw [commandLineToArgv, List.takeWhile_append_of_pos hkept,
        List.takeWhile_cons_of_neg (by simp), List.append_nil, hsplit]

/-- An argument ending in a backslash, after one with a quote in it. -/
theorem command_line_read_edges :
    split (commandLine [0x43] [[0x61, quote, backslash], []]) =
        [[0x43], [0x61, quote, backslash], []] ∧
      (0 ∈ [(0x43 : UInt16)] →
        toWide (commandLine [0x43] [[0x61, quote, backslash], []]) = none) ∧
      (0 ∉ [(0x43 : UInt16)] →
        ∃ raw, toWide (commandLine [0x43] [[0x61, quote, backslash], []]) = some raw ∧
          commandLineToArgv raw = [[0x43], [0x61, quote, backslash], []]) :=
  command_line_read [0x43] [[0x61, quote, backslash], []] (by decide) (by decide)

end Zesterm.CommandLine
