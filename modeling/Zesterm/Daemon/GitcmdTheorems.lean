/-
Zesterm.Daemon.GitcmdTheorems — when a diff is answered in whole files.

`Longest text cap kept` says what the answer's diff is to be: the longest
prefix of the text, within the cap, that ends where a file ends. The trim
keeps just that of the text it is given (`trim_longest`). The text it is
given is cut by the run, and every file of it is one of the whole text whose
header was read (`fileStart_cut`).

The untracked names are read off the pieces of the listing, the old path of a
rename being a piece of its own (`Entry.pieces`). A capped listing keeps the
pieces that end within the cap (`marked_wholeEntries`).

`diff_in_whole_files` states the bounds together: exactly the runs that
`DiffFits` and `StatusFits` describe are answered as they should be.
-/
import Zesterm.Daemon.Gitcmd

namespace Zesterm.Gitcmd

open Utf8

variable {text piece before output : List UInt8} {child : Child} {all : List (List UInt8)}
  {entries : List Entry}

/-! ## Whole files -/

/-- A file starts after these bytes: they end a line, and a header follows. -/
def FileStart (text before : List UInt8) : Prop :=
  before.getLast? = some newline ∧ before ++ header <+: text

/-- A prefix made of whole files: none, all, or up to where one starts. -/
def WholeFiles (text kept : Text) : Prop := kept = [] ∨ kept = text ∨ FileStart text kept

structure Longest (text : Text) (cap : Nat) (kept : Text) : Prop where
  whole : WholeFiles text kept
  within : kept.length ≤ cap
  longest : ∀ other, WholeFiles text other → other.length ≤ cap → other.length ≤ kept.length

theorem FileStart.isPrefix (h : FileStart text before) : before <+: text :=
  (List.prefix_append before header).trans h.2

theorem FileStart.ne_nil (h : FileStart text before) : before ≠ [] := by
  rintro rfl
  cases h.1

theorem newline_ascii : newline < 0x80 := by decide

theorem header_ascii : ∀ c ∈ header, c < 0x80 := by simp [header]

theorem newline_notMem_header : newline ∉ header := by simp [newline, header]

theorem eq_snoc_of_getLast? {b : UInt8} (h : text.getLast? = some b) : ∃ line, text = line ++ [b] :=
  List.getLast?_eq_some_iff.mp h

/-! ## The trim -/

/-- The first line of a text that has one: nothing in it but its end is a
newline, and it ends with one unless it is the last. -/
theorem exists_splitInclusive {text : Text} (h : text ≠ []) :
    ∃ line rest, text = line ++ rest ∧ splitInclusive text = line :: splitInclusive rest ∧
      line ≠ [] ∧ newline ∉ line.dropLast ∧ (rest = [] ∨ line.getLast? = some newline) := by
  induction text with
  | nil => exact absurd rfl h
  | cons b text ih =>
    by_cases hb : b = newline
    · exact ⟨[b], text, rfl, by simp [splitInclusive, hb], by simp, by simp, .inr (by simp [hb])⟩
    cases text with
    | nil => exact ⟨[b], [], rfl, by simp [splitInclusive, hb], by simp, by simp, .inl rfl⟩
    | cons c text =>
      obtain ⟨line, rest, htext, hsplit, hne, hline, hlast⟩ := ih (List.cons_ne_nil c text)
      refine ⟨b :: line, rest, by rw [htext]; rfl, ?_, by simp, ?_, ?_⟩
      · rw [splitInclusive, if_neg hb, hsplit]
      · rw [List.dropLast_cons_of_ne_nil hne, List.mem_cons, not_or]
        exact ⟨fun heq => hb heq.symm, hline⟩
      · rwa [List.getLast?_cons_of_ne_nil hne]

/-- A header begins a line where it begins the text from there on. -/
theorem header_isPrefix_line {line rest : Text}
    (hlast : rest = [] ∨ line.getLast? = some newline) :
    header <+: line ++ rest ↔ header <+: line := by
  refine ⟨fun h => ?_, fun h => h.trans (List.prefix_append line rest)⟩
  rcases List.prefix_or_prefix_of_prefix h (List.prefix_append line rest) with hpre | hpre
  · exact hpre
  -- a line shorter than the header is the last one
  rcases hlast with rfl | hlast
  · rwa [List.append_nil] at h
  · exact absurd (hpre.subset (List.mem_of_getLast? hlast)) newline_notMem_header

/-- The only file that starts in a line starts with it. -/
theorem FileStart.eq_of_line {before line rest kept : Text}
    (hline : newline ∉ line.dropLast) (h : FileStart (before ++ (line ++ rest)) kept)
    (hle : before.length ≤ kept.length) (hlt : kept.length < before.length + line.length) :
    kept = before := by
  obtain ⟨more, rfl⟩ := List.prefix_of_prefix_length_le
    (List.prefix_append before (line ++ rest)) h.isPrefix hle
  rw [List.length_append] at hlt
  cases hmore : more.getLast? with
  | none => rw [List.getLast?_eq_none_iff.mp hmore, List.append_nil]
  | some b =>
    have hb : b = newline := by
      have hlast := h.1
      rw [List.getLast?_append, hmore] at hlast
      exact Option.some.inj hlast
    have hin : more <+: line :=
      List.prefix_of_prefix_length_le ((List.prefix_append_right_inj before).mp h.isPrefix)
        (List.prefix_append line rest) (by omega)
    have hshort : more <+: line.dropLast := by
      rw [List.dropLast_eq_take, List.prefix_take_iff]
      exact ⟨hin, by omega⟩
    exact absurd (hshort.subset (hb ▸ List.mem_of_getLast? hmore)) hline

/-- What the loop has found among the files that start before `upto`. -/
structure Found (text : Text) (cap upto cut : Nat) : Prop where
  found : cut = 0 ∨ cut ≤ cap ∧ ∃ kept, FileStart text kept ∧ kept.length = cut
  last : ∀ kept, FileStart text kept → kept.length < upto → kept.length ≤ cap →
    kept.length ≤ cut

/-- One line of the loop. -/
theorem Found.step {before line rest : Text} {cap cut : Nat}
    (h : Found (before ++ (line ++ rest)) cap before.length cut)
    (hline : newline ∉ line.dropLast) (hlast : rest = [] ∨ line.getLast? = some newline)
    (hbefore : before = [] ∨ before.getLast? = some newline) (hcap : before.length ≤ cap) :
    Found (before ++ (line ++ rest)) cap (before.length + line.length)
      (if header.isPrefixOf line && decide (0 < before.length) then before.length else cut) := by
  have hstart : FileStart (before ++ (line ++ rest)) before ↔
      header.isPrefixOf line = true ∧ 0 < before.length := by
    rw [FileStart, List.prefix_append_right_inj, header_isPrefix_line hlast,
      List.isPrefixOf_iff_prefix, List.length_pos_iff, and_comm]
    refine and_congr_right fun _ => ⟨?_, fun hne => hbefore.resolve_left hne⟩
    rintro hend rfl
    cases hend
  by_cases hhead : header.isPrefixOf line = true ∧ 0 < before.length
  · rw [if_pos (by simpa using hhead)]
    refine ⟨.inr ⟨hcap, before, hstart.mpr hhead, rfl⟩, fun kept hkept hlt hle => ?_⟩
    by_cases hlater : before.length ≤ kept.length
    · rw [hkept.eq_of_line hline hlater hlt]
    · omega
  · rw [if_neg (by simpa using hhead)]
    refine ⟨h.found, fun kept hkept hlt hle => ?_⟩
    by_cases hlater : before.length ≤ kept.length
    · have heq := hkept.eq_of_line hline hlater hlt
      exact absurd (hstart.mp (heq ▸ hkept)) hhead
    · exact h.last kept hkept (by omega) hle

/-- The loop finds the last file that starts within the cap. -/
theorem lastHeader_found (cap : Nat) {before rest : Text} {cut : Nat}
    (hbefore : before = [] ∨ before.getLast? = some newline)
    (h : Found (before ++ rest) cap before.length cut) :
    Found (before ++ rest) cap (cap + 1) (lastHeader cap (splitInclusive rest) before.length cut) := by
  induction hn : rest.length using Nat.strong_induction_on generalizing before rest cut with
  | _ n ih =>
    by_cases hrest : rest = []
    · subst hrest
      refine ⟨h.found, fun kept hkept hlt hle => h.last kept hkept ?_ hle⟩
      have hlen := hkept.2.length_le
      simp only [List.append_nil, List.length_append, header, List.length_cons,
        List.length_nil] at hlen
      omega
    · obtain ⟨line, rest', rfl, hsplit, hne, hline, hlast⟩ := exists_splitInclusive hrest
      rw [hsplit, lastHeader]
      split
      · next hpast => exact ⟨h.found, fun kept hkept hlt hle => h.last kept hkept (by omega) hle⟩
      · next hpast =>
        have hstep := h.step hline hlast hbefore (Nat.not_lt.mp hpast)
        rw [← List.append_assoc, ← List.length_append] at hstep ⊢
        by_cases hend : rest' = []
        · -- nothing starts after the last line
          subst hend
          refine ⟨hstep.found, fun kept hkept hlt hle => hstep.last kept hkept ?_ hle⟩
          have hlen := hkept.2.length_le
          simp only [List.append_nil, List.length_append, header, List.length_cons,
            List.length_nil] at hlen ⊢
          omega
        · have hpos := List.length_pos_of_ne_nil hne
          refine ih rest'.length ?_ ?_ hstep rfl
          · rw [← hn, List.length_append]
            omega
          · refine .inr ?_
            rw [List.getLast?_append, hlast.resolve_left hend]
            rfl

/-- The trim of a text past the cap keeps the longest prefix of whole files. -/
theorem trim_longest {text : Text} {cap : Nat} (h : cap < text.length) :
    Longest text cap (trimToFileBoundary text cap).1 ∧ (trimToFileBoundary text cap).2 = true := by
  have hfound := @lastHeader_found cap [] text 0 (.inl rfl)
    ⟨.inl rfl, fun kept _ hlt _ => absurd hlt (Nat.not_lt_zero _)⟩
  simp only [List.nil_append, List.length_nil] at hfound
  rw [trimToFileBoundary, if_neg (Nat.not_le.mpr h)]
  set cut := lastHeader cap (splitInclusive text) 0 0
  have hother : ∀ other, WholeFiles text other → other.length ≤ cap → other.length ≤ cut := by
    rintro other (rfl | rfl | hother) hle
    · exact Nat.zero_le cut
    · omega
    · exact hfound.last other hother (by omega) hle
  by_cases hcut : cut = 0
  · rw [if_pos hcut]
    exact ⟨⟨.inl rfl, Nat.zero_le cap, fun other hw hle => (hother other hw hle).trans_eq hcut⟩, rfl⟩
  · rw [if_neg hcut]
    obtain ⟨hle, kept, hkept, hlen⟩ := hfound.found.resolve_left hcut
    have heq : text.take cut = kept := by rw [← hlen, ← List.prefix_iff_eq_take.mp hkept.isPrefix]
    refine ⟨?_, rfl⟩
    show Longest text cap (text.take cut)
    rw [heq]
    exact ⟨.inr (.inr hkept), hlen ▸ hle, fun other hw hle => hlen ▸ hother other hw hle⟩

/-! ## The text of a run -/

/-- A text of one reading: what ends a line is read apart from what follows. -/
theorem lossy_append_of_line (h : before.getLast? = some newline) (after : List UInt8) :
    lossy (before ++ after) = lossy before ++ lossy after := by
  obtain ⟨line, rfl⟩ := eq_snoc_of_getLast? h
  rw [List.append_assoc, List.singleton_append, lossy_append_ascii _ _ newline_ascii,
    lossy_append_ascii _ _ newline_ascii]
  simp

/-- The files of the text are the files of the output. -/
theorem fileStart_lossy {kept : List UInt8} :
    FileStart (lossy output) kept ↔ ∃ before, FileStart output before ∧ lossy before = kept := by
  constructor
  · rintro ⟨hlast, rest, hrest⟩
    obtain ⟨line, rfl⟩ := eq_snoc_of_getLast? hlast
    rw [List.append_assoc, List.append_assoc, List.singleton_append] at hrest
    obtain ⟨a, b, rfl, rfl, hb⟩ := exists_of_lossy_eq newline_ascii hrest.symm
    have hhead : header <+: b := (isPrefix_lossy header_ascii).mp ⟨rest, hb.symm⟩
    refine ⟨a ++ [newline], ⟨by simp, ?_⟩, by rw [lossy_append_ascii _ _ newline_ascii, lossy_nil]⟩
    rw [List.append_assoc, List.singleton_append, List.prefix_append_right_inj]
    exact (List.prefix_cons_inj newline).mpr hhead
  · rintro ⟨before, ⟨hlast, rest, rfl⟩, rfl⟩
    have hread : lossy (before ++ header ++ rest) = lossy before ++ lossy (header ++ rest) := by
      rw [List.append_assoc, lossy_append_of_line hlast]
    refine ⟨?_, ?_⟩
    · obtain ⟨line, rfl⟩ := eq_snoc_of_getLast? hlast
      rw [lossy_append_ascii _ _ newline_ascii]
      simp
    · rw [hread, List.prefix_append_right_inj]
      exact (isPrefix_lossy header_ascii).mpr (List.prefix_append header rest)

/-- The files of a cut output are those whose header was read. -/
theorem fileStart_cut {n : Nat} :
    FileStart (output.take n) before ↔
      FileStart output before ∧ before.length + header.length ≤ n := by
  rw [FileStart, FileStart, List.prefix_take_iff, List.length_append, and_assoc]

/-- Of two places where a file starts, the one with the longer text is later. -/
theorem length_le_of_lossy_le {a b : List UInt8} (ha : FileStart output a) (hb : FileStart output b)
    (h : (lossy a).length ≤ (lossy b).length) : a.length ≤ b.length := by
  by_contra hlt
  obtain ⟨more, rfl⟩ :=
    List.prefix_of_prefix_length_le hb.isPrefix ha.isPrefix (Nat.le_of_not_le hlt)
  rw [lossy_append_of_line hb.1, List.length_append] at h
  have hmore := length_le_lossy more
  rw [List.length_append] at hlt
  omega

/-- The trim of a cut text finds the last file within the cap exactly where no
header within the cap was cut. -/
theorem cut_longest {cap : Nat} (h : cap + 1 < output.length) :
    Longest (lossy output) cap (trimToFileBoundary (lossy (output.take (cap + 1))) cap).1 ↔
      ∀ before, FileStart output before → (lossy before).length ≤ cap →
        before.length + header.length ≤ cap + 1 := by
  have hcut : cap < (lossy (output.take (cap + 1))).length := by
    have hle := length_le_lossy (output.take (cap + 1))
    rw [List.length_take] at hle
    omega
  have hall : cap < (lossy output).length := by
    have hle := length_le_lossy output
    omega
  obtain ⟨hkept, -⟩ := trim_longest hcut
  set kept := (trimToFileBoundary (lossy (output.take (cap + 1))) cap).1
  -- what is kept of the cut text starts a file of it
  have hfile : kept = [] ∨ ∃ before, FileStart (output.take (cap + 1)) before ∧
      lossy before = kept := by
    rcases hkept.whole with hnil | hwhole | hfile
    · exact .inl hnil
    · have hwithin := hkept.within
      rw [hwhole] at hwithin
      omega
    · exact .inr (fileStart_lossy.mp hfile)
  constructor
  · intro hlongest before hbefore hle
    have hlater := hlongest.longest _ (.inr (.inr (fileStart_lossy.mpr ⟨before, hbefore, rfl⟩))) hle
    rcases hfile with hnil | ⟨last, hlast, hread⟩
    · rw [hnil] at hlater
      have hne := List.length_pos_of_ne_nil hbefore.ne_nil
      have hlen := length_le_lossy before
      simp only [List.length_nil] at hlater
      omega
    · obtain ⟨hlast, hroom⟩ := fileStart_cut.mp hlast
      have hle' := length_le_of_lossy_le hbefore hlast (by rw [hread]; exact hlater)
      omega
  · intro hread
    refine ⟨?_, hkept.within, ?_⟩
    · rcases hfile with hnil | ⟨last, hlast, heq⟩
      · exact .inl hnil
      · exact .inr (.inr (fileStart_lossy.mpr ⟨last, (fileStart_cut.mp hlast).1, heq⟩))
    · rintro other (rfl | rfl | hother) hle
      · exact Nat.zero_le _
      · omega
      · obtain ⟨before, hbefore, rfl⟩ := fileStart_lossy.mp hother
        refine hkept.longest _ (.inr (.inr (fileStart_lossy.mpr ⟨before, ?_, rfl⟩))) hle
        exact fileStart_cut.mpr ⟨hbefore, hread before hbefore hle⟩

/-! ## The diff -/

/-- A run of a diff that ends as it should: it is read whole but for a byte, or
what is left fits the pipe and no header within the cap was cut. -/
def DiffFits (child : Child) : Prop :=
  child.output.length ≤ diffCap + 1 ∨
    child.output.length ≤ diffCap + 2 + child.buffered ∧
      ∀ before, FileStart child.output before → (lossy before).length ≤ diffCap →
        before.length + header.length ≤ diffCap + 1

/-- A diff is answered, with the longest prefix of whole files. -/
structure DiffMet (output : List UInt8) (r : GitDiffResult) : Prop where
  answered : r.error = ""
  longest : Longest (lossy output) diffCap r.diff
  truncated : r.truncated = true ↔ r.diff ≠ lossy output

/-- A text within the cap is all kept. -/
theorem longest_self {text : Text} {cap : Nat} (h : text.length ≤ cap) : Longest text cap text where
  whole := .inr (.inl rfl)
  within := h
  longest := by
    rintro other (rfl | rfl | hother) -
    · exact Nat.zero_le _
    · exact Nat.le_refl _
    · exact hother.isPrefix.length_le

theorem runGit_eq (htime : child.inTime = true) (cap : Nat) :
    runGit (some child) cap = some {
      out := child.output.take cap
      ok := child.succeeds && child.output.length ≤ cap + 1 + child.buffered
      truncated := cap < child.output.length } := by
  have hcap : min cap (cap + 1) = cap := Nat.min_eq_left (Nat.le_succ cap)
  rw [runGit, if_pos htime, List.take_take, hcap, List.length_take]
  congr 2
  simp only [decide_eq_decide]
  omega

/-- The text kept of a run that ended well, and whether something was dropped. -/
def keptOf (child : Child) : Text × Bool :=
  let kept := trimToFileBoundary (lossy (child.output.take (diffCap + 1))) diffCap
  (kept.1, kept.2 || decide (diffCap + 1 < child.output.length))

/-- What is kept of a run read whole. -/
theorem keptOf_whole (h : child.output.length ≤ diffCap + 1) :
    Longest (lossy child.output) diffCap (keptOf child).1 ∧
      ((keptOf child).2 = true ↔ (keptOf child).1 ≠ lossy child.output) := by
  rw [keptOf, List.take_of_length_le h, decide_eq_false (Nat.not_lt.mpr h), Bool.or_false]
  by_cases hcap : (lossy child.output).length ≤ diffCap
  · rw [trimToFileBoundary, if_pos hcap]
    exact ⟨longest_self hcap, by simp⟩
  · obtain ⟨hlongest, htrue⟩ := trim_longest (Nat.not_le.mp hcap)
    refine ⟨hlongest, iff_of_true htrue fun heq => hcap ?_⟩
    rw [← heq]
    exact hlongest.within

/-- What is kept of a run that was cut: it says so. -/
theorem keptOf_cut (h : diffCap + 1 < child.output.length) :
    (Longest (lossy child.output) diffCap (keptOf child).1 ∧
      ((keptOf child).2 = true ↔ (keptOf child).1 ≠ lossy child.output)) ↔
    ∀ before, FileStart child.output before → (lossy before).length ≤ diffCap →
      before.length + header.length ≤ diffCap + 1 := by
  rw [← cut_longest h, keptOf, decide_eq_true h, Bool.or_true]
  refine ⟨And.left, fun hlongest => ⟨hlongest, iff_of_true rfl fun heq => ?_⟩⟩
  have hwithin := hlongest.within
  have hlen := length_le_lossy child.output
  dsimp only at heq
  rw [heq] at hwithin
  omega

/-! ## The listing -/

/-- A path git prints. -/
structure Path where
  bytes : List UInt8
  ne_nil : bytes ≠ []
  noNul : 0 ∉ bytes

/-- The two letters of an entry that is not untracked. -/
structure Code where
  x : UInt8
  y : UInt8
  x_ne : x ≠ 0
  y_ne : y ≠ 0
  tracked : ¬ (x = 63 ∧ y = 63)

/-- An entry of `git status --porcelain -z`. -/
inductive Entry where
  | untracked (path : Path)
  | changed (code : Code) (path : Path)
  | renamed (code : Code) (path old : Path)

/-- What stands between the terminators: a rename's old path is a piece. -/
def Entry.pieces : Entry → List (List UInt8)
  | .untracked path => [mark ++ path.bytes]
  | .changed code path => [[code.x, code.y, 32] ++ path.bytes]
  | .renamed code path old => [[code.x, code.y, 32] ++ path.bytes, old.bytes]

def Entry.name? : Entry → Option (List UInt8)
  | .untracked path => some path.bytes
  | _ => none

/-- A rename whose old path reads like an untracked entry. -/
def Entry.isDecoy : Entry → Bool
  | .renamed _ _ old => isMarked old.bytes
  | _ => false

def pieces (entries : List Entry) : List (List UInt8) := entries.flatMap Entry.pieces

/-- The listing of these entries. -/
def printed (pieces : List (List UInt8)) : List UInt8 := pieces.flatMap (· ++ [0])

def untrackedPaths (entries : List Entry) : List (List UInt8) := entries.filterMap Entry.name?

theorem noNul_pieces (entries : List Entry) : ∀ piece ∈ pieces entries, 0 ∉ piece := by
  intro piece hpiece
  obtain ⟨entry, -, hpiece⟩ := List.mem_flatMap.mp hpiece
  cases entry with
  | untracked path =>
    rw [Entry.pieces, List.mem_singleton] at hpiece
    simp [hpiece, mark, path.noNul]
  | changed code path =>
    rw [Entry.pieces, List.mem_singleton] at hpiece
    simp [hpiece, path.noNul, code.x_ne.symm, code.y_ne.symm]
  | renamed code path old =>
    rw [Entry.pieces, List.mem_pair] at hpiece
    rcases hpiece with rfl | rfl
    · simp [path.noNul, code.x_ne.symm, code.y_ne.symm]
    · exact old.noNul

theorem printed_cons (piece : List UInt8) (rest : List (List UInt8)) :
    printed (piece :: rest) = piece ++ 0 :: printed rest := by
  simp [printed]

/-! ## The marks of a listing -/

theorem splitNul_ne_nil (bytes : List UInt8) : splitNul bytes ≠ [] := by
  cases bytes with
  | nil => simp [splitNul]
  | cons b rest =>
    rw [splitNul]
    split
    · simp
    · split <;> simp

theorem splitNul_of_noNul (h : 0 ∉ piece) : splitNul piece = [piece] := by
  induction piece with
  | nil => rfl
  | cons b piece ih =>
    rw [List.mem_cons, not_or] at h
    rw [splitNul, if_neg fun hb => h.1 hb.symm, ih h.2]

theorem splitNul_append (h : 0 ∉ piece) (rest : List UInt8) :
    splitNul (piece ++ 0 :: rest) = piece :: splitNul rest := by
  induction piece with
  | nil => rfl
  | cons b piece ih =>
    rw [List.mem_cons, not_or] at h
    rw [List.cons_append, splitNul, if_neg fun hb => h.1 hb.symm, ih h.2]

theorem splitNul_printed (h : ∀ piece ∈ all, 0 ∉ piece) : splitNul (printed all) = all ++ [[]] := by
  induction all with
  | nil => rfl
  | cons piece rest ih =>
    obtain ⟨hpiece, hrest⟩ := List.forall_mem_cons.mp h
    rw [printed_cons, splitNul_append hpiece, ih hrest, List.cons_append]

theorem marked_append (a b : List (List UInt8)) : marked (a ++ b) = marked a ++ marked b := by
  simp [marked]

theorem marked_cons (piece : List UInt8) (rest : List (List UInt8)) :
    marked (piece :: rest) = marked [piece] ++ marked rest :=
  marked_append [piece] rest

theorem marked_nil : marked [[]] = [] := rfl

theorem marked_printed (h : ∀ piece ∈ all, 0 ∉ piece) :
    marked (wholeEntries (printed all) false) = marked all := by
  rw [wholeEntries, Bool.false_and, if_neg Bool.false_ne_true, splitNul_printed h, marked_append,
    marked_nil, List.append_nil]

/-- The pieces that end within a bound, terminators counted. -/
def endWithin : Nat → List (List UInt8) → List (List UInt8)
  | _, [] => []
  | n, piece :: rest =>
    if piece.length + 1 ≤ n then piece :: endWithin (n - (piece.length + 1)) rest else []

theorem endWithin_of_le {n : Nat} (h : (printed all).length ≤ n) : endWithin n all = all := by
  induction all generalizing n with
  | nil => rfl
  | cons piece rest ih =>
    rw [printed_cons, List.length_append, List.length_cons] at h
    rw [endWithin, if_pos (by omega), ih (by omega)]

theorem getLast?_append_nul (piece rest : List UInt8) :
    (piece ++ 0 :: rest).getLast? = some (rest.getLast?.getD 0) := by
  rw [List.getLast?_append, List.getLast?_cons, Option.some_or]

/-- A piece with its terminator is whole, whatever follows. -/
theorem marked_wholeEntries_cons (h : 0 ∉ piece) (rest : List UInt8) :
    marked (wholeEntries (piece ++ 0 :: rest) true) =
      marked [piece] ++ marked (wholeEntries rest true) := by
  rw [wholeEntries, wholeEntries, splitNul_append h, getLast?_append_nul]
  cases hlast : rest.getLast? with
  | none =>
    rw [List.getLast?_eq_none_iff.mp hlast]
    exact marked_cons piece [[]]
  | some b =>
    rw [Option.getD_some, Bool.true_and]
    split
    · rw [List.dropLast_cons_of_ne_nil (splitNul_ne_nil rest)]
      exact marked_cons piece _
    · exact marked_cons piece _

/-- A capped listing: the pieces that end within the cap, and no fragment. -/
theorem marked_wholeEntries (h : ∀ piece ∈ all, 0 ∉ piece) (n : Nat) :
    marked (wholeEntries ((printed all).take n) true) = marked (endWithin n all) := by
  induction all generalizing n with
  | nil => simp [printed, wholeEntries, splitNul, endWithin]
  | cons piece rest ih =>
    obtain ⟨hpiece, hrest⟩ := List.forall_mem_cons.mp h
    rw [printed_cons, endWithin]
    split
    · next hle =>
      obtain ⟨k, rfl⟩ := Nat.exists_eq_add_of_le hle
      have htake : (piece ++ 0 :: printed rest).take (piece.length + 1 + k) =
          piece ++ 0 :: (printed rest).take k := by
        rw [Nat.add_assoc, List.take_length_add_append, Nat.add_comm 1 k, List.take_succ_cons]
      rw [htake, marked_wholeEntries_cons hpiece, ih hrest, Nat.add_sub_cancel_left,
        ← marked_cons]
    · next hlt =>
      rw [List.take_append_of_le_length (by omega)]
      have hpart : 0 ∉ piece.take n := fun hmem => hpiece (List.mem_of_mem_take hmem)
      have hlast : (piece.take n).getLast? ≠ some 0 :=
        fun hend => hpart (List.mem_of_getLast? hend)
      rw [wholeEntries, if_pos (by simpa using hlast), splitNul_of_noNul hpart]
      rfl

/-! ## Decoys -/

theorem isMarked_iff {entry : List UInt8} :
    isMarked entry = true ↔ 3 < entry.length ∧ entry.take 3 = mark := by
  simp [isMarked]

theorem isMarked_mark (path : Path) : isMarked (mark ++ path.bytes) = true := by
  have hpos := List.length_pos_of_ne_nil path.ne_nil
  refine isMarked_iff.mpr ⟨?_, rfl⟩
  simp only [mark, List.length_append, List.length_cons, List.length_nil]
  omega

theorem isMarked_code (code : Code) (path : Path) :
    isMarked ([code.x, code.y, 32] ++ path.bytes) = false := by
  rw [Bool.eq_false_iff, ne_eq, isMarked_iff]
  rintro ⟨-, hmark⟩
  exact code.tracked (by simpa [mark] using hmark)

/-- The mark of one entry is its name, but for a decoy. -/
theorem marked_entry {entry : Entry} (h : entry.isDecoy = false) :
    marked entry.pieces = entry.name?.toList := by
  cases entry with
  | untracked path =>
    rw [marked, Entry.pieces, List.filter_cons_of_pos (isMarked_mark path)]
    rfl
  | changed code path =>
    rw [marked, Entry.pieces, List.filter_cons_of_neg (by rw [isMarked_code code path]; simp)]
    rfl
  | renamed code path old =>
    have hold : isMarked old.bytes = false := h
    rw [marked, Entry.pieces, List.filter_cons_of_neg (by rw [isMarked_code code path]; simp),
      List.filter_cons_of_neg (by rw [hold]; simp)]
    rfl

/-- A decoy has one mark and no name. -/
theorem length_marked_decoy {entry : Entry} (h : entry.isDecoy = true) :
    (marked entry.pieces).length = 1 ∧ entry.name? = none := by
  cases entry with
  | untracked | changed => cases h
  | renamed code path old =>
    have hold : isMarked old.bytes = true := h
    rw [marked, Entry.pieces, List.filter_cons_of_neg (by rw [isMarked_code code path]; simp),
      List.filter_cons_of_pos hold]
    exact ⟨rfl, rfl⟩

theorem pieces_cons (entry : Entry) (entries : List Entry) :
    pieces (entry :: entries) = entry.pieces ++ pieces entries :=
  List.flatMap_cons

theorem untrackedPaths_cons (entry : Entry) (entries : List Entry) :
    untrackedPaths (entry :: entries) = entry.name?.toList ++ untrackedPaths entries := by
  rw [untrackedPaths, List.filterMap_cons]
  cases entry.name? <;> rfl

theorem marked_of_no_decoy (h : ∀ e ∈ entries, e.isDecoy = false) :
    marked (pieces entries) = untrackedPaths entries := by
  induction entries with
  | nil => rfl
  | cons entry entries ih =>
    obtain ⟨hentry, hrest⟩ := List.forall_mem_cons.mp h
    rw [pieces_cons, marked_append, marked_entry hentry, ih hrest, untrackedPaths_cons]

/-- Every decoy is one mark too many. -/
theorem length_marked (entries : List Entry) :
    (marked (pieces entries)).length =
      (untrackedPaths entries).length + entries.countP Entry.isDecoy := by
  induction entries with
  | nil => rfl
  | cons entry entries ih =>
    rw [pieces_cons, marked_append, List.length_append, ih, untrackedPaths_cons,
      List.length_append]
    cases hdecoy : entry.isDecoy with
    | false =>
      rw [marked_entry hdecoy, List.countP_cons_of_neg (by simp [hdecoy])]
      omega
    | true =>
      obtain ⟨hmarks, hname⟩ := length_marked_decoy hdecoy
      rw [hmarks, hname, List.countP_cons_of_pos hdecoy, Option.toList_none, List.length_nil]
      omega

/-! ## The untracked names -/

/-- A run of a status that ends as it should. It is read whole and no old path
reads like an entry; or there are more untracked paths than are answered, and
the marks read first are theirs; or it is cut off and there are none. -/
def StatusFits (child : Child) (entries : List Entry) : Prop :=
  (child.output.length ≤ statusCap ∧ ∀ e ∈ entries, e.isDecoy = false) ∨
  (child.output.length ≤ statusCap + 1 + child.buffered ∧
    untrackedCap < (untrackedPaths entries).length ∧
    ((marked (endWithin statusCap (pieces entries))).take untrackedCap).map lossy =
      ((untrackedPaths entries).take untrackedCap).map lossy) ∨
  (statusCap + 1 + child.buffered < child.output.length ∧ untrackedPaths entries = [])

/-- The untracked names are the paths of the untracked entries, up to the cap,
and it is said when some are missing. -/
structure StatusMet (entries : List Entry) (names : List Text × Bool) : Prop where
  paths : names.1 = ((untrackedPaths entries).map lossy).take untrackedCap
  missing : names.2 = true ↔ names.1.length < (untrackedPaths entries).length

theorem missing_iff {names : List Text × Bool}
    (h : names.1 = ((untrackedPaths entries).map lossy).take untrackedCap) :
    names.1.length < (untrackedPaths entries).length ↔
      untrackedCap < (untrackedPaths entries).length := by
  rw [h, List.length_take, List.length_map]
  omega

/-- The names read from a listing that ended well. -/
theorem untracked_of_ok (htime : child.inTime = true) (hok : child.succeeds = true)
    (hlist : child.output = printed (pieces entries))
    (h : child.output.length ≤ statusCap + 1 + child.buffered) :
    untracked (some child) =
      (((marked (endWithin statusCap (pieces entries))).map lossy).take untrackedCap,
        decide (statusCap < child.output.length) ||
          decide (untrackedCap < (marked (endWithin statusCap (pieces entries))).length)) := by
  have hnames : marked (wholeEntries (child.output.take statusCap)
      (decide (statusCap < child.output.length))) =
      marked (endWithin statusCap (pieces entries)) := by
    by_cases hcut : statusCap < child.output.length
    · rw [decide_eq_true hcut, hlist, marked_wholeEntries (noNul_pieces entries)]
    · have hle := Nat.not_lt.mp hcut
      rw [decide_eq_false hcut, List.take_of_length_le hle, hlist,
        marked_printed (noNul_pieces entries), endWithin_of_le (hlist ▸ hle)]
  rw [untracked, runGit_eq htime, Option.filter_some]
  simp only [hok, Bool.true_and, decide_eq_true h, if_true]
  rw [untrackedNames, hnames, List.length_map]

/-- A listing cut off is no answer. -/
theorem untracked_of_cut (htime : child.inTime = true)
    (h : statusCap + 1 + child.buffered < child.output.length) :
    untracked (some child) = ([], false) := by
  rw [untracked, runGit_eq htime, Option.filter_some]
  simp only [decide_eq_false (Nat.not_le.mpr h), Bool.and_false, Bool.false_eq_true, if_false]

theorem statusMet_iff (htime : child.inTime = true) (hok : child.succeeds = true)
    (hlist : child.output = printed (pieces entries)) :
    StatusMet entries (untracked (some child)) ↔ StatusFits child entries := by
  by_cases hfits : child.output.length ≤ statusCap + 1 + child.buffered
  · rw [untracked_of_ok htime hok hlist hfits]
    constructor
    · rintro ⟨hnames, hmissing⟩
      rw [missing_iff hnames] at hmissing
      simp only [Bool.or_eq_true, decide_eq_true_eq] at hnames hmissing
      by_cases hmany : untrackedCap < (untrackedPaths entries).length
      · exact .inr (.inl ⟨hfits, hmany, by rw [List.map_take, List.map_take]; exact hnames⟩)
      · -- all is read, and there are as many marks as untracked paths
        have hnot : ¬ (statusCap < child.output.length ∨ _) := fun h => hmany (hmissing.mp h)
        obtain ⟨hwhole, hfew⟩ := not_or.mp hnot
        have hwhole := Nat.not_lt.mp hwhole
        rw [endWithin_of_le (hlist ▸ hwhole)] at hnames hfew
        rw [List.take_of_length_le (by rw [List.length_map]; omega),
          List.take_of_length_le (by rw [List.length_map]; omega)] at hnames
        have hlen := congrArg List.length hnames
        rw [List.length_map, List.length_map, length_marked] at hlen
        have hnone : entries.countP Entry.isDecoy = 0 := by omega
        refine .inl ⟨hwhole, fun e he => ?_⟩
        simpa using List.countP_eq_zero.mp hnone e he
    · intro h
      rcases h with ⟨hwhole, hdecoy⟩ | ⟨-, hmany, hread⟩ | ⟨hcut, -⟩
      · rw [endWithin_of_le (hlist ▸ hwhole), marked_of_no_decoy hdecoy]
        refine ⟨rfl, Iff.trans ?_ (missing_iff (by exact rfl)).symm⟩
        rw [decide_eq_false (Nat.not_lt.mpr hwhole), Bool.false_or, decide_eq_true_eq]
      · have hnames : ((marked (endWithin statusCap (pieces entries))).map lossy).take untrackedCap =
            ((untrackedPaths entries).map lossy).take untrackedCap := by
          rw [← List.map_take, ← List.map_take, hread]
        refine ⟨hnames, iff_of_true ?_ ((missing_iff hnames).mpr hmany)⟩
        -- the marks read fill the answer, and there are more or the listing was cut
        by_cases hwhole : child.output.length ≤ statusCap
        · rw [endWithin_of_le (hlist ▸ hwhole), length_marked, Bool.or_eq_true,
            decide_eq_true_eq, decide_eq_true_eq]
          exact .inr (by omega)
        · rw [decide_eq_true (Nat.not_le.mp hwhole), Bool.true_or]
      · omega
  · have hcut := Nat.not_le.mp hfits
    rw [untracked_of_cut htime hcut]
    constructor
    · rintro ⟨hnames, hmissing⟩
      have hnone : ¬ (0 < (untrackedPaths entries).length) := fun hlt =>
        Bool.false_ne_true (hmissing.mpr hlt)
      exact .inr (.inr ⟨hcut, List.eq_nil_of_length_eq_zero (by omega)⟩)
    · rintro (⟨hwhole, -⟩ | ⟨hwhole, -⟩ | ⟨-, hnone⟩)
      · omega
      · omega
      · refine ⟨by rw [hnone]; rfl, iff_of_false Bool.false_ne_true ?_⟩
        rw [hnone]
        exact Nat.lt_irrefl 0

/-! ## The answer -/

/-- A working repository: its directory is found, and its diff and its status
are spawned, end in time and succeed once all is written. -/
structure Works (git : Git) (cwd repoRoot : Text) (diff status : Child) (entries : List Entry) :
    Prop where
  top : ∃ run, runGit (git cwd topArgs) (8 * 1024) = some run ∧ run.ok = true ∧
    trim (lossy run.out) = repoRoot
  rooted : repoRoot ≠ []
  diffs : git repoRoot (diffArgs git repoRoot) = some diff
  diffTime : diff.inTime = true
  diffSucceeds : diff.succeeds = true
  lists : git repoRoot statusArgs = some status
  statusTime : status.inTime = true
  statusSucceeds : status.succeeds = true
  listing : status.output = printed (pieces entries)

variable {git : Git} {cwd repoRoot : Text} {diff status : Child} {entries : List Entry}

/-- The answer of a working repository is decided by the end of its diff. -/
theorem gitDiff_of_works (w : Works git cwd repoRoot diff status entries) :
    gitDiff git cwd =
      if diff.output.length ≤ diffCap + 2 + diff.buffered then
        { cwd, repoRoot, diff := (keptOf diff).1, truncated := (keptOf diff).2,
          untracked := (untracked (some status)).1,
          untrackedTruncated := (untracked (some status)).2 }
      else { cwd, error := "git could not describe the changes here" } := by
  obtain ⟨run, hrun, hok, hroot⟩ := w.top
  rw [gitDiff, hrun]
  simp only [hok, Bool.not_true, Bool.false_eq_true, if_false, hroot, w.rooted, w.diffs,
    runGit_eq w.diffTime, w.diffSucceeds, Bool.true_and, w.lists]
  by_cases hfits : diff.output.length ≤ diffCap + 2 + diff.buffered
  · rw [if_pos hfits, decide_eq_true (by omega)]
    rfl
  · rw [if_neg hfits, decide_eq_false (by omega)]
    rfl

theorem DiffFits.answered (h : DiffFits diff) :
    diff.output.length ≤ diffCap + 2 + diff.buffered := by
  rcases h with h | ⟨h, -⟩ <;> omega

theorem kept_iff (h : diff.output.length ≤ diffCap + 2 + diff.buffered) :
    (Longest (lossy diff.output) diffCap (keptOf diff).1 ∧
      ((keptOf diff).2 = true ↔ (keptOf diff).1 ≠ lossy diff.output)) ↔ DiffFits diff := by
  by_cases hwhole : diff.output.length ≤ diffCap + 1
  · exact iff_of_true (keptOf_whole hwhole) (.inl hwhole)
  · rw [keptOf_cut (Nat.not_le.mp hwhole), DiffFits]
    exact ⟨fun hread => .inr ⟨h, hread⟩, fun hfits => (hfits.resolve_left hwhole).2⟩

/-- A diff too long for the cap and the pipe is refused. -/
theorem not_answered (w : Works git cwd repoRoot diff status entries)
    (h : diffCap + 2 + diff.buffered < diff.output.length) :
    ¬ DiffMet diff.output (gitDiff git cwd) := by
  rw [gitDiff_of_works w, if_neg (Nat.not_le.mpr h)]
  intro hmet
  have herror : "git could not describe the changes here" = "" := hmet.answered
  exact absurd herror (by decide)

/-- A working repository is answered with the longest prefix of whole files
and its untracked names exactly where its diff and its status fit. -/
theorem diff_in_whole_files (w : Works git cwd repoRoot diff status entries) :
    (DiffMet diff.output (gitDiff git cwd) ∧
      StatusMet entries ((gitDiff git cwd).untracked, (gitDiff git cwd).untrackedTruncated)) ↔
    DiffFits diff ∧ StatusFits status entries := by
  rw [gitDiff_of_works w]
  by_cases hfits : diff.output.length ≤ diffCap + 2 + diff.buffered
  · rw [if_pos hfits, ← statusMet_iff w.statusTime w.statusSucceeds w.listing, ← kept_iff hfits]
    refine and_congr_left fun _ => ⟨fun h => ⟨h.longest, h.truncated⟩, fun h => ⟨rfl, h.1, h.2⟩⟩
  · rw [← gitDiff_of_works w]
    exact iff_of_false (fun h => not_answered w (Nat.not_le.mp hfits) h.1)
      fun h => hfits h.1.answered

/-- A `git` of one repository, with this diff and this status. -/
def answering (diff status : Child) : Git := fun _ args =>
  if args = topArgs then some { output := [47, 114, 10] }
  else if args = headArgs then some { output := [48, 10] }
  else if args = statusArgs then some status
  else if args = ["diff", "HEAD", "--no-color", "--no-ext-diff"] then some diff
  else none

theorem works_answering {diff status : Child} {entries : List Entry}
    (hdiff : diff.inTime = true ∧ diff.succeeds = true)
    (hstatus : status.inTime = true ∧ status.succeeds = true)
    (hlisting : status.output = printed (pieces entries)) :
    Works (answering diff status) [47, 114] [47, 114] diff status entries where
  top := ⟨_, rfl, by decide, by decide⟩
  rooted := by decide
  diffs := by
    have hborn : born (answering diff status) [47, 114] = true := rfl
    rw [diffArgs, hborn]
    rfl
  diffTime := hdiff.1
  diffSucceeds := hdiff.2
  lists := rfl
  statusTime := hstatus.1
  statusSucceeds := hstatus.2
  listing := hlisting

/-- An untracked file beside a diff of one file. -/
def plain : Child := { output := header ++ [97, 10] }

def fresh : List Entry := [.untracked { bytes := [97], ne_nil := by decide, noNul := by decide }]

theorem diff_in_whole_files_plain :
    DiffMet plain.output (gitDiff (answering plain { output := printed (pieces fresh) }) [47, 114]) ∧
      StatusMet fresh
        ((gitDiff (answering plain { output := printed (pieces fresh) }) [47, 114]).untracked,
          (gitDiff (answering plain { output := printed (pieces fresh) }) [47, 114]).untrackedTruncated) :=
  (diff_in_whole_files (works_answering ⟨rfl, rfl⟩ ⟨rfl, rfl⟩ rfl)).mpr
    ⟨.inl (by decide), .inl ⟨by decide, by decide⟩⟩

/-- The headers of one file and its one hunk, up to what the line holds. -/
def hunk : List UInt8 :=
  header ++
    [97, 47, 120, 32, 98, 47, 120, 10, 45, 45, 45, 32, 97, 47, 120, 10, 43, 43, 43, 32, 98, 47,
      120, 10, 64, 64, 32, 45, 48, 44, 48, 32, 43, 49, 32, 64, 64, 10, 43]

/-- One file of two mebibytes, all in one line. -/
def big : Child := { output := hunk ++ List.replicate (2 * diffCap) 120 ++ [10] }

theorem buffered_big : big.buffered = 0 := rfl

theorem length_big : big.output.length = 2 * diffCap + 51 := by
  simp only [big, List.length_append, List.length_replicate]
  have hhunk : hunk.length = 50 := rfl
  rw [hhunk, List.length_singleton]
  omega

theorem works_big :
    Works (answering big { output := [] }) [47, 114] [47, 114] big { output := [] } [] :=
  works_answering ⟨rfl, rfl⟩ ⟨rfl, rfl⟩ rfl

/-- A diff that is too long for the cap and the pipe is refused, not trimmed. -/
theorem big_refused :
    Works (answering big { output := [] }) [47, 114] [47, 114] big { output := [] } [] ∧
      ¬ DiffMet big.output (gitDiff (answering big { output := [] }) [47, 114]) := by
  have hlong : diffCap + 2 + big.buffered < big.output.length := by
    rw [length_big, buffered_big, diffCap]
    omega
  exact ⟨works_big, not_answered works_big hlong⟩

/-! ## Whatever `git` does -/

/-- What is kept of any run: whole files, within the cap, all of them unless
something is said to be missing. -/
theorem keptOf_sound (child : Child) :
    WholeFiles (lossy child.output) (keptOf child).1 ∧ (keptOf child).1.length ≤ diffCap ∧
      ((keptOf child).2 = false → (keptOf child).1 = lossy child.output) := by
  by_cases h : child.output.length ≤ diffCap + 1
  · obtain ⟨hlongest, hmissing⟩ := keptOf_whole h
    refine ⟨hlongest.whole, hlongest.within, fun hall => ?_⟩
    by_contra hne
    rw [hmissing.mpr hne] at hall
    cases hall
  · have hlen := length_le_lossy (child.output.take (diffCap + 1))
    rw [List.length_take] at hlen
    obtain ⟨hkept, -⟩ := @trim_longest (lossy (child.output.take (diffCap + 1)))
      diffCap (by omega)
    refine ⟨?_, hkept.within, fun hall => ?_⟩
    · rcases hkept.whole with hnil | hall | hfile
      · exact .inl hnil
      · have hwithin := hkept.within
        rw [hall] at hwithin
        omega
      · obtain ⟨before, hbefore, hread⟩ := fileStart_lossy.mp hfile
        exact .inr (.inr (fileStart_lossy.mpr ⟨before, (fileStart_cut.mp hbefore).1, hread⟩))
    · rw [keptOf, decide_eq_true (Nat.not_le.mp h), Bool.or_true] at hall
      cases hall

/-- An answer with a diff is of a run that ended well. -/
structure Honest (git : Git) (r : GitDiffResult) (child : Child) : Prop where
  ran : git r.repoRoot (diffArgs git r.repoRoot) = some child
  ended : child.inTime = true ∧ child.succeeds = true
  whole : WholeFiles (lossy child.output) r.diff
  within : r.diff.length ≤ diffCap
  missing : r.truncated = false → r.diff = lossy child.output
  names : r.untracked.length ≤ untrackedCap

theorem length_untracked (spawned : Option Child) :
    (untracked spawned).1.length ≤ untrackedCap := by
  unfold untracked
  split
  · exact Nat.zero_le _
  · exact List.length_take_le _ _

/-- Whatever `git` does, a diff is answered honestly or refused with nothing. -/
theorem gitDiff_honest (git : Git) (cwd : Text) :
    (∃ child, (gitDiff git cwd).error = "" ∧ Honest git (gitDiff git cwd) child) ∨
      ∃ error, error ≠ "" ∧ gitDiff git cwd = { cwd, error } := by
  unfold gitDiff
  split
  · exact .inr ⟨_, by decide, rfl⟩
  · next rootRun _ =>
    dsimp only
    split
    · exact .inr ⟨_, by decide, rfl⟩
    generalize trim (lossy rootRun.out) = repoRoot
    split
    · exact .inr ⟨_, by decide, rfl⟩
    split
    · exact .inr ⟨_, by decide, rfl⟩
    · next diffRun hrun =>
      split
      · exact .inr ⟨_, by decide, rfl⟩
      · next hok =>
        cases hchild : git repoRoot (diffArgs git repoRoot) with
        | none =>
          rw [hchild] at hrun
          cases hrun
        | some child =>
          rw [hchild] at hrun
          cases htime : child.inTime with
          | false =>
            rw [runGit, if_neg (by simp [htime])] at hrun
            cases hrun
          | true =>
            rw [runGit_eq htime] at hrun
            obtain rfl := Option.some.inj hrun
            obtain ⟨hwhole, hwithin, hmissing⟩ := keptOf_sound child
            have hends : child.succeeds = true := by simp at hok; exact hok.1
            exact .inl ⟨child, rfl, hchild, ⟨htime, hends⟩, hwhole, hwithin, hmissing,
              length_untracked _⟩

end Zesterm.Gitcmd
