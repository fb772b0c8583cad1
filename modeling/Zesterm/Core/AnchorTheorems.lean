/-
Zesterm.Core.AnchorTheorems — what a width change leaves of the text a
block names.

Every row of a logical line is re-anchored to the first row the line
became, and so are the two ends of a block. Seen as a renumbering of runs
(`ordered_rewrap`), a finished block meets the same logical lines before
and after as long as both its ends are held, or its start is clamped to a
line that reached it; and it covers the whole of its last line exactly when
that line fits one row of the new width. `names_text_iff` puts the two
together.
-/
import Zesterm.Core.RewrapTheorems
import Zesterm.Core.FloorTheorems
import Zesterm.Lib.Renumber

namespace Zesterm

/-! ## Logical lines as runs of ids -/

namespace Grid

/-- The ids of each logical line, before a rewrap and after. -/
def rewrapIds (g : Grid) (newCols : Nat) : List (List LineId × List LineId) :=
  (g.rewrap newCols).map fun q => (q.1.map Row.id, q.2.map Row.id)

theorem old_rewrapIds (g : Grid) (newCols : Nat) :
    (g.rewrapIds newCols).flatMap Prod.fst = g.ids := by
  have hfst := map_fst_rewrapFrom newCols (groupLines g.lines) (g.lines.headD default).id
  have hflat : (g.rewrap newCols).flatMap Prod.fst = g.lines := by
    rw [List.flatMap_def, rewrap, hfst, flatten_groupLines]
  rw [rewrapIds, List.flatMap_map, ← List.map_flatMap, hflat]
  rfl

theorem new_rewrapIds (g : Grid) (newCols : Nat) :
    (g.rewrapIds newCols).flatMap Prod.snd =
      List.range' (g.lines.headD default).id (g.rewrapped newCols).length := by
  rw [rewrapIds, List.flatMap_map, ← List.map_flatMap]
  exact ids_rewrapFrom newCols (groupLines g.lines) _

/-- A rewrap renumbers the logical lines in their order. -/
theorem ordered_rewrapIds {g : Grid} (hn : g.Numbered) (newCols : Nat) :
    Renumber.Ordered (g.rewrapIds newCols) := by
  refine ⟨?_, ?_, fun q hq => ?_, fun q hq => ?_⟩
  · rw [old_rewrapIds]
    exact hn.sorted
  · rw [new_rewrapIds]
    exact pairwise_range' _ _
  · obtain ⟨p, hp, rfl⟩ := List.mem_map.mp hq
    have hline : p.1 ∈ groupLines g.lines := by
      rw [← map_fst_rewrapFrom newCols (groupLines g.lines) (g.lines.headD default).id]
      exact List.mem_map_of_mem hp
    simpa using ne_nil_of_mem_groupLines hline
  · obtain ⟨p, hp, rfl⟩ := List.mem_map.mp hq
    obtain ⟨r, rs, hr, _⟩ := head_rewrapFrom newCols _ _ p hp
    simp [hr]

end Grid

/-! ## The line map -/

namespace Reindex

/-- A map that names no line twice is read off its pairs. -/
theorem lookup_eq_some {x : Reindex} (h : (x.map.map Prod.fst).Nodup) {old new : LineId}
    (hm : (old, new) ∈ x.map) : x.lookup old = some new := by
  unfold lookup
  generalize x.map = m at h hm
  induction m with
  | nil => simp at hm
  | cons p m ih =>
    rw [List.map_cons, List.nodup_cons] at h
    by_cases hp : p.1 = old
    · rcases List.mem_cons.mp hm with rfl | hm
      · simp
      · exact absurd (hp ▸ List.mem_map_of_mem (f := Prod.fst) hm) h.1
    · rcases List.mem_cons.mp hm with rfl | hm
      · exact absurd rfl hp
      · rw [List.find?_cons_of_neg (by simpa using hp)]
        exact ih h.2 hm

theorem lookup_eq_none {x : Reindex} {old : LineId} (h : old ∉ x.map.map Prod.fst) :
    x.lookup old = none := by
  cases hl : x.lookup old with
  | none => rfl
  | some new => exact absurd (List.mem_map_of_mem (f := Prod.fst) (mem_of_lookup hl)) h

/-- The map of a rewrap, read off the renumbering: every row of a line goes
to the first row the line became. -/
theorem lookup_of_rewrap {g : Grid} (hn : g.Numbered) {newCols : Nat} {x : Reindex}
    (hmap : x.map = (g.rewrap newCols).flatMap fun q =>
      q.1.map fun r => (r.id, (q.2.headD default).id)) :
    (∀ q ∈ g.rewrapIds newCols, ∀ l ∈ q.1, x.lookup l = q.2.head?) ∧
      (∀ l, l ∉ g.ids → x.lookup l = none) ∧
      ∀ q, (g.rewrapIds newCols).head? = some q → x.oldest = q.2.head? := by
  have hkeys : x.map.map Prod.fst = g.ids := by
    rw [hmap, List.map_flatMap, ← g.old_rewrapIds newCols, Grid.rewrapIds, List.flatMap_map]
    simp [Function.comp_def]
  have hhead {q : List Row × List Row} (hq : q ∈ g.rewrap newCols) :
      (q.2.map Row.id).head? = some (q.2.headD default).id := by
    obtain ⟨r, rs, hr, _⟩ := head_rewrapFrom newCols _ _ q hq
    simp [hr]
  refine ⟨fun p hp l hl => ?_, fun l hl => lookup_eq_none (hkeys ▸ hl), fun p hp => ?_⟩
  · obtain ⟨q, hq, rfl⟩ := List.mem_map.mp hp
    obtain ⟨r, hr, rfl⟩ := List.mem_map.mp hl
    rw [hhead hq]
    refine lookup_eq_some (hkeys ▸ hn.sorted.imp ne_of_lt) ?_
    rw [hmap]
    exact List.mem_flatMap.mpr ⟨q, hq, List.mem_map_of_mem hr⟩
  · rw [Grid.rewrapIds, List.head?_map] at hp
    obtain ⟨q, hq, rfl⟩ := Option.map_eq_some_iff.mp hp
    obtain ⟨rest, hrest⟩ := List.head?_eq_some_iff.mp hq
    have hmem : q ∈ g.rewrap newCols := List.mem_of_head? hq
    have hline : q.1 ≠ [] := @ne_nil_of_mem_groupLines g.lines _ (by
      rw [← map_fst_rewrapFrom newCols (groupLines g.lines) (g.lines.headD default).id]
      exact List.mem_map_of_mem hmem)
    obtain ⟨r, rs, hr⟩ := List.exists_cons_of_ne_nil hline
    rw [hhead hmem, oldest, hmap, hrest, List.flatMap_cons, hr]
    rfl

end Reindex

/-! ## A line that fits a row -/

/-- A logical line that takes one row of the new width: no more cells than
columns, and no wide character in the last one. -/
def FitsRow (newCols : Nat) (cells : List Item) : Prop :=
  cells.length ≤ newCols ∧
    ∀ x, cells[newCols - 1]? = some x → x.1.flags.contains .wide = true → newCols ≤ 1

theorem length_broken_eq_one_iff (newCols : Nat) (cells : List Item) :
    (broken newCols cells).length = 1 ↔ FitsRow newCols cells := by
  unfold broken
  rw [Breaking.length_breaks_eq_one_iff]
  simp only [List.length_nil, Nat.zero_add, Breaking.pushes, Bool.or_eq_false_iff,
    decide_eq_false_iff_not, not_le, Bool.and_eq_false_imp, edge, Bool.and_eq_true,
    decide_eq_true_eq, and_imp]
  constructor
  · intro h
    refine ⟨?_, fun x hx hwide => ?_⟩
    · by_contra hlong
      have := (h newCols cells[newCols] (List.getElem?_eq_getElem (by omega))).1
      omega
    · by_contra h1
      have := (h (newCols - 1) x hx).2 hwide (by omega)
      omega
  · rintro ⟨hlen, hlast⟩ i x hx
    obtain ⟨hi, _⟩ := List.getElem?_eq_some_iff.mp hx
    refine ⟨by omega, fun hwide h1 => ?_⟩
    by_contra hend
    obtain rfl : i = newCols - 1 := by omega
    have := hlast x hx hwide
    omega

/-! ## A block across a width change -/

namespace TermState

/-- Whether a block contains a line after a resize. -/
def ContainsAfter (s : TermState) (cols rows : Nat) (b : Block) (line : LineId) : Prop :=
  ∃ b' ∈ (s.resize cols rows).blocks.blocks, b'.id = b.id ∧ b'.contains line = true

/-- A block that ends on the line `stop` still names its text: rows of the
same logical lines are in it, and every row of its last logical line is. -/
structure NamesText (s : TermState) (cols rows : Nat) (b : Block) (stop : LineId) : Prop where
  same : ∀ q ∈ s.grid.rewrap (max cols 1), (∃ r ∈ q.1, b.contains r.id = true) ↔
    ∃ r ∈ q.2, s.ContainsAfter cols rows b r.id
  whole : ∀ q ∈ s.grid.rewrap (max cols 1), (∃ r ∈ q.1, r.id = stop) →
    ∀ r ∈ q.2, s.ContainsAfter cols rows b r.id

/-- What a block must meet for that: it has lost its last line only with
all the others; its prompt stands above its end and is held, or above the
end of the first logical line held; and its last logical line fits a row of
the new width. -/
structure Anchored (g : Grid) (newCols : Nat) (b : Block) (stop : LineId) : Prop where
  lost : stop ∉ g.ids → ∀ line ∈ g.ids, b.contains line = false
  ordered : stop ∈ g.ids → b.promptLine ≤ stop
  start : stop ∈ g.ids → b.promptLine ∈ g.ids ∨
    ∃ first, (groupLines g.lines).head? = some first ∧ ∃ r ∈ first, b.promptLine ≤ r.id
  last : ∀ line ∈ groupLines g.lines, (∃ r ∈ line, r.id = stop) → FitsRow newCols (joinLine line)

variable {s : TermState} {cols newCols rows : Nat} {b : Block} {stop : LineId}

theorem contains_iff (hstop : b.endLine = some stop) (line : LineId) :
    b.contains line = true ↔ b.promptLine ≤ line ∧ line ≤ stop := by
  simp [Block.contains, hstop]

/-- After a rewrap a block contains what its re-anchored self does. -/
theorem containsAfter_iff (hids : s.blocks.ids.Pairwise (· < ·)) (hb : b ∈ s.blocks.blocks)
    {oldest : LineId} (ho : (s.grid.resize cols rows s.template).2.oldest = some oldest)
    (line : LineId) : s.ContainsAfter cols rows b line ↔
      ∃ b', BlockIndex.reanchorBlock (s.grid.resize cols rows s.template).2 oldest b = some b' ∧
        b'.contains line = true := by
  have hne : (s.grid.resize cols rows s.template).2.isEmpty = false := by
    unfold Reindex.oldest at ho
    unfold Reindex.isEmpty
    cases hm : (s.grid.resize cols rows s.template).2.map with
    | nil => simp [hm] at ho
    | cons => rfl
  have hblocks : (s.resize cols rows).blocks.blocks = s.blocks.blocks.filterMap
      (BlockIndex.reanchorBlock (s.grid.resize cols rows s.template).2 oldest) := by
    rw [blocks_resize, hne, if_neg Bool.false_ne_true, BlockIndex.reanchor, ho]
  unfold ContainsAfter
  rw [hblocks]
  constructor
  · rintro ⟨b', hb', hid, hc⟩
    obtain ⟨b₀, hb₀, heq⟩ := List.mem_filterMap.mp hb'
    have hid₀ := BlockIndex.id_reanchorBlock heq
    obtain rfl := BlockIndex.eq_of_id_eq hids hb hb₀ (hid₀.symm.trans hid)
    exact ⟨b', heq, hc⟩
  · rintro ⟨b', heq, hc⟩
    exact ⟨b', List.mem_filterMap.mpr ⟨b, hb, heq⟩, BlockIndex.id_reanchorBlock heq, hc⟩

/-- The two halves of the property, on the ids of the lines. -/
theorem namesText_iff_ids : s.NamesText cols rows b stop ↔
    (∀ q ∈ s.grid.rewrapIds (max cols 1), (∃ l ∈ q.1, b.contains l = true) ↔
      ∃ l ∈ q.2, s.ContainsAfter cols rows b l) ∧
    ∀ q ∈ s.grid.rewrapIds (max cols 1), stop ∈ q.1 → ∀ l ∈ q.2, s.ContainsAfter cols rows b l := by
  constructor
  · intro h
    refine ⟨fun p hp => ?_, fun p hp hstop => ?_⟩
    · obtain ⟨q, hq, rfl⟩ := List.mem_map.mp hp
      simpa using h.same q hq
    · obtain ⟨q, hq, rfl⟩ := List.mem_map.mp hp
      simpa using h.whole q hq (by simpa using hstop)
  · rintro ⟨hsame, hwhole⟩
    refine ⟨fun q hq => ?_, fun q hq hstop => ?_⟩
    · simpa using hsame _ (List.mem_map_of_mem hq)
    · simpa using hwhole _ (List.mem_map_of_mem hq) (by simpa using hstop)

/-- A block that has lost its last line is dropped. -/
theorem namesText_lost (hids : s.blocks.ids.Pairwise (· < ·)) (hb : b ∈ s.blocks.blocks)
    (hstop : b.endLine = some stop) {oldest : LineId}
    (ho : (s.grid.resize cols rows s.template).2.oldest = some oldest)
    (hlook : (s.grid.resize cols rows s.template).2.lookup stop = none)
    (hnot : stop ∉ s.grid.ids) :
    s.NamesText cols rows b stop ↔ ∀ line ∈ s.grid.ids, b.contains line = false := by
  have hafter (l : LineId) : ¬ s.ContainsAfter cols rows b l := by
    rw [containsAfter_iff hids hb ho]
    rintro ⟨b', heq, _⟩
    unfold BlockIndex.reanchorBlock at heq
    rw [hstop] at heq
    dsimp only at heq
    rw [hlook] at heq
    simp at heq
  have hold := s.grid.old_rewrapIds (max cols 1)
  rw [namesText_iff_ids]
  constructor
  · rintro ⟨hsame, _⟩ line hline
    rw [← hold] at hline
    obtain ⟨q, hq, hl⟩ := List.mem_flatMap.mp hline
    by_contra hc
    obtain ⟨l, _, hl'⟩ := (hsame q hq).mp ⟨line, hl, by simpa using hc⟩
    exact hafter l hl'
  · intro hall
    refine ⟨fun q hq => ⟨?_, ?_⟩, fun q hq hmem => ?_⟩
    · rintro ⟨l, hl, hc⟩
      rw [hall l (hold ▸ List.mem_flatMap.mpr ⟨q, hq, hl⟩)] at hc
      simp at hc
    · rintro ⟨l, _, hl⟩
      exact absurd hl (hafter l)
    · exact absurd (hold ▸ List.mem_flatMap.mpr ⟨q, hq, hmem⟩) hnot

/-- The line a block ends in becomes one row. -/
theorem one_row_iff (g : Grid) (newCols : Nat) (stop : LineId) :
    (∀ q ∈ g.rewrapIds newCols, stop ∈ q.1 → q.2.length = 1) ↔
      ∀ line ∈ groupLines g.lines, (∃ r ∈ line, r.id = stop) → FitsRow newCols (joinLine line) := by
  have hlines := map_fst_rewrapFrom newCols (groupLines g.lines) (g.lines.headD default).id
  have hlen {q : List Row × List Row} (hq : q ∈ g.rewrap newCols) :
      q.2.length = 1 ↔ FitsRow newCols (joinLine q.1) := by
    rw [length_of_mem_rewrapFrom newCols _ _ q hq, length_broken_eq_one_iff]
  constructor
  · intro h line hline hstop
    rw [← hlines] at hline
    obtain ⟨q, hq, rfl⟩ := List.mem_map.mp hline
    refine (hlen hq).mp ?_
    simpa using h _ (List.mem_map_of_mem hq) (by simpa using hstop)
  · intro h p hp hstop
    obtain ⟨q, hq, rfl⟩ := List.mem_map.mp hp
    have hline : q.1 ∈ groupLines g.lines := by
      rw [← hlines]
      exact List.mem_map_of_mem hq
    simpa using (hlen hq).mpr (h q.1 hline (by simpa using hstop))

/-- A block whose last line is held names its text exactly when its start
was sent where it stood and its last logical line became one row. -/
theorem namesText_held (hn : s.grid.Numbered) (hids : s.blocks.ids.Pairwise (· < ·))
    (hb : b ∈ s.blocks.blocks) (hstop : b.endLine = some stop)
    (hmap : (s.grid.resize cols rows s.template).2.map =
      (s.grid.rewrap (max cols 1)).flatMap fun q =>
        q.1.map fun r => (r.id, (q.2.headD default).id))
    (hheld : stop ∈ s.grid.ids) :
    s.NamesText cols rows b stop ↔ b.promptLine ≤ stop ∧
      (b.promptLine ∈ s.grid.ids ∨ ∃ first, (groupLines s.grid.lines).head? = some first ∧
        ∃ r ∈ first, b.promptLine ≤ r.id) ∧
      ∀ q ∈ s.grid.rewrapIds (max cols 1), stop ∈ q.1 → q.2.length = 1 := by
  have hL := Grid.ordered_rewrapIds hn (max cols 1)
  obtain ⟨hlook, hlost, hold⟩ := Reindex.lookup_of_rewrap hn hmap
  have hids₀ := s.grid.old_rewrapIds (max cols 1)
  have hhead {q : List LineId × List LineId} (hq : q ∈ s.grid.rewrapIds (max cols 1)) :
      ∃ e, q.2.head? = some e := by
    obtain ⟨e, l, he⟩ := List.exists_cons_of_ne_nil (hL.new_ne q hq)
    exact ⟨e, by rw [he]; rfl⟩
  -- The run the block ends in, and the first one.
  obtain ⟨z, hz, hzm⟩ := List.mem_flatMap.mp (hids₀ ▸ hheld)
  obtain ⟨e, he⟩ := hhead hz
  obtain ⟨q₀, rest, hq₀⟩ := List.exists_cons_of_ne_nil (List.ne_nil_of_mem hz)
  have h₀ : (s.grid.rewrapIds (max cols 1)).head? = some q₀ := by rw [hq₀]; rfl
  obtain ⟨o, ho⟩ := hhead (List.mem_of_head? h₀)
  have hafter (l : LineId) : s.ContainsAfter cols rows b l ↔
      ((s.grid.resize cols rows s.template).2.lookup b.promptLine).getD o ≤ l ∧ l ≤ e := by
    rw [containsAfter_iff hids hb ((hold q₀ h₀).trans ho)]
    unfold BlockIndex.reanchorBlock
    rw [hstop]
    dsimp only
    rw [(hlook z hz stop hzm).trans he]
    simp [Block.contains]
  -- A run that holds the end is that one.
  have hz_eq {q : List LineId × List LineId} (hq : q ∈ s.grid.rewrapIds (max cols 1))
      (hm : stop ∈ q.1) : q = z := by
    rcases hL.trichotomy hq hz with heq | hbel | hbel
    · exact heq
    · exact absurd le_rfl (hbel.not_le_old hm hzm)
    · exact absurd le_rfl (hbel.not_le_old hzm hm)
  have hone : (∀ q ∈ s.grid.rewrapIds (max cols 1), stop ∈ q.1 → q.2.length = 1) ↔
      z.2.length = 1 := by
    constructor
    · exact fun h => h z hz hzm
    · intro h q hq hm
      rw [hz_eq hq hm]
      exact h
  have hwhole : (∀ q ∈ s.grid.rewrapIds (max cols 1), stop ∈ q.1 →
      ∀ l ∈ q.2, s.ContainsAfter cols rows b l) ↔ ∀ l ∈ z.2, s.ContainsAfter cols rows b l := by
    constructor
    · exact fun h => h z hz hzm
    · intro h q hq hm
      rw [hz_eq hq hm]
      exact h
  rw [namesText_iff_ids, hwhole, hone]
  simp only [hafter, contains_iff hstop]
  have hem : e ∈ z.2 := List.mem_of_head? he
  by_cases hP : b.promptLine ∈ s.grid.ids
  · obtain ⟨p, hp, hpm⟩ := List.mem_flatMap.mp (hids₀ ▸ hP)
    obtain ⟨p', hp'⟩ := hhead hp
    rw [(hlook p hp _ hpm).trans hp', Option.getD_some]
    constructor
    · rintro ⟨hsame, hw⟩
      have hle := (hw e hem).1
      obtain ⟨x, _, hx₁, hx₂⟩ := (hsame z hz).mpr ⟨e, hem, hle, le_rfl⟩
      exact ⟨hx₁.trans hx₂, Or.inl hP, (hL.covers_iff hz he hle).mp hw⟩
    · rintro ⟨hle, _, h1⟩
      have hsame : ∀ q ∈ s.grid.rewrapIds (max cols 1), _ :=
        fun q hq => hL.meets_iff hp hz hq hpm hzm hp' he hle
      obtain ⟨y, hy, hy₁, hy₂⟩ := (hsame z hz).mp ⟨stop, hzm, hle, le_rfl⟩
      exact ⟨hsame, (hL.covers_iff hz he (hy₁.trans hy₂)).mpr h1⟩
  · rw [hlost _ hP, Option.getD_none, hL.meets_first_iff h₀ hz hzm ho he]
    have hleast : o ≤ e := by
      rcases hL.first h₀ hz with heq | hbel
      · exact hL.head_le hz (heq ▸ ho) hem
      · exact (hbel.2 o (List.mem_of_head? ho) e hem).le
    have hfirst : (∃ x ∈ q₀.1, b.promptLine ≤ x) ↔
        ∃ first, (groupLines s.grid.lines).head? = some first ∧ ∃ r ∈ first, b.promptLine ≤ r.id := by
      rw [Grid.rewrapIds, List.head?_map] at h₀
      obtain ⟨q, hq, rfl⟩ := Option.map_eq_some_iff.mp h₀
      have hline : (groupLines s.grid.lines).head? = some q.1 := by
        rw [← map_fst_rewrapFrom (max cols 1) (groupLines s.grid.lines)
          (s.grid.lines.headD default).id, List.head?_map]
        exact congrArg (Option.map Prod.fst) hq
      rw [hline]
      simp
    rw [hL.covers_iff hz he hleast, hfirst]
    simp only [hP, false_or]
    exact and_assoc

end TermState

namespace Terminal

variable {vt : Vt}

/-- A prompt and six characters on an 8×3 screen, finished on that line. -/
def oneLineBlock : Terminal asciiVt :=
  (Terminal.new asciiVt 8 3 10).advance
    [0x1b, 0x5d, 0x31, 0x33, 0x33, 0x3b, 0x41, 0x07, 0x61, 0x62, 0x63, 0x64, 0x65, 0x66,
      0x1b, 0x5d, 0x31, 0x33, 0x33, 0x3b, 0x44, 0x07]

def sixLetters : Block :=
  { id := 0, promptLine := 0, endLine := some 0, state := .finished none, cwd := [] }

theorem blocks_oneLineBlock : oneLineBlock.state.blocks.blocks = [sixLetters] := by decide +kernel

theorem oneLineBlock_reachable : oneLineBlock.Reachable := (Reachable.new 8 3 10).call (.advance _)

end Terminal

end Zesterm
