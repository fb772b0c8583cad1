/-
Zesterm.Proto.PaintTheorems — a row of the host's screen as it arrives on a
client's.

The wire leaves out trailing default blanks, the character under a wide
character's spacer and a cell's place in the side table (`Cell.onWire`). A
client that can name the styles of a payload expands it to the cells that
were sent (`fill_payloadOf`) and its marks to the marked cells among them
(`marksFrom_payloadOf`), so what it paints differs from the host's row in
those three things and no others (`Painted`).
-/
import Zesterm.Proto.Apply
import Zesterm.Proto.AttrTheorems
import Zesterm.Core.ReplicaTheorems

namespace Zesterm

/-- A cell as the wire carries it. -/
def Cell.onWire (c : Cell) : Cell :=
  { c with ch := if c.flags.contains .wideSpacer then ' ' else c.ch, extra := noExtra }

namespace Encoder

/-! ## What is left out -/

/-- The marked cells among those sent, by column. -/
def sentMarks (row : Row) : List (Nat × Str) :=
  (sentCells row).zipIdx.filterMap fun p =>
    if (row.marksOf p.1).isEmpty then none else some (p.2, row.marksOf p.1)

/-- Each marked cell is named once, with its marks. -/
theorem sentMarks_spec (row : Row) :
    ((sentMarks row).map Prod.fst).Nodup ∧
      ∀ m ∈ sentMarks row, ∃ c, (sentCells row)[m.1]? = some c ∧ m.2 = row.marksOf c ∧ m.2 ≠ [] := by
  constructor
  · have hsub (l : List (Cell × Nat)) : ((l.filterMap fun p =>
        if (row.marksOf p.1).isEmpty then none else some (p.2, row.marksOf p.1)).map
          Prod.fst).Sublist (l.map Prod.snd) := by
      induction l with
      | nil => exact List.Sublist.refl _
      | cons p l ih =>
        rw [List.filterMap_cons]
        split
        · exact ih.cons _
        · next m hm =>
          split at hm
          · simp at hm
          · obtain rfl := Option.some.inj hm
            exact ih.cons_cons _
    exact (hsub _).nodup (by rw [List.zipIdx_map_snd]; exact List.nodup_range')
  · intro m hm
    obtain ⟨⟨c, i⟩, hp, hsome⟩ := List.mem_filterMap.mp hm
    dsimp only at hsome
    split at hsome
    · simp at hsome
    · next hne =>
      obtain rfl := Option.some.inj hsome
      exact ⟨c, List.mem_zipIdx_iff_getElem?.mp hp, rfl, by simpa using hne⟩

theorem sentCells_isPrefix (row : Row) : sentCells row <+: row.cells := List.rdropWhile_prefix _ _

theorem length_sentCells_le (row : Row) : (sentCells row).length ≤ row.cells.length :=
  (sentCells_isPrefix row).length_le

theorem getElem?_sentCells {row : Row} {i : Nat} (h : i < (sentCells row).length) :
    (sentCells row)[i]? = row.cells[i]? := by
  obtain ⟨rest, hrest⟩ := sentCells_isPrefix row
  rw [← hrest, List.getElem?_append_left h]

/-- A cell that is not sent is a default blank. -/
theorem isTrailing_of_unsent {row : Row} {i : Nat} {c : Cell} (hc : row.cells[i]? = some c)
    (h : (sentCells row).length ≤ i) : isTrailing c = true := by
  have hsplit := List.rdropWhile_append_rtakeWhile (p := isTrailing) (l := row.cells)
  rw [← hsplit, List.getElem?_append_right (show (row.cells.rdropWhile isTrailing).length ≤ i from h)]
    at hc
  exact List.mem_rtakeWhile_imp (List.mem_of_getElem? hc)

theorem isTrailing_iff {c : Cell} :
    isTrailing c = true ↔ c.ch = ' ' ∧ c.bg = .default ∧ c.flags = .empty := by
  unfold isTrailing
  simp only [Bool.and_eq_true, beq_iff_eq, and_assoc]

/-- What arrives of a row at its own width: the cells sent, and blanks. -/
def onWire (row : Row) : List Cell :=
  Row.arrived row.cells.length ((sentCells row).map Cell.onWire) row.wrapped

/-- Column by column. The wrap that is recorded on the last cell is the one
that cell brings along. -/
theorem getElem?_onWire {row : Row} {i : Nat} {c : Cell} (hc : row.cells[i]? = some c) :
    (onWire row)[i]? = some (if i < (sentCells row).length then c.onWire else Cell.blank) := by
  obtain ⟨hlt, _⟩ := List.getElem?_eq_some_iff.mp hc
  have hplain : ((List.range row.cells.length).map fun j =>
      ((sentCells row).map Cell.onWire).getD j Cell.blank)[i]? =
        some (if i < (sentCells row).length then c.onWire else Cell.blank) := by
    rw [List.getElem?_map, List.getElem?_range hlt, Option.map_some, List.getD_eq_getElem?_getD,
      List.getElem?_map]
    by_cases hsent : i < (sentCells row).length
    · rw [getElem?_sentCells hsent, hc, if_pos hsent]
      rfl
    · rw [List.getElem?_eq_none (Nat.le_of_not_lt hsent), if_neg hsent]
      rfl
  unfold onWire Row.arrived
  rw [List.getElem?_modify, hplain]
  by_cases hlast : row.cells.length - 1 = i
  · have hwrapped : row.wrapped = c.flags.contains .wrapline := by
      unfold Row.wrapped
      rw [List.getLast?_eq_getElem?, hlast, hc]
    have hflags : (if i < (sentCells row).length then c.onWire else Cell.blank).flags = c.flags := by
      split
      · rfl
      · next hsent =>
        exact (isTrailing_iff.mp (isTrailing_of_unsent hc (Nat.le_of_not_lt hsent))).2.2.symm
    simp only [if_pos hlast]
    refine congrArg some ?_
    generalize (if i < (sentCells row).length then c.onWire else Cell.blank) = d at hflags
    rw [hwrapped, ← hflags]
    dsimp only
    rw [CellFlags.set_wrapline_contains]
  · simp only [if_neg hlast]
    rfl

@[simp] theorem length_onWire (row : Row) : (onWire row).length = row.cells.length := by
  simp [onWire, Row.arrived]

theorem noExtra_onWire (row : Row) : ∀ c ∈ (sentCells row).map Cell.onWire, c.extra = noExtra := by
  intro c hc
  obtain ⟨d, _, rfl⟩ := List.mem_map.mp hc
  rfl

end Encoder

/-! ## Runs expanded -/

namespace Applier

open Encoder

variable {attrs : AttrTable} {ids : AttrKey → AttrId} {row : Row}

/-- One run, read in a table that names its style: the cells it was made
from. -/
theorem runCells_runOf {run : List Cell} (hw : run.length ≤ 65535) {d : AttrDef}
    (hd : ∀ c ∈ run, d.key = c.attrKey) :
    runCells (some d) (runOf ids row run) = run.map Cell.onWire := by
  have hcells : (runOf ids row run).cells = run.length := by
    show wireU16 run.length = _
    unfold wireU16
    omega
  -- The width flags are part of the style: a run is all spacers or has none.
  have htext : (runOf ids row run).text =
      if d.flags.contains .wideSpacer then [] else run.map Cell.ch := by
    show (run.filter fun c => !c.flags.contains .wideSpacer).map Cell.ch = _
    have hflags (c : Cell) (hc : c ∈ run) : c.flags = d.flags :=
      (congrArg (fun k : AttrKey => k.2.2) (hd c hc)).symm
    by_cases hs : d.flags.contains .wideSpacer = true
    · rw [if_pos hs, List.filter_eq_nil_iff.mpr fun c hc => by rw [hflags c hc, hs]; simp]
      rfl
    · rw [if_neg hs, List.filter_eq_self.mpr fun c hc => by rw [hflags c hc]; simpa using hs]
  unfold runCells
  rw [hcells, htext]
  apply List.ext_getElem
  · simp
  · intro i h₁ h₂
    have hi : i < run.length := by simpa using h₂
    have hkey := hd run[i] (List.getElem_mem hi)
    obtain ⟨hfg, hrest⟩ := Prod.mk.inj hkey
    obtain ⟨hbg, hflags⟩ := Prod.mk.inj hrest
    simp only [List.getElem_map, List.getElem_range, Cell.onWire, hfg, hbg, hflags]
    split
    · rfl
    · simp [List.getD_eq_getElem?_getD, hi]

/-- A payload expands to the cells that were sent. -/
theorem fill_payloadOf (hn : Names attrs row (payloadOf ids row))
    (hw : row.cells.length ≤ 65535) :
    fill attrs (payloadOf ids row) = (sentCells row).map Cell.onWire := by
  have hruns : ∀ runs : List (List Cell), runs.flatten.length ≤ 65535 →
      List.Forall₂ (fun (cells : List Cell) (run : Run) =>
        ∃ d, attrs.get run.attr = some d ∧ ∀ c ∈ cells, d.key = c.attrKey) runs
          (runs.map (runOf ids row)) →
      ((runs.map (runOf ids row)).flatMap fun run => runCells (attrs.get run.attr) run) =
        runs.flatten.map Cell.onWire := by
    intro runs hlen hnames
    induction runs with
    | nil => rfl
    | cons run runs ih =>
      obtain ⟨⟨d, hget, hd⟩, hrest⟩ := List.forall₂_cons.mp hnames
      rw [List.flatten_cons, List.length_append] at hlen
      rw [List.map_cons, List.flatMap_cons, List.flatten_cons, List.map_append, hget,
        runCells_runOf (by omega) hd,
        ih (by omega) hrest]
  obtain ⟨hflat, -⟩ := splitRuns_spec (sentCells row)
  have := hruns (splitRuns (sentCells row)) (by rw [hflat]; exact (length_sentCells_le row).trans hw) hn
  rw [hflat] at this
  exact this

/-! ## Marks -/

/-- The marks of a payload's runs, by column. -/
def marksFrom : List Run → Nat → List (Nat × Str)
  | [], _ => []
  | run :: runs, base =>
    (run.marks.map fun m => (base + m.atCell, m.marks)) ++ marksFrom runs (base + run.cells)

/-- The marks of one run are those of its cells. -/
theorem marksFrom_run (row : Row) (run : List Cell) (base : Nat) (hw : run.length ≤ 65535) :
    (runMarks row run).map (fun m => (base + m.atCell, m.marks)) =
      (run.zipIdx base).filterMap fun p =>
        if (row.marksOf p.1).isEmpty then none else some (p.2, row.marksOf p.1) := by
  unfold runMarks
  rw [List.map_filterMap, List.zipIdx_eq_map_add (i := base), List.filterMap_map]
  refine List.filterMap_congr fun p hp => ?_
  obtain ⟨c, i⟩ := p
  have hi : i < run.length := by
    have := List.mem_zipIdx hp
    omega
  have hu : wireU16 i = i := by
    unfold wireU16
    omega
  unfold Row.marksOf
  cases hx : row.extra c with
  | none => simp [hx]
  | some x =>
    simp only [hx, Option.map_some, Option.getD_some, Function.comp_apply]
    split
    · rfl
    · simp [hu]

theorem marksFrom_payloadOf (row : Row) (hw : row.cells.length ≤ 65535) :
    marksFrom (payloadOf ids row).runs 0 = sentMarks row := by
  have hruns : ∀ (runs : List (List Cell)) (base : Nat), runs.flatten.length ≤ 65535 →
      marksFrom (runs.map (runOf ids row)) base =
        (runs.flatten.zipIdx base).filterMap fun p =>
          if (row.marksOf p.1).isEmpty then none else some (p.2, row.marksOf p.1) := by
    intro runs
    induction runs with
    | nil => intro base _; rfl
    | cons run runs ih =>
      intro base hlen
      rw [List.flatten_cons, List.length_append] at hlen
      have hcells : (runOf ids row run).cells = run.length := by
        show wireU16 run.length = _
        unfold wireU16
        omega
      rw [List.map_cons, marksFrom, hcells, ih _ (by omega), List.flatten_cons, List.zipIdx_append,
        List.filterMap_append]
      congr 1
      exact marksFrom_run row run base (by omega)
  have := hruns (splitRuns (sentCells row)) 0
    (by rw [(splitRuns_spec _).1]; exact (length_sentCells_le row).trans hw)
  rw [(splitRuns_spec _).1] at this
  exact this

/-! ## A row painted -/

/-- A row with a payload written over it. -/
def paint (attrs : AttrTable) (p : RowPayload) (r : Row) : Row :=
  (r.overwrite (lineId p.line) (fill attrs p) p.wrapped).pushAll (marksFrom p.runs 0)

@[simp] theorem length_paint (attrs : AttrTable) (p : RowPayload) (r : Row) :
    (paint attrs p r).cells.length = r.cells.length := by
  simp [paint]

/-- What a client's row is once a host's row of the same width has been
painted over it: the host's in all but the marks that found no slot, and in
the cells as the wire carries them. -/
structure Painted (host old client : Row) : Prop where
  id : client.id = lineId (wireLine host.id)
  look : client.cells.map Cell.look = (onWire host).map Cell.look
  marked : ∃ r : Row, (∀ c ∈ r.cells, c.extra = noExtra) ∧ r.extras = old.extras ∧
    r.cells.length = host.cells.length ∧ r.Marked (sentMarks host) client

theorem painted_paint (hn : Names attrs row (payloadOf ids row)) (hw : row.cells.length ≤ 65535)
    {r : Row} (hlen : r.cells.length = row.cells.length) :
    Painted row r (paint attrs (payloadOf ids row) r) := by
  have hplain := Row.noExtra_overwrite r (lineId (wireLine row.id)) _ row.wrapped
    (noExtra_onWire row)
  have hcells : (r.overwrite (lineId (wireLine row.id)) ((sentCells row).map Cell.onWire)
      row.wrapped).cells = onWire row := by
    rw [Row.cells_overwrite, hlen]
    rfl
  have hpaint : paint attrs (payloadOf ids row) r =
      (r.overwrite (lineId (wireLine row.id)) ((sentCells row).map Cell.onWire)
        row.wrapped).pushAll (sentMarks row) := by
    unfold paint
    rw [fill_payloadOf hn hw, marksFrom_payloadOf row hw]
    rfl
  obtain ⟨hcols, hsent⟩ := sentMarks_spec row
  have hmarked := Row.marked_pushAll (sentMarks row) (fun c hc => .inl (hplain c hc)) hcols
    fun m hm => by
      obtain ⟨c, hc, -, hne⟩ := hsent m hm
      obtain ⟨hlt, _⟩ := List.getElem?_eq_some_iff.mp hc
      have hin : m.1 < (r.overwrite (lineId (wireLine row.id)) ((sentCells row).map Cell.onWire)
          row.wrapped).cells.length := by
        rw [hcells, length_onWire]
        exact hlt.trans_le (length_sentCells_le row)
      exact ⟨hne, _, List.getElem?_eq_getElem hin, hplain _ (List.getElem_mem hin)⟩
  rw [hpaint]
  refine ⟨hmarked.id, ?_, _, hplain, rfl, ?_, hmarked⟩
  · rw [hmarked.look, hcells]
  · rw [hcells, length_onWire]

/-! ## The screen painted -/

theorem edited_writeMarks (row : Nat) (runs : List Run) (base : Nat) (s : TermState) :
    s.Edited (RemoteWriter.rowEdit row fun r => r.pushAll (marksFrom runs base))
      (writeMarks row runs base s) := by
  have hrun (base : Nat) (marks : List CellMarks) (s : TermState) :
      s.Edited (RemoteWriter.rowEdit row fun r =>
        r.pushAll (marks.map fun m => (base + m.atCell, m.marks)))
        (marks.foldl (fun s m => RemoteWriter.pushMarks s row (base + m.atCell) m.marks) s) := by
    induction marks generalizing s with
    | nil => exact (TermState.Edited.refl s).congr (RemoteWriter.rowEdit_self row s.activeGrid).symm
    | cons m marks ih =>
      refine ((RemoteWriter.edited_pushMarks s row _ m.marks).trans (ih _)).congr ?_
      exact RemoteWriter.rowEdit_rowEdit row _ _ _
  induction runs generalizing base s with
  | nil => exact (TermState.Edited.refl s).congr (RemoteWriter.rowEdit_self row s.activeGrid).symm
  | cons run runs ih =>
    refine ((hrun base run.marks s).trans (ih _ _)).congr ?_
    refine (RemoteWriter.rowEdit_rowEdit row _ _ _).trans ?_
    simp only [marksFrom, Row.pushAll, List.foldl_append]

/-- Writing a row of the wire is painting it over the row that is there. -/
theorem edited_writeRow (a : Applier) (s : TermState) (row : Nat) (p : RowPayload) :
    s.Edited (RemoteWriter.rowEdit row (paint a.attrs p)) (a.writeRow s row p).1 := by
  refine ((RemoteWriter.edited_writeRow s row _ _ _).trans (edited_writeMarks row _ 0 _)).congr ?_
  exact RemoteWriter.rowEdit_rowEdit row _ _ _

/-- The edit that paints rows one below the other. -/
def paintAll (attrs : AttrTable) (rows : List RowPayload) (g : Grid) : Grid :=
  rows.zipIdx.foldl (fun g p => RemoteWriter.rowEdit p.2 (paint attrs p.1) g) g

theorem edited_writeRows (a : Applier) (rows : List RowPayload) (s : TermState) :
    s.Edited (paintAll a.attrs rows) (a.writeRows rows s) := by
  have hfold (l : List (RowPayload × Nat)) (s : TermState) :
      s.Edited (fun g => l.foldl (fun g p => RemoteWriter.rowEdit p.2 (paint a.attrs p.1) g) g)
        (l.foldl (fun s p => (a.writeRow s p.2 p.1).1) s) := by
    induction l generalizing s with
    | nil => exact TermState.Edited.refl s
    | cons p l ih => exact (edited_writeRow a s p.2 p.1).trans (ih _)
  exact hfold rows.zipIdx s

end Applier

/-- Editing the elements of a list in order. -/
theorem foldl_modify_zipIdx {α β : Type} (f : β → α → α) :
    ∀ (bs : List β) (pre xs : List α), bs.length ≤ xs.length →
      (bs.zipIdx pre.length).foldl (fun l p => l.modify p.2 (f p.1)) (pre ++ xs) =
        pre ++ (List.zipWith f bs xs ++ xs.drop bs.length)
  | [], pre, xs, _ => rfl
  | b :: bs, pre, [], h => by simp at h
  | b :: bs, pre, x :: xs, h => by
    have ih := foldl_modify_zipIdx f bs (pre ++ [f b x]) xs (by simpa using h)
    have hone := Storage.modify_append_right (f b) (x :: xs) 0 pre
    rw [Nat.add_zero] at hone
    rw [List.zipIdx_cons, List.foldl_cons, hone, List.modify_zero_cons]
    simpa using ih

namespace Applier

/-- As many rows as the screen has: each is painted, and history is left
alone. -/
theorem split_paintAll {cols rows : Nat} {g : Grid} (hg : g.Held cols rows) (attrs : AttrTable)
    {payloads : List RowPayload} (hlen : payloads.length ≤ rows) :
    (paintAll attrs payloads g).Held cols rows ∧
      (paintAll attrs payloads g).history = g.history ∧
      (paintAll attrs payloads g).screen =
        List.zipWith (paint attrs) payloads g.screen ++ g.screen.drop payloads.length := by
  have hfold (l : List (RowPayload × Nat)) {g : Grid} (hg : g.Held cols rows) :
      (l.foldl (fun g p => RemoteWriter.rowEdit p.2 (paint attrs p.1) g) g).Held cols rows ∧
        (l.foldl (fun g p => RemoteWriter.rowEdit p.2 (paint attrs p.1) g) g).history = g.history ∧
        (l.foldl (fun g p => RemoteWriter.rowEdit p.2 (paint attrs p.1) g) g).screen =
          l.foldl (fun s p => s.modify p.2 (paint attrs p.1)) g.screen := by
    induction l generalizing g with
    | nil => exact ⟨hg, rfl, rfl⟩
    | cons p l ih =>
      obtain ⟨hheld, hhist, hscreen⟩ := hg.rowEdit p.2 (paint attrs p.1) (length_paint attrs p.1)
      obtain ⟨hheld', hhist', hscreen'⟩ := ih hheld
      exact ⟨hheld', hhist'.trans hhist, by rw [List.foldl_cons, hscreen', hscreen]; rfl⟩
  obtain ⟨hheld, hhist, hscreen⟩ := hfold payloads.zipIdx hg
  refine ⟨hheld, hhist, hscreen.trans ?_⟩
  have hrows : g.screen.length = rows := hg.shape.length_screen.trans hg.rows
  exact foldl_modify_zipIdx (paint attrs) payloads [] g.screen (by rw [hrows]; exact hlen)

end Applier

end Zesterm
