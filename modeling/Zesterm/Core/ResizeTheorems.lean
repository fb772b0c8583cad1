/-
Zesterm.Core.ResizeTheorems — what resizing a grid keeps.

A height change only moves the boundary between history and screen, drops
rows at an end or mints blanks below, so the numbering evolves
(`ledger_resize_height`). A width change renumbers: the rows that come out
of the rewrap carry consecutive ids from the oldest id that went in
(`Break.Numbered`). Either way the grid keeps its shape and its ids stay
strictly increasing and below the counter.
-/
import Zesterm.Core.GridTheorems

namespace Zesterm

/-! ## The rewrap's rows -/

namespace Row

theorem attach_id_length (r : Row) (i : Nat) (c : Cell) (e : Option CellExtra) :
    (r.attach i c e).id = r.id ∧ (r.attach i c e).cells.length = r.cells.length := by
  unfold attach
  split
  · split
    · split
      · exact ⟨rfl, by simp⟩
      · exact ⟨rfl, by simp⟩
    · exact ⟨rfl, by simp⟩
  · exact ⟨rfl, rfl⟩

end Row

namespace Break

variable {first newCols : Nat}

/-- The finished rows are numbered from `first` without a gap, and as wide
as asked. -/
structure Numbered (first newCols : Nat) (b : Break) : Prop where
  ids : b.out.map Row.id = List.range' first b.out.length
  next : b.nextId = first + b.out.length
  width : ∀ r ∈ b.out, r.cells.length = newCols

/-- While a line is being broken the row in hand is the next one. -/
structure Filling (first newCols : Nat) (b : Break) : Prop extends Numbered first newCols b where
  row_id : b.row.id = b.nextId
  row_width : b.row.cells.length = newCols

/-- Finishing a row with the next id. -/
theorem Numbered.snoc {b b' : Break} {r : Row} (h : b.Numbered first newCols) (hr : r.id = b.nextId)
    (hw : r.cells.length = newCols) (hout : b'.out = b.out ++ [r])
    (hnext : b'.nextId = b.nextId + 1) : b'.Numbered first newCols := by
  refine ⟨?_, ?_, ?_⟩
  · rw [hout, List.map_append, h.ids, List.length_append, List.length_singleton,
      List.range'_concat]
    simp [hr, h.next]
  · rw [hnext, hout, h.next, List.length_append, List.length_singleton, Nat.add_assoc]
  · intro x hx
    rw [hout] at hx
    rcases List.mem_append.mp hx with hx | hx
    · exact h.width x hx
    · rw [List.mem_singleton.mp hx]; exact hw

theorem filling_pushRow {b : Break} (h : b.Filling first newCols) :
    (b.pushRow newCols).Filling first newCols := by
  have hn : (b.pushRow newCols).Numbered first newCols :=
    h.toNumbered.snoc (r := b.row.setWrapped true) h.row_id
      ((Row.length_setWrapped _ _).trans h.row_width) rfl rfl
  exact { hn with row_id := rfl, row_width := Row.length_new _ _ }

theorem filling_place {b : Break} (offset : Option Nat) (item : (Cell × Option CellExtra) × Nat)
    (h : b.Filling first newCols) : (place newCols offset b item).Filling first newCols := by
  obtain ⟨⟨cell, extra⟩, index⟩ := item
  have hif {c : Prop} [Decidable c] {b : Break} (h : b.Filling first newCols) :
      (if c then b.pushRow newCols else b).Filling first newCols := by
    split
    · exact filling_pushRow h
    · exact h
  have hmark {c : Prop} [Decidable c] {b : Break} {t : Option (Nat × Nat)}
      (h : b.Filling first newCols) :
      (if c then { b with cursorTarget := t } else b).Filling first newCols := by
    split
    · exact { h with }
    · exact h
  have hattach {b : Break} (h : b.Filling first newCols) :
      ({ b with row := b.row.attach b.col cell extra, col := b.col + 1 } : Break).Filling first
        newCols :=
    { h with
      row_id := (Row.attach_id_length _ _ _ _).1.trans h.row_id
      row_width := (Row.attach_id_length _ _ _ _).2.trans h.row_width }
  exact hattach (hmark (hif (hif h)))

theorem filling_foldl (offset : Option Nat) :
    ∀ (items : List ((Cell × Option CellExtra) × Nat)) (b : Break), b.Filling first newCols →
      (items.foldl (place newCols offset) b).Filling first newCols
  | [], _, h => h
  | item :: items, _, h => filling_foldl offset items _ (filling_place offset item h)

theorem numbered_line {b : Break} (offset : Option Nat) (cells : List (Cell × Option CellExtra))
    (h : b.Numbered first newCols) : (b.line newCols offset cells).Numbered first newCols := by
  have hstart : ({ b with row := Row.new newCols b.nextId, col := 0 } : Break).Filling first
      newCols := { h with row_id := rfl, row_width := Row.length_new _ _ }
  have hfold := filling_foldl offset cells.zipIdx _ hstart
  unfold line
  dsimp only
  split
  · exact hfold.toNumbered.snoc hfold.row_id hfold.row_width rfl rfl
  · exact hfold.toNumbered.snoc hfold.row_id hfold.row_width rfl rfl

end Break

theorem numbered_reflowLines {first newCols : Nat} (cursorAbs cursorCol : Nat) :
    ∀ (lines : List (List Row)) (start : Nat) (map : List (LineId × LineId)) (b : Break),
      b.Numbered first newCols →
      (reflowLines newCols cursorAbs cursorCol lines start map b).2.Numbered first newCols
  | [], _, _, _, h => h
  | _ :: lines, _, _, _, h =>
    numbered_reflowLines cursorAbs cursorCol lines _ _ _ (Break.numbered_line _ _ h)

/-- A grid whose ids are in order and below its counter. -/
def Grid.Numbered (g : Grid) : Prop := Ledger.Numbered g.ids g.storage.nextId

/-! ## The line map -/

namespace Reindex

/-- Lines in order on the left, and in order on the right. -/
def Monotone (x : Reindex) : Prop := x.map.Pairwise fun p q => p.1 < q.1 ∧ p.2 ≤ q.2

theorem monotone_empty : ({} : Reindex).Monotone := List.Pairwise.nil

theorem mem_of_lookup {x : Reindex} {old new : LineId} (h : x.lookup old = some new) :
    (old, new) ∈ x.map := by
  unfold lookup at h
  obtain ⟨p, hp, rfl⟩ := Option.map_eq_some_iff.mp h
  have hkey : p.1 = old := by simpa using List.find?_some hp
  exact hkey ▸ List.mem_of_find?_eq_some hp

theorem Monotone.le_of_mem {x : Reindex} (h : x.Monotone) {p q : LineId × LineId}
    (hp : p ∈ x.map) (hq : q ∈ x.map) (hle : p.1 ≤ q.1) : p.2 ≤ q.2 := by
  obtain ⟨i, hi⟩ := List.mem_iff_getElem?.mp hp
  obtain ⟨j, hj⟩ := List.mem_iff_getElem?.mp hq
  obtain ⟨hil, rfl⟩ := List.getElem?_eq_some_iff.mp hi
  obtain ⟨hjl, rfl⟩ := List.getElem?_eq_some_iff.mp hj
  rcases Nat.lt_trichotomy i j with hlt | rfl | hlt
  · exact (List.pairwise_iff_getElem.mp h i j hil hjl hlt).2
  · exact le_rfl
  · exact absurd (List.pairwise_iff_getElem.mp h j i hjl hil hlt).1 (not_lt.mpr hle)

/-- Lines keep their order across a rewrap. -/
theorem Monotone.lookup_le {x : Reindex} (h : x.Monotone) {a b a' b' : LineId}
    (ha : x.lookup a = some a') (hb : x.lookup b = some b') (hle : a ≤ b) : a' ≤ b' :=
  h.le_of_mem (mem_of_lookup ha) (mem_of_lookup hb) hle

/-- The oldest line of a rewrap stands above every other. -/
theorem Monotone.oldest_le {x : Reindex} (h : x.Monotone) {a a' o : LineId}
    (ho : x.oldest = some o) (ha : x.lookup a = some a') : o ≤ a' := by
  unfold oldest at ho
  obtain ⟨p, hp, rfl⟩ := Option.map_eq_some_iff.mp ho
  have hmem := mem_of_lookup ha
  unfold Monotone at h
  cases hmap : x.map with
  | nil => rw [hmap] at hmem; simp at hmem
  | cons q rest =>
    rw [hmap] at hp hmem h
    obtain rfl : q = p := Option.some.inj hp
    rcases List.mem_cons.mp hmem with heq | hmem
    · rw [← heq]
    · exact (List.rel_of_pairwise_cons h hmem).2

end Reindex

theorem flatten_groupLines : ∀ rows : List Row, (groupLines rows).flatten = rows
  | [] => rfl
  | r :: rs => by
    have ih := flatten_groupLines rs
    unfold groupLines
    split
    · split
      · next h =>
        rw [h] at ih
        simp only [List.flatten_nil] at ih
        rw [← ih]
        rfl
      · next h =>
        rw [h] at ih
        rw [← ih]
        rfl
    · rw [List.flatten_cons, ih]
      rfl

theorem ne_nil_of_mem_groupLines : ∀ {rows line : List Row}, line ∈ groupLines rows → line ≠ []
  | [], line, h => by simp [groupLines] at h
  | r :: rs, line, h => by
    unfold groupLines at h
    split at h
    · split at h
      · rw [List.mem_singleton] at h
        simp [h]
      · next l ls hg =>
        rcases List.mem_cons.mp h with rfl | h
        · simp
        · exact ne_nil_of_mem_groupLines (hg ▸ List.mem_cons_of_mem l h)
    · rcases List.mem_cons.mp h with rfl | h
      · simp
      · exact ne_nil_of_mem_groupLines h

namespace Break

theorem nextId_pushRow (newCols : Nat) (b : Break) : b.nextId ≤ (b.pushRow newCols).nextId :=
  Nat.le_succ _

theorem nextId_place (newCols : Nat) (offset : Option Nat) (b : Break)
    (item : (Cell × Option CellExtra) × Nat) : b.nextId ≤ (place newCols offset b item).nextId := by
  have hif {c : Prop} [Decidable c] (b : Break) :
      b.nextId ≤ (if c then b.pushRow newCols else b).nextId := by
    split
    · exact nextId_pushRow newCols b
    · exact le_rfl
  have hmark {c : Prop} [Decidable c] (b : Break) (t : Option (Nat × Nat)) :
      b.nextId ≤ (if c then { b with cursorTarget := t } else b).nextId := by
    split <;> exact le_rfl
  exact ((hif b).trans (hif _)).trans (hmark _ _)

theorem nextId_foldl (newCols : Nat) (offset : Option Nat) :
    ∀ (items : List ((Cell × Option CellExtra) × Nat)) (b : Break),
      b.nextId ≤ (items.foldl (place newCols offset) b).nextId
  | [], _ => le_rfl
  | item :: items, b => (nextId_place newCols offset b item).trans (nextId_foldl newCols offset items _)

/-- A line takes at least one row. -/
theorem nextId_line (newCols : Nat) (offset : Option Nat) (cells : List (Cell × Option CellExtra))
    (b : Break) : b.nextId < (b.line newCols offset cells).nextId := by
  unfold line
  dsimp only
  have h := nextId_foldl newCols offset cells.zipIdx
    { b with row := Row.new newCols b.nextId, col := 0 }
  split <;> exact Nat.lt_succ_of_le h

end Break

/-- The line map names every row that goes in, in order. -/
theorem fst_reflowLines (newCols cursorAbs cursorCol : Nat) :
    ∀ (lines : List (List Row)) (start : Nat) (map : List (LineId × LineId)) (b : Break),
      (reflowLines newCols cursorAbs cursorCol lines start map b).1.map Prod.fst =
        map.map Prod.fst ++ lines.flatten.map Row.id
  | [], _, _, _ => by simp [reflowLines]
  | line :: lines, start, map, b => by
    unfold reflowLines
    rw [fst_reflowLines newCols cursorAbs cursorCol lines]
    simp [Function.comp_def]

/-- The lines a map leads to ascend. -/
theorem snd_reflowLines (newCols cursorAbs cursorCol : Nat) :
    ∀ (lines : List (List Row)) (start : Nat) (map : List (LineId × LineId)) (b : Break),
      (map.map Prod.snd).Pairwise (· ≤ ·) → (∀ x ∈ map.map Prod.snd, x ≤ b.nextId) →
      ((reflowLines newCols cursorAbs cursorCol lines start map b).1.map Prod.snd).Pairwise (· ≤ ·)
  | [], _, _, _, h, _ => h
  | line :: lines, start, map, b, h, hle => by
    have hconst : (line.map fun r => (r.id, b.nextId)).map Prod.snd =
        List.replicate line.length b.nextId := by
      rw [List.map_map]
      exact List.map_const'
    unfold reflowLines
    refine snd_reflowLines newCols cursorAbs cursorCol lines _ _ _ ?_ ?_
    · rw [List.map_append, hconst, List.pairwise_append]
      refine ⟨h, List.pairwise_replicate_of_refl, fun x hx y hy => ?_⟩
      rw [List.eq_of_mem_replicate hy]
      exact hle x hx
    · intro x hx
      refine le_trans ?_ (Break.nextId_line newCols _ (joinLine line) b).le
      rw [List.map_append, hconst] at hx
      rcases List.mem_append.mp hx with hx | hx
      · exact hle x hx
      · exact (List.eq_of_mem_replicate hx).le

namespace Grid

/-! ## The width half -/

/-- The line map of a rewrap keeps the order of lines. -/
theorem monotone_reflow (g : Grid) (newCols : Nat) (t : Cell) (hn : g.Numbered) :
    (g.reflow newCols t).2.Monotone := by
  unfold reflow
  dsimp only
  split
  · exact List.Pairwise.nil
  · next first rest h =>
    generalize hre : reflowLines newCols _ g.cursor.col (groupLines g.storage.logical) 0 [] _ = p
    have hfst : p.1.map Prod.fst = g.ids := by
      rw [← hre, fst_reflowLines, flatten_groupLines]
      rfl
    have hsnd : (p.1.map Prod.snd).Pairwise (· ≤ ·) := by
      rw [← hre]
      exact snd_reflowLines _ _ _ _ _ _ _ List.Pairwise.nil (by simp)
    have hmono : p.1.Pairwise fun p q => p.1 < q.1 ∧ p.2 ≤ q.2 := by
      have h₁ := List.pairwise_map.mp (hfst ▸ hn.sorted : (p.1.map Prod.fst).Pairwise (· < ·))
      exact h₁.and (List.pairwise_map.mp hsnd)
    obtain ⟨map, b⟩ := p
    dsimp only
    unfold Reindex.Monotone
    dsimp only
    split
    · exact hmono.sublist List.filter_sublist
    · exact hmono

/-- What a rewrap makes of a grid: rows of the new width under consecutive
ids, exactly the scrollback and the viewport. -/
structure Rewrapped (g g' : Grid) (newCols : Nat) : Prop where
  cols : g'.cols = newCols
  rows : g'.rows = g.rows
  limit : g'.scrollbackLimit = g.scrollbackLimit
  restated : g'.viewportRestatedElsewhere = g.viewportRestatedElsewhere
  clears : g'.historyClears = g.historyClears
  next_le : g.storage.nextId ≤ g'.storage.nextId
  ids : ∃ start n, g'.ids = List.range' start n ∧ start + n ≤ g'.storage.nextId
  len : g'.storage.len = g'.scrollbackLen + g'.rows
  width : ∀ r ∈ g'.lines, r.cells.length = newCols

theorem rewrapped_reflow (g : Grid) (newCols : Nat) (t : Cell) (hs : g.Shape) :
    g.Rewrapped (g.reflow newCols t).1 newCols := by
  have hne : g.storage.logical ≠ [] := by
    intro h
    have hlen := hs.len
    rw [← Storage.length_logical, h] at hlen
    have := hs.rows_pos
    simp at hlen
    omega
  unfold reflow
  dsimp only
  split
  · next h => exact absurd h hne
  · next first rest h =>
    generalize hre : reflowLines newCols _ g.cursor.col (groupLines g.storage.logical) 0 [] _ = p
    have hb : p.2.Numbered first.id newCols := by
      rw [← hre]
      exact numbered_reflowLines _ _ _ _ _ _ ⟨rfl, rfl, by simp⟩
    obtain ⟨map, b⟩ := p
    have hwidth : ∀ r ∈ b.out ++ (List.range' b.nextId (g.rows - b.out.length)).map
        (Storage.blankRow newCols t), r.cells.length = newCols := by
      intro r hr
      rcases List.mem_append.mp hr with hr | hr
      · exact hb.width r hr
      · obtain ⟨id, _, rfl⟩ := List.mem_map.mp hr
        simp
    have hids : (b.out ++ (List.range' b.nextId (g.rows - b.out.length)).map
        (Storage.blankRow newCols t)).map Row.id =
          List.range' first.id (b.out.length + (g.rows - b.out.length)) := by
      have hblank : ((List.range' b.nextId (g.rows - b.out.length)).map
          (Storage.blankRow newCols t)).map Row.id =
            List.range' b.nextId (g.rows - b.out.length) := by
        rw [List.map_map]
        exact (List.map_congr_left fun _ _ => rfl).trans (List.map_id _)
      rw [List.map_append, hb.ids, hblank, hb.next, List.range'_append_1]
    generalize hall : b.out ++ (List.range' b.nextId (g.rows - b.out.length)).map
      (Storage.blankRow newCols t) = all at hwidth hids ⊢
    have hlen : all.length = b.out.length + (g.rows - b.out.length) := by
      rw [← hall]; simp
    have hnext : b.nextId = first.id + b.out.length := hb.next
    refine ⟨rfl, rfl, rfl, rfl, rfl, Nat.le_max_left _ _, ?_, ?_, ?_⟩
    · refine ⟨first.id + (all.length - g.rows - g.scrollbackLimit),
        b.out.length + (g.rows - b.out.length) - (all.length - g.rows - g.scrollbackLimit), ?_, ?_⟩
      · simp only [ids, lines, Storage.logical_replaceAll, List.map_drop, hids, List.drop_range',
          Nat.mul_one]
      · refine le_trans ?_ (Nat.le_max_right g.storage.nextId
          (b.nextId + (g.rows - b.out.length)))
        have hexcess : all.length - g.rows - g.scrollbackLimit ≤
            b.out.length + (g.rows - b.out.length) := by
          rw [← hlen]
          exact (Nat.sub_le _ _).trans (Nat.sub_le _ _)
        rw [Nat.add_assoc, Nat.add_sub_cancel' hexcess, hnext, Nat.add_assoc]
    · rw [← Storage.length_logical, Storage.logical_replaceAll]
      simp only [List.length_drop]
      omega
    · intro r hr
      simp only [lines, Storage.logical_replaceAll] at hr
      exact hwidth r (List.mem_of_mem_drop hr)

/-- Consecutive ids are in order. -/
theorem Rewrapped.numbered {g g' : Grid} {newCols : Nat} (h : g.Rewrapped g' newCols) :
    Ledger.Numbered g'.ids g'.storage.nextId := by
  obtain ⟨start, n, hids, hle⟩ := h.ids
  rw [hids]
  refine ⟨pairwise_range' _ _, fun x hx => ?_⟩
  rw [List.mem_range'_1] at hx
  exact lt_of_lt_of_le hx.2 hle

/-- The alternate screen is cut or padded in place. -/
theorem width_resizeCols (s : Storage) (cols : Nat) (t : Cell) :
    ∀ r ∈ (s.resizeCols cols t).logical, r.cells.length = cols := by
  intro r hr
  rw [Storage.logical_resizeCols] at hr
  obtain ⟨a, _, rfl⟩ := List.mem_map.mp hr
  simp [Row.resize]
  omega

/-! ## The height half -/

/-- What a height change makes of a grid, the boundary and the viewport
aside: rows leave, blanks join below. -/
structure Restacked (g g' : Grid) : Prop where
  cols : g'.cols = g.cols
  limit : g'.scrollbackLimit = g.scrollbackLimit
  restated : g'.viewportRestatedElsewhere = g.viewportRestatedElsewhere
  clears : g'.historyClears = g.historyClears
  ledger : Ledger.Evolves g.ids g.storage.nextId g'.ids g'.storage.nextId
  width : (∀ r ∈ g.lines, r.cells.length = g.cols) → ∀ r ∈ g'.lines, r.cells.length = g'.cols

namespace Restacked

theorem refl (g : Grid) : g.Restacked g :=
  ⟨rfl, rfl, rfl, rfl, Ledger.Evolves.refl _ _, id⟩

theorem trans {g g' g'' : Grid} (h : g.Restacked g') (h' : g'.Restacked g'') : g.Restacked g'' :=
  ⟨h'.cols.trans h.cols, h'.limit.trans h.limit, h'.restated.trans h.restated,
    h'.clears.trans h.clears, h.ledger.trans h'.ledger, fun hw => h'.width (h.width hw)⟩

/-- Rows were struck out. -/
theorem of_sublist {g g' : Grid} (hsub : g'.lines.Sublist g.lines)
    (hn : g'.storage.nextId = g.storage.nextId) (hc : g'.cols = g.cols)
    (hl : g'.scrollbackLimit = g.scrollbackLimit)
    (hv : g'.viewportRestatedElsewhere = g.viewportRestatedElsewhere)
    (hh : g'.historyClears = g.historyClears) : g.Restacked g' := by
  refine ⟨hc, hl, hv, hh, ?_, fun hw r hr => (hw r (hsub.subset hr)).trans hc.symm⟩
  rw [hn]
  exact Ledger.Evolves.of_sublist (hsub.map _)

end Restacked

variable (g : Grid)

theorem truncateBottom_sublist (s : Storage) (n : Nat) :
    (s.truncateBottom n).logical.Sublist s.logical := by
  rw [Storage.logical_truncateBottom]
  split
  · exact List.Sublist.refl _
  · exact List.take_sublist _ _

theorem restacked_shrinkRows (rows : Nat) : g.Restacked (g.shrinkRows rows) := by
  have hsub := truncateBottom_sublist g.storage
    (min (g.rows - rows) (g.rows - 1 - min g.cursor.row (g.rows - 1)))
  have hnext := Storage.nextId_truncateBottom g.storage
    (min (g.rows - rows) (g.rows - 1 - min g.cursor.row (g.rows - 1)))
  unfold shrinkRows
  dsimp only
  split
  · split
    · exact Restacked.of_sublist hsub hnext rfl rfl rfl rfl
    · exact Restacked.of_sublist hsub hnext rfl rfl rfl rfl
  · exact Restacked.of_sublist hsub hnext rfl rfl rfl rfl

theorem restacked_resizeRows (n cols rows : Nat) (t : Cell) (hc : cols = g.cols) :
    g.Restacked { g with storage := g.storage.resizeRows n cols t, rows := rows } := by
  subst hc
  exact ⟨rfl, rfl, rfl, rfl, ledger_resizeRows _ _ _ _, fun h => width_resizeRows _ _ _ _ h⟩

theorem restacked_resizeHeight (rows : Nat) (t : Cell) :
    g.Restacked (g.resizeHeight g.cols rows t) := by
  have hframe {g g' : Grid} (hs : g'.storage = g.storage) (hc : g'.cols = g.cols)
      (hl : g'.scrollbackLimit = g.scrollbackLimit)
      (hv : g'.viewportRestatedElsewhere = g.viewportRestatedElsewhere)
      (hh : g'.historyClears = g.historyClears) : g.Restacked g' :=
    Restacked.of_sublist (by simp [lines, hs]) (by rw [hs]) hc hl hv hh
  unfold resizeHeight
  split
  · exact Restacked.refl g
  · dsimp only
    split
    · have h := restacked_shrinkRows g rows
      exact h.trans (restacked_resizeRows (g.shrinkRows rows) _ _ rows t h.cols.symm)
    · split
      · exact (hframe rfl rfl rfl rfl rfl : g.Restacked (g.growRestated rows)).trans
          (restacked_resizeRows (g.growRestated rows) _ _ rows t rfl)
      · exact (hframe rfl rfl rfl rfl rfl : g.Restacked (g.growRows rows)).trans
          (restacked_resizeRows (g.growRows rows) _ _ rows t rfl)

@[simp] theorem rows_resizeHeight (cols rows : Nat) (t : Cell) :
    (g.resizeHeight cols rows t).rows = rows := by
  unfold resizeHeight
  split
  · next h => exact h.symm
  · rfl

theorem len_resizeHeight (cols rows : Nat) (t : Cell) (h : g.storage.len = g.scrollbackLen + g.rows)
    :
    (g.resizeHeight cols rows t).storage.len = (g.resizeHeight cols rows t).scrollbackLen + rows := by
  unfold resizeHeight
  split
  · next hr => rw [hr]; exact h
  · exact Storage.len_resizeRows _ _ _ _

/-! ## Resizing -/

/-- A rewrap ends the settle and keeps no more history than it may. -/
theorem limit_resizeWidth (cols : Nat) (t : Cell)
    (h : g.scrollbackLen + g.settledPull ≤ g.scrollbackLimit) :
    (g.resizeWidth cols t).1.scrollbackLen + (g.resizeWidth cols t).1.settledPull ≤
      (g.resizeWidth cols t).1.scrollbackLimit := by
  have hle : g.scrollbackLen ≤ g.scrollbackLimit := (Nat.le_add_right _ _).trans h
  unfold resizeWidth
  split
  · exact h
  · dsimp only
    split
    · exact hle
    · unfold reflow
      dsimp only
      split
      · exact hle
      · show _ - g.rows - (_ - g.rows - g.scrollbackLimit) + 0 ≤ g.scrollbackLimit
        omega

/-- What a shrink banks, the settle no longer holds. -/
theorem limit_resizeHeight (cols rows : Nat) (t : Cell)
    (h : g.scrollbackLen + g.settledPull ≤ g.scrollbackLimit) :
    (g.resizeHeight cols rows t).scrollbackLen + (g.resizeHeight cols rows t).settledPull ≤
      (g.resizeHeight cols rows t).scrollbackLimit := by
  unfold resizeHeight
  split
  · exact h
  · dsimp only
    split
    · unfold shrinkRows
      dsimp only
      split
      · split
        · dsimp only
          omega
        · dsimp only
          omega
      · exact h
    · split
      · exact h
      · exact (Nat.add_le_add_right (Nat.sub_le _ _) _).trans h

/-- A width change ends the settle. -/
theorem settledPull_resize {cols : Nat} (hne : max cols 1 ≠ g.cols) (rows : Nat) (t : Cell) :
    (g.resize cols rows t).1.settledPull = 0 := by
  have hwidth (g₀ : Grid) (hne₀ : max cols 1 ≠ g₀.cols) :
      (g₀.resizeWidth (max cols 1) t).1.settledPull = 0 := by
    unfold resizeWidth
    rw [if_neg hne₀]
    dsimp only
    split
    · rfl
    · unfold reflow
      dsimp only
      split <;> rfl
  have hheight (g₁ : Grid) (hp : g₁.settledPull = 0) (cols rows : Nat) :
      (g₁.resizeHeight cols rows t).settledPull = 0 := by
    unfold resizeHeight
    split
    · exact hp
    · dsimp only
      split
      · unfold shrinkRows
        dsimp only
        split
        · split
          · dsimp only
            omega
          · dsimp only
            omega
        · exact hp
      · split
        · exact hp
        · exact hp
  unfold resize
  dsimp only
  rw [if_neg fun h => hne h.1]
  split
  · exact hheight _ (hwidth { g with restating := false, sittingOut := true } hne) _ _
  · exact hheight _ (hwidth g hne) _ _

/-- What a resize keeps. -/
structure Resized (g g' : Grid) (newCols newRows : Nat) : Prop where
  cols : g'.cols = max newCols 1
  rows : g'.rows = max newRows 1
  limit : g'.scrollbackLimit = g.scrollbackLimit
  restated : g'.viewportRestatedElsewhere = g.viewportRestatedElsewhere
  clears : g'.historyClears = g.historyClears
  shape : g'.Shape
  within : g.Within → g'.Within
  numbered : g.Numbered → g'.Numbered
  ledger : max newCols 1 = g.cols → Ledger.Evolves g.ids g.storage.nextId g'.ids g'.storage.nextId

/-- The width half, on either kind of grid. -/
theorem resizeWidth_keeps (cols : Nat) (t : Cell) (hs : g.Shape) :
    let g' := (g.resizeWidth cols t).1
    g'.cols = cols ∧ g'.rows = g.rows ∧ g'.scrollbackLimit = g.scrollbackLimit ∧
      g'.viewportRestatedElsewhere = g.viewportRestatedElsewhere ∧
      g'.historyClears = g.historyClears ∧ g'.storage.len = g'.scrollbackLen + g'.rows ∧
      (∀ r ∈ g'.lines, r.cells.length = cols) ∧ (g.Numbered → g'.Numbered) ∧
      (cols = g.cols → g' = g) := by
  unfold resizeWidth
  split
  · next h => exact ⟨h.symm, rfl, rfl, rfl, rfl, hs.len, h ▸ hs.width, id, fun _ => rfl⟩
  · next hne =>
    dsimp only
    split
    · refine ⟨rfl, rfl, rfl, rfl, rfl, ?_, width_resizeCols _ _ _, fun hn => ?_,
        fun h => absurd h hne⟩
      · show (g.storage.resizeCols cols t).len = _
        simpa [Storage.len, Storage.resizeCols] using hs.len
      · have hids : (g.storage.resizeCols cols t).logical.map Row.id = g.ids := by
          rw [Storage.logical_resizeCols, List.map_map]
          rfl
        show Ledger.Numbered ((g.storage.resizeCols cols t).logical.map Row.id) g.storage.nextId
        rw [hids]
        exact hn
    · have hs' : ({ g with settledPull := 0 } : Grid).Shape := ⟨hs.1, hs.2, hs.3, hs.4⟩
      have h := rewrapped_reflow _ cols t hs'
      refine ⟨rfl, h.rows, h.limit, h.restated, h.clears, h.len, h.width, fun _ => ?_,
        fun h => absurd h hne⟩
      exact h.numbered

/-- The line map of a resize keeps the order of lines; at the same width
there is none. -/
theorem monotone_resize (cols rows : Nat) (t : Cell) (hn : g.Numbered) :
    (g.resize cols rows t).2.Monotone ∧
      (max cols 1 = g.cols → (g.resize cols rows t).2 = {}) := by
  have hwidth (g : Grid) (hn : g.Numbered) (cols : Nat) :
      (g.resizeWidth cols t).2.Monotone ∧ (cols = g.cols → (g.resizeWidth cols t).2 = {}) := by
    unfold resizeWidth
    split
    · exact ⟨Reindex.monotone_empty, fun _ => rfl⟩
    · next hne =>
      dsimp only
      split
      · exact ⟨Reindex.monotone_empty, fun _ => rfl⟩
      · exact ⟨monotone_reflow { g with settledPull := 0 } cols t hn, fun h => absurd h hne⟩
  unfold resize
  dsimp only
  split
  · exact ⟨Reindex.monotone_empty, fun _ => rfl⟩
  · split
    · exact hwidth { g with restating := false, sittingOut := true } hn (max cols 1)
    · exact hwidth g hn (max cols 1)

theorem resized_resize (cols rows : Nat) (t : Cell) (hs : g.Shape) :
    g.Resized (g.resize cols rows t).1 cols rows := by
  unfold resize
  dsimp only
  split
  · next h =>
    exact ⟨h.1.symm, h.2.symm, rfl, rfl, rfl, hs, id, id, fun _ => Ledger.Evolves.refl _ _⟩
  · -- The armed repaint is bookkeeping.
    generalize hg₀ : (if g.restating then { g with restating := false, sittingOut := true } else g)
      = g₀
    have hframe : g.Evolves g₀ := by
      rw [← hg₀]
      split
      · exact evolves_repaint g _ _ _ _ _ _
      · exact Evolves.refl g
    have hlimit (hin : g₀.Within) := limit_resizeHeight _ (max cols 1) (max rows 1) t
      (limit_resizeWidth g₀ (max cols 1) t hin.limit)
    obtain ⟨hc, hr, hl, hv, hh, hlen, hw, hn, hsame⟩ :=
      resizeWidth_keeps g₀ (max cols 1) t (hframe.shape hs)
    generalize g₀.resizeWidth (max cols 1) t = p at hc hr hl hv hh hlen hw hn hsame hlimit
    obtain ⟨g₁, reindex⟩ := p
    dsimp only at hc hr hl hv hh hlen hw hn hsame hlimit ⊢
    have h₂ := restacked_resizeHeight g₁ (max rows 1) t
    rw [hc] at h₂
    have hlen₂ := len_resizeHeight g₁ (max cols 1) (max rows 1) t hlen
    have hrows₂ := rows_resizeHeight g₁ (max cols 1) (max rows 1) t
    generalize g₁.resizeHeight (max cols 1) (max rows 1) t = g₂ at h₂ hlen₂ hrows₂ hlimit
    refine ⟨h₂.cols.trans hc, hrows₂, (h₂.limit.trans hl).trans hframe.limit,
      (h₂.restated.trans hv).trans hframe.restated, (h₂.clears.trans hh).trans hframe.clears,
      ⟨?_, ?_, ?_, ?_⟩, fun hin => ?_, ?_, ?_⟩
    · show 0 < g₂.rows
      rw [hrows₂]; omega
    · show 0 < g₂.cols
      rw [h₂.cols, hc]; omega
    · show g₂.storage.len = g₂.scrollbackLen + g₂.rows
      rw [hrows₂]; exact hlen₂
    · exact h₂.width (by rw [hc]; exact hw)
    · have hrows : 0 < g₂.rows := by rw [hrows₂]; omega
      have hcols : 0 < g₂.cols := by rw [h₂.cols, hc]; omega
      exact
        { limit := hlimit (hframe.within hs hin)
          offset := Nat.min_le_right _ _
          row := (Nat.min_le_right _ _).trans_lt (Nat.sub_lt hrows Nat.one_pos)
          col := (Nat.min_le_right _ _).trans_lt (Nat.sub_lt hcols Nat.one_pos)
          ordered := Nat.zero_le _
          bottom := Nat.sub_lt hrows Nat.one_pos }
    · intro hnum
      exact h₂.ledger.numbered (hn (hframe.ledger.numbered hnum))
    · intro hcols
      have : g₁ = g₀ := hsame (hcols.trans hframe.cols.symm)
      subst this
      exact hframe.ledger.trans h₂.ledger

end Grid

end Zesterm
