/-
Zesterm.Core.RewrapTheorems — what the rewrap makes of each logical line.

The loop that re-breaks a line is `Breaking.breaks` at the new width, wide
characters being the ones that may not end a line (`out_line`): its rows
are `lay`, one for each list of cells that `broken` gives. The whole rewrap
is then `rewrap`, the logical lines with the rows each one became, under
consecutive ids: `out_reflow` reads the new grid off it and `map_reflow`
the line map.
-/
import Zesterm.Core.ResizeTheorems
import Zesterm.Lib.Breaking

namespace Zesterm

/-- A cell as the rewrap moves it. -/
abbrev Item := Cell × Option CellExtra

/-! ## Breaking one line -/

/-- A character that may not end a row of the new width. -/
def edge (newCols : Nat) (x : Item) : Bool :=
  x.1.flags.contains .wide && decide (newCols > 1)

/-- The cells of each row a logical line is broken into. -/
def broken (newCols : Nat) (cells : List Item) : List (List Item) :=
  Breaking.breaks (Breaking.pushes newCols (edge newCols)) [] cells

namespace Row

/-- A row with cells put down from its first column on. -/
def fill (newCols : Nat) (id : LineId) (items : List Item) : Row :=
  items.zipIdx.foldl (fun r p => r.attach p.2 p.1.1 p.1.2) (Row.new newCols id)

theorem fill_snoc (newCols : Nat) (id : LineId) (items : List Item) (x : Item) :
    fill newCols id (items ++ [x]) = (fill newCols id items).attach items.length x.1 x.2 := by
  unfold fill
  rw [List.zipIdx_append, List.foldl_append]
  simp

theorem fill_id_length (newCols : Nat) (id : LineId) (items : List Item) :
    (fill newCols id items).id = id ∧ (fill newCols id items).cells.length = newCols := by
  induction items using List.reverseRecOn with
  | nil => exact ⟨rfl, length_new newCols id⟩
  | append_singleton items x ih =>
    obtain ⟨hid, hlen⟩ := attach_id_length (fill newCols id items) items.length x.1 x.2
    rw [fill_snoc, hid, hlen]
    exact ih

end Row

/-- Rows under consecutive ids, all but the last of them wrapped. -/
def lay (newCols : Nat) : LineId → List (List Item) → List Row
  | _, [] => []
  | id, [c] => [Row.fill newCols id c]
  | id, c :: d :: cs =>
    (Row.fill newCols id c).setWrapped true :: lay newCols (id + 1) (d :: cs)

@[simp] theorem length_lay (newCols : Nat) : ∀ (id : LineId) (L : List (List Item)),
    (lay newCols id L).length = L.length
  | _, [] => rfl
  | _, [_] => rfl
  | id, _ :: d :: cs => by
    rw [lay, List.length_cons, length_lay newCols (id + 1) (d :: cs)]
    rfl

/-- The rows of a line are counted off from the first. -/
theorem ids_lay (newCols : Nat) : ∀ (id : LineId) (L : List (List Item)),
    (lay newCols id L).map Row.id = List.range' id L.length
  | _, [] => rfl
  | id, [c] => by simp [lay, (Row.fill_id_length newCols id c).1]
  | id, c :: d :: cs => by
    rw [lay, List.map_cons, ids_lay newCols (id + 1) (d :: cs), Row.id_setWrapped,
      (Row.fill_id_length newCols id c).1, List.length_cons, List.range'_succ]
    rfl

namespace Break

/-- A cell is placed on the row in hand, or on the next one where it is
pushed there; the mark of the cursor is no matter of rows. -/
theorem place_eq {newCols : Nat} (hw : 0 < newCols) (offset : Option Nat) (b : Break) (x : Item)
    (k : Nat) : ∃ t, place newCols offset b (x, k) =
      if Breaking.pushes newCols (edge newCols) b.col x then
        { b.pushRow newCols with
          row := (b.pushRow newCols).row.attach 0 x.1 x.2, col := 1, cursorTarget := t }
      else { b with row := b.row.attach b.col x.1 x.2, col := b.col + 1, cursorTarget := t } := by
  have hmark (b : Break) : ∃ t, (if offset = some k then
      { b with cursorTarget := some (b.out.length, b.col) } else b) =
        { b with cursorTarget := t } := by
    split
    · exact ⟨_, rfl⟩
    · exact ⟨b.cursorTarget, rfl⟩
  have hempty : ¬ (b.pushRow newCols).col ≥ newCols := by
    show ¬ 0 ≥ newCols
    omega
  obtain ⟨c, e⟩ := x
  unfold place
  dsimp only
  by_cases hwide : (c.flags.contains .wide && decide (b.col + 1 ≥ newCols) &&
      decide (newCols > 1)) = true
  · obtain ⟨t, ht⟩ := hmark (b.pushRow newCols)
    have hp : Breaking.pushes newCols (edge newCols) b.col (c, e) = true := by
      simp only [Bool.and_eq_true, decide_eq_true_eq] at hwide
      simp [Breaking.pushes, edge, hwide.1.1, hwide.2]
      omega
    refine ⟨t, ?_⟩
    rw [if_pos hwide, if_neg hempty, ht, if_pos hp]
    rfl
  · rw [if_neg hwide]
    by_cases hfull : b.col ≥ newCols
    · obtain ⟨t, ht⟩ := hmark (b.pushRow newCols)
      refine ⟨t, ?_⟩
      rw [if_pos hfull, ht, if_pos (by simp [Breaking.pushes, hfull])]
      rfl
    · obtain ⟨t, ht⟩ := hmark b
      refine ⟨t, ?_⟩
      have hp : ¬ Breaking.pushes newCols (edge newCols) b.col (c, e) = true := by
        simp only [Breaking.pushes, edge, Bool.or_eq_true, Bool.and_eq_true, decide_eq_true_eq,
          not_or, not_and, and_imp]
        simp only [Bool.and_eq_true, decide_eq_true_eq, not_and, and_imp] at hwide
        exact ⟨hfull, fun hx h1 hn => hwide hx hn h1⟩
      rw [if_neg hfull, ht, if_neg hp]

/-- Placing cells one by one closes the rows that `breaks` does. -/
theorem out_foldl {newCols : Nat} (hw : 0 < newCols) (offset : Option Nat) :
    ∀ (cells : List Item) (k : Nat) (b : Break) (cur : List Item),
      b.row = Row.fill newCols b.nextId cur → b.col = cur.length →
      ((cells.zipIdx k).foldl (place newCols offset) b).out ++
          [((cells.zipIdx k).foldl (place newCols offset) b).row] =
        b.out ++ lay newCols b.nextId
          (Breaking.breaks (Breaking.pushes newCols (edge newCols)) cur cells) ∧
      ((cells.zipIdx k).foldl (place newCols offset) b).nextId + 1 = b.nextId +
        (Breaking.breaks (Breaking.pushes newCols (edge newCols)) cur cells).length
  | [], _, b, cur, hrow, _ => by simp [Breaking.breaks, lay, hrow]
  | x :: cells, k, b, cur, hrow, hcol => by
    obtain ⟨t, hplace⟩ := place_eq hw offset b x k
    rw [List.zipIdx_cons, List.foldl_cons, Breaking.breaks]
    rw [hcol] at hplace
    split at hplace
    · next hp =>
      -- The row in hand is closed and `x` begins the next.
      obtain ⟨hout, hnext⟩ := out_foldl hw offset cells (k + 1) (place newCols offset b (x, k)) [x]
        (by rw [hplace]; rfl) (by rw [hplace]; rfl)
      obtain ⟨d, ds, hds⟩ := Breaking.breaks_eq_append
        (Breaking.pushes newCols (edge newCols)) [x] cells
      rw [if_pos hp, hout, hnext, hplace, hds]
      refine ⟨?_, ?_⟩
      · simp only [pushRow, lay, hrow, List.append_assoc, List.singleton_append]
      · show b.nextId + 1 + (ds.length + 1) = b.nextId + (ds.length + 1 + 1)
        rw [Nat.add_assoc, Nat.add_comm 1]
    · next hp =>
      obtain ⟨hout, hnext⟩ := out_foldl hw offset cells (k + 1) (place newCols offset b (x, k))
        (cur ++ [x]) (by rw [hplace, Row.fill_snoc, ← hrow]) (by rw [hplace]; simp)
      rw [if_neg hp, hout, hnext, hplace]
      exact ⟨rfl, rfl⟩

/-- Breaking a line appends its rows. -/
theorem out_line {newCols : Nat} (hw : 0 < newCols) (offset : Option Nat) (cells : List Item)
    (b : Break) :
    (b.line newCols offset cells).out = b.out ++ lay newCols b.nextId (broken newCols cells) ∧
      (b.line newCols offset cells).nextId = b.nextId + (broken newCols cells).length := by
  obtain ⟨hout, hnext⟩ := out_foldl hw offset cells 0
    { b with row := Row.new newCols b.nextId, col := 0 } [] rfl rfl
  unfold line
  dsimp only
  split
  · exact ⟨hout, hnext⟩
  · exact ⟨hout, hnext⟩

end Break

/-! ## All of them -/

/-- Every logical line, with the rows it becomes from the id `first` on. -/
def rewrapFrom (newCols : Nat) : List (List Row) → LineId → List (List Row × List Row)
  | [], _ => []
  | line :: lines, first =>
    let rows := lay newCols first (broken newCols (joinLine line))
    (line, rows) :: rewrapFrom newCols lines (first + rows.length)

/-- The rewrap's rows are those of the lines, and its map sends every row
of a line to the first row the line became. -/
theorem reflowLines_eq {newCols : Nat} (hw : 0 < newCols) (cursorAbs cursorCol : Nat) :
    ∀ (lines : List (List Row)) (start : Nat) (map : List (LineId × LineId)) (b : Break),
      let p := reflowLines newCols cursorAbs cursorCol lines start map b
      let L := rewrapFrom newCols lines b.nextId
      p.2.out = b.out ++ L.flatMap Prod.snd ∧
        p.2.nextId = b.nextId + (L.flatMap Prod.snd).length ∧
        p.1 = map ++ L.flatMap fun q => q.1.map fun r => (r.id, (q.2.headD default).id)
  | [], _, map, b => by simp [reflowLines, rewrapFrom]
  | line :: lines, start, map, b => by
    obtain ⟨hout, hnext⟩ := Break.out_line hw (cursorOffset line start cursorAbs cursorCol)
      (joinLine line) b
    obtain ⟨hp, hn, hm⟩ := reflowLines_eq hw cursorAbs cursorCol lines (start + line.length)
      (map ++ line.map fun r => (r.id, b.nextId))
      (b.line newCols (cursorOffset line start cursorAbs cursorCol) (joinLine line))
    dsimp only at hp hn hm ⊢
    unfold reflowLines rewrapFrom
    dsimp only
    rw [hnext] at hp hn hm
    rw [hout] at hp
    have hhead : ((lay newCols b.nextId (broken newCols (joinLine line))).headD default).id =
        b.nextId := by
      obtain ⟨d, ds, hds⟩ := Breaking.breaks_eq_append
        (Breaking.pushes newCols (edge newCols)) [] (joinLine line)
      rw [broken, hds]
      cases ds with
      | nil => exact (Row.fill_id_length _ _ _).1
      | cons d' ds => exact (Row.fill_id_length _ _ _).1
    rw [List.flatMap_cons, List.flatMap_cons, hhead, length_lay]
    refine ⟨?_, ?_, ?_⟩
    · rw [hp, List.append_assoc]
    · rw [hn, List.length_append, length_lay, Nat.add_assoc]
    · rw [hm, List.append_assoc]

theorem map_fst_rewrapFrom (newCols : Nat) : ∀ (lines : List (List Row)) (first : LineId),
    (rewrapFrom newCols lines first).map Prod.fst = lines
  | [], _ => rfl
  | line :: lines, first => by
    rw [rewrapFrom, List.map_cons, map_fst_rewrapFrom newCols lines]

theorem length_broken_pos (newCols : Nat) (cells : List Item) : 0 < (broken newCols cells).length :=
  List.length_pos_iff.mpr (Breaking.breaks_ne_nil _ _ _)

/-- All the rows of a rewrap are counted off from the first. -/
theorem ids_rewrapFrom (newCols : Nat) : ∀ (lines : List (List Row)) (first : LineId),
    ((rewrapFrom newCols lines first).flatMap Prod.snd).map Row.id =
      List.range' first ((rewrapFrom newCols lines first).flatMap Prod.snd).length
  | [], _ => rfl
  | line :: lines, first => by
    rw [rewrapFrom, List.flatMap_cons, List.map_append, ids_lay, length_lay,
      ids_rewrapFrom newCols lines, List.length_append, length_lay, List.range'_append_1]

theorem length_of_mem_rewrapFrom (newCols : Nat) : ∀ (lines : List (List Row)) (first : LineId),
    ∀ q ∈ rewrapFrom newCols lines first, q.2.length = (broken newCols (joinLine q.1)).length
  | [], _, q, hq => by simp [rewrapFrom] at hq
  | line :: lines, first, q, hq => by
    rw [rewrapFrom] at hq
    rcases List.mem_cons.mp hq with rfl | hq
    · exact length_lay _ _ _
    · exact length_of_mem_rewrapFrom newCols lines _ q hq

/-- Every line becomes one row at least, at or below the first. -/
theorem head_rewrapFrom (newCols : Nat) : ∀ (lines : List (List Row)) (first : LineId),
    ∀ q ∈ rewrapFrom newCols lines first, ∃ r rs, q.2 = r :: rs ∧ first ≤ r.id
  | [], _, q, hq => by simp [rewrapFrom] at hq
  | line :: lines, first, q, hq => by
    rw [rewrapFrom] at hq
    rcases List.mem_cons.mp hq with rfl | hq
    · have hids := ids_lay newCols first (broken newCols (joinLine line))
      cases hl : lay newCols first (broken newCols (joinLine line)) with
      | nil =>
        have hlen := length_lay newCols first (broken newCols (joinLine line))
        rw [hl] at hlen
        exact absurd hlen (ne_of_lt (length_broken_pos newCols _))
      | cons r rs =>
        refine ⟨r, rs, rfl, ?_⟩
        have hr : r.id ∈ List.range' first (broken newCols (joinLine line)).length := by
          rw [← hids, hl]
          simp
        exact (List.mem_range'_1.mp hr).1
    · obtain ⟨r, rs, hq2, hle⟩ := head_rewrapFrom newCols lines _ q hq
      exact ⟨r, rs, hq2, (Nat.le_add_right _ _).trans hle⟩

namespace Grid

variable {g : Grid} {newCols : Nat}

/-- The logical lines of a grid, each with the rows a rewrap makes of it. -/
def rewrap (g : Grid) (newCols : Nat) : List (List Row × List Row) :=
  rewrapFrom newCols (groupLines g.lines) (g.lines.headD default).id

/-- The rows of a rewrap, in order. -/
def rewrapped (g : Grid) (newCols : Nat) : List Row := (g.rewrap newCols).flatMap Prod.snd

/-- A rewrap that outgrows neither the screen nor the scrollback. -/
def Fits (g : Grid) (newCols : Nat) : Prop :=
  (g.rewrapped newCols).length ≤ g.rows + g.scrollbackLimit

instance (g : Grid) (newCols : Nat) : Decidable (g.Fits newCols) :=
  inferInstanceAs (Decidable (_ ≤ _))

theorem lines_ne_nil (hs : g.Shape) : g.lines ≠ [] := by
  intro h
  have hlen := hs.len
  have hrows := hs.rows_pos
  rw [← Storage.length_logical, show g.storage.logical = [] from h, List.length_nil] at hlen
  omega

/-- The rows of a rewrap and the blank ones that fill the screen up. -/
def refilled (g : Grid) (newCols : Nat) (t : Cell) : List Row :=
  g.rewrapped newCols ++
    (List.range' ((g.lines.headD default).id + (g.rewrapped newCols).length)
      (g.rows - (g.rewrapped newCols).length)).map (Storage.blankRow newCols t)

/-- How many of them the scrollback bound drops, oldest first. -/
def excess (g : Grid) (newCols : Nat) : Nat :=
  max (g.rewrapped newCols).length g.rows - g.rows - g.scrollbackLimit

/-- Where a rewrap sends every row the grid had. -/
def relined (g : Grid) (newCols : Nat) : List (LineId × LineId) :=
  (g.rewrap newCols).flatMap fun q => q.1.map fun r => (r.id, (q.2.headD default).id)

theorem length_refilled (g : Grid) (newCols : Nat) (t : Cell) :
    (g.refilled newCols t).length = max (g.rewrapped newCols).length g.rows := by
  rw [refilled, List.length_append, List.length_map, List.length_range']
  omega

/-- All of them are counted off from the oldest line held. -/
theorem ids_refilled (g : Grid) (newCols : Nat) (t : Cell) :
    (g.refilled newCols t).map Row.id =
      List.range' (g.lines.headD default).id (max (g.rewrapped newCols).length g.rows) := by
  have hblank (first n : Nat) : ((List.range' first n).map (Storage.blankRow newCols t)).map Row.id =
      List.range' first n := by
    rw [List.map_map]
    exact (List.map_congr_left fun _ _ => rfl).trans (List.map_id _)
  have hids : (g.rewrapped newCols).map Row.id =
      List.range' (g.lines.headD default).id (g.rewrapped newCols).length :=
    ids_rewrapFrom newCols (groupLines g.lines) _
  rw [refilled, List.map_append, hids, hblank, List.range'_append_1]
  congr 1
  omega

theorem excess_of_fits (hfit : g.Fits newCols) : g.excess newCols = 0 := by
  unfold Fits at hfit
  unfold excess
  omega

/-- No line goes above the oldest one held. -/
theorem le_relined {p : LineId × LineId} (h : p ∈ g.relined newCols) :
    (g.lines.headD default).id ≤ p.2 := by
  obtain ⟨q, hq, hp⟩ := List.mem_flatMap.mp h
  obtain ⟨r, _, rfl⟩ := List.mem_map.mp hp
  obtain ⟨r', rs, hq2, hle⟩ := head_rewrapFrom newCols _ _ q hq
  rw [hq2]
  exact hle

/-- What a rewrap makes of a grid: its rows and its line map, less what the
scrollback bound drops. -/
theorem reflow_cut (hs : g.Shape) (hw : 0 < newCols) (t : Cell) :
    (g.reflow newCols t).1.lines = (g.refilled newCols t).drop (g.excess newCols) ∧
      (g.reflow newCols t).2.map = (g.relined newCols).filter (fun p =>
        decide ((g.lines.headD default).id + g.excess newCols ≤ p.2)) ∧
      (g.reflow newCols t).1.storage.nextId = max g.storage.nextId
        ((g.lines.headD default).id + max (g.rewrapped newCols).length g.rows) := by
  have hlines := lines_ne_nil hs
  have hids := g.ids_refilled newCols t
  have hlength := g.length_refilled newCols t
  unfold reflow
  dsimp only
  split
  · next h => exact absurd h hlines
  · next first rest h =>
    have hfirst : g.lines.headD default = first := by
      rw [show g.lines = first :: rest from h]
      rfl
    obtain ⟨hout, hnext, hmap⟩ := reflowLines_eq hw
      (min (g.storageIndexOfCursor g.storage.logical.length) (g.storage.logical.length - 1))
      g.cursor.col (groupLines g.storage.logical) 0 []
      { out := [], row := default, nextId := first.id, col := 0, cursorTarget := none }
    rw [h] at hout hnext hmap ⊢
    generalize reflowLines newCols _ g.cursor.col (groupLines (first :: rest)) 0 [] _ = p
      at hout hnext hmap ⊢
    obtain ⟨map, b⟩ := p
    have hL : rewrapFrom newCols (groupLines (first :: rest)) first.id = g.rewrap newCols := by
      rw [rewrap, hfirst, show g.lines = first :: rest from h]
    dsimp only at hout hnext hmap ⊢
    rw [hL] at hout hnext hmap
    rw [List.nil_append] at hout hmap
    have hall : b.out ++ (List.range' b.nextId (g.rows - b.out.length)).map
        (Storage.blankRow newCols t) = g.refilled newCols t := by
      rw [refilled, hfirst, hnext, hout]
      rfl
    have hexcess : (g.refilled newCols t).length - g.rows - g.scrollbackLimit =
        g.excess newCols := by
      rw [hlength]
      rfl
    rw [hall, hexcess]
    refine ⟨?_, ?_, ?_⟩
    · show (g.storage.setNextId _ |>.replaceAll _).logical = _
      rw [Storage.logical_replaceAll]
    · have hmap' : map = g.relined newCols := hmap
      cases hrest : (g.refilled newCols t).drop (g.excess newCols) with
      | nil =>
        have := congrArg List.length hrest
        rw [List.length_drop, hlength, List.length_nil] at this
        have := hs.rows_pos
        omega
      | cons oldest rows =>
        have hoff : oldest.id = (g.lines.headD default).id + g.excess newCols := by
          have := congrArg (List.map Row.id) hrest
          rw [List.map_drop, hids, List.drop_range', List.map_cons, Nat.mul_one] at this
          have hpos : 0 < max (g.rewrapped newCols).length g.rows - g.excess newCols := by
            have := hs.rows_pos
            unfold excess
            omega
          obtain ⟨n, hn⟩ := Nat.exists_eq_succ_of_ne_zero hpos.ne'
          rw [hn, List.range'_succ] at this
          exact (List.cons.inj this).1.symm
        simp only [List.head?_cons, hoff, hmap']
    · show max g.storage.nextId (b.nextId + (g.rows - b.out.length)) = _
      rw [hnext, hout, hfirst]
      congr 1
      refine (Nat.add_assoc _ _ _).trans (congrArg (first.id + ·) ?_)
      show (g.rewrapped newCols).length + (g.rows - (g.rewrapped newCols).length) = _
      omega

/-- What a rewrap that fits makes of a grid: the rows of its lines, blank
ones down to the bottom of the screen, and a map of every row it had. -/
theorem reflow_eq (hs : g.Shape) (hw : 0 < newCols) (t : Cell) (hfit : g.Fits newCols) :
    (g.reflow newCols t).1.lines = g.rewrapped newCols ++
        (List.range' ((g.lines.headD default).id + (g.rewrapped newCols).length)
          (g.rows - (g.rewrapped newCols).length)).map (Storage.blankRow newCols t) ∧
      (g.reflow newCols t).2.map =
        (g.rewrap newCols).flatMap fun q => q.1.map fun r => (r.id, (q.2.headD default).id) := by
  obtain ⟨hlines, hmap, _⟩ := reflow_cut hs hw t
  rw [excess_of_fits hfit] at hlines hmap
  refine ⟨hlines, hmap.trans (List.filter_eq_self.mpr fun p hp => ?_)⟩
  exact decide_eq_true (le_relined hp)

/-- A width change on a grid with scrollback is a rewrap. -/
theorem resizeWidth_eq (hs : g.Shape) (hw : 0 < newCols) (hne : newCols ≠ g.cols)
    (hl : 0 < g.scrollbackLimit) (hfit : g.Fits newCols) (t : Cell) :
    (g.resizeWidth newCols t).1.lines = g.rewrapped newCols ++
        (List.range' ((g.lines.headD default).id + (g.rewrapped newCols).length)
          (g.rows - (g.rewrapped newCols).length)).map (Storage.blankRow newCols t) ∧
      (g.resizeWidth newCols t).2.map =
        (g.rewrap newCols).flatMap fun q => q.1.map fun r => (r.id, (q.2.headD default).id) := by
  have hs' : ({ g with settledPull := 0 } : Grid).Shape := ⟨hs.1, hs.2, hs.3, hs.4⟩
  have hreflow := reflow_eq hs' hw t hfit
  unfold resizeWidth
  rw [if_neg hne]
  dsimp only
  rw [if_neg (by omega : ¬ g.scrollbackLimit = 0)]
  exact hreflow

/-- The line map of a width change that fits. -/
theorem map_resize (hs : g.Shape) (hne : max newCols 1 ≠ g.cols) (hl : 0 < g.scrollbackLimit)
    (hfit : g.Fits (max newCols 1)) (newRows : Nat) (t : Cell) :
    (g.resize newCols newRows t).2.map = (g.rewrap (max newCols 1)).flatMap fun q =>
      q.1.map fun r => (r.id, (q.2.headD default).id) := by
  have hs' : ({ g with restating := false, sittingOut := true } : Grid).Shape :=
    ⟨hs.1, hs.2, hs.3, hs.4⟩
  unfold resize
  dsimp only
  rw [if_neg fun h => hne h.1]
  split
  · exact (resizeWidth_eq hs' (by omega) hne hl hfit t).2
  · exact (resizeWidth_eq hs (by omega) hne hl hfit t).2

/-- A grid without scrollback is never rewrapped. -/
theorem map_resize_unwrapped (hl : g.scrollbackLimit = 0) (newCols newRows : Nat) (t : Cell) :
    (g.resize newCols newRows t).2 = {} := by
  have hwidth (g : Grid) (hl : g.scrollbackLimit = 0) (cols : Nat) :
      (g.resizeWidth cols t).2 = {} := by
    unfold resizeWidth
    split
    · rfl
    · dsimp only
      rw [if_pos hl]
  unfold resize
  dsimp only
  split
  · rfl
  · split
    · exact hwidth { g with restating := false, sittingOut := true } hl _
    · exact hwidth g hl _

/-- A width change that fits, at the same height. -/
theorem lines_resize (hs : g.Shape) (hne : max newCols 1 ≠ g.cols) (hl : 0 < g.scrollbackLimit)
    (hfit : g.Fits (max newCols 1)) (t : Cell) :
    (g.resize newCols g.rows t).1.lines = g.rewrapped (max newCols 1) ++
      (List.range' ((g.lines.headD default).id + (g.rewrapped (max newCols 1)).length)
        (g.rows - (g.rewrapped (max newCols 1)).length)).map
          (Storage.blankRow (max newCols 1) t) := by
  have hrows : max g.rows 1 = g.rows := by have := hs.rows_pos; omega
  have hs' : ({ g with restating := false, sittingOut := true } : Grid).Shape :=
    ⟨hs.1, hs.2, hs.3, hs.4⟩
  -- At the same height the second half is idle.
  have hheight {g₁ : Grid} (hr : g₁.rows = g.rows) :
      (g₁.resizeHeight (max newCols 1) g.rows t).lines = g₁.lines := by
    unfold resizeHeight
    rw [if_pos hr.symm]
  unfold resize
  dsimp only
  rw [if_neg fun h => hne h.1, hrows]
  split
  · exact (hheight (resizeWidth_keeps _ (max newCols 1) t hs').2.1).trans
      (resizeWidth_eq hs' (by omega) hne hl hfit t).1
  · exact (hheight (resizeWidth_keeps g (max newCols 1) t hs).2.1).trans
      (resizeWidth_eq hs (by omega) hne hl hfit t).1

end Grid

end Zesterm
