/-
Zesterm.Core.BoundsTheorems — the shape of a grid, over every run of its
operations.

`Grid.Op` is every way a grid can be changed from outside its module: its
public methods, the edits made through `row_mut` and the direct writes to
its cursor and its region. `Op.InRange` is what a terminal may pass. A run
of such operations keeps the ring, the cursor, the region and the reader's
place inside each other, `Grid.Bounded`, with one thing to be said about
the order: the rows of a provisional settle are still counted against the
scrollback limit, so a page of history or a displaced viewport may not be
filed until the settle is final. `Op.Apart` says so. It is the rule of the
replica's door: a terminal that is written through it is never fed bytes,
and so never settles.
-/
import Zesterm.Core.HistoryTheorems
import Zesterm.Core.TerminalTheorems
import Zesterm.Core.AsciiVt

namespace Zesterm

namespace Grid

/-! ## Operations -/

/-- One change to a grid. -/
inductive Op where
  | scrollUp (n : Nat) (template : Cell)
  | scrollDown (n : Nat) (template : Cell)
  | scrollDisplay (delta : Int)
  | scrollToBottom
  | scrollToLine (line : LineId)
  | resize (cols rows : Nat) (template : Cell)
  | pushHistory (rows : List (LineId × List Cell × Bool))
  | dropScrollbackRows (named : List LineId)
  | clearHistory
  | bankViewportTop (n : Nat) (template : Cell)
  | setViewportRestatedElsewhere (yes : Bool)
  | noteRestatementBegan (cols rows : Nat) (template : Cell)
  | noteCursorHomedWhileHidden (template : Cell)
  | endRestatementWindow
  | settleRestate
  | strandSettled (template : Cell)
  | cancelRestateDebt
  | setNextLineId (id : LineId)
  | setCaptureEvicted (on : Bool)
  | takeEvicted
  | eraseInRow (row start stop : Nat) (template : Cell)
  | eraseRows (first last : Nat) (template : Cell)
  | insertCells (n : Nat) (template : Cell)
  | deleteCells (n : Nat) (template : Cell)
  | insertLines (n : Nat) (template : Cell)
  | deleteLines (n : Nat) (template : Cell)
  | clearAll (template : Cell)
  | setWrapped (row : Nat) (wrapped : Bool)
  | modifyRow (row : Nat) (f : Row → Row)
  | setCursor (cursor : Cursor)
  | setRegion (region : ScrollRegion)

def apply (g : Grid) : Op → Grid
  | .scrollUp n t => g.scrollUp n t
  | .scrollDown n t => g.scrollDown n t
  | .scrollDisplay delta => g.scrollDisplay delta
  | .scrollToBottom => g.scrollToBottom
  | .scrollToLine line => (g.scrollToLine line).1
  | .resize cols rows t => (g.resize cols rows t).1
  | .pushHistory rows => g.pushHistory rows
  | .dropScrollbackRows named => (g.dropScrollbackRows named).1
  | .clearHistory => g.clearHistory
  | .bankViewportTop n t => g.bankViewportTop n t
  | .setViewportRestatedElsewhere yes => g.setViewportRestatedElsewhere yes
  | .noteRestatementBegan cols rows t => g.noteRestatementBegan cols rows t
  | .noteCursorHomedWhileHidden t => g.noteCursorHomedWhileHidden t
  | .endRestatementWindow => g.endRestatementWindow
  | .settleRestate => g.settleRestate.1
  | .strandSettled t => (g.strandSettled t).1
  | .cancelRestateDebt => g.cancelRestateDebt
  | .setNextLineId id => g.setNextLineId id
  | .setCaptureEvicted on => g.setCaptureEvicted on
  | .takeEvicted => g.takeEvicted.1
  | .eraseInRow row start stop t => g.eraseInRow row start stop t
  | .eraseRows first last t => g.eraseRows first last t
  | .insertCells n t => g.insertCells n t
  | .deleteCells n t => g.deleteCells n t
  | .insertLines n t => g.insertLines n t
  | .deleteLines n t => g.deleteLines n t
  | .clearAll t => g.clearAll t
  | .setWrapped row wrapped => g.setWrapped row wrapped
  | .modifyRow row f => g.modifyRow row f
  | .setCursor cursor => { g with cursor := cursor }
  | .setRegion region => { g with region := region }

/-- What a terminal may pass: rows, a cursor and a region of the viewport,
and edits of a row that leave its width alone. -/
def Op.InRange (g : Grid) : Op → Prop
  | .eraseInRow row _ _ _ => row < g.rows
  | .setWrapped row _ => row < g.rows
  | .modifyRow row f => row < g.rows ∧ ∀ r, (f r).cells.length = r.cells.length
  | .setCursor cursor => cursor.row < g.rows ∧ cursor.col < g.cols
  | .setRegion region => region.top ≤ region.bottom ∧ region.bottom < g.rows
  | _ => True

/-- History is filed from outside only while no settle is provisional. -/
def Op.Apart (g : Grid) : Op → Prop
  | .pushHistory _ => g.settledPull = 0
  | .bankViewportTop _ _ => g.settledPull = 0
  | _ => True

/-- A run of operations, each meeting a condition on the grid it is applied
to. -/
inductive Run (P : Grid → Op → Prop) (g : Grid) : Grid → Prop where
  | refl : Run P g g
  | op {g' : Grid} (o : Op) (ho : P g' o) : Run P g g' → Run P g (g'.apply o)

/-! ## What a run keeps -/

/-- Nothing of a grid is out of range. -/
structure Bounded (g : Grid) : Prop where
  len : g.storage.len = g.rows + g.scrollbackLen
  width : ∀ r ∈ g.lines, r.cells.length = g.cols
  limit : g.scrollbackLen ≤ g.scrollbackLimit
  offset : g.displayOffset ≤ g.scrollbackLen
  cursor : g.cursor.row < g.rows ∧ g.cursor.col < g.cols
  region : g.region.top ≤ g.region.bottom ∧ g.region.bottom < g.rows
  active : ∀ row < g.rows, g.activeAbsIndex row < g.storage.len
  visible : ∀ row < g.rows, g.absIndex row < g.storage.len

theorem bounded_of_within {g : Grid} (hs : g.Shape) (hw : g.Within) : g.Bounded := by
  have hlen := hs.len
  exact
    { len := hlen.trans (Nat.add_comm _ _)
      width := hs.width
      limit := (Nat.le_add_right _ _).trans hw.limit
      offset := hw.offset
      cursor := ⟨hw.row, hw.col⟩
      region := ⟨hw.ordered, hw.bottom⟩
      active := fun row hrow => by
        show g.storage.len - g.rows + row < g.storage.len
        omega
      visible := fun row hrow => by
        show g.storage.len - (g.rows + g.displayOffset) + row < g.storage.len
        omega }

/-- The invariant of a run: shape, bounds and a limit that never changes. -/
structure Kept (limit : Nat) (g : Grid) : Prop where
  shape : g.Shape
  within : g.Within
  limit : g.scrollbackLimit = limit

namespace Kept

variable {limit : Nat} {g g' : Grid}

theorem of_evolves (h : g.Kept limit) (he : g.Evolves g') : g'.Kept limit :=
  ⟨he.shape h.shape, he.within h.shape h.within, he.limit.trans h.limit⟩

/-- The same ring; the rest is within it. -/
theorem of_frame (h : g.Kept limit) (hs : g'.storage = g.storage) (hc : g'.cols = g.cols)
    (hr : g'.rows = g.rows) (hl : g'.scrollbackLimit = g.scrollbackLimit)
    (hb : g'.scrollbackLen = g.scrollbackLen) (hw : g'.Within) : g'.Kept limit := by
  refine ⟨⟨hr ▸ h.shape.rows_pos, hc ▸ h.shape.cols_pos, ?_, ?_⟩, hw, hl.trans h.limit⟩
  · rw [hs, hb, hr]
    exact h.shape.len
  · simp only [lines, hs, hc]
    exact h.shape.width

theorem resize (h : g.Kept limit) (cols rows : Nat) (t : Cell) :
    (g.resize cols rows t).1.Kept limit :=
  have hr := resized_resize g cols rows t h.shape
  ⟨hr.shape, hr.within h.within, hr.limit.trans h.limit⟩

theorem clearHistory (h : g.Kept limit) : g.clearHistory.Kept limit := by
  refine ⟨shape_clearHistory g h.shape, within_clearHistory h.within, ?_⟩
  rw [← h.limit]
  unfold Grid.clearHistory
  dsimp only
  split <;> rfl

/-- A page of history is cut to the room the limit leaves. -/
theorem pushHistory (h : g.Kept limit) (rows : List (LineId × List Cell × Bool))
    (hp : g.settledPull = 0) : (g.pushHistory rows).Kept limit := by
  have hs := shape_pushHistory h.shape rows
  obtain ⟨s, n, heq, hn, -⟩ := g.pushHistory_spec rows
  have hlimit := h.within.limit
  have hoffset := h.within.offset
  rw [heq] at hs ⊢
  refine ⟨hs, { h.within with limit := ?_, offset := ?_ }, h.limit⟩
  · show g.scrollbackLen + n + g.settledPull ≤ g.scrollbackLimit
    omega
  · show g.displayOffset ≤ g.scrollbackLen + n
    omega

theorem dropScrollbackRows (h : g.Kept limit) (named : List LineId) :
    (g.dropScrollbackRows named).1.Kept limit :=
  h.of_evolves (evolves_dropScrollbackRows h.shape h.within.offset named)

/-- An edit of one row that keeps its width; its id may change. -/
theorem modifyRow (h : g.Kept limit) (row : Nat) (f : Row → Row)
    (hf : ∀ r, (f r).cells.length = r.cells.length) : (g.modifyRow row f).Kept limit := by
  refine ⟨⟨h.shape.rows_pos, h.shape.cols_pos, ?_, fun r hr => ?_⟩, { h.within with }, h.limit⟩
  · exact (Storage.len_modifyRow _ _ _).trans h.shape.len
  · simp only [lines, Grid.modifyRow, Storage.logical_modifyRow] at hr
    rcases Storage.mem_modify _ r _ _ hr with hr | ⟨a, ha, rfl⟩
    · exact h.shape.width r hr
    · exact (hf a).trans (h.shape.width a ha)

/-- One operation keeps the invariant. -/
theorem apply (h : g.Kept limit) (o : Op) (hin : o.InRange g) (hap : o.Apart g) :
    (g.apply o).Kept limit := by
  have hw := h.within
  cases o with
  | scrollUp n t => exact h.of_evolves (evolves_scrollUp g n t)
  | scrollDown n t => exact h.of_evolves (evolves_scrollDown g n t)
  | scrollDisplay delta => exact h.of_evolves (evolves_scrollDisplay g delta)
  | scrollToBottom => exact h.of_evolves (evolves_displayOffset g 0 fun _ => Nat.zero_le _)
  | scrollToLine line =>
    show (g.scrollToLine line).1.Kept limit
    unfold scrollToLine
    split
    · exact h
    · exact h.of_evolves (evolves_displayOffset g _ fun _ => Nat.min_le_right _ _)
  | resize cols rows t => exact h.resize cols rows t
  | pushHistory rows => exact h.pushHistory rows hap
  | dropScrollbackRows named => exact h.dropScrollbackRows named
  | clearHistory => exact h.clearHistory
  | bankViewportTop n t => exact h.of_evolves (evolves_bankViewportTop g n t hap)
  | setViewportRestatedElsewhere | setCaptureEvicted | takeEvicted =>
    exact h.of_frame rfl rfl rfl rfl rfl { hw with }
  | noteRestatementBegan cols rows t => exact h.of_evolves (evolves_noteRestatementBegan g cols rows t)
  | noteCursorHomedWhileHidden t => exact h.of_evolves (evolves_noteCursorHomedWhileHidden g t)
  | endRestatementWindow => exact h.of_evolves (evolves_endRestatementWindow g)
  | settleRestate => exact h.of_evolves (evolves_settleRestate g)
  | strandSettled t => exact h.of_evolves (evolves_strandSettled g t)
  | cancelRestateDebt => exact h.of_evolves (evolves_cancelRestateDebt g)
  | setNextLineId id => exact ⟨⟨h.shape.1, h.shape.2, h.shape.3, h.shape.4⟩, { hw with }, h.limit⟩
  | eraseInRow row start stop t => exact h.of_evolves (evolves_eraseInRow g row start stop t)
  | eraseRows first last t => exact h.of_evolves (evolves_eraseRows g first last t)
  | insertCells n t => exact h.of_evolves (evolves_insertCells g n t)
  | deleteCells n t => exact h.of_evolves (evolves_deleteCells g n t)
  | insertLines n t => exact h.of_evolves (evolves_insertLines g n t)
  | deleteLines n t => exact h.of_evolves (evolves_deleteLines g n t)
  | clearAll t => exact h.of_evolves (evolves_clearAll g t)
  | setWrapped row wrapped => exact h.of_evolves (evolves_setWrapped g row wrapped)
  | modifyRow row f => exact h.modifyRow row f hin.2
  | setCursor cursor => exact h.of_frame rfl rfl rfl rfl rfl { hw with row := hin.1, col := hin.2 }
  | setRegion region =>
    exact h.of_frame rfl rfl rfl rfl rfl { hw with ordered := hin.1, bottom := hin.2 }

theorem run (h : g.Kept limit) (hr : Run (fun g o => o.InRange g ∧ o.Apart g) g g') :
    g'.Kept limit := by
  induction hr with
  | refl => exact h
  | op o ho _ ih => exact ih.apply o ho.1 ho.2

end Kept

/-! ## Every run -/

/-- Over every run of operations, and for both screens of every terminal,
nothing of a grid is out of range. -/
theorem bounded_run :
    (∀ (cols rows limit : Nat) (g : Grid),
      Run (fun g o => o.InRange g ∧ o.Apart g) (Grid.new cols rows limit) g →
        g.Bounded ∧ g.scrollbackLimit = limit) ∧
    (∀ (vt : Vt) (t : Terminal vt), t.Reachable →
      t.state.grid.Bounded ∧ ∀ g, t.state.altGrid = some g → g.Bounded) := by
  constructor
  · intro cols rows limit g hr
    have hnew : (Grid.new cols rows limit).Kept limit :=
      ⟨shape_new cols rows limit, within_new cols rows limit, rfl⟩
    have h := hnew.run hr
    exact ⟨bounded_of_within h.shape h.within, h.limit⟩
  · intro vt t ht
    obtain ⟨cols, rows, hs⟩ := ht.sound
    exact ⟨bounded_of_within hs.primary.shape hs.primary.within, fun g hg =>
      bounded_of_within (hs.alt g hg).shape (hs.alt g hg).within⟩

/-- A shrink that owes two rows, the grow that claims them and the repaint
that answers it. -/
def settleOps : List Op :=
  let t := Cell.blank
  [.setViewportRestatedElsewhere true, .setCursor { row := 3 }, .resize 4 2 t, .resize 4 4 t,
    .noteRestatementBegan 4 4 t, .eraseRows 0 3 t, .settleRestate]

/-- Every operation of a list in turn. -/
def runOps (g : Grid) (ops : List Op) : Grid := ops.foldl Grid.apply g

/-- The conditions of a list of operations, each on the grid it meets. -/
def OpsMeet (P : Grid → Op → Prop) (g : Grid) : List Op → Prop
  | [] => True
  | o :: ops => P g o ∧ OpsMeet P (g.apply o) ops

theorem Run.of_ops {P : Grid → Op → Prop} {g₀ : Grid} :
    ∀ (ops : List Op) {g : Grid}, Run P g₀ g → OpsMeet P g ops → Run P g₀ (g.runOps ops)
  | [], _, h, _ => h
  | o :: ops, _, h, hops => Run.of_ops ops (h.op o hops.1) hops.2

/-- The settle is made final, and a page of history is filed. -/
def historyAfterSettle : List Op :=
  settleOps ++ [.strandSettled Cell.blank, .pushHistory [(0, [], false)]]

/-- Two rows of history are filed, and then the settle is made final. -/
def historyDuringSettle : List Op :=
  settleOps ++ [.pushHistory [(0, [], false), (1, [], false)], .strandSettled Cell.blank]

theorem bounded_run_settled :
    (((Grid.new 4 4 2).runOps historyAfterSettle).Bounded ∧
      ((Grid.new 4 4 2).runOps historyAfterSettle).scrollbackLimit = 2) ∧
    (Terminal.new asciiVt 3 2 1).state.grid.Bounded := by
  have hcursor : 3 < 4 ∧ 0 < 4 := by decide
  have hstranded : ((Grid.new 4 4 2).runOps
      (settleOps ++ [.strandSettled Cell.blank])).settledPull = 0 := by decide
  have hmeet : OpsMeet (fun g o => o.InRange g ∧ o.Apart g) (Grid.new 4 4 2) historyAfterSettle :=
    ⟨⟨trivial, trivial⟩, ⟨hcursor, trivial⟩, ⟨trivial, trivial⟩, ⟨trivial, trivial⟩,
      ⟨trivial, trivial⟩, ⟨trivial, trivial⟩, ⟨trivial, trivial⟩, ⟨trivial, trivial⟩,
      ⟨trivial, hstranded⟩, trivial⟩
  exact ⟨bounded_run.1 4 4 2 _ (Run.refl.of_ops _ hmeet),
    (bounded_run.2 _ (Terminal.new asciiVt 3 2 1) (Terminal.Reachable.new 3 2 1)).1⟩

/-- A page of history filed while the settle is provisional puts the grid
past its limit once the settle's rows come back. -/
theorem settle_then_history_over_limit :
    ¬ ∀ (cols rows limit : Nat) (g : Grid),
      Run (fun g o => o.InRange g) (Grid.new cols rows limit) g → g.Bounded := by
  intro h
  have hcursor : 3 < 4 ∧ 0 < 4 := by decide
  have hmeet : OpsMeet (fun g o => o.InRange g) (Grid.new 4 4 2) historyDuringSettle :=
    ⟨trivial, hcursor, trivial, trivial, trivial, trivial, trivial, trivial, trivial, trivial⟩
  have hbounded := h 4 4 2 _ (Run.refl.of_ops _ hmeet)
  exact absurd hbounded.limit (by decide)

end Grid

end Zesterm
