/-
Zesterm.Proto.KeyframeTheorems — what applying a message leaves of a replica.

Whatever a client is sent, both screens of its replica stay in shape and of
one size (`replica_after`). A keyframe first brings the replica to its own
size and screen and settles what becomes of the rows there (`prepared`),
then paints its rows over the live screen and restates the rest
(`applyKeyframe_spec`).
-/
import Zesterm.Proto.PaintTheorems
import Zesterm.Proto.Mirror

namespace Zesterm

/-! ## Modes and cursor -/

namespace RemoteWriter

variable (s : TermState)

/-- The screen asked for is the one that is on. -/
theorem setModes_same {modes : Modes}
    (h : modes.contains .altScreen = s.modes.contains .altScreen) :
    setModes s modes = { s with modes := modes }.touch := by
  unfold setModes
  dsimp only
  rw [if_neg (not_not.mpr h)]

end RemoteWriter

namespace Applier

/-- The edit that puts the cursor on a cell. -/
def cursorEdit (c : CursorState) (g : Grid) : Grid :=
  { g with cursor :=
      { g.cursor with row := min c.row (g.rows - 1), col := min c.col (g.cols - 1) } }

theorem applyCursor_eq (s : TermState) (c : CursorState) :
    ∃ n d, applyCursor s c = { s.modifyGrid (cursorEdit c) with
      modes := s.modes.set .showCursor c.visible
      cursorStyle := CursorStyle.fromDecscusr c.shape
      seq := n
      damage := d } := by
  have hmodes : (RemoteWriter.setCursor s c.row c.col).modes = s.modes :=
    (RemoteWriter.edited_setCursor s c.row c.col).frame.1
  unfold applyCursor
  dsimp only
  rw [hmodes, RemoteWriter.setModes_same _ (by rw [hmodes]; exact TermState.contains_altScreen_set _ _ _ (by decide))]
  exact ⟨_, _, rfl⟩

/-! ## Both screens stay in shape -/

section Replica

variable {cols rows : Nat} {s : TermState}

theorem held_paintAll {g : Grid} (hg : g.Held cols rows) (attrs : AttrTable)
    (payloads : List RowPayload) : (paintAll attrs payloads g).Held cols rows := by
  have hfold (l : List (RowPayload × Nat)) {g : Grid} (hg : g.Held cols rows) :
      (l.foldl (fun g p => RemoteWriter.rowEdit p.2 (paint attrs p.1) g) g).Held cols rows := by
    induction l generalizing g with
    | nil => exact hg
    | cons p l ih => exact ih (hg.rowEdit p.2 _ (length_paint attrs p.1)).1
  exact hfold payloads.zipIdx hg

theorem replica_writeRow (a : Applier) (h : s.Replica cols rows) (row : Nat) (p : RowPayload) :
    (a.writeRow s row p).1.Replica cols rows :=
  h.edited (edited_writeRow a s row p) (h.active.rowEdit row _ (length_paint a.attrs p)).1

theorem replica_writeRows (a : Applier) (h : s.Replica cols rows) (payloads : List RowPayload) :
    (a.writeRows payloads s).Replica cols rows :=
  h.edited (edited_writeRows a payloads s) (held_paintAll h.active a.attrs payloads)

theorem replica_syncLines (h : s.Replica cols rows) (line : Int) :
    (syncLines s line).Replica cols rows := by
  unfold syncLines
  split
  · exact RemoteWriter.replica_syncNextLineId h _
  · exact h

theorem replica_applyCursor (h : s.Replica cols rows) (c : CursorState) :
    (applyCursor s c).Replica cols rows :=
  RemoteWriter.replica_setCursorStyle
    (RemoteWriter.replica_setModes (RemoteWriter.replica_setCursor h c.row c.col) _) _

theorem replica_rebank (h : s.Replica cols rows) (named : List LineId) (cleared : Bool) :
    (rebank s named cleared).Replica cols rows := by
  unfold rebank
  split
  · exact h
  · next first _ =>
    dsimp only
    generalize (if cleared then 0 else displaced s.activeGrid first) = n
    split
    · exact RemoteWriter.replica_bankDisplaced h _
    · exact RemoteWriter.replica_dropHistory h _

theorem replica_upserts (bs : List BlockPayload) (h : s.Replica cols rows) :
    (bs.foldl (fun s b => RemoteWriter.upsertBlock s b.toBlock) s).Replica cols rows := by
  induction bs generalizing s with
  | nil => exact h
  | cons b bs ih => exact ih (RemoteWriter.replica_upsertBlock h b.toBlock)

theorem replica_applyOp (a : Applier) (scrolled : Bool) {p : Progress}
    (h : p.term.Replica cols rows) (op : DeltaOp) :
    (a.applyOp scrolled p op).term.Replica cols rows := by
  cases op with
  | scroll top bottom lines => exact RemoteWriter.replica_scroll h top bottom lines
  | row row payload =>
    simp only [applyOp]
    split
    · exact h
    · exact replica_writeRow a h row payload
  | erase top left bottom right attr =>
    simp only [applyOp]
    split
    · exact h
    · exact RemoteWriter.replica_erase h top left bottom right _
  | cursor cursor => exact replica_applyCursor h cursor
  | sbPush payload =>
    simp only [applyOp]
    split
    · exact h
    · exact (RemoteWriter.replica_prependHistory h [(lineId payload.line, fill a.attrs payload,
        payload.wrapped)] : _)
  | altScreen active => exact h.setAltScreen active
  | modes bits => exact RemoteWriter.replica_setModes h _
  | title title => exact RemoteWriter.replica_setTitle h title

theorem replica_applyDelta (a : Applier) (h : s.Replica cols rows) (d : Delta) (base seq : Nat) :
    (a.applyDelta s d base seq).1.2.Replica cols rows := by
  have hops (a : Applier) (scrolled : Bool) (ops : List DeltaOp) {p : Progress}
      (hp : p.term.Replica cols rows) :
      (ops.foldl (a.applyOp scrolled) p).term.Replica cols rows := by
    induction ops generalizing p with
    | nil => exact hp
    | cons op ops ih => exact ih (replica_applyOp a scrolled hp op)
  unfold applyDelta
  split
  · exact h
  · exact RemoteWriter.replica_setSeq
      (replica_upserts d.blocks (replica_syncLines (hops _ _ d.ops h) _)) seq

end Replica

/-! ## A keyframe in steps -/

/-- The lines a keyframe names. -/
def namedLines (rows : List RowPayload) : List LineId :=
  ((rows.map RowPayload.line).filter fun l => decide (0 ≤ l)).map lineId

/-- Whether a keyframe announces a destruction this client has not honoured. -/
def announces (a : Applier) (k : Keyframe) : Bool := decide (k.historyClears > a.historyClears)

/-- The replica at the keyframe's size and on its screen. -/
def fitted (s : TermState) (k : Keyframe) : TermState :=
  RemoteWriter.setModes
    (if s.activeGrid.cols ≠ k.cols ∨ s.activeGrid.rows ≠ k.rows then
      RemoteWriter.resize s k.cols k.rows else s) k.modes

/-- The replica that a keyframe's rows are written to: fitted, and its history
cleared, banked or taken back. -/
def prepared (a : Applier) (s : TermState) (k : Keyframe) : TermState :=
  rebank (if a.announces k then RemoteWriter.clearHistory (fitted s k) else fitted s k)
    (namedLines k.rowsData) (a.announces k)

/-- What follows the rows. -/
def restated (s : TermState) (k : Keyframe) (seq : Nat) : TermState :=
  let s := applyCursor (syncLines s (maxLine k.rowsData)) k.cursor
  let s := k.blocks.foldl (fun s b => RemoteWriter.upsertBlock s b.toBlock)
    (RemoteWriter.dropBlocksFrom s k.blocksFrom)
  let s := if k.title.isEmpty then s else RemoteWriter.setTitle s k.title
  RemoteWriter.setSeq (RemoteWriter.markFull s) seq

theorem applyKeyframe_eq (a : Applier) (s : TermState) (k : Keyframe) (seq : Nat) :
    (a.applyKeyframe s k seq).2 =
      restated ((a.absorbAttrs k.attrs).writeRows k.rowsData (prepared a s k)) k seq := by
  unfold applyKeyframe prepared announces
  dsimp only
  by_cases h : k.historyClears > a.historyClears
  · simp only [h, decide_true, if_true]
    rfl
  · simp only [h, decide_false, Bool.false_eq_true, if_false]
    rfl

variable {cols rows : Nat} {s : TermState}
variable (a : Applier)

theorem replica_fitted (h : s.Replica cols rows) (k : Keyframe) :
    (fitted s k).Replica (max k.cols 1) (max k.rows 1) := by
  refine RemoteWriter.replica_setModes ?_ k.modes
  split
  · exact RemoteWriter.replica_resize h k.cols k.rows
  · next hsize =>
    have hc := h.active.cols
    have hr := h.active.rows
    have := h.active.shape.cols_pos
    have := h.active.shape.rows_pos
    have hcols : max k.cols 1 = cols := by omega
    have hrows : max k.rows 1 = rows := by omega
    rw [hcols, hrows]
    exact h

theorem replica_prepared (h : s.Replica cols rows) (k : Keyframe) :
    (prepared a s k).Replica (max k.cols 1) (max k.rows 1) := by
  refine replica_rebank ?_ _ _
  split
  · exact RemoteWriter.replica_clearHistory (replica_fitted h k)
  · exact replica_fitted h k

theorem replica_applyKeyframe (h : s.Replica cols rows) (k : Keyframe) (seq : Nat) :
    (a.applyKeyframe s k seq).2.Replica (max k.cols 1) (max k.rows 1) := by
  have hpainted := replica_writeRows (a.absorbAttrs k.attrs) (replica_prepared a h k) k.rowsData
  have hcursor := replica_applyCursor (replica_syncLines hpainted (maxLine k.rowsData)) k.cursor
  have hblocks := replica_upserts k.blocks (RemoteWriter.replica_dropBlocksFrom hcursor k.blocksFrom)
  rw [applyKeyframe_eq]
  refine RemoteWriter.replica_setSeq (RemoteWriter.replica_markFull ?_) seq
  split
  · exact hblocks
  · exact RemoteWriter.replica_setTitle hblocks k.title

/-! ## What a keyframe leaves -/

/-- The edit a keyframe makes of the grid it finds prepared. -/
def keyframeEdit (attrs : AttrTable) (k : Keyframe) (g : Grid) : Grid :=
  let g := paintAll attrs k.rowsData g
  let line := maxLine k.rowsData
  cursorEdit k.cursor
    (if line > unseenLine then g.setNextLineId (lineId (min (line + 1) i64Max)) else g)

theorem edited_syncLines (s : TermState) (line : Int) :
    s.Edited (fun g =>
      if line > unseenLine then g.setNextLineId (lineId (min (line + 1) i64Max)) else g)
      (syncLines s line) := by
  unfold syncLines
  split
  · exact RemoteWriter.edited_syncNextLineId s _
  · exact TermState.Edited.refl s

theorem screens_dropBlocksFrom (s : TermState) (floor : BlockId) :
    (RemoteWriter.dropBlocksFrom s floor).grid = s.grid ∧
      (RemoteWriter.dropBlocksFrom s floor).altGrid = s.altGrid ∧
      (RemoteWriter.dropBlocksFrom s floor).modes = s.modes ∧
      (RemoteWriter.dropBlocksFrom s floor).title = s.title := ⟨rfl, rfl, rfl, rfl⟩

/-- The replica a keyframe leaves is the prepared one with its live grid
edited and its modes, cursor style, title and blocks replaced. -/
theorem applyKeyframe_spec (s : TermState) (k : Keyframe) (seq : Nat) :
    ∃ t, (prepared a s k).Edited (keyframeEdit (a.attrs.absorb k.attrs) k) t ∧
      (a.applyKeyframe s k seq).2.grid = t.grid ∧ (a.applyKeyframe s k seq).2.altGrid = t.altGrid ∧
      (a.applyKeyframe s k seq).2.modes = (prepared a s k).modes.set .showCursor k.cursor.visible ∧
      (a.applyKeyframe s k seq).2.title =
        if k.title.isEmpty then (prepared a s k).title else k.title := by
  have hrows := edited_writeRows (a.absorbAttrs k.attrs) k.rowsData (prepared a s k)
  have hlines := hrows.trans (edited_syncLines _ (maxLine k.rowsData))
  have hupserts (s : TermState) :
      (k.blocks.foldl (fun s b => RemoteWriter.upsertBlock s b.toBlock) s).grid = s.grid ∧
      (k.blocks.foldl (fun s b => RemoteWriter.upsertBlock s b.toBlock) s).altGrid = s.altGrid ∧
      (k.blocks.foldl (fun s b => RemoteWriter.upsertBlock s b.toBlock) s).modes = s.modes ∧
      (k.blocks.foldl (fun s b => RemoteWriter.upsertBlock s b.toBlock) s).title = s.title := by
    generalize k.blocks = bs
    induction bs generalizing s with
    | nil => exact ⟨rfl, rfl, rfl, rfl⟩
    | cons b bs ih => exact ih _
  rw [applyKeyframe_eq]
  unfold restated
  generalize syncLines _ (maxLine k.rowsData) = u at hlines
  obtain ⟨n, d, hcursor⟩ := applyCursor_eq u k.cursor
  refine ⟨_, hlines.trans (TermState.Edited.modifyGrid u (cursorEdit k.cursor)), ?_⟩
  obtain ⟨hmodes, htitle, -⟩ := hlines.frame
  obtain ⟨hg, ha, hm, ht⟩ :=
    hupserts (RemoteWriter.dropBlocksFrom (applyCursor u k.cursor) k.blocksFrom)
  dsimp only
  generalize k.blocks.foldl (fun s b => RemoteWriter.upsertBlock s b.toBlock)
    (RemoteWriter.dropBlocksFrom (applyCursor u k.cursor) k.blocksFrom) = x at hg ha hm ht
  have hx : (x.grid = (u.modifyGrid (cursorEdit k.cursor)).grid ∧
      x.altGrid = (u.modifyGrid (cursorEdit k.cursor)).altGrid) ∧
      x.modes = u.modes.set .showCursor k.cursor.visible ∧ x.title = u.title := by
    have hframe := (TermState.Edited.modifyGrid u (cursorEdit k.cursor)).frame
    obtain ⟨hg', ha', hm', ht'⟩ := screens_dropBlocksFrom (applyCursor u k.cursor) k.blocksFrom
    rw [hg, ha, hm, ht, hg', ha', hm', ht', hcursor]
    exact ⟨⟨rfl, rfl⟩, rfl, hframe.2.1⟩
  rw [← hmodes, ← htitle, ← hx.2.2, ← hx.2.1, ← hx.1.1, ← hx.1.2]
  split <;> exact ⟨rfl, rfl, rfl, rfl⟩

theorem edited_rebank (s : TermState) (named : List LineId) (cleared : Bool) :
    ∃ f, s.Edited f (rebank s named cleared) := by
  unfold rebank
  split
  · exact ⟨_, TermState.Edited.refl s⟩
  · next first _ =>
    dsimp only
    generalize (if cleared then 0 else displaced s.activeGrid first) = n
    split
    · exact ⟨_, RemoteWriter.edited_bankDisplaced s n⟩
    · exact ⟨_, RemoteWriter.edited_dropHistory s named⟩

theorem modes_prepared (s : TermState) (k : Keyframe) : (prepared a s k).modes = k.modes := by
  obtain ⟨f, hf⟩ := edited_rebank
    (if a.announces k then RemoteWriter.clearHistory (fitted s k) else fitted s k)
    (namedLines k.rowsData) (a.announces k)
  refine hf.frame.1.trans ?_
  split <;> rfl

theorem isSome_prepared {cols rows : Nat} {s : TermState} (h : s.Replica cols rows) (k : Keyframe) :
    (prepared a s k).altGrid.isSome = k.modes.contains .altScreen := by
  have hflag := (replica_prepared a h k).flag
  unfold TermState.AltFlag at hflag
  rw [← hflag, modes_prepared]

/-- The live grid a keyframe leaves. -/
structure Shows (k : Keyframe) (prep s : TermState) (attrs : AttrTable) : Prop where
  modes : s.modes = k.modes.set .showCursor k.cursor.visible
  alt : s.altGrid.isSome = k.modes.contains .altScreen
  cursorRow : s.activeGrid.cursor.row = min k.cursor.row (s.activeGrid.rows - 1)
  cursorCol : s.activeGrid.cursor.col = min k.cursor.col (s.activeGrid.cols - 1)
  history : s.activeGrid.history = prep.activeGrid.history
  screen : s.activeGrid.screen =
    List.zipWith (paint attrs) k.rowsData prep.activeGrid.screen ++
      prep.activeGrid.screen.drop k.rowsData.length

theorem shows_applyKeyframe {cols rows : Nat} {s : TermState} (h : s.Replica cols rows)
    (k : Keyframe) (hlen : k.rowsData.length ≤ max k.rows 1) (seq : Nat) :
    Shows k (prepared a s k) (a.applyKeyframe s k seq).2 (a.attrs.absorb k.attrs) := by
  obtain ⟨t, ht, hg, ha, hm, -⟩ := applyKeyframe_spec a s k seq
  have hactive : (a.applyKeyframe s k seq).2.activeGrid = t.activeGrid := by
    unfold TermState.activeGrid
    rw [hg, ha]
  have hprep := (replica_prepared a h k).active
  obtain ⟨-, hhistory, hscreen⟩ := split_paintAll hprep (a.attrs.absorb k.attrs) hlen
  rw [ht.active] at hactive
  have hgrid : ∀ g : Grid, (keyframeEdit (a.attrs.absorb k.attrs) k g).history =
      (paintAll (a.attrs.absorb k.attrs) k.rowsData g).history ∧
      (keyframeEdit (a.attrs.absorb k.attrs) k g).screen =
        (paintAll (a.attrs.absorb k.attrs) k.rowsData g).screen ∧
      (keyframeEdit (a.attrs.absorb k.attrs) k g).cursor.row =
        min k.cursor.row ((keyframeEdit (a.attrs.absorb k.attrs) k g).rows - 1) ∧
      (keyframeEdit (a.attrs.absorb k.attrs) k g).cursor.col =
        min k.cursor.col ((keyframeEdit (a.attrs.absorb k.attrs) k g).cols - 1) := by
    intro g
    unfold keyframeEdit
    dsimp only
    split <;> exact ⟨rfl, rfl, rfl, rfl⟩
  obtain ⟨hh, hs, hr, hc⟩ := hgrid (prepared a s k).activeGrid
  refine ⟨by rw [hm, modes_prepared], ?_, ?_, ?_, ?_, ?_⟩
  · rw [ha, ht.isSome_alt, isSome_prepared a h k]
  · rw [hactive]
    exact hr
  · rw [hactive]
    exact hc
  · rw [hactive, hh, hhistory]
  · rw [hactive, hs, hscreen]

end Applier

/-- A client sent anything at all has both screens in shape. -/
theorem Client.replica_after (messages : List Delivery) {cols rows : Nat} {c : Client}
    (h : c.replica.Replica cols rows) :
    ∃ cols rows, (c.after messages).replica.Replica cols rows := by
  induction messages generalizing c cols rows with
  | nil => exact ⟨cols, rows, h⟩
  | cons message messages ih =>
    cases message with
    | keyframe k seq => exact ih (Applier.replica_applyKeyframe c.applier h k seq)
    | delta d base seq => exact ih (Applier.replica_applyDelta c.applier h d base seq)

theorem TermState.replica_new (cols rows limit : Nat) :
    (TermState.new cols rows limit).Replica (max cols 1) (max rows 1) :=
  ⟨Grid.Held.new cols rows limit, by simp [TermState.new],
    show Modes.initial.contains .altScreen = false by decide⟩

end Zesterm
