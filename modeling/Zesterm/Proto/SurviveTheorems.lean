/-
Zesterm.Proto.SurviveTheorems — what a client survives.

`Applier.applyDeltaChecked` is the applier with the panics of the source;
`Applier.Serves` is every client there can be: a terminal that calls of its
own made, and whatever keyframes, pages, deltas and a reader's scrolling
then make of it. A delta is survived, and leaves both screens framed, just
where every scroll in it begins inside the viewport
(`applyDeltaChecked_iff`): the row, the columns, the run counts, the marks
and the attributes of every other op are checked where they are used, and
the top of a scroll is not.
-/
import Zesterm.Core.CheckedTheorems
import Zesterm.Proto.KeyframeTheorems

namespace Zesterm

/-- A scroll that moves something begins on a row of the viewport. -/
def DeltaOp.BeginsInside (rows : Nat) : DeltaOp → Prop
  | .scroll top bottom lines => lines ≠ 0 → top ≤ bottom → top < rows
  | _ => True

namespace Applier

/-! ## The applier with its panics -/

def writeMarksChecked (row : Nat) : List Run → Nat → TermState → Option TermState
  | [], _, s => some s
  | run :: runs, base, s => do
    let s ← run.marks.foldlM
      (fun s m => RemoteWriter.pushMarksChecked s row (base + m.atCell) m.marks) s
    writeMarksChecked row runs (base + run.cells) s

def writeRowChecked (a : Applier) (s : TermState) (row : Nat) (payload : RowPayload) :
    Option (TermState × Bool) := do
  let s ← RemoteWriter.writeRowChecked s row (lineId payload.line) (fill a.attrs payload)
    payload.wrapped
  let s ← writeMarksChecked row payload.runs 0 s
  some (s, known a.attrs payload)

def applyCursorChecked (s : TermState) (cursor : CursorState) : Option TermState := do
  let s := RemoteWriter.setCursor s cursor.row cursor.col
  let s ← RemoteWriter.setModesChecked s (s.modes.set .showCursor cursor.visible)
  some (RemoteWriter.setCursorStyle s (CursorStyle.fromDecscusr cursor.shape))

def applyOpChecked (a : Applier) (scrolled : Bool) (p : Progress) : DeltaOp → Option Progress
  | .scroll top bottom lines => do
    let s ← RemoteWriter.scrollChecked p.term top bottom lines
    some { p with term := s }
  | .row row payload =>
    if row ≥ p.term.activeGrid.rows then some { p with outcome := .needsKeyframe }
    else do
      let (term, known) ← a.writeRowChecked p.term row payload
      some
        { term := term
          outcome := if known then p.outcome else .needsKeyframe
          maxLine := max p.maxLine payload.line }
  | .erase top left bottom right attr =>
    match a.attrs.get attr with
    | none => some { p with outcome := .needsKeyframe }
    | some d => do
      let template : Cell := { Cell.blank with fg := d.fg, bg := d.bg, flags := d.flags }
      let s ← RemoteWriter.eraseChecked p.term top left bottom right template
      some { p with term := s }
  | .cursor cursor => do
    let s ← applyCursorChecked p.term cursor
    some { p with term := s }
  | .sbPush payload =>
    if scrolled then some p
    else do
      let row := (lineId payload.line, fill a.attrs payload, payload.wrapped)
      let s ← RemoteWriter.prependHistoryChecked p.term [row]
      some { p with term := s }
  | .altScreen active => do
    let s ← p.term.setAltScreenChecked active
    some { p with term := s }
  | .modes bits => do
    let s ← RemoteWriter.setModesChecked p.term (Modes.fromBitsTruncate bits)
    some { p with term := s }
  | .title title => some { p with term := RemoteWriter.setTitle p.term title }

def applyDeltaChecked (a : Applier) (s : TermState) (d : Delta) (base seq : Nat) :
    Option ((Applier × TermState) × Applied) :=
  if base ≠ a.applied then some ((a, s), .needsKeyframe)
  else do
    let a := { a with attrs := a.attrs.absorb d.attrs }
    let scrolled := d.ops.any DeltaOp.isScroll
    let p ← d.ops.foldlM (a.applyOpChecked scrolled)
      { term := s, outcome := .ok, maxLine := unseenLine }
    let s := syncLines p.term p.maxLine
    let s := d.blocks.foldl (fun s b => RemoteWriter.upsertBlock s b.toBlock) s
    some ((if p.outcome = .ok then { a with applied := seq } else a, RemoteWriter.setSeq s seq),
      p.outcome)

/-! ## One op -/

variable {cols rows : Nat} {s : TermState}
variable (a : Applier)

theorem writeMarksChecked_eq (row : Nat) (runs : List Run) (base : Nat) (h : s.Framed cols rows) :
    writeMarksChecked row runs base s = some (writeMarks row runs base s) ∧
      (writeMarks row runs base s).Framed cols rows := by
  induction runs generalizing base s with
  | nil => exact ⟨rfl, h⟩
  | cons run runs ih =>
    obtain ⟨heq, hrun⟩ := Fallible.foldlM_eq_foldl (P := TermState.Framed cols rows)
      (l := run.marks)
      (fun u m _ hu => RemoteWriter.pushMarksChecked_eq hu row (base + m.atCell) m.marks) s h
    unfold writeMarksChecked writeMarks
    rw [heq]
    exact ih _ hrun

theorem writeRowChecked_eq (h : s.Framed cols rows) (row : Nat) (p : RowPayload) :
    a.writeRowChecked s row p = some (a.writeRow s row p) ∧
      (a.writeRow s row p).1.Framed cols rows := by
  obtain ⟨hrow, hwritten⟩ := RemoteWriter.writeRowChecked_eq h row (lineId p.line)
    (fill a.attrs p) p.wrapped
  obtain ⟨hmarks, hmarked⟩ := writeMarksChecked_eq row p.runs 0 hwritten
  refine ⟨?_, hmarked⟩
  unfold writeRowChecked
  rw [hrow]
  simp only [Option.bind_eq_bind, Option.bind_some, hmarks]
  rfl

theorem applyCursorChecked_eq (h : s.Framed cols rows) (c : CursorState) :
    applyCursorChecked s c = some (applyCursor s c) ∧ (applyCursor s c).Framed cols rows := by
  obtain ⟨heq, hmodes⟩ := RemoteWriter.setModesChecked_eq
    (RemoteWriter.framed_setCursor h c.row c.col)
    ((RemoteWriter.setCursor s c.row c.col).modes.set .showCursor c.visible)
  refine ⟨?_, hmodes.of_frame rfl rfl⟩
  unfold applyCursorChecked
  simp only [heq, Option.bind_eq_bind, Option.bind_some]
  rfl

theorem applyOpChecked_eq (scrolled : Bool) {p : Progress} (h : p.term.Framed cols rows)
    {op : DeltaOp} (hop : op.BeginsInside rows) :
    a.applyOpChecked scrolled p op = some (a.applyOp scrolled p op) ∧
      (a.applyOp scrolled p op).term.Framed cols rows := by
  cases op with
  | scroll top bottom lines =>
    obtain ⟨heq, hs⟩ := RemoteWriter.scrollChecked_eq h hop
    exact ⟨congrArg (Option.bind · _) heq, hs⟩
  | row row payload =>
    obtain ⟨heq, hs⟩ := a.writeRowChecked_eq h row payload
    simp only [applyOpChecked, applyOp]
    split
    · exact ⟨rfl, h⟩
    · exact ⟨congrArg (Option.bind · _) heq, hs⟩
  | erase top left bottom right attr =>
    simp only [applyOpChecked, applyOp]
    cases a.attrs.get attr with
    | none => exact ⟨rfl, h⟩
    | some d =>
      obtain ⟨heq, hs⟩ := RemoteWriter.eraseChecked_eq h top left bottom right
        { Cell.blank with fg := d.fg, bg := d.bg, flags := d.flags }
      exact ⟨congrArg (Option.bind · _) heq, hs⟩
  | cursor cursor =>
    obtain ⟨heq, hs⟩ := applyCursorChecked_eq h cursor
    exact ⟨congrArg (Option.bind · _) heq, hs⟩
  | sbPush payload =>
    obtain ⟨heq, hs⟩ := RemoteWriter.prependHistoryChecked_eq h
      [(lineId payload.line, fill a.attrs payload, payload.wrapped)]
    simp only [applyOpChecked, applyOp]
    split
    · exact ⟨rfl, h⟩
    · exact ⟨congrArg (Option.bind · _) heq, hs⟩
  | altScreen active =>
    obtain ⟨heq, hs⟩ := h.setAltScreenChecked_eq active
    exact ⟨congrArg (Option.bind · _) heq, hs⟩
  | modes bits =>
    obtain ⟨heq, hs⟩ := RemoteWriter.setModesChecked_eq h (Modes.fromBitsTruncate bits)
    exact ⟨congrArg (Option.bind · _) heq, hs⟩
  | title title => exact ⟨rfl, h.of_frame rfl rfl⟩

/-- Only a scroll that begins below the viewport stops the client. -/
theorem applyOpChecked_eq_none (scrolled : Bool) {p : Progress} (h : p.term.Framed cols rows)
    {op : DeltaOp} (hop : ¬ op.BeginsInside rows) : a.applyOpChecked scrolled p op = none := by
  cases op with
  | scroll top bottom lines =>
    simp only [DeltaOp.BeginsInside, not_forall, not_lt] at hop
    obtain ⟨hlines, hle, htop⟩ := hop
    exact congrArg (Option.bind · _) (RemoteWriter.scrollChecked_eq_none h hlines hle htop)
  | _ => exact absurd trivial hop

/-! ## A whole delta -/

theorem framed_syncLines (h : s.Framed cols rows) (line : Int) :
    (syncLines s line).Framed cols rows := by
  unfold syncLines
  split
  · exact RemoteWriter.framed_syncNextLineId h _
  · exact h

theorem framed_upserts (bs : List BlockPayload) (h : s.Framed cols rows) :
    (bs.foldl (fun s b => RemoteWriter.upsertBlock s b.toBlock) s).Framed cols rows := by
  induction bs generalizing s with
  | nil => exact h
  | cons b bs ih => exact ih (h.of_frame rfl rfl)

/-- A delta whose scrolls all begin inside the viewport. -/
theorem applyDeltaChecked_eq (h : s.Framed cols rows) (d : Delta) (base seq : Nat)
    (hops : base = a.applied → ∀ op ∈ d.ops, op.BeginsInside rows) :
    a.applyDeltaChecked s d base seq = some (a.applyDelta s d base seq) ∧
      (a.applyDelta s d base seq).1.2.Framed cols rows := by
  unfold applyDeltaChecked applyDelta
  split
  · exact ⟨rfl, h⟩
  · next hbase =>
    have hin := hops (not_not.mp hbase)
    have hloop (u : Applier) (scrolled : Bool) :=
      Fallible.foldlM_eq_foldl (P := fun p : Progress => p.term.Framed cols rows) (l := d.ops)
        (fun p op hop hp => u.applyOpChecked_eq scrolled hp (hin op hop))
        { term := s, outcome := .ok, maxLine := unseenLine } h
    obtain ⟨heq, hp⟩ := hloop { a with attrs := a.attrs.absorb d.attrs } (d.ops.any DeltaOp.isScroll)
    exact ⟨congrArg (Option.bind · _) heq,
      (framed_upserts d.blocks (framed_syncLines hp _)).of_frame rfl rfl⟩

/-- A delta with a scroll that begins below the viewport. -/
theorem applyDeltaChecked_eq_none (h : s.Framed cols rows) (d : Delta) {base seq : Nat}
    (hbase : base = a.applied) (hops : ∃ op ∈ d.ops, ¬ op.BeginsInside rows) :
    a.applyDeltaChecked s d base seq = none := by
  have hloop (u : Applier) (scrolled : Bool) :=
    Fallible.foldlM_eq_none (P := fun p : Progress => p.term.Framed cols rows) (l := d.ops)
      (fun op => op.BeginsInside rows) (fun p op hop hp => u.applyOpChecked_eq scrolled hp hop)
      (fun p op hop hp => u.applyOpChecked_eq_none scrolled hp hop) hops
      { term := s, outcome := .ok, maxLine := unseenLine } h
  unfold applyDeltaChecked
  rw [if_neg (not_not.mpr hbase)]
  exact congrArg (Option.bind · _)
    (hloop { a with attrs := a.attrs.absorb d.attrs } (d.ops.any DeltaOp.isScroll))

/-! ## Every client -/

/-- The clients there can be. A terminal may come from any calls of its own;
an applier then writes it, and its reader may look about in it. A delta that
stops the program leads to no client. -/
inductive Serves {vt : Vt} : Applier → Terminal vt → Prop where
  | own {t : Terminal vt} (ht : t.Reachable) : Serves new t
  | reads {a : Applier} {t : Terminal vt} (c : Terminal.Call) (hc : c.isQuiet = true) :
      Serves a t → Serves a (t.call c)
  | keyframe {a : Applier} {t : Terminal vt} (k : Keyframe) (seq : Nat) : Serves a t →
      Serves (a.applyKeyframe t.state k seq).1
        { t with state := (a.applyKeyframe t.state k seq).2 }
  | attrs {a : Applier} {t : Terminal vt} (attrs : List AttrDef) :
      Serves a t → Serves (a.absorbAttrs attrs) t
  | page {a : Applier} {t : Terminal vt} (rows : List RowPayload) :
      Serves a t → Serves a { t with state := a.applyScrollback t.state rows }
  | delta {a : Applier} {t : Terminal vt} (d : Delta) (base seq : Nat)
      {r : (Applier × TermState) × Applied} (hr : a.applyDeltaChecked t.state d base seq = some r) :
      Serves a t → Serves r.1.1 { t with state := r.1.2 }

theorem framed_rebank (h : s.Framed cols rows) (named : List LineId) (cleared : Bool) :
    (rebank s named cleared).Framed cols rows := by
  unfold rebank
  split
  · exact h
  · next first _ =>
    dsimp only
    generalize (if cleared then 0 else displaced s.activeGrid first) = n
    split
    · exact RemoteWriter.framed_bankDisplaced h n
    · exact RemoteWriter.framed_dropHistory h named

theorem framed_writeRows (payloads : List RowPayload) (h : s.Framed cols rows) :
    (a.writeRows payloads s).Framed cols rows := by
  have hloop (l : List (RowPayload × Nat)) {u : TermState} (hu : u.Framed cols rows) :
      (l.foldl (fun s p => (a.writeRow s p.2 p.1).1) u).Framed cols rows := by
    induction l generalizing u with
    | nil => exact hu
    | cons p l ih => exact ih (a.writeRowChecked_eq hu p.2 p.1).2
  exact hloop payloads.zipIdx h

/-- A keyframe puts both screens at its own size. -/
theorem framed_applyKeyframe (h : s.Framed cols rows) (k : Keyframe) (seq : Nat) :
    ∃ cols' rows', (a.applyKeyframe s k seq).2.Framed cols' rows' := by
  have hsized : ∃ cols' rows', (if s.activeGrid.cols ≠ k.cols ∨ s.activeGrid.rows ≠ k.rows then
      RemoteWriter.resize s k.cols k.rows else s).Framed cols' rows' := by
    split
    · exact ⟨_, _, RemoteWriter.framed_resize h k.cols k.rows⟩
    · exact ⟨_, _, h⟩
  obtain ⟨cols', rows', hsized⟩ := hsized
  have hfitted : (fitted s k).Framed cols' rows' :=
    (RemoteWriter.setModesChecked_eq hsized k.modes).2
  have hcleared : (if a.announces k then RemoteWriter.clearHistory (fitted s k)
      else fitted s k).Framed cols' rows' := by
    split
    · exact RemoteWriter.framed_clearHistory hfitted
    · exact hfitted
  have hprepared : (prepared a s k).Framed cols' rows' :=
    framed_rebank hcleared (namedLines k.rowsData) (a.announces k)
  have hrows := framed_writeRows (a.absorbAttrs k.attrs) k.rowsData hprepared
  have hcursor := (applyCursorChecked_eq (framed_syncLines hrows (maxLine k.rowsData)) k.cursor).2
  refine ⟨cols', rows', ?_⟩
  rw [applyKeyframe_eq]
  unfold restated
  dsimp only
  generalize applyCursor (syncLines _ (maxLine k.rowsData)) k.cursor = u at hcursor ⊢
  have hblocks := framed_upserts k.blocks (s := RemoteWriter.dropBlocksFrom u k.blocksFrom)
    (hcursor.of_frame rfl rfl)
  split
  · exact hblocks.of_frame rfl rfl
  · exact hblocks.of_frame rfl rfl

/-- Looking about in a terminal moves the reader inside history. -/
theorem framed_reads {vt : Vt} {t : Terminal vt} (h : t.state.Framed cols rows)
    (c : Terminal.Call) (hc : c.isQuiet = true) : (t.call c).state.Framed cols rows := by
  have hreader {g : Grid} (hg : g.Framed cols rows) {n : Nat} (hn : n ≤ g.scrollbackLen) :
      ({ g with displayOffset := n } : Grid).Framed cols rows :=
    hg.of_evolves (Grid.evolves_displayOffset g n fun _ => hn) hn rfl rfl
  cases c with
  | advance | resize | setBlockContext | setPtyRestatesViewport =>
    simp [Terminal.Call.isQuiet] at hc
  | scrollDisplay delta =>
    exact (h.modifyGrid (f := fun g => g.scrollDisplay delta)
      (hreader h.active (by omega))).of_frame rfl rfl
  | scrollToBottom =>
    exact (h.modifyGrid (f := Grid.scrollToBottom) (hreader h.active (Nat.zero_le _))).of_frame rfl rfl
  | scrollToLine line =>
    have hline : (t.state.grid.scrollToLine line).1.Framed cols rows := by
      unfold Grid.scrollToLine
      split
      · exact h.primary
      · exact hreader h.primary (Nat.min_le_right _ _)
    show (t.scrollToLine line).1.state.Framed cols rows
    unfold Terminal.scrollToLine
    split
    · exact h
    · dsimp only
      split
      · exact ⟨hline, h.alt⟩
      · exact ⟨hline, h.alt⟩
  | _ => exact h.of_frame rfl rfl

theorem Serves.framed {vt : Vt} {a : Applier} {t : Terminal vt} (h : a.Serves t) :
    ∃ cols rows, t.state.Framed cols rows := by
  induction h with
  | own ht =>
    obtain ⟨cols, rows, hs⟩ := ht.sound
    exact ⟨cols, rows, TermState.Framed.of_sound hs⟩
  | reads c hc _ ih =>
    obtain ⟨cols, rows, ih⟩ := ih
    exact ⟨cols, rows, framed_reads ih c hc⟩
  | keyframe k seq _ ih =>
    obtain ⟨_, _, ih⟩ := ih
    exact framed_applyKeyframe _ ih k seq
  | attrs _ _ ih => exact ih
  | page payloads _ ih =>
    obtain ⟨cols, rows, ih⟩ := ih
    exact ⟨cols, rows, (RemoteWriter.prependHistoryChecked_eq ih _).2⟩
  | @delta a t d base seq r hr _ ih =>
    obtain ⟨cols, rows, ih⟩ := ih
    by_cases hops : base = a.applied → ∀ op ∈ d.ops, op.BeginsInside rows
    · obtain ⟨heq, hframed⟩ := a.applyDeltaChecked_eq ih d base seq hops
      obtain rfl : a.applyDelta t.state d base seq = r := Option.some.inj (heq.symm.trans hr)
      exact ⟨cols, rows, hframed⟩
    · simp only [not_forall] at hops
      obtain ⟨hbase, op, hop, hout⟩ := hops
      rw [a.applyDeltaChecked_eq_none ih d hbase ⟨op, hop, hout⟩] at hr
      cases hr

/-- A client survives a delta, with nothing of either screen out of range,
just where every scroll of it begins inside the viewport. -/
theorem applyDeltaChecked_iff {vt : Vt} {a : Applier} {t : Terminal vt} (ht : a.Serves t)
    (d : Delta) (base seq : Nat) :
    (a.applyDeltaChecked t.state d base seq = some (a.applyDelta t.state d base seq) ∧
      (a.applyDelta t.state d base seq).1.2.Framed t.state.activeGrid.cols
        t.state.activeGrid.rows) ↔
      (base = a.applied → ∀ op ∈ d.ops, op.BeginsInside t.state.activeGrid.rows) := by
  obtain ⟨cols, rows, h⟩ := ht.framed
  obtain rfl := h.active.cols
  obtain rfl := h.active.rows
  refine ⟨fun hsurvives hbase => ?_, a.applyDeltaChecked_eq h d base seq⟩
  by_contra hops
  simp only [not_forall] at hops
  obtain ⟨op, hop, hout⟩ := hops
  rw [a.applyDeltaChecked_eq_none h d hbase ⟨op, hop, hout⟩] at hsurvives
  cases hsurvives.1

/-- A scroll of one row. -/
def scrollOf (row : Nat) : Delta := { attrs := [], ops := [.scroll row row 1], blocks := [] }

theorem applyDeltaChecked_iff_lastRow :
    (new.applyDeltaChecked (Terminal.new asciiVt 4 2 10).state (scrollOf 1) 0 7 =
        some (new.applyDelta (Terminal.new asciiVt 4 2 10).state (scrollOf 1) 0 7) ∧
      (new.applyDelta (Terminal.new asciiVt 4 2 10).state (scrollOf 1) 0 7).1.2.Framed 4 2) ↔
      (0 = 0 → ∀ op ∈ (scrollOf 1).ops, op.BeginsInside 2) :=
  applyDeltaChecked_iff (.own (Terminal.Reachable.new 4 2 10)) (scrollOf 1) 0 7

/-- The row below the last one is no row to scroll, and nothing says so. -/
theorem not_survives_rowBelow :
    ¬ ∀ (a : Applier) (t : Terminal asciiVt), a.Serves t → ∀ (d : Delta) (base seq : Nat),
      ∃ r, a.applyDeltaChecked t.state d base seq = some r ∧
        r.1.2.Framed t.state.activeGrid.cols t.state.activeGrid.rows := by
  intro h
  obtain ⟨r, hr, -⟩ := h new (Terminal.new asciiVt 4 2 10) (.own (Terminal.Reachable.new 4 2 10))
    (scrollOf 2) 0 7
  have hstops : (new.applyDeltaChecked (Terminal.new asciiVt 4 2 10).state (scrollOf 2) 0 7).isNone :=
    by decide
  rw [hr] at hstops
  cases hstops

end Applier

end Zesterm
