/-
Zesterm.Proto.PredictTheorems — when the two echo predictors agree.

Either side's step does one of a few things to the pending cells
(`Moves`), and so keeps them a line of the grid. The sides differ in one
thing: of two writes of a row in a delta the native side judges by the
first and the browser by the last.
-/
import Mathlib.Data.List.Chain
import Zesterm.Proto.Predict

namespace Zesterm

namespace Predict

/-! ## What a step does to the pending cells -/

section Line

variable {G : Type}

/-- Cells side by side on one row, left of the grid's edge. -/
def Line (s : Predictor G) : Prop :=
  s.pending.IsChain (fun p q => q.row = p.row ∧ q.col = p.col + 1) ∧
    ∀ p ∈ s.pending, p.col < s.cols

/-- Where the next cell goes. -/
def Next (s : Predictor G) (p : Prediction G) : Prop :=
  match s.pending.getLast? with
  | some q => p.row = q.row ∧ p.col = q.col + 1
  | none => p.row = s.cursor.row ∧ p.col = s.cursor.col

/-- Cells go from either end, all cells go, or one comes after the last. -/
def Moves (s s' : Predictor G) : Prop :=
  s'.pending = [] ∨ (s'.cols = s.cols ∧ s'.pending <:+: s.pending) ∨
    s'.cols = s.cols ∧ ∃ p, s'.pending = s.pending ++ [p] ∧ p.col < s.cols ∧ Next s p

theorem Moves.line {s s' : Predictor G} (hmoves : Moves s s') (h : Line s) : Line s' := by
  obtain ⟨hchain, hcols⟩ := h
  unfold Line
  obtain hnil | ⟨hsame, hwithin⟩ | ⟨hsame, p, hpush, hcol, hnext⟩ := hmoves
  · rw [hnil]
    exact ⟨List.isChain_nil, nofun⟩
  · rw [hsame]
    exact ⟨ List.IsChain.infix hchain hwithin, fun p hp => hcols p (hwithin.subset hp)⟩
  · rw [hpush, hsame]
    refine ⟨List.isChain_append.mpr ⟨hchain, List.isChain_singleton p, ?_⟩, fun q hq => ?_⟩
    · intro q hq r hr
      obtain rfl : p = r := by simpa using hr
      rw [Option.mem_def] at hq
      unfold Next at hnext
      rwa [hq] at hnext
    · rcases List.mem_append.mp hq with hold | hnew
      · exact hcols q hold
      · rwa [List.mem_singleton.mp hnew]

/-- Past the first cell of a line that has no verdict, none has. -/
def Steady (verdict : Prediction G → Option Bool) : Prop :=
  ∀ p q, q.row = p.row → p.col < q.col → verdict p = none → verdict q = none

variable {verdict : Prediction G → Option Bool}
  {confirm : Predictor G → Prediction G → Predictor G} {refute expire : Predictor G → Predictor G}
variable {rest : List (Prediction G)}

theorem judge_silent (h : ∀ p ∈ rest, verdict p = none) (kept : List (Prediction G))
    (s : Predictor G) :
    judge verdict confirm refute expire rest kept s =
      (expire { s with pending := kept ++ rest }, []) := by
  induction rest generalizing kept with
  | nil => rw [judge, List.append_nil]
  | cons p rest ih =>
    rw [judge, h p List.mem_cons_self]
    show judge _ _ _ _ rest (kept ++ [p]) s = _
    rw [ih (fun q hq => h q (List.mem_cons_of_mem p hq)), List.append_assoc]
    rfl

theorem chain_later {p : Prediction G}
    (h : (p :: rest).IsChain fun p q => q.row = p.row ∧ q.col = p.col + 1) :
    ∀ q ∈ rest, q.row = p.row ∧ p.col < q.col := by
  induction rest generalizing p with
  | nil => nofun
  | cons r rest ih =>
    obtain ⟨⟨hrow, hcol⟩, htail⟩ := List.isChain_cons_cons.mp h
    intro q hq
    rcases List.mem_cons.mp hq with rfl | hmem
    · exact ⟨hrow, by omega⟩
    · obtain ⟨hrow', hcol'⟩ := ih htail q hmem
      exact ⟨hrow'.trans hrow, by omega⟩

/-- Judging a line takes cells from its front, or all of them. -/
theorem judge_suffix (hsteady : Steady verdict) (hconfirm : ∀ s p, (confirm s p).cols = s.cols)
    (hrefute : ∀ s, (refute s).pending = []) (hexpire : ∀ s, (expire s).pending = [] ∨ expire s = s)
    (hrest : rest.IsChain fun p q => q.row = p.row ∧ q.col = p.col + 1) (s : Predictor G) :
    let out := (judge verdict confirm refute expire rest [] s).1
    out.pending = [] ∨ out.cols = s.cols ∧ out.pending <:+: rest := by
  induction rest generalizing s with
  | nil =>
    rw [judge]
    rcases hexpire { s with pending := [] } with hnil | hsame
    · exact .inl hnil
    · exact .inl (by rw [hsame])
  | cons p rest ih =>
    cases hp : verdict p with
    | none =>
      have hsilent : ∀ q ∈ p :: rest, verdict q = none := by
        intro q hq
        rcases List.mem_cons.mp hq with rfl | hmem
        · exact hp
        · obtain ⟨hrow, hcol⟩ := chain_later hrest q hmem
          exact hsteady p q hrow hcol hp
      rw [judge_silent hsilent, List.nil_append]
      rcases hexpire { s with pending := p :: rest } with hnil | hsame
      · exact .inl hnil
      · exact .inr (by rw [hsame]; exact ⟨rfl, List.infix_rfl⟩)
    | some echoed =>
      rw [judge, hp]
      cases echoed with
      | false => exact .inl (hrefute s)
      | true =>
        rcases ih hrest.tail (confirm s p) with hnil | ⟨hcols, hwithin⟩
        · exact .inl hnil
        · exact .inr ⟨hcols.trans (hconfirm s p), hwithin.trans (List.suffix_cons p rest).isInfix⟩

/-- A refuted guess takes all others with it. -/
theorem judge_refuted (hrefute : ∀ s, (refute s).pending = []) (rest kept : List (Prediction G))
    (s : Predictor G) (h : false ∈ (judge verdict confirm refute expire rest kept s).2) :
    (judge verdict confirm refute expire rest kept s).1.pending = [] := by
  induction rest generalizing kept s with
  | nil => cases h
  | cons p rest ih =>
    rw [judge] at h ⊢
    cases hp : verdict p with
    | none =>
      rw [hp] at h
      exact ih _ _ h
    | some echoed =>
      rw [hp] at h
      cases echoed with
      | false => exact hrefute s
      | true => exact ih _ _ ((List.mem_cons.mp h).resolve_left (by decide))

theorem judge_cursor (hconfirm : ∀ s p, (confirm s p).cursor = s.cursor)
    (hrefute : ∀ s, (refute s).cursor = s.cursor) (hexpire : ∀ s, (expire s).cursor = s.cursor)
    (rest kept : List (Prediction G)) (s : Predictor G) :
    (judge verdict confirm refute expire rest kept s).1.cursor = s.cursor := by
  induction rest generalizing kept s with
  | nil => exact hexpire _
  | cons p rest ih =>
    rw [judge]
    cases verdict p with
    | none => exact ih _ _
    | some echoed =>
      cases echoed with
      | false => exact hrefute s
      | true => exact (ih _ _).trans (hconfirm s p)

/-- The host's cursor and the pending cells stand on rows of the grid. -/
def Inside (rows : Nat) (s : Predictor G) : Prop :=
  s.cursor.row < rows ∧ ∀ p ∈ s.pending, p.row < rows

theorem Moves.rows {s s' : Predictor G} (hmoves : Moves s s') {rows : Nat} (h : Inside rows s) :
    ∀ p ∈ s'.pending, p.row < rows := by
  obtain ⟨hcursor, hrows⟩ := h
  obtain hnil | ⟨-, hwithin⟩ | ⟨-, p, hpush, -, hnext⟩ := hmoves
  · rw [hnil]
    nofun
  · exact fun p hp => hrows p (hwithin.subset hp)
  · rw [hpush]
    intro q hq
    rcases List.mem_append.mp hq with hold | hnew
    · exact hrows q hold
    · obtain rfl := List.mem_singleton.mp hnew
      unfold Next at hnext
      cases hlast : s.pending.getLast? with
      | none =>
        rw [hlast] at hnext
        rw [hnext.1]
        exact hcursor
      | some last =>
        rw [hlast] at hnext
        rw [hnext.1]
        exact hrows last (List.mem_of_getLast? hlast)

end Line

/-! ## Reading a delta -/

/-- The ops that take every guess away. -/
def clears : DeltaOp → Bool
  | .altScreen _ | .scroll .. | .erase .. => true
  | _ => false

/-- A row's payload, where an op writes the row. -/
def write (row : Nat) : DeltaOp → Option RowPayload
  | .row row' payload => if row' = row then some payload else none
  | _ => none

def firstWrite (delta : Delta) (row : Nat) : Option RowPayload := delta.ops.findSome? (write row)

def lastWrite (delta : Delta) (row : Nat) : Option RowPayload :=
  delta.ops.reverse.findSome? (write row)

/-- The cursor an op leaves. -/
def moveCursor (cursor : CursorState) : DeltaOp → CursorState
  | .cursor cursor' => cursor'
  | _ => cursor

theorem mem_moveCursor (cursor : CursorState) (ops : List DeltaOp) :
    ops.foldl moveCursor cursor = cursor ∨ .cursor (ops.foldl moveCursor cursor) ∈ ops := by
  induction ops using List.reverseRecOn with
  | nil => exact .inl rfl
  | append_singleton ops op ih =>
    rw [List.foldl_append]
    have hold : ops.foldl moveCursor cursor = cursor ∨
        .cursor (ops.foldl moveCursor cursor) ∈ ops ++ [op] :=
      ih.imp_right (List.mem_append_left _)
    cases op with
    | cursor cursor' => exact .inr (List.mem_append_right _ (List.mem_singleton_self _))
    | _ => exact hold

/-- The cursor a step leaves. -/
def cursorAfter (cursor : CursorState) : Step → CursorState
  | .keyframe cursor' _ _ _ => cursor'
  | .delta delta _ => delta.ops.foldl moveCursor cursor
  | _ => cursor

/-- The rows of the grid after a step. -/
def rowsAfter (rows : Nat) : Step → Nat
  | .keyframe _ rows' _ _ => rows'
  | _ => rows

/-- The host's cursor stays on its grid. -/
def Hosted (rows : Nat) : Step → Prop
  | .keyframe cursor rows' _ _ => cursor.row < rows'
  | .delta delta _ => ∀ cursor, .cursor cursor ∈ delta.ops → cursor.row < rows
  | _ => True

theorem firstWrite_none_iff (delta : Delta) (row : Nat) :
    firstWrite delta row = none ↔ lastWrite delta row = none := by
  simp [firstWrite, lastWrite, List.findSome?_eq_none_iff]

/-! ## Either side keeps the line -/

section Sides

variable {G : Type}

/-- What reading a delta leaves of the state. -/
structure ReadOf (s r : Predictor G) (ops : List DeltaOp) : Prop where
  cursor : r.cursor = ops.foldl moveCursor s.cursor
  cols : r.cols = s.cols
  pending : r.pending = if ops.any clears then [] else s.pending

/-- Read op by op, by whichever side. -/
theorem readOf_foldl {R : Type} (state : R → Predictor G) {readOp : R → DeltaOp → R}
    (hop : ∀ r op, ReadOf (state r) (state (readOp r op)) [op]) (r : R) (ops : List DeltaOp) :
    ReadOf (state r) (state (ops.foldl readOp r)) ops := by
  induction ops using List.reverseRecOn with
  | nil => exact ⟨rfl, rfl, rfl⟩
  | append_singleton ops op ih =>
    have hlast := hop (ops.foldl readOp r) op
    rw [List.foldl_append]
    refine ⟨?_, hlast.cols.trans ih.cols, ?_⟩
    · rw [List.foldl_append, ← ih.cursor]
      exact hlast.cursor
    · rw [List.any_append]
      refine hlast.pending.trans ?_
      rw [ih.pending]
      cases ops.any clears <;> cases [op].any clears <;> rfl

theorem passed_later {cursor : CursorState} {p q : Prediction G} (hrow : q.row = p.row)
    (hcol : p.col < q.col) (h : passed cursor p = false) : passed cursor q = false := by
  unfold passed at h ⊢
  rw [hrow]
  simp only [Bool.or_eq_false_iff, decide_eq_false_iff_not, bne_eq_false_iff_eq] at h ⊢
  exact ⟨h.1, by omega⟩

variable {verdict : Prediction G → Option Bool}
  {confirm : Predictor G → Prediction G → Predictor G} {refute expire : Predictor G → Predictor G}

/-- A side judges what the cursor is past, by its row or by the cursor's move. -/
theorem steady_of_none_iff {cursor : CursorState} {delivered : Nat → Option RowPayload}
    {moved : Bool}
    (h : ∀ p, verdict p = none ↔
      passed cursor p = false ∨ delivered p.row = none ∧ moved = false) : Steady verdict := by
  intro p q hrow hcol hp
  rcases (h p).mp hp with hpassed | hrest
  · exact (h q).mpr (.inl (passed_later hrow hcol hpassed))
  · exact (h q).mpr (.inr (by rwa [hrow]))

theorem Moves.refl (s : Predictor G) : Moves s s := .inr (.inl ⟨rfl, List.infix_rfl⟩)

theorem Moves.push {s : Predictor G} {p : Prediction G} (hcol : p.col < s.cols) (hnext : Next s p) :
    Moves s { s with pending := s.pending ++ [p] } :=
  .inr (.inr ⟨rfl, p, rfl, hcol, hnext⟩)

theorem Moves.typed {s : Predictor G} {row col nowMs : Nat} {ch : G}
    (hnext : Next s ⟨row, col, ch, nowMs⟩) :
    Moves s (if s.cols ≤ col then s else { s with pending := s.pending ++ [⟨row, col, ch, nowMs⟩] }) ∧
      (if s.cols ≤ col then s
        else { s with pending := s.pending ++ [⟨row, col, ch, nowMs⟩] }).cursor = s.cursor := by
  split
  · exact ⟨.refl s, rfl⟩
  · next hcol => exact ⟨.push (not_le.mp hcol) hnext, rfl⟩

theorem Moves.expired {s s' : Predictor G} (h : s'.pending = [] ∨ s' = s) : Moves s s' := by
  rcases h with hnil | rfl
  · exact .inl hnil
  · exact Moves.refl s'

theorem Moves.judged {s r : Predictor G} {ops : List DeltaOp} (h : Line s)
    (hread : ReadOf s r ops) (hsteady : Steady verdict)
    (hconfirm : ∀ s p, (confirm s p).cols = s.cols) (hrefute : ∀ s, (refute s).pending = [])
    (hexpire : ∀ s, (expire s).pending = [] ∨ expire s = s) :
    Moves s (judge verdict confirm refute expire r.pending [] r).1 := by
  have hwithin : r.pending <:+: s.pending := by
    rw [hread.pending]
    split
    · exact List.nil_infix
    · exact List.infix_rfl
  rcases judge_suffix hsteady hconfirm hrefute hexpire ( List.IsChain.infix h.1 hwithin) r with
    hnil | ⟨hcols, hleft⟩
  · exact .inl hnil
  · exact .inr (.inl ⟨hcols.trans hread.cols, hleft.trans hwithin⟩)

/-- What a step of either side does. -/
structure Stepping (step : Predictor G → Step → Predictor G × List Bool) : Prop where
  moves : ∀ s st, Line s → Moves s (step s st).1
  fresh : ∀ s cursor rows cols altScreen,
    (step s (.keyframe cursor rows cols altScreen)).1.pending = []
  /-- A refuted guess leaves none pending. -/
  refuted : ∀ s st, false ∈ (step s st).2 → (step s st).1.pending = []
  cursor : ∀ s st, (step s st).1.cursor = cursorAfter s.cursor st

variable {step : Predictor G → Step → Predictor G × List Bool}

theorem Stepping.inside (hstep : Stepping step) {s : Predictor G} {rows : Nat} (hline : Line s)
    (h : Inside rows s) {st : Step} (hosted : Hosted rows st) :
    Inside (rowsAfter rows st) (step s st).1 := by
  have hcursor := hstep.cursor s st
  have hmoved := (hstep.moves s st hline).rows h
  cases st with
  | keyframe cursor rows' cols altScreen =>
    refine ⟨hcursor ▸ hosted, ?_⟩
    rw [hstep.fresh]
    nofun
  | delta delta nowMs =>
    refine ⟨?_, hmoved⟩
    rw [hcursor]
    rcases mem_moveCursor s.cursor delta.ops with hsame | hmem
    · rw [cursorAfter, hsame]
      exact h.1
    · exact hosted _ hmem
  | input | tick => exact ⟨hcursor ▸ h.1, hmoved⟩

theorem Stepping.line (hstep : Stepping step) {s : Predictor G} (h : Line s) (run : List Step) :
    Line (run.foldl (fun s st => (step s st).1) s) := by
  induction run using List.reverseRecOn with
  | nil => exact h
  | append_singleton run st ih =>
    rw [List.foldl_append]
    exact (hstep.moves _ st ih).line ih

end Sides

namespace Native

variable (s : Predictor Char)

theorem read_snoc (attrs : List AttrDef) (ops : List DeltaOp) (op : DeltaOp)
    (blocks : List BlockPayload) :
    read s ⟨attrs, ops ++ [op], blocks⟩ = readOp (read s ⟨attrs, ops, blocks⟩) op := by
  rw [read, List.foldl_append]
  rfl

theorem readOf_read (delta : Delta) : ReadOf s (read s delta).s delta.ops :=
  readOf_foldl Reading.s (fun r op => by cases op <;> exact ⟨rfl, rfl, rfl⟩) ⟨s, false, []⟩
    delta.ops

theorem delivered_read (delta : Delta) (row : Nat) :
    (read s delta).delivered row = firstWrite delta row := by
  obtain ⟨attrs, ops, blocks⟩ := delta
  induction ops using List.reverseRecOn with
  | nil => rfl
  | append_singleton ops op ih =>
    have hsnoc : firstWrite ⟨attrs, ops ++ [op], blocks⟩ row =
        (firstWrite ⟨attrs, ops, blocks⟩ row).or (write row op) := by
      simp [firstWrite, List.findSome?_append]
    rw [hsnoc, ← ih, read_snoc]
    cases op with
    | row row' payload =>
      simp only [Reading.delivered, readOp, write, List.find?_append]
      by_cases hrow : row' = row
      · cases (read s ⟨attrs, ops, blocks⟩).rows.find? (fun e => e.1 = row) <;> simp [hrow]
      · cases (read s ⟨attrs, ops, blocks⟩).rows.find? (fun e => e.1 = row) <;> simp [hrow]
    | _ => simp [readOp, write, Reading.delivered]

theorem verdict_eq_none (r : Reading) (cursor : CursorState) (p : Prediction Char) :
    verdict r cursor p = none ↔
      passed cursor p = false ∨ r.delivered p.row = none ∧ r.cursorMoved = false := by
  unfold verdict
  cases r.delivered p.row <;> cases passed cursor p <;> cases r.cursorMoved <;> simp

theorem expire_cases (nowMs : Nat) :
    ((expire s nowMs).pending = [] ∨ expire s nowMs = s) ∧
      (expire s nowMs).cursor = s.cursor := by
  unfold expire
  split
  · exact ⟨.inr rfl, rfl⟩
  · dsimp only
    split <;> split
    · exact ⟨.inl rfl, rfl⟩
    · exact ⟨.inr rfl, rfl⟩
    · exact ⟨.inl rfl, rfl⟩
    · exact ⟨.inr rfl, rfl⟩

/-- A key moves the pending cells and leaves the host's cursor. -/
theorem moves_onInput (key : Key Char) (nowMs : Nat) :
    Moves s (onInput s key nowMs) ∧ (onInput s key nowMs).cursor = s.cursor := by
  unfold onInput
  split
  · exact ⟨.refl s, rfl⟩
  · cases key with
    | backspace => exact ⟨.inr (.inl ⟨rfl, (List.dropLast_prefix s.pending).isInfix⟩), rfl⟩
    | other => exact ⟨.inl rfl, rfl⟩
    | printable ch =>
      dsimp only
      split
      · exact ⟨.inl rfl, rfl⟩
      · split
        · exact ⟨.refl s, rfl⟩
        · exact Moves.typed (by unfold Next; cases s.pending.getLast? <;> exact ⟨rfl, rfl⟩)

theorem stepping : Stepping step where
  moves := by
    intro s st h
    cases st with
    | input key nowMs => exact (moves_onInput s key nowMs).1
    | keyframe => exact .inl rfl
    | delta delta nowMs =>
      exact .judged h (readOf_read s delta) (steady_of_none_iff (verdict_eq_none _ _))
        (fun _ _ => rfl) (fun _ => rfl) fun s => (expire_cases s nowMs).1
    | tick nowMs => exact .expired (expire_cases s nowMs).1
  fresh := fun _ _ _ _ _ => rfl
  refuted := by
    intro s st h
    cases st with
    | delta delta nowMs => exact judge_refuted (fun _ => rfl) _ _ _ h
    | input | keyframe | tick => cases h
  cursor := by
    intro s st
    cases st with
    | input key nowMs => exact (moves_onInput s key nowMs).2
    | keyframe => rfl
    | delta delta nowMs =>
      have hjudged : (reconcile s delta nowMs).1.cursor = (read s delta).s.cursor := by
        apply judge_cursor
        · exact fun _ _ => rfl
        · exact fun _ => rfl
        · exact fun s => (expire_cases s nowMs).2
      exact hjudged.trans (readOf_read s delta).cursor
    | tick nowMs => exact (expire_cases s nowMs).2

theorem after_snoc (run : List Step) (st : Step) :
    after s (run ++ [st]) = (step (after s run) st).1 := by
  rw [after, List.foldl_append]
  rfl

end Native

namespace Web

variable (s : Predictor Str)

theorem read_snoc (attrs : List AttrDef) (ops : List DeltaOp) (op : DeltaOp)
    (blocks : List BlockPayload) :
    read s ⟨attrs, ops ++ [op], blocks⟩ = readOp (read s ⟨attrs, ops, blocks⟩) op := by
  rw [read, List.foldl_append]
  rfl

theorem readOf_read (delta : Delta) : ReadOf s (read s delta).s delta.ops :=
  readOf_foldl Reading.s (fun r op => by cases op <;> exact ⟨rfl, rfl, rfl⟩) ⟨s, false, fun _ => none⟩
    delta.ops

theorem rows_read (delta : Delta) (row : Nat) : (read s delta).rows row = lastWrite delta row := by
  obtain ⟨attrs, ops, blocks⟩ := delta
  induction ops using List.reverseRecOn with
  | nil => rfl
  | append_singleton ops op ih =>
    have hsnoc : lastWrite ⟨attrs, ops ++ [op], blocks⟩ row =
        (write row op).or (lastWrite ⟨attrs, ops, blocks⟩ row) := by
      simp only [lastWrite, List.reverse_append, List.reverse_singleton, List.singleton_append,
        List.findSome?_cons]
      cases write row op <;> rfl
    rw [hsnoc, ← ih, read_snoc]
    cases op with
    | row row' payload =>
      simp only [readOp, write, eq_comm (a := row)]
      split <;> rfl
    | _ => rfl

theorem verdict_eq_none (r : Reading) (cursor : CursorState) (p : Prediction Str) :
    verdict r cursor p = none ↔
      passed cursor p = false ∨ r.rows p.row = none ∧ r.cursorMoved = false := by
  unfold verdict
  cases r.rows p.row <;> cases passed cursor p <;> cases r.cursorMoved <;> simp

theorem expire_cases (nowMs : Nat) :
    ((expire s nowMs).pending = [] ∨ expire s nowMs = s) ∧
      (expire s nowMs).cursor = s.cursor := by
  unfold expire
  split
  · exact ⟨.inr rfl, rfl⟩
  · dsimp only
    split <;> split
    · exact ⟨.inl rfl, rfl⟩
    · exact ⟨.inr rfl, rfl⟩
    · exact ⟨.inl rfl, rfl⟩
    · exact ⟨.inr rfl, rfl⟩

/-- A key moves the pending cells and leaves the host's cursor. -/
theorem moves_onInput (key : Key Str) (nowMs : Nat) :
    Moves s (onInput s key nowMs) ∧ (onInput s key nowMs).cursor = s.cursor := by
  unfold onInput
  split
  · exact ⟨.refl s, rfl⟩
  · cases key with
    | backspace => exact ⟨.inr (.inl ⟨rfl, (List.dropLast_prefix s.pending).isInfix⟩), rfl⟩
    | other => exact ⟨.inl rfl, rfl⟩
    | printable ch =>
      dsimp only
      split
      · exact ⟨.inl rfl, rfl⟩
      · split
        · exact ⟨.refl s, rfl⟩
        · exact Moves.typed (by unfold Next; cases s.pending.getLast? <;> exact ⟨rfl, rfl⟩)

theorem stepping : Stepping step where
  moves := by
    intro s st h
    cases st with
    | input key nowMs => exact (moves_onInput s (keyOf key) nowMs).1
    | keyframe => exact .inl rfl
    | delta delta nowMs =>
      exact .judged h (readOf_read s delta) (steady_of_none_iff (verdict_eq_none _ _))
        (fun _ _ => rfl) (fun _ => rfl) fun s => (expire_cases s nowMs).1
    | tick nowMs => exact .expired (expire_cases s nowMs).1
  fresh := fun _ _ _ _ _ => rfl
  refuted := by
    intro s st h
    cases st with
    | delta delta nowMs => exact judge_refuted (fun _ => rfl) _ _ _ h
    | input | keyframe | tick => cases h
  cursor := by
    intro s st
    cases st with
    | input key nowMs => exact (moves_onInput s (keyOf key) nowMs).2
    | keyframe => rfl
    | delta delta nowMs =>
      have hjudged : (reconcile s delta nowMs).1.cursor = (read s delta).s.cursor := by
        apply judge_cursor
        · exact fun _ _ => rfl
        · exact fun _ => rfl
        · exact fun s => (expire_cases s nowMs).2
      exact hjudged.trans (readOf_read s delta).cursor
    | tick nowMs => exact (expire_cases s nowMs).2

theorem after_snoc (run : List Step) (st : Step) :
    after s (run ++ [st]) = (step (after s run) st).1 := by
  rw [after, List.foldl_append]
  rfl

end Web

variable (s : Predictor Char)

/-! ## The same state on both sides -/

def Prediction.lift (p : Prediction Char) : Prediction Str :=
  { row := p.row, col := p.col, ch := [p.ch], madeAt := p.madeAt }

/-- A native state as the browser writes it. -/
def Predictor.lift (s : Predictor Char) : Predictor Str :=
  { policy := s.policy, pending := s.pending.map Prediction.lift, cursor := s.cursor,
    cols := s.cols, altScreen := s.altScreen, quiet := s.quiet, latencyMs := s.latencyMs,
    remoteHint := s.remoteHint, showing := s.showing }

theorem refute_lift : Web.refute s.lift = (Native.refute s).lift := rfl

theorem cast_sub (m n : Nat) : ((max 0 ((m : Int) - n) : Int) : ℚ) = ((m - n : Nat) : ℚ) := by
  have hint : max 0 ((m : Int) - n) = ((m - n : Nat) : Int) := by omega
  rw [hint, Int.cast_natCast]

theorem confirm_lift (m n : Nat) :
    Web.confirm s.lift (max 0 ((m : Int) - n)) = (Native.confirm s (m - n)).lift := by
  unfold Web.confirm Native.confirm
  rw [cast_sub]
  cases hlatency : s.latencyMs <;> simp [Predictor.lift, hlatency]

theorem expire_lift (nowMs : Nat) : Web.expire s.lift nowMs = (Native.expire s nowMs).lift := by
  unfold Web.expire Native.expire
  cases hpending : s.pending with
  | nil => simp [Predictor.lift, hpending]
  | cons p rest =>
    have hlift : s.lift.pending = p.lift :: rest.map Prediction.lift := by
      rw [Predictor.lift, hpending, List.map_cons]
    rw [hlift]
    simp only [List.head?_cons]
    have hlatency : s.lift.latencyMs = s.latencyMs := rfl
    rw [hlatency]
    cases s.latencyMs with
    | some rtt =>
      simp only [Prediction.lift, cast_sub]
      rw [apply_ite Predictor.lift, refute_lift]
    | none =>
      have hage : max 0 ((nowMs : Int) - p.lift.madeAt) = ((nowMs - p.madeAt : Nat) : Int) := by
        simp only [Prediction.lift]
        omega
      simp only [hage, gt_iff_lt, Nat.cast_lt]
      rw [apply_ite Predictor.lift]
      rfl

theorem getLast_lift :
    s.lift.pending.getLast? = s.pending.getLast?.map Prediction.lift := List.getLast?_map

theorem onInput_lift (key : Key Char) (nowMs : Nat) :
    Web.onInput s.lift (Web.keyOf key) nowMs = (Native.onInput s key nowMs).lift := by
  unfold Web.onInput Native.onInput
  have hpolicy : s.lift.policy = s.policy := rfl
  rw [hpolicy, apply_ite Predictor.lift]
  refine if_congr Iff.rfl rfl ?_
  cases key with
  | backspace => simp [Web.keyOf, Predictor.lift, List.map_dropLast]
  | other => rfl
  | printable ch =>
    have hnarrow : Web.narrow [ch] = Native.narrow ch := rfl
    simp only [Web.keyOf, hnarrow, getLast_lift]
    rw [apply_ite Predictor.lift, apply_ite Predictor.lift]
    refine if_congr Iff.rfl rfl (if_congr Iff.rfl rfl ?_)
    cases s.pending.getLast? with
    | none | some =>
      rw [apply_ite Predictor.lift]
      refine if_congr Iff.rfl rfl ?_
      simp [Predictor.lift, Prediction.lift]

theorem showing_lift : Web.showing s.lift = Native.showing s := by
  unfold Web.showing Native.showing
  have hfields : s.lift.policy = s.policy ∧ s.lift.quiet = s.quiet ∧
      s.lift.latencyMs = s.latencyMs ∧ s.lift.remoteHint = s.remoteHint ∧
        s.lift.showing = s.showing := ⟨rfl, rfl, rfl, rfl, rfl⟩
  obtain ⟨hpolicy, hquiet, hlatency, hhint, hshowing⟩ := hfields
  rw [hpolicy, hquiet, hlatency, hhint, hshowing]
  cases s.policy <;> cases s.quiet <;> cases s.latencyMs <;> rfl

theorem overlay_lift : Web.overlay s.lift = (Native.overlay s).map Prediction.lift := by
  unfold Web.overlay Native.overlay
  rw [showing_lift]
  split <;> rfl

theorem read_lift (delta : Delta) :
    (Web.read s.lift delta).s = (Native.read s delta).s.lift ∧
      (Web.read s.lift delta).cursorMoved = (Native.read s delta).cursorMoved := by
  obtain ⟨attrs, ops, blocks⟩ := delta
  induction ops using List.reverseRecOn with
  | nil => exact ⟨rfl, rfl⟩
  | append_singleton ops op ih =>
    obtain ⟨hstate, hmoved⟩ := ih
    rw [Web.read_snoc, Native.read_snoc]
    cases op <;> simp [Web.readOp, Native.readOp, hstate, hmoved] <;> rfl

/-! ## Where the sides agree -/

/-- A cell is judged: the cursor is past it, and its row came or the cursor moved. -/
def due (s : Predictor Char) (delta : Delta) (p : Prediction Char) : Bool :=
  passed (Native.read s delta).s.cursor p &&
    ((firstWrite delta p.row).isSome || (Native.read s delta).cursorMoved)

/-- The first write of its row, if any, has the guess in the cell. -/
def echoedFirst (delta : Delta) (p : Prediction Char) : Bool :=
  match firstWrite delta p.row with
  | some payload => Native.charAt payload p.col == p.ch
  | none => true

/-- The last write of its row, if any, has the guess in the cell. -/
def echoedLast (delta : Delta) (p : Prediction Char) : Bool :=
  match lastWrite delta p.row with
  | some payload => Web.charAt payload p.col == [p.ch]
  | none => true

/-- Of the cells a delta judges, those before the first that its row's first
write refutes are those before the first that its row's last write refutes. -/
def Settled (s : Predictor Char) : Step → Prop
  | .delta delta _ =>
    ((Native.read s delta).s.pending.filter (due s delta)).takeWhile (echoedFirst delta) =
      ((Native.read s delta).s.pending.filter (due s delta)).takeWhile (echoedLast delta)
  | _ => True

theorem native_verdict (delta : Delta) (p : Prediction Char) :
    Native.verdict (Native.read s delta) (Native.read s delta).s.cursor p =
      if due s delta p then some (echoedFirst delta p) else none := by
  unfold Native.verdict due echoedFirst
  rw [Native.delivered_read]
  cases firstWrite delta p.row <;> cases passed (Native.read s delta).s.cursor p <;>
    cases (Native.read s delta).cursorMoved <;> rfl

theorem web_verdict (delta : Delta) (p : Prediction Char) :
    Web.verdict (Web.read s.lift delta) (Web.read s.lift delta).s.cursor p.lift =
      if due s delta p then some (echoedLast delta p) else none := by
  obtain ⟨hstate, hmoved⟩ := read_lift s delta
  have hcursor : (Web.read s.lift delta).s.cursor = (Native.read s delta).s.cursor := by
    rw [hstate]
    rfl
  have hpassed : passed (Native.read s delta).s.cursor p.lift =
      passed (Native.read s delta).s.cursor p := rfl
  have hrow : p.lift.row = p.row := rfl
  have hsome : (firstWrite delta p.row).isSome = (lastWrite delta p.row).isSome := by
    rw [Bool.eq_iff_iff, Option.isSome_iff_ne_none, Option.isSome_iff_ne_none, Ne,
      firstWrite_none_iff]
  unfold Web.verdict due echoedLast
  rw [Web.rows_read, hcursor, hmoved, hpassed, hrow, hsome]
  cases lastWrite delta p.row <;> cases passed (Native.read s delta).s.cursor p <;>
    cases (Native.read s delta).cursorMoved <;> rfl

section Judging

variable {v : Prediction Char → Option Bool} {w : Prediction Str → Option Bool}
  {isDue isFirst isLast : Prediction Char → Bool}
  {confirm : Predictor Char → Prediction Char → Predictor Char}
  {confirm' : Predictor Str → Prediction Str → Predictor Str}
  {refute expire : Predictor Char → Predictor Char}
  {refute' expire' : Predictor Str → Predictor Str}

/-- Loops that come to the same verdicts read the same cells alike. -/
theorem judge_same_verdicts (hv : ∀ p, v p = if isDue p then some (isFirst p) else none)
    (hw : ∀ p : Prediction Char, w p.lift = if isDue p then some (isLast p) else none)
    (rest kept : List (Prediction Char)) (kept' : List (Prediction Str)) (s : Predictor Char)
    (t : Predictor Str)
    (h : (judge w confirm' refute' expire' (rest.map Prediction.lift) kept' t).2 =
      (judge v confirm refute expire rest kept s).2) :
    (rest.filter isDue).takeWhile isFirst = (rest.filter isDue).takeWhile isLast := by
  induction rest generalizing kept kept' s t with
  | nil => rfl
  | cons p rest ih =>
    rw [List.map_cons, judge, judge, hv, hw] at h
    cases hdue : isDue p with
    | false =>
      rw [hdue] at h
      rw [List.filter_cons_of_neg (by simp [hdue])]
      exact ih _ _ _ _ h
    | true =>
      rw [hdue] at h
      rw [List.filter_cons_of_pos hdue, List.takeWhile_cons, List.takeWhile_cons]
      cases hfirst : isFirst p <;> cases hlast : isLast p <;> rw [hfirst, hlast] at h
      · rfl
      · cases h
      · cases h
      · exact congrArg (p :: ·) (ih _ _ _ _ (List.cons.inj h).2)

/-- Loops that read the same cells alike go the same way. -/
theorem judge_lift (hv : ∀ p, v p = if isDue p then some (isFirst p) else none)
    (hw : ∀ p : Prediction Char, w p.lift = if isDue p then some (isLast p) else none)
    (hconfirm : ∀ (s : Predictor Char) p, confirm' s.lift p.lift = (confirm s p).lift)
    (hrefute : ∀ s : Predictor Char, refute' s.lift = (refute s).lift)
    (hexpire : ∀ s : Predictor Char, expire' s.lift = (expire s).lift)
    (rest kept : List (Prediction Char)) (s : Predictor Char)
    (h : (rest.filter isDue).takeWhile isFirst = (rest.filter isDue).takeWhile isLast) :
    judge w confirm' refute' expire' (rest.map Prediction.lift) (kept.map Prediction.lift) s.lift =
      ((judge v confirm refute expire rest kept s).1.lift,
        (judge v confirm refute expire rest kept s).2) := by
  induction rest generalizing kept s with
  | nil =>
    have hkept : { s.lift with pending := kept.map Prediction.lift } =
        ({ s with pending := kept } : Predictor Char).lift := rfl
    rw [List.map_nil, judge, judge, hkept, hexpire]
  | cons p rest ih =>
    rw [List.map_cons, judge, judge, hv, hw]
    cases hdue : isDue p with
    | false =>
      rw [List.filter_cons_of_neg (by simp [hdue])] at h
      have hkept : kept.map Prediction.lift ++ [p.lift] = (kept ++ [p]).map Prediction.lift := by
        rw [List.map_append]
        rfl
      have hnext := ih (kept ++ [p]) s h
      rw [← hkept] at hnext
      exact hnext
    | true =>
      rw [List.filter_cons_of_pos hdue, List.takeWhile_cons, List.takeWhile_cons] at h
      cases hfirst : isFirst p <;> cases hlast : isLast p <;> rw [hfirst, hlast] at h
      · exact Prod.ext (hrefute s) rfl
      · cases h
      · cases h
      · have hnext := ih kept (confirm s p) (List.cons.inj h).2
        rw [← hconfirm] at hnext
        have hstate := congrArg Prod.fst hnext
        have hverdicts := congrArg Prod.snd hnext
        exact Prod.ext hstate (congrArg (true :: ·) hverdicts)

end Judging

variable (policy : Policy)
variable (remote : Bool)

theorem step_lift {s : Predictor Char} {st : Step} (h : Settled s st) :
    Web.step s.lift st = ((Native.step s st).1.lift, (Native.step s st).2) := by
  cases st with
  | input key nowMs => exact Prod.ext (onInput_lift s key nowMs) rfl
  | keyframe => rfl
  | tick nowMs => exact Prod.ext (expire_lift s nowMs) rfl
  | delta delta nowMs =>
    have hstate := (read_lift s delta).1
    have hw := web_verdict s delta
    show Web.reconcile s.lift delta nowMs =
      ((Native.reconcile s delta nowMs).1.lift, (Native.reconcile s delta nowMs).2)
    unfold Web.reconcile Native.reconcile
    dsimp only
    rw [hstate] at hw ⊢
    refine judge_lift (native_verdict s delta) hw ?_ ?_ ?_ _ [] _ h
    · exact fun s p => confirm_lift s nowMs p.madeAt
    · exact refute_lift
    · exact fun s => expire_lift s nowMs

theorem settled_of_verdicts {s : Predictor Char} {st : Step}
    (h : (Web.step s.lift st).2 = (Native.step s st).2) : Settled s st := by
  cases st with
  | input | keyframe | tick => trivial
  | delta delta nowMs =>
    have hstate := (read_lift s delta).1
    have hw := web_verdict s delta
    have hverdicts : (Web.reconcile s.lift delta nowMs).2 = (Native.reconcile s delta nowMs).2 := h
    unfold Web.reconcile Native.reconcile at hverdicts
    dsimp only at hverdicts
    rw [hstate] at hverdicts hw
    exact judge_same_verdicts (native_verdict s delta) hw _ _ _ _ _ hverdicts

/-! ## Whole runs -/

/-- What the two sides show, and the verdicts they came to. -/
structure Same (n : Predictor Char × List Bool) (w : Predictor Str × List Bool) : Prop where
  pending : w.1.pending = n.1.pending.map Prediction.lift
  overlay : Web.overlay w.1 = (Native.overlay n.1).map Prediction.lift
  verdicts : w.2 = n.2

/-- After every step of a run both sides show the same. -/
def Together (policy : Policy) (remote : Bool) (steps : List Step) : Prop :=
  ∀ run st, run ++ [st] <+: steps →
    Same (Native.step (Native.after (.new policy remote) run) st)
      (Web.step (Web.after (.new policy remote) run) st)

/-- On either side a refuted guess leaves none pending. -/
def Flushes (policy : Policy) (remote : Bool) (steps : List Step) : Prop :=
  ∀ run st, run ++ [st] <+: steps →
    (false ∈ (Native.step (Native.after (.new policy remote) run) st).2 →
        (Native.after (.new policy remote) (run ++ [st])).pending = []) ∧
      (false ∈ (Web.step (Web.after (.new policy remote) run) st).2 →
        (Web.after (.new policy remote) (run ++ [st])).pending = [])

/-- The rows of the grid after a run, which starts on one. -/
def gridRows (run : List Step) : Nat := run.foldl rowsAfter 1

/-- The host's cursor stays on its grid in a whole run. -/
def AllHosted (run : List Step) : Prop :=
  ∀ before st, before ++ [st] <+: run → Hosted (gridRows before) st

/-- On either side the pending cells are a line inside the grid. -/
def OnLine (policy : Policy) (remote : Bool) (steps : List Step) : Prop :=
  ∀ run, run <+: steps →
    (Line (Native.after (.new policy remote) run) ∧ Line (Web.after (.new policy remote) run)) ∧
      (AllHosted run →
        Inside (gridRows run) (Native.after (.new policy remote) run) ∧
          Inside (gridRows run) (Web.after (.new policy remote) run))

theorem line_new {G : Type} :
    Line (.new policy remote : Predictor G) := ⟨List.isChain_nil, nofun⟩

theorem inside_new {G : Type} :
    Inside 1 (.new policy remote : Predictor G) := ⟨Nat.one_pos, nofun⟩

theorem inside_after {run : List Step} (h : AllHosted run) :
    Inside (gridRows run) (Native.after (.new policy remote) run) ∧
      Inside (gridRows run) (Web.after (.new policy remote) run) := by
  induction run using List.reverseRecOn with
  | nil => exact ⟨inside_new policy remote, inside_new policy remote⟩
  | append_singleton run st ih =>
    obtain ⟨hnative, hweb⟩ := ih fun before st' hbefore =>
      h before st' (hbefore.trans (List.prefix_append run [st]))
    have hst := h run st List.prefix_rfl
    rw [gridRows, List.foldl_append, Native.after_snoc, Web.after_snoc]
    exact ⟨Native.stepping.inside (Native.stepping.line (line_new policy remote) run) hnative hst,
      Web.stepping.inside (Web.stepping.line (line_new policy remote) run) hweb hst⟩

theorem onLine (steps : List Step) :
    OnLine policy remote steps := fun run _ =>
  ⟨⟨Native.stepping.line (line_new policy remote) run,
    Web.stepping.line (line_new policy remote) run⟩,
    inside_after policy remote⟩

theorem flushes (steps : List Step) : Flushes policy remote steps := by
  intro run st _
  rw [Native.after_snoc, Web.after_snoc]
  exact ⟨Native.stepping.refuted _ st, Web.stepping.refuted _ st⟩

/-- While every step is settled the browser's state is the native one. -/
theorem after_lift {steps : List Step}
    (h : ∀ run st, run ++ [st] <+: steps → Settled (Native.after (.new policy remote) run) st) :
    Web.after (.new policy remote) steps = (Native.after (.new policy remote) steps).lift := by
  induction steps using List.reverseRecOn with
  | nil => rfl
  | append_singleton steps st ih =>
    have hbefore := ih fun run st' hrun =>
      h run st' (hrun.trans (List.prefix_append steps [st]))
    rw [Native.after_snoc, Web.after_snoc, hbefore, step_lift (h steps st List.prefix_rfl)]

theorem together_of_settled {policy : Policy} {remote : Bool} {steps : List Step}
    (h : ∀ run st, run ++ [st] <+: steps →
      Settled (Native.after (.new policy remote) run) st) : Together policy remote steps := by
  intro run st hrun
  have hlift := after_lift policy remote fun run' st' hrun' =>
    h run' st' (hrun'.trans ((List.prefix_append run [st]).trans hrun))
  rw [hlift, step_lift (h run st hrun)]
  exact ⟨rfl, overlay_lift _, rfl⟩

theorem settled_of_together {policy : Policy} {remote : Bool} {steps : List Step}
    (h : Together policy remote steps) : ∀ run st, run ++ [st] <+: steps →
      Settled (Native.after (.new policy remote) run) st := by
  induction steps using List.reverseRecOn with
  | nil =>
    intro run st hrun
    exact absurd (List.prefix_nil.mp hrun) (by simp)
  | append_singleton steps st ih =>
    have hbefore := ih fun run st' hrun => h run st' (hrun.trans (List.prefix_append steps [st]))
    intro run st' hrun
    rcases List.prefix_concat_iff.mp hrun with heq | hshort
    · obtain ⟨rfl, hst⟩ := List.append_inj' heq rfl
      obtain rfl : st' = st := by simpa using hst
      have hverdicts := (h run st' List.prefix_rfl).verdicts
      rw [after_lift policy remote hbefore] at hverdicts
      exact settled_of_verdicts hverdicts
    · exact hbefore run st' hshort

/-- A prompt's row as a delta carries it. -/
def promptRow (text : Str) : DeltaOp :=
  .row 0 ⟨0, [⟨0, text.length, text, []⟩], false⟩

/-- One key at the top of a grid. -/
def typed : List Step :=
  [.keyframe ⟨0, 0, true, 0⟩ 24 80 false, .input (.printable 'a') 0]

/-- Its echo, in a delta that first writes the row without it. -/
def writtenTwice : Step :=
  .delta ⟨[], [promptRow [' '], promptRow ['a'], .cursor ⟨0, 1, true, 0⟩], []⟩ 50

end Predict

end Zesterm
