/-
Zesterm.Proto.EncodeTheorems — what one encoder sends.

Interning only ever adds to the attribute table (`Encoder.Extends`), so a row
encoded once is encoded the same way ever after: `payloadOf` is the row on
the wire as a function of the table alone, and `encodeRows_eq` says that
the encoder computes it, with the table it leaves or any later one. The
row ops of a delta are `Shadow.diff` of the encoder's shadow and the rows
it encodes (`rowOps_eq`).
-/
import Zesterm.Proto.Encode
import Zesterm.Core.TerminalTheorems
import Zesterm.Lib.Shadow

namespace Zesterm

namespace Encoder

/-! ## Interning -/

/-- The id an attribute has been interned under. -/
def lookup (e : Encoder) (key : AttrKey) : Option AttrId :=
  (e.attrs.find? fun p => p.1 == key).map Prod.snd

/-- The id of an attribute, where it has one. -/
def keyId (e : Encoder) (key : AttrKey) : AttrId := (e.lookup key).getD 0

/-- `e'` has interned everything `e` has, under the same ids. -/
def Extends (e e' : Encoder) : Prop := ∃ more, e'.attrs = e.attrs ++ more

namespace Extends

theorem of_eq {e e' : Encoder} (h : e'.attrs = e.attrs) : e.Extends e' := ⟨[], by simp [h]⟩

theorem trans {e e' e'' : Encoder} (h : e.Extends e') (h' : e'.Extends e'') : e.Extends e'' := by
  obtain ⟨more, hm⟩ := h
  obtain ⟨more', hm'⟩ := h'
  exact ⟨more ++ more', by rw [hm', hm, List.append_assoc]⟩

/-- What is interned stays interned, under the same id. -/
theorem lookup {e e' : Encoder} (h : e.Extends e') {key : AttrKey} {id : AttrId}
    (hk : e.lookup key = some id) : e'.lookup key = some id := by
  obtain ⟨more, hm⟩ := h
  unfold Encoder.lookup at hk ⊢
  obtain ⟨p, hp, rfl⟩ := Option.map_eq_some_iff.mp hk
  rw [hm, List.find?_append, hp]
  rfl

end Extends

/-- `e'` is `e` after interning. -/
structure Grows (e e' : Encoder) : Prop where
  attrs : e.Extends e'
  seen : e'.seen = e.seen
  seenBlocks : e'.seenBlocks = e.seenBlocks
  cursor : e'.cursor = e.cursor
  modes : e'.modes = e.modes
  title : e'.title = e.title

namespace Grows

theorem refl (e : Encoder) : e.Grows e := ⟨Extends.of_eq rfl, rfl, rfl, rfl, rfl, rfl⟩

theorem trans {e e' e'' : Encoder} (h : e.Grows e') (h' : e'.Grows e'') : e.Grows e'' :=
  ⟨h.attrs.trans h'.attrs, h'.seen.trans h.seen, h'.seenBlocks.trans h.seenBlocks,
    h'.cursor.trans h.cursor, h'.modes.trans h.modes, h'.title.trans h.title⟩

end Grows

variable {e e' : Encoder}

theorem attr_of_lookup {c : Cell} {id : AttrId} (h : e.lookup c.attrKey = some id) :
    e.attr c = (id, e) := by
  unfold attr
  rw [show (e.attrs.find? fun p => p.1 == c.attrKey).map Prod.snd = some id from h]

theorem attr_spec (e : Encoder) (c : Cell) :
    e.Grows (e.attr c).2 ∧ (e.attr c).2.lookup c.attrKey = some (e.attr c).1 := by
  cases h : e.lookup c.attrKey with
  | some id =>
    rw [attr_of_lookup h]
    exact ⟨Grows.refl e, h⟩
  | none =>
    have hfind : e.attrs.find? (fun p => p.1 == c.attrKey) = none := by
      simpa [lookup] using h
    unfold attr
    rw [show (e.attrs.find? fun p => p.1 == c.attrKey).map Prod.snd = none from h]
    refine ⟨⟨⟨_, rfl⟩, rfl, rfl, rfl, rfl, rfl⟩, ?_⟩
    simp [lookup, List.find?_append, hfind]

/-! ## Rows on the wire -/

/-- A stretch of cells as a run, the attribute read from a table. -/
def runOf (ids : AttrKey → AttrId) (row : Row) (run : List Cell) : Run :=
  toRun row (ids (run.headD Cell.blank).attrKey) run

/-- A row as it stands on the wire, the attributes read from a table. -/
def payloadOf (ids : AttrKey → AttrId) (row : Row) : RowPayload :=
  { line := wireLine row.id
    runs := (splitRuns (sentCells row)).map (runOf ids row)
    wrapped := row.wrapped }

/-- Every stretch's attribute is interned. -/
def KnowsRuns (e : Encoder) (runs : List (List Cell)) : Prop :=
  ∀ run ∈ runs, (e.lookup (run.headD Cell.blank).attrKey).isSome

/-- Every attribute of a row is interned. -/
def Knows (e : Encoder) (row : Row) : Prop := e.KnowsRuns (splitRuns (sentCells row))

theorem Extends.keyId (h : e.Extends e') {key : AttrKey} (hk : (e.lookup key).isSome) :
    e'.keyId key = e.keyId key := by
  obtain ⟨id, hid⟩ := Option.isSome_iff_exists.mp hk
  unfold Encoder.keyId
  rw [hid, h.lookup hid]

theorem Extends.knows (h : e.Extends e') {row : Row} (hk : e.Knows row) : e'.Knows row := by
  intro run hrun
  obtain ⟨id, hid⟩ := Option.isSome_iff_exists.mp (hk run hrun)
  rw [h.lookup hid]
  rfl

/-- A row whose attributes are interned reads the same in any later table. -/
theorem Extends.payloadOf (h : e.Extends e') {row : Row} (hk : e.Knows row) :
    Encoder.payloadOf e'.keyId row = Encoder.payloadOf e.keyId row := by
  unfold Encoder.payloadOf
  congr 1
  refine List.map_congr_left fun run hrun => ?_
  unfold runOf
  rw [h.keyId (hk run hrun)]

theorem encodeRuns_spec (row : Row) :
    ∀ (runs : List (List Cell)) (e : Encoder),
      e.Grows (encodeRuns row runs e).2 ∧ (encodeRuns row runs e).2.KnowsRuns runs ∧
        (encodeRuns row runs e).1 = runs.map (runOf (encodeRuns row runs e).2.keyId row)
  | [], e => ⟨Grows.refl e, fun _ h => by simp at h, rfl⟩
  | run :: runs, e => by
    obtain ⟨hattr, hid⟩ := attr_spec e (run.headD Cell.blank)
    obtain ⟨hrest, hknown, heq⟩ := encodeRuns_spec row runs (e.attr (run.headD Cell.blank)).2
    have hid' := hrest.attrs.lookup hid
    unfold encodeRuns
    dsimp only
    refine ⟨hattr.trans hrest, fun r hr => ?_, ?_⟩
    · rcases List.mem_cons.mp hr with rfl | hr
      · rw [hid']; rfl
      · exact hknown r hr
    · rw [List.map_cons, ← heq]
      congr 1
      unfold runOf keyId
      rw [hid']
      rfl

theorem encodeRuns_of_knows (row : Row) :
    ∀ (runs : List (List Cell)) (e : Encoder), e.KnowsRuns runs →
      encodeRuns row runs e = (runs.map (runOf e.keyId row), e)
  | [], _, _ => rfl
  | run :: runs, e, h => by
    obtain ⟨id, hid⟩ := Option.isSome_iff_exists.mp (h run (by simp))
    unfold encodeRuns
    rw [attr_of_lookup hid]
    dsimp only
    rw [encodeRuns_of_knows row runs e fun r hr => h r (by simp [hr])]
    have : e.keyId (run.headD Cell.blank).attrKey = id := by unfold keyId; rw [hid]; rfl
    rw [List.map_cons, runOf, this]

/-- One row encoded: the table grows to know it, and what is sent is the
row read in that table. -/
theorem encodeRow_spec (e : Encoder) (row : Row) :
    e.Grows (e.encodeRow row).2 ∧ (e.encodeRow row).2.Knows row ∧
      (e.encodeRow row).1 = payloadOf (e.encodeRow row).2.keyId row := by
  obtain ⟨hg, hk, heq⟩ := encodeRuns_spec row (splitRuns (sentCells row)) e
  refine ⟨hg, hk, ?_⟩
  unfold encodeRow payloadOf
  dsimp only
  rw [heq]

theorem encodeRow_of_knows {row : Row} (h : e.Knows row) :
    e.encodeRow row = (payloadOf e.keyId row, e) := by
  unfold encodeRow payloadOf
  rw [encodeRuns_of_knows row _ e h]

theorem encodeRows_spec :
    ∀ (rows : List Row) (e : Encoder),
      e.Grows (encodeRows rows e).2 ∧ (∀ r ∈ rows, (encodeRows rows e).2.Knows r) ∧
        (encodeRows rows e).1 = rows.map (payloadOf (encodeRows rows e).2.keyId)
  | [], e => ⟨Grows.refl e, by simp, rfl⟩
  | row :: rows, e => by
    obtain ⟨hrow, hknows, heq⟩ := encodeRow_spec e row
    obtain ⟨hrest, hknown, hmap⟩ := encodeRows_spec rows (e.encodeRow row).2
    unfold encodeRows
    dsimp only
    refine ⟨hrow.trans hrest, fun r hr => ?_, ?_⟩
    · rcases List.mem_cons.mp hr with rfl | hr
      · exact hrest.attrs.knows hknows
      · exact hknown r hr
    · rw [List.map_cons, ← hmap, heq, hrest.attrs.payloadOf hknows]

/-- Rows whose attributes are all interned are encoded without a change. -/
theorem encodeRows_of_knows :
    ∀ (rows : List Row) (e : Encoder), (∀ r ∈ rows, e.Knows r) →
      encodeRows rows e = (rows.map (payloadOf e.keyId), e)
  | [], _, _ => rfl
  | row :: rows, e, h => by
    unfold encodeRows
    rw [encodeRow_of_knows (h row (by simp))]
    dsimp only
    rw [encodeRows_of_knows rows e fun r hr => h r (by simp [hr])]
    rfl

/-- Encoding again is encoding the same. -/
theorem encodeRows_again (rows : List Row) (e : Encoder) (h : (encodeRows rows e).2.Extends e') :
    (encodeRows rows e').1 = (encodeRows rows e).1 := by
  obtain ⟨_, hk, heq⟩ := encodeRows_spec rows e
  rw [encodeRows_of_knows rows e' fun r hr => h.knows (hk r hr), heq]
  exact List.map_congr_left fun r hr => h.payloadOf (hk r hr)

theorem length_encodeRows (rows : List Row) (e : Encoder) :
    (encodeRows rows e).1.length = rows.length := by
  rw [(encodeRows_spec rows e).2.2, List.length_map]

theorem lines_encodeRows (rows : List Row) (e : Encoder) :
    (encodeRows rows e).1.map RowPayload.line = rows.map fun r => wireLine r.id := by
  rw [(encodeRows_spec rows e).2.2, List.map_map]
  rfl

@[simp] theorem length_activeRows (g : Grid) : (activeRows g).length = g.rows := by
  simp [activeRows]

/-! ## What a delta is made of -/

@[simp] theorem length_resizeSeen (rows : List RowPayload) (n : Nat) :
    (resizeSeen rows n).length = n := by
  simp [resizeSeen]
  omega

/-- The row ops of a delta are the places where the shadow is out of date. -/
theorem rowOps_eq (seen fresh : List RowPayload) :
    rowOps seen fresh =
      (Shadow.diff seen fresh).map fun p => DeltaOp.row (wireU16 p.1) p.2 := by
  unfold rowOps Shadow.diff
  rw [List.map_filterMap]
  congr 1
  funext p
  dsimp only
  split
  · rfl
  · rfl

/-- What a scroll distance is: how far the top line moved, when that is
down by less than the shadow's height. -/
theorem scrollDistance_eq_some {seen : List RowPayload} {grid : Grid} {n : Nat}
    (h : scrollDistance seen grid = some n) :
    0 < n ∧ n < seen.length ∧ ∃ first, seen.head? = some first ∧
      wireLine (grid.activeRow 0).id = first.line + n := by
  unfold scrollDistance at h
  split at h
  · simp at h
  · next first hfirst =>
    dsimp only at h
    split at h
    · next hmoved =>
      have hn := Option.some.inj h
      exact ⟨by omega, by omega, first, hfirst, by omega⟩
    · simp at h

/-- The scroll of a delta, if it has one. -/
def scrolledOps (seen : List RowPayload) (grid : Grid) : List DeltaOp :=
  match scrollDistance seen grid with
  | some n => scrollOps seen n
  | none => []

/-- The shadow a delta's rows are compared with: moved by the scroll, and
of the new number of rows. -/
def shiftedSeen (seen : List RowPayload) (grid : Grid) : List RowPayload :=
  let shifted :=
    match scrollDistance seen grid with
    | some n => resizeSeen (seen.drop n) grid.rows
    | none => seen
  if grid.rows ≠ shifted.length then resizeSeen shifted grid.rows else shifted

/-- The ops that follow the rows. -/
def closingOps (e : Encoder) (cursor : CursorState) (title : Str) : List DeltaOp :=
  (if cursor ≠ e.cursor then [.cursor cursor] else []) ++
    (if title ≠ e.title then [.title title] else [])

/-- The rows of a grid as an encoder leaves them. -/
def freshRows (e : Encoder) (grid : Grid) : List RowPayload × Encoder :=
  encodeRows (activeRows grid) e

theorem grows_freshRows (e : Encoder) (grid : Grid) : e.Grows (e.freshRows grid).2 :=
  (encodeRows_spec _ e).1

theorem length_freshRows (e : Encoder) (grid : Grid) :
    (e.freshRows grid).1.length = grid.rows := by
  rw [freshRows, length_encodeRows, length_activeRows]

/-- Encoding a grid again, with the table the first time left. -/
theorem freshRows_again (e e' : Encoder) (grid : Grid)
    (h : e'.attrs = (e.freshRows grid).2.attrs) :
    (e'.freshRows grid).1 = (e.freshRows grid).1 :=
  encodeRows_again _ _ (Extends.of_eq h)

variable (e : Encoder) (grid : Grid) (cursor : CursorState) (modes : Modes) (title : Str)
  (blocks : BlockIndex)

theorem seen_delta :
    (e.delta grid cursor modes title blocks).2.seen =
      (({ e with modes := modes } : Encoder).freshRows grid).1 := rfl

theorem ops_delta :
    (e.delta grid cursor modes title blocks).1.ops =
      switchOps e.modes modes ++ scrolledOps e.seen grid ++
        rowOps (shiftedSeen e.seen grid) (({ e with modes := modes } : Encoder).freshRows grid).1 ++
        closingOps e cursor title := by
  have hg := grows_freshRows ({ e with modes := modes } : Encoder) grid
  have hl := length_freshRows ({ e with modes := modes } : Encoder) grid
  have hcursor : (({ e with modes := modes } : Encoder).freshRows grid).2.cursor = e.cursor :=
    hg.cursor
  have htitle : (({ e with modes := modes } : Encoder).freshRows grid).2.title = e.title := hg.title
  unfold delta closingOps shiftedSeen scrolledOps
  dsimp only
  rw [show encodeAllRows ({ e with modes := modes } : Encoder) grid =
    ({ e with modes := modes } : Encoder).freshRows grid from rfl, hcursor, htitle]
  simp only [hl, List.append_assoc]
  all_goals rfl

/-! ## The ops of a delta, one by one -/

/-- What an op of a delta can be: a scroll, a line of the shadow filed as
history, a fresh row at its place, or something that is no row. -/
inductive Sends (e : Encoder) (grid : Grid) (fresh : List RowPayload) : DeltaOp → Prop where
  | switch {op : DeltaOp} (h : op.isSwitch = true) : Sends e grid fresh op
  | scroll {n : Nat} (h : scrollDistance e.seen grid = some n) :
      Sends e grid fresh (.scroll 0 (wireU16 (e.seen.length - 1)) (wireI16 n))
  | push {p : RowPayload} (h : p ∈ e.seen) : Sends e grid fresh (.sbPush p)
  | row {i : Nat} {p : RowPayload} (h : fresh[i]? = some p) :
      Sends e grid fresh (.row (wireU16 i) p)
  | cursor (c : CursorState) : Sends e grid fresh (.cursor c)
  | title (t : Str) : Sends e grid fresh (.title t)

theorem isSwitch_of_mem_switchOps {old new : Modes} {op : DeltaOp} (h : op ∈ switchOps old new) :
    op.isSwitch = true := by
  unfold switchOps at h
  rcases List.mem_append.mp h with h | h
  · split at h
    · obtain rfl := List.mem_singleton.mp h
      rfl
    · simp at h
  · split at h
    · obtain rfl := List.mem_singleton.mp h
      rfl
    · simp at h

theorem sends_of_mem_delta {op : DeltaOp}
    (h : op ∈ (e.delta grid cursor modes title blocks).1.ops) :
    Sends e grid (({ e with modes := modes } : Encoder).freshRows grid).1 op := by
  rw [ops_delta] at h
  rcases List.mem_append.mp h with h | h
  · rcases List.mem_append.mp h with h | h
    · rcases List.mem_append.mp h with h | h
      · exact .switch (isSwitch_of_mem_switchOps h)
      · unfold scrolledOps at h
        split at h
        · next n hn =>
          rcases List.mem_cons.mp h with rfl | h
          · exact .scroll hn
          · obtain ⟨p, hp, rfl⟩ := List.mem_map.mp h
            exact .push (List.mem_of_mem_take hp)
        · simp at h
    · rw [rowOps_eq] at h
      obtain ⟨⟨i, p⟩, hp, rfl⟩ := List.mem_map.mp h
      exact .row (Shadow.getElem?_of_mem_diff hp)
  · unfold closingOps at h
    rcases List.mem_append.mp h with h | h
    · split at h
      · obtain rfl := List.mem_singleton.mp h
        exact .cursor _
      · simp at h
    · split at h
      · obtain rfl := List.mem_singleton.mp h
        exact .title _
      · simp at h

end Encoder

end Zesterm
