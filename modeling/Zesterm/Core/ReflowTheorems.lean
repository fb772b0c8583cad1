/-
Zesterm.Core.ReflowTheorems — the text a rewrap keeps.

Cells are compared up to what a move may change of them (`Item.bare`): the
index into the side table of their row and the `WRAPLINE` mark of the last
column. A logical line that is `Whole` at the new width, with no wide
character on the last column and no mark of an old wrap left there, breaks
into full rows (`Whole.exact`) that wrap into one another and hold its
cells in order (`items_lay`). So a rewrap comes out as the logical lines
that went in (`groupLines_rewrapFrom`), each with its text: that is
`logicalText_resize`.
-/
import Zesterm.Core.RewrapTheorems
import Zesterm.Core.MarkTheorems

namespace Zesterm

/-! ## Flags and marks -/

namespace CellFlags

/-- Taking `WRAPLINE` off leaves every other flag. -/
theorem contains_remove_wrapline (a b : CellFlags) (h : ~~~wrapline.bits &&& b.bits = b.bits) :
    (a.remove wrapline).contains b = a.contains b := by
  unfold remove contains
  dsimp only
  rw [BitVec.and_assoc, h]

theorem intersects_remove_wrapline (a b : CellFlags) (h : ~~~wrapline.bits &&& b.bits = b.bits) :
    (a.remove wrapline).intersects b = a.intersects b := by
  unfold remove intersects
  dsimp only
  rw [BitVec.and_assoc, h]

/-- Setting `WRAPLINE` is forgotten when it is taken off. -/
theorem remove_set_wrapline (a : CellFlags) (on : Bool) :
    (a.set wrapline on).remove wrapline = a.remove wrapline := by
  cases on <;> simp only [set, union, remove, if_true, if_false, Bool.false_eq_true, mk.injEq] <;>
    ext i hi <;> simp only [BitVec.getElem_and, BitVec.getElem_or, BitVec.getElem_not] <;>
    cases a.bits[i] <;> cases wrapline.bits[i] <;> rfl

end CellFlags

namespace Item

/-- A cell without what a move may change of it. -/
def bare (x : Item) : Item :=
  ({ x.1 with extra := noExtra, flags := x.1.flags.remove .wrapline }, x.2)

/-- The characters a cell contributes, combining marks included. -/
def text (x : Item) : Str :=
  if x.1.flags.contains .wideSpacer then []
  else x.1.ch :: (x.2.map CellExtra.zerowidth).getD []

/-- A trailing cell that a row does not count. -/
def isPadding (x : Item) : Bool := x.2.isNone && ({ x.1 with extra := noExtra } : Cell).isPadding

/-- The cell of a new row. -/
def blank : Item := (Cell.blank, none)

theorem text_bare (x : Item) : x.bare.text = x.text := by
  unfold text bare
  dsimp only
  rw [CellFlags.contains_remove_wrapline _ _ (by decide)]

theorem isPadding_bare (x : Item) : x.bare.isPadding = x.isPadding := by
  unfold isPadding bare Cell.isPadding Cell.isBlank
  dsimp only
  rw [CellFlags.intersects_remove_wrapline _ _ (by decide)]

theorem edge_bare (newCols : Nat) (x : Item) : edge newCols x.bare = edge newCols x := by
  unfold edge bare
  dsimp only
  rw [CellFlags.contains_remove_wrapline _ _ (by decide)]

/-- Padding has no text but blanks. -/
theorem text_of_isPadding {x : Item} (h : x.isPadding = true) :
    ∀ c ∈ x.text, c = ' ' ∨ c = '\x00' := by
  simp only [isPadding, Cell.isPadding, Cell.isBlank, Bool.and_eq_true, Bool.or_eq_true,
    beq_iff_eq] at h
  obtain ⟨hnone, ⟨⟨hch, _⟩, _⟩, _⟩ := h
  intro c hc
  unfold text at hc
  rw [Option.isNone_iff_eq_none.mp hnone] at hc
  split at hc
  · simp at hc
  · have : c = x.1.ch := by simpa using hc
    rw [this]
    exact hch

end Item

/-! ## Rows -/

namespace Row

/-- The cells of a row, each with its own side data. -/
def items (r : Row) : List Item := r.cells.map fun c => (c, r.extra c)

@[simp] theorem length_items (r : Row) : r.items.length = r.cells.length := by simp [items]

theorem items_new (newCols : Nat) (id : LineId) :
    (Row.new newCols id).items = List.replicate newCols Item.blank := by
  simp [items, Row.new, Row.extra, Item.blank, Cell.blank]

/-- A longer side table answers for the cells of a shorter one. -/
theorem extra_append {r : Row} {c : Cell} (h : c.extra = noExtra ∨ c.extra < r.extras.length)
    (cells : List Cell) (e : CellExtra) :
    ({ r with cells := cells, extras := r.extras ++ [e] } : Row).extra c = r.extra c := by
  unfold extra
  rcases h with h | h
  · simp [h]
  · split
    · rfl
    · exact List.getElem?_append_left h

/-- What attaching a cell makes of a row. -/
structure Attached (r r' : Row) (col : Nat) (x : Item) : Prop where
  items : r'.items.map Item.bare = (r.items.map Item.bare).set col x.bare
  flags : r'.cells.map Cell.flags = (r.cells.map Cell.flags).set col x.1.flags
  tidy : r'.Tidy
  extras : r'.extras.length ≤ r.extras.length + 1

/-- Attaching a cell changes that one place. -/
theorem attached_attach {r : Row} (ht : r.Tidy) {col : Nat} (hc : col < r.cells.length)
    (he : r.extras.length < noExtra) (x : Item) : r.Attached (r.attach col x.1 x.2) col x := by
  obtain ⟨cell, extra?⟩ := x
  cases extra? with
  | none =>
    have hr : r.attach col cell none =
        { r with cells := r.cells.set col { cell with extra := noExtra } } := by
      unfold attach
      rw [if_pos hc]
    rw [hr]
    refine ⟨?_, by simp [List.map_set], fun c hmem => ?_, Nat.le_succ _⟩
    · simp only [Row.items, List.map_set]
      rfl
    · rcases List.mem_or_eq_of_mem_set hmem with hmem | rfl
      · exact ht c hmem
      · exact Or.inl rfl
  | some e =>
    have hr : r.attach col cell (some e) =
        { r with
          cells := r.cells.set col { cell with extra := r.extras.length }
          extras := r.extras ++ [e] } := by
      unfold attach
      rw [if_pos hc]
      dsimp only
      rw [if_pos he]
    rw [hr]
    refine ⟨?_, by simp [List.map_set], fun c hmem => ?_, by simp⟩
    · simp only [Row.items, List.map_set, List.map_map]
      have hnew : ({ r with
          cells := r.cells.set col { cell with extra := r.extras.length }
          extras := r.extras ++ [e] } : Row).extra { cell with extra := r.extras.length } =
            some e := by
        have hne : (r.extras.length == noExtra) = false := by
          simp only [beq_eq_false_iff_ne]
          omega
        simp only [Row.extra, hne, Bool.false_eq_true, if_false, List.getElem?_concat_length]
      rw [List.map_congr_left fun c hmem => by
        show Item.bare (c, Row.extra _ c) = Item.bare (c, r.extra c)
        rw [extra_append (ht c hmem)]]
      rw [hnew]
      rfl
    · rcases List.mem_or_eq_of_mem_set hmem with hmem | rfl
      · rcases ht c hmem with h | h
        · exact Or.inl h
        · exact Or.inr (by simp; omega)
      · exact Or.inr (by simp)

/-- A row filled from its first column: the cells, and blanks after them. -/
structure Filled (newCols : Nat) (xs : List Item) (r : Row) : Prop where
  items : r.items.map Item.bare =
    xs.map Item.bare ++ List.replicate (newCols - xs.length) Item.blank
  flags : r.cells.map Cell.flags =
    xs.map (·.1.flags) ++ List.replicate (newCols - xs.length) CellFlags.empty
  tidy : r.Tidy
  extras : r.extras.length ≤ xs.length

theorem filled_fill {newCols : Nat} (hn : newCols ≤ noExtra) (id : LineId) (items : List Item)
    (h : items.length ≤ newCols) : Filled newCols items (fill newCols id items) := by
  induction items using List.reverseRecOn with
  | nil =>
    refine ⟨?_, ?_, ?_, Nat.le_refl _⟩
    · show (Row.new newCols id).items.map Item.bare = _
      have hblank : Item.blank.bare = Item.blank := by decide
      rw [items_new, List.map_replicate, hblank]
      rfl
    · show (List.replicate newCols Cell.blank).map Cell.flags = _
      rw [List.map_replicate]
      rfl
    · intro c hc
      exact Or.inl (by rw [List.eq_of_mem_replicate hc]; rfl)
  | append_singleton items x ih =>
    rw [List.length_append, List.length_singleton] at h
    have ih := ih (by omega)
    have hlen := (fill_id_length newCols id items).2
    have hset {γ : Type} (l : List γ) (b y : γ) (hl : l.length = items.length) :
        (l ++ List.replicate (newCols - items.length) b).set items.length y =
          l ++ [y] ++ List.replicate (newCols - (items.length + 1)) b := by
      rw [show newCols - items.length = newCols - (items.length + 1) + 1 by omega,
        List.replicate_succ, ← hl]
      simp
    have hcol : items.length < (Row.fill newCols id items).cells.length := by omega
    have hatt := attached_attach ih.tidy hcol (by have := ih.extras; omega) x
    rw [fill_snoc]
    refine ⟨?_, ?_, hatt.tidy, ?_⟩
    · rw [hatt.items, ih.items, hset _ _ _ (List.length_map _), List.map_append, List.length_append]
      rfl
    · rw [hatt.flags, ih.flags, hset _ _ _ (List.length_map _), List.map_append, List.length_append]
      rfl
    · rw [List.length_append, List.length_singleton]
      exact hatt.extras.trans (Nat.succ_le_succ ih.extras)

/-- Marking a row as wrapped changes no text. -/
theorem items_setWrapped (r : Row) (on : Bool) :
    (r.setWrapped on).items.map Item.bare = r.items.map Item.bare := by
  simp only [items, List.map_map]
  refine Storage.map_modify_of_eq _ _ (fun c => ?_) _ _
  simp only [Function.comp_apply, Item.bare, CellFlags.remove_set_wrapline]
  rfl

/-! ## Content -/

/-- A wrapped row is content to its last column. -/
theorem content_of_wrapped {r : Row} (h : r.wrapped = true) : r.content = r.items := by
  have hend : r.contentEnd = r.cells.length := by
    unfold contentEnd len
    rw [h]
    simp
  unfold content items
  rw [hend, List.take_length]

/-- What a row does not contribute is padding. -/
theorem items_eq_content (r : Row) :
    ∃ rest, r.items = r.content ++ rest ∧ ∀ x ∈ rest, x.isPadding = true := by
  refine ⟨(r.cells.drop r.contentEnd).map fun c => (c, r.extra c), ?_, fun x hx => ?_⟩
  · rw [content, ← List.map_append, List.take_append_drop]
    rfl
  · by_cases hwrap : r.wrapped = true
    · have hend : r.contentEnd = r.cells.length := by
        unfold contentEnd len
        rw [hwrap]
        simp
      rw [hend, List.drop_length] at hx
      simp at hx
    · obtain ⟨c, hc, rfl⟩ := List.mem_map.mp hx
      have hle : r.trimmedLen ≤ r.contentEnd := by
        unfold contentEnd
        rw [if_neg hwrap]
        dsimp only
        split
        · split <;> omega
        · exact Nat.le_refl _
      have hpad : c.isPadding = true := by
        have hmem : c ∈ r.cells.drop r.trimmedLen := by
          rw [← Nat.add_sub_cancel' hle, ← List.drop_drop] at hc
          exact List.mem_of_mem_drop hc
        have hsplit := List.rdropWhile_append_rtakeWhile (p := Cell.isPadding) (l := r.cells)
        rw [← hsplit, trimmedLen, List.drop_left] at hmem
        exact List.mem_rtakeWhile_imp hmem
      unfold Cell.isPadding Cell.isBlank at hpad
      unfold Item.isPadding Cell.isPadding Cell.isBlank extra
      simp only [Bool.and_eq_true] at hpad ⊢
      obtain ⟨⟨⟨hch, hex⟩, hfl⟩, hbg⟩ := hpad
      rw [hex]
      exact ⟨rfl, ⟨⟨hch, rfl⟩, hfl⟩, hbg⟩

end Row

variable {newCols : Nat} {cells : List Item}

/-! ## Text -/

/-- A character that trailing blanks are made of. -/
def isBlankChar (c : Char) : Bool := c == ' ' || c == '\x00'

/-- The text of some cells, trailing blanks trimmed. -/
def textOf (xs : List Item) : Str := (xs.flatMap Item.text).rdropWhile isBlankChar

/-- The text of a logical line. -/
def lineText (rows : List Row) : Str := textOf (rows.flatMap Row.items)

theorem textOf_bare (xs : List Item) : textOf (xs.map Item.bare) = textOf xs := by
  unfold textOf
  rw [List.flatMap_map]
  simp only [Item.text_bare]

theorem rdropWhile_append_of_forall {α : Type*} (p : α → Bool) (l : List α) :
    ∀ m : List α, (∀ x ∈ m, p x = true) → (l ++ m).rdropWhile p = l.rdropWhile p := by
  intro m
  induction m using List.reverseRecOn with
  | nil => intro _; rw [List.append_nil]
  | append_singleton m x ih =>
    intro h
    rw [← List.append_assoc, List.rdropWhile_concat_pos _ _ _ (h x (by simp))]
    exact ih fun y hy => h y (by simp [hy])

/-- Cells with nothing but blanks in them change no text at its end. -/
theorem textOf_append_blank (xs ys : List Item)
    (h : ∀ y ∈ ys, ∀ c ∈ y.text, c = ' ' ∨ c = '\x00') : textOf (xs ++ ys) = textOf xs := by
  unfold textOf
  rw [List.flatMap_append]
  refine rdropWhile_append_of_forall _ _ _ fun c hc => ?_
  obtain ⟨y, hy, hc⟩ := List.mem_flatMap.mp hc
  unfold isBlankChar
  simpa using h y hy c hc

/-- Every row but the last of a logical line has wrapped. -/
theorem wrapped_of_mem_groupLines : ∀ {rows line : List Row}, line ∈ groupLines rows →
    ∀ r ∈ line.dropLast, r.wrapped = true
  | [], line, h => by simp [groupLines] at h
  | r :: rs, line, h => by
    unfold groupLines at h
    split at h
    · next hw =>
      split at h
      · rw [List.mem_singleton] at h
        simp [h]
      · next l ls hg =>
        have ih {line : List Row} (hl : line ∈ l :: ls) := wrapped_of_mem_groupLines (hg ▸ hl)
        rcases List.mem_cons.mp h with rfl | h
        · intro r' hr'
          cases l with
          | nil => simp at hr'
          | cons a l =>
            rw [List.dropLast_cons_cons] at hr'
            rcases List.mem_cons.mp hr' with rfl | hr'
            · exact hw
            · exact ih (List.mem_cons_self ..) r' hr'
        · exact ih (List.mem_cons_of_mem l h)
    · rcases List.mem_cons.mp h with rfl | h
      · simp
      · exact wrapped_of_mem_groupLines h

/-- Rows that wrap into one that does not are a logical line. -/
theorem groupLines_append {r : Row} (hr : r.wrapped = false) (rows : List Row) :
    ∀ front : List Row, (∀ r ∈ front, r.wrapped = true) →
      groupLines (front ++ r :: rows) = (front ++ [r]) :: groupLines rows
  | [], _ => by
    rw [List.nil_append, groupLines, hr]
    simp
  | a :: front, h => by
    rw [List.cons_append, groupLines, if_pos (h a (by simp)),
      groupLines_append hr rows front fun r hr => h r (by simp [hr])]
    rfl

/-- What a logical line holds beyond its joined cells is padding. -/
theorem items_line : ∀ {line : List Row}, (∀ r ∈ line.dropLast, r.wrapped = true) →
    ∃ rest, line.flatMap Row.items = joinLine line ++ rest ∧ ∀ x ∈ rest, x.isPadding = true
  | [], _ => ⟨[], rfl, by simp⟩
  | [r], _ => by
    obtain ⟨rest, hrest, hpad⟩ := r.items_eq_content
    exact ⟨rest, by simpa [joinLine] using hrest, hpad⟩
  | r :: r' :: line, h => by
    rw [List.dropLast_cons_cons] at h
    obtain ⟨rest, hrest, hpad⟩ := @items_line (r' :: line) fun x hx => h x (by simp [hx])
    refine ⟨rest, ?_, hpad⟩
    unfold joinLine at hrest ⊢
    rw [List.flatMap_cons , hrest, ← Row.content_of_wrapped (h r (by simp)),
      ← List.append_assoc]
    rfl

theorem lineText_eq {line : List Row} (h : ∀ r ∈ line.dropLast, r.wrapped = true) :
    lineText line = textOf (joinLine line) := by
  obtain ⟨rest, hrest, hpad⟩ := items_line h
  unfold lineText
  rw [hrest, textOf_append_blank _ _ fun x hx => Item.text_of_isPadding (hpad x hx)]

/-! ## Whole lines -/

/-- A logical line whose cells can be counted off at a width: no wide
character falls on the last column, nor does the mark of an old wrap at
the end of the line. -/
structure Whole (newCols : Nat) (cells : List Item) : Prop where
  wide : ∀ i x, cells[i]? = some x → x.1.flags.contains .wide = true → (i + 1) % newCols ≠ 0
  mark : ∀ x, cells.getLast? = some x → x.1.flags.contains .wrapline = true →
    cells.length % newCols ≠ 0

theorem Whole.exact (hw : 0 < newCols) (h : Whole newCols cells) :
    Breaking.Exact newCols (broken newCols cells) := by
  refine Breaking.exact_breaks hw [] cells (Nat.zero_le _) fun i x hx he => ?_
  rw [List.length_nil, Nat.zero_add]
  unfold edge at he
  simp only [Bool.and_eq_true] at he
  exact h.wide i x hx he.1

/-- What a row says of its wrap, read off the flags of its cells. -/
theorem wrapped_eq_flags (r : Row) :
    r.wrapped = (r.cells.map Cell.flags).getLast?.any fun f => f.contains .wrapline := by
  unfold Row.wrapped
  rw [List.getLast?_map]
  cases r.cells.getLast? <;> rfl

/-- A row of its own does not wrap, but for a mark left on its last cell. -/
theorem wrapped_fill (hn : newCols ≤ noExtra) {c : List Item} (h : c.length ≤ newCols)
    (hmark : ∀ x, c.getLast? = some x → x.1.flags.contains .wrapline = true →
      c.length % newCols ≠ 0) (id : LineId) : (Row.fill newCols id c).wrapped = false := by
  rw [wrapped_eq_flags, (Row.filled_fill hn id c h).flags]
  rcases Nat.lt_or_eq_of_le h with hlt | heq
  · -- The last column is blank.
    rw [List.getLast?_append, List.getLast?_replicate, if_neg (by omega)]
    rfl
  · rw [heq, Nat.sub_self, List.replicate_zero, List.append_nil, List.getLast?_map]
    cases hl : c.getLast? with
    | none => rfl
    | some x =>
      by_contra hwrap
      have := hmark x hl (by simpa using hwrap)
      rw [heq, Nat.mod_self] at this
      exact this rfl

/-- The mark on the last cell of a line is the one on the last of its rows. -/
theorem mark_tail {c : List Item} (h : c.length = newCols)
    (hmark : ∀ x, (c ++ cells).getLast? = some x → x.1.flags.contains .wrapline = true →
      (c ++ cells).length % newCols ≠ 0) :
    ∀ x, cells.getLast? = some x → x.1.flags.contains .wrapline = true →
      cells.length % newCols ≠ 0 := by
  intro x hx hwrap
  have := hmark x (by rw [List.getLast?_append, hx]; rfl) hwrap
  rwa [List.length_append, h, Nat.add_mod_left] at this

/-- Exact lines are laid in rows that wrap, but for the last. -/
theorem lay_eq_append (hw : 0 < newCols) (hn : newCols ≤ noExtra) :
    ∀ {L : List (List Item)}, Breaking.Exact newCols L →
      (∀ x, L.flatten.getLast? = some x → x.1.flags.contains .wrapline = true →
        L.flatten.length % newCols ≠ 0) →
      ∀ id, ∃ front r, lay newCols id L = front ++ [r] ∧ (∀ r ∈ front, r.wrapped = true) ∧
        r.wrapped = false := by
  intro L hL
  induction hL with
  | @last c h =>
    intro hmark id
    rw [List.flatten_singleton] at hmark
    exact ⟨[], Row.fill newCols id c, rfl, by simp, wrapped_fill hn h hmark id⟩
  | @cons c d l h _ _ ih =>
    intro hmark id
    rw [List.flatten_cons] at hmark
    obtain ⟨front, r, hlay, hfront, hr⟩ := ih (mark_tail h hmark) (id + 1)
    refine ⟨(Row.fill newCols id c).setWrapped true :: front, r, by rw [lay, hlay]; rfl, ?_, hr⟩
    intro a ha
    rcases List.mem_cons.mp ha with rfl | ha
    · exact Row.wrapped_setWrapped (by rw [(Row.fill_id_length newCols id c).2]; exact hw) true
    · exact hfront a ha

/-- The cells of exact lines stand in their rows one after the other. -/
theorem items_lay (hn : newCols ≤ noExtra) : ∀ {L : List (List Item)},
    Breaking.Exact newCols L → ∀ id, ∃ k, ((lay newCols id L).flatMap Row.items).map Item.bare =
      L.flatten.map Item.bare ++ List.replicate k Item.blank := by
  intro L hL
  induction hL with
  | @last c h =>
    intro id
    exact ⟨newCols - c.length, by simpa [lay] using (Row.filled_fill hn id c h).items⟩
  | @cons c d l h hd _ ih =>
    intro id
    obtain ⟨k, hk⟩ := ih (id + 1)
    refine ⟨k, ?_⟩
    have hc := (Row.filled_fill hn id c h.le).items
    rw [h, Nat.sub_self, List.replicate_zero, List.append_nil] at hc
    rw [lay, List.flatMap_cons, List.map_append, Row.items_setWrapped, hc, hk, ← List.append_assoc,
      ← List.map_append]
    rfl

/-- A whole line keeps its text. -/
theorem lineText_lay (hw : 0 < newCols) (hn : newCols ≤ noExtra) (h : Whole newCols cells)
    (id : LineId) : lineText (lay newCols id (broken newCols cells)) = textOf cells := by
  obtain ⟨k, hk⟩ := items_lay hn (h.exact hw) id
  unfold lineText
  rw [← textOf_bare, hk, textOf_append_blank, textOf_bare, broken, Breaking.flatten_breaks]
  · rfl
  · intro y hy c hc
    rw [List.eq_of_mem_replicate hy] at hc
    exact Item.text_of_isPadding (by decide) c hc

/-- Whole lines come out of a rewrap as the logical lines they went in. -/
theorem groupLines_rewrapFrom (hw : 0 < newCols) (hn : newCols ≤ noExtra) (rows : List Row) :
    ∀ (lines : List (List Row)) (first : LineId),
      (∀ line ∈ lines, Whole newCols (joinLine line)) →
      groupLines ((rewrapFrom newCols lines first).flatMap Prod.snd ++ rows) =
        (rewrapFrom newCols lines first).map Prod.snd ++ groupLines rows
  | [], _, _ => rfl
  | line :: lines, first, h => by
    have hline := h line (by simp)
    obtain ⟨front, r, hlay, hfront, hr⟩ := lay_eq_append hw hn (hline.exact hw) (by
      rw [broken, Breaking.flatten_breaks]
      exact hline.mark) first
    rw [rewrapFrom, List.flatMap_cons, List.map_cons, hlay, List.append_assoc, List.append_assoc,
      List.singleton_append, groupLines_append hr _ front hfront,
      groupLines_rewrapFrom hw hn rows lines _ fun l hl => h l (by simp [hl])]
    rfl

theorem lineText_rewrapFrom (hw : 0 < newCols) (hn : newCols ≤ noExtra) :
    ∀ (lines : List (List Row)) (first : LineId),
      (∀ line ∈ lines, ∀ r ∈ line.dropLast, r.wrapped = true) →
      (∀ line ∈ lines, Whole newCols (joinLine line)) →
      ((rewrapFrom newCols lines first).map Prod.snd).map lineText = lines.map lineText
  | [], _, _, _ => rfl
  | line :: lines, first, hwrap, h => by
    rw [rewrapFrom, List.map_cons, List.map_cons, List.map_cons,
      lineText_lay hw hn (h line (by simp)), ← lineText_eq (hwrap line (by simp)),
      lineText_rewrapFrom hw hn lines _ (fun l hl => hwrap l (by simp [hl]))
        fun l hl => h l (by simp [hl])]

/-- Blank rows do not wrap. -/
theorem wrapped_blankRow (cols : Nat) (t : Cell) (id : LineId) :
    (Storage.blankRow cols t id).wrapped = false := by
  have hmark : t.blankWith.flags.contains .wrapline = false := by
    have hzero : CellFlags.inverse.bits &&& CellFlags.wrapline.bits = 0#16 := by decide
    unfold Cell.blankWith CellFlags.inter CellFlags.contains
    dsimp only
    rw [BitVec.and_assoc, hzero, BitVec.and_zero]
    decide
  unfold Row.wrapped
  split
  · next c hc =>
    have hmem := List.mem_of_getLast? hc
    simp only [Storage.blankRow, Row.reset, Row.new, List.length_replicate] at hmem
    rw [List.eq_of_mem_replicate hmem]
    exact hmark
  · rfl

theorem groupLines_blankRows (cols : Nat) (t : Cell) : ∀ ids : List LineId,
    groupLines (ids.map (Storage.blankRow cols t)) =
      ids.map fun id => [Storage.blankRow cols t id]
  | [] => rfl
  | id :: ids => by
    rw [List.map_cons, groupLines, wrapped_blankRow, groupLines_blankRows cols t ids]
    rfl

/-- A cell of a blank row. -/
theorem item_blankRow {cols : Nat} {t : Cell} {id : LineId} {x : Item}
    (hx : x ∈ (Storage.blankRow cols t id).items) : x = (t.blankWith, none) := by
  obtain ⟨c, hc, rfl⟩ := List.mem_map.mp hx
  simp only [Storage.blankRow, Row.reset, Row.new, List.length_replicate] at hc
  rw [List.eq_of_mem_replicate hc]
  rfl

theorem text_blankWith (t : Cell) :
    ∀ c ∈ Item.text (t.blankWith, none), c = ' ' ∨ c = '\x00' := by
  intro c hc
  unfold Item.text at hc
  split at hc
  · simp at hc
  · exact Or.inl (by simpa [Cell.blankWith] using hc)

namespace Grid

/-- The logical lines of a grid as text, trailing blank lines ignored. -/
def logicalText (g : Grid) : List Str :=
  ((groupLines g.lines).map lineText).rdropWhile List.isEmpty

/-- A width change of a grid whose lines are whole at the new width leaves
the list of logical lines unchanged. -/
theorem logicalText_resize {g : Grid} (hs : g.Shape) (hl : 0 < g.scrollbackLimit) {newCols : Nat}
    (hpos : 0 < newCols) (hn : newCols ≤ noExtra) (hfit : g.Fits newCols)
    (hwhole : ∀ line ∈ groupLines g.lines, Whole newCols (joinLine line)) (t : Cell) :
    (g.resize newCols g.rows t).1.logicalText = g.logicalText := by
  have hmax : max newCols 1 = newCols := by omega
  by_cases hne : newCols = g.cols
  · have hrows : max g.rows 1 = g.rows := by have := hs.rows_pos; omega
    have hsame : (g.resize newCols g.rows t).1 = g := by
      unfold resize
      dsimp only
      rw [if_pos ⟨hmax.trans hne, hrows⟩]
    rw [hsame]
  · have hlines := @lines_resize g newCols hs (by rwa [hmax]) hl (by rwa [hmax]) t
    rw [hmax] at hlines
    have hblank : ∀ s ∈ ((List.range' ((g.lines.headD default).id +
        (g.rewrapped newCols).length) (g.rows - (g.rewrapped newCols).length)).map fun id =>
          [Storage.blankRow newCols t id]).map lineText, s.isEmpty = true := by
      intro s hmem
      obtain ⟨rows, hrows, rfl⟩ := List.mem_map.mp hmem
      obtain ⟨id, _, rfl⟩ := List.mem_map.mp hrows
      have := textOf_append_blank [] (Storage.blankRow newCols t id).items fun x hx => by
        rw [item_blankRow hx]
        exact text_blankWith t
      rw [lineText, List.flatMap_singleton]
      rw [List.nil_append] at this
      rw [this]
      rfl
    unfold logicalText
    rw [hlines, rewrapped, rewrap, groupLines_rewrapFrom hpos hn _ _ _ hwhole, groupLines_blankRows,
      List.map_append, lineText_rewrapFrom hpos hn _ _ (fun _ h => wrapped_of_mem_groupLines h) hwhole]
    exact rdropWhile_append_of_forall _ _ _ hblank

end Grid

end Zesterm
