/-
Zesterm.Core.RoundTripTheorems — what a resize and back makes of the text
of every row.

The rows a logical line stands in are the one exact way to break its cells
at their width (`exact_content`). A rewrap puts the cells down one after
the other, and joining the new rows gives them back (`joinLine_lay`)
unless the line ends in padding that the last row does not count
(`Ended`). Broken at the old width again they fall into the rows they came
from, which is `text_round_trip`.
-/
import Zesterm.Core.ReflowTheorems
import Zesterm.Core.AsciiVt

namespace Zesterm

/-! ## The text of a row -/

theorem rdropWhile_map {α β : Type*} (p : β → Bool) (f : α → β) (l : List α) :
    (l.map f).rdropWhile p = (l.rdropWhile (p ∘ f)).map f := by
  unfold List.rdropWhile
  rw [← List.map_reverse, List.dropWhile_map, List.map_reverse]

theorem rdropWhile_congr {α : Type*} {p q : α → Bool} {l : List α} (h : ∀ x ∈ l, p x = q x) :
    l.rdropWhile p = l.rdropWhile q := by
  induction l using List.reverseRecOn with
  | nil => rfl
  | append_singleton l x ih =>
    have hx := h x (by simp)
    cases hp : p x with
    | true =>
      rw [List.rdropWhile_concat_pos _ _ _ hp, List.rdropWhile_concat_pos _ _ _ (hx ▸ hp)]
      exact ih fun y hy => h y (by simp [hy])
    | false =>
      rw [List.rdropWhile_concat_neg _ _ _ (by simp [hp]),
        List.rdropWhile_concat_neg _ _ _ (by simp [← hx, hp])]

/-- The text of the cells of a row, as `Row.text` trims it. -/
def rowText (xs : List Item) : Str := (xs.rdropWhile Item.isPadding).flatMap Item.text

theorem rdropWhile_bare (xs : List Item) :
    (xs.map Item.bare).rdropWhile Item.isPadding = (xs.rdropWhile Item.isPadding).map Item.bare := by
  have hpad : Item.isPadding ∘ Item.bare = Item.isPadding := funext Item.isPadding_bare
  rw [rdropWhile_map, hpad]

theorem rowText_bare (xs : List Item) : rowText (xs.map Item.bare) = rowText xs := by
  unfold rowText
  rw [rdropWhile_bare, List.flatMap_map]
  simp only [Item.text_bare]

theorem rowText_append_padding (xs ys : List Item) (h : ∀ y ∈ ys, y.isPadding = true) :
    rowText (xs ++ ys) = rowText xs := by
  unfold rowText
  rw [rdropWhile_append_of_forall _ _ _ h]

namespace Row

/-- In a tidy row a cell is padding exactly when it is with its side data. -/
theorem isPadding_items {r : Row} (ht : r.Tidy) :
    ∀ c ∈ r.cells, Item.isPadding (c, r.extra c) = c.isPadding := by
  intro c hc
  have hcell : c.extra ≠ noExtra → c.isPadding = false := fun h => by
    simp [Cell.isPadding, Cell.isBlank, h]
  by_cases h : c.extra = noExtra
  · have hc' : ({ c with extra := noExtra } : Cell) = c := by rw [← h]
    unfold Item.isPadding extra
    dsimp only
    rw [hc', h]
    rfl
  · rcases ht c hc with h' | h'
    · exact absurd h' h
    · unfold Item.isPadding extra
      dsimp only
      rw [hcell h, if_neg (by simpa using h), List.getElem?_eq_getElem h']
      rfl

theorem length_rdropWhile_items {r : Row} (ht : r.Tidy) :
    (r.items.rdropWhile Item.isPadding).length = r.trimmedLen := by
  unfold items trimmedLen
  rw [rdropWhile_map, List.length_map]
  exact congrArg List.length (rdropWhile_congr (isPadding_items ht))

theorem text_eq {r : Row} (ht : r.Tidy) : r.text = rowText r.items := by
  unfold text rowText
  rw [List.prefix_iff_eq_take.mp (List.rdropWhile_prefix (p := Item.isPadding) r.items),
    length_rdropWhile_items ht, items, ← List.map_take, List.flatMap_map]
  rfl

theorem text_eq_content {r : Row} (ht : r.Tidy) : r.text = rowText r.content := by
  obtain ⟨rest, hrest, hpad⟩ := r.items_eq_content
  rw [text_eq ht, hrest, rowText_append_padding _ _ hpad]

theorem items_take (r : Row) (n : Nat) :
    r.items.take n = (r.cells.take n).map fun c => (c, r.extra c) := List.map_take.symm

/-- A row contributes no more cells than it has. -/
theorem length_content_le (r : Row) : r.content.length ≤ r.cells.length := by
  rw [content, List.length_map, List.length_take]
  exact Nat.min_le_right _ _

end Row

variable {cols newCols : Nat}

/-! ## Joining what was laid -/

/-- A line that ends in a cell its last row counts: no padding, or the
spacer after a cell that is none. -/
def Ended (cells : List Item) : Prop :=
  ∀ x, cells.getLast? = some x → x.isPadding = true →
    x.1.flags.contains .wideSpacer = true ∧
      ∀ y, cells.dropLast.getLast? = some y → y.isPadding = false

theorem Ended.of_append {xs ys : List Item} (hne : ys ≠ []) (h : Ended (xs ++ ys)) : Ended ys := by
  intro x hx hpad
  obtain ⟨hspacer, hbefore⟩ := h x (by rw [List.getLast?_append, hx]; rfl) hpad
  refine ⟨hspacer, fun y hy => hbefore y ?_⟩
  rw [List.dropLast_append_of_ne_nil hne, List.getLast?_append, hy]
  rfl

/-- The cells of an ended line that trimming leaves: all, or all but the
spacer at its end. -/
theorem Ended.trimmed {cells : List Item} (h : Ended cells) :
    (cells.rdropWhile Item.isPadding).length = cells.length ∨
      ∃ front x, cells = front ++ [x] ∧ x.1.flags.contains .wideSpacer = true ∧
        (cells.rdropWhile Item.isPadding).length = front.length := by
  rcases List.eq_nil_or_concat cells with rfl | ⟨front, x, rfl⟩
  · exact Or.inl rfl
  · rw [List.concat_eq_append] at h ⊢
    cases hpad : x.isPadding with
    | false => exact Or.inl (by rw [List.rdropWhile_concat_neg _ _ _ (by simp [hpad])])
    | true =>
      obtain ⟨hspacer, hbefore⟩ := h x (by simp) hpad
      refine Or.inr ⟨front, x, rfl, hspacer, ?_⟩
      rw [List.rdropWhile_concat_pos _ _ _ hpad]
      rcases List.eq_nil_or_concat front with rfl | ⟨front, y, rfl⟩
      · rfl
      · rw [List.concat_eq_append] at hbefore ⊢
        have := hbefore y (by simp)
        rw [List.rdropWhile_concat_neg _ _ _ (by simp [this])]

/-- The last row of an ended line gives its cells back. -/
theorem Row.content_of_filled {cells : List Item} {r : Row} (hf : Row.Filled newCols cells r)
    (hwrap : r.wrapped = false) (he : Ended cells) :
    r.content.map Item.bare = cells.map Item.bare := by
  have htrim : r.trimmedLen = (cells.rdropWhile Item.isPadding).length := by
    have hblank : ∀ x ∈ List.replicate (newCols - cells.length) Item.blank, x.isPadding = true := by
      intro x hx
      rw [List.eq_of_mem_replicate hx]
      decide
    rw [← Row.length_rdropWhile_items hf.tidy, ← List.length_map (f := Item.bare),
      ← rdropWhile_bare, hf.items, rdropWhile_append_of_forall _ _ _ hblank, rdropWhile_bare,
      List.length_map]
  have hflags (i : Nat) : (r.cells[i]?).map Cell.flags =
      (cells.map (·.1.flags) ++ List.replicate (newCols - cells.length) CellFlags.empty)[i]? := by
    rw [← hf.flags, List.getElem?_map]
  have hend : r.contentEnd = cells.length := by
    unfold Row.contentEnd
    rw [if_neg (by simp [hwrap]), htrim]
    dsimp only
    rcases he.trimmed with heq | ⟨front, x, rfl, hspacer, heq⟩
    · rw [heq]
      split
      · next c hc =>
        -- What follows the cells is blank.
        have := hflags cells.length
        rw [hc, List.getElem?_append_right (by simp), List.length_map, Nat.sub_self,
          List.getElem?_replicate] at this
        split at this
        · rw [Option.some.inj this, if_neg (by decide)]
        · simp at this
      · rfl
    · have := hflags front.length
      rw [List.map_append, List.append_assoc, List.getElem?_append_right (by simp),
        List.length_map, Nat.sub_self] at this
      obtain ⟨c, hc, hcf⟩ := Option.map_eq_some_iff.mp this
      rw [heq, hc]
      dsimp only
      rw [if_pos (by rw [hcf]; exact hspacer), List.length_append, List.length_singleton]
  rw [Row.content, hend, ← Row.items_take, List.map_take, hf.items]
  exact List.take_left' (List.length_map _)

/-- Joining the rows of an exact line gives its cells back. -/
theorem joinLine_lay (hw : 0 < newCols) (hn : newCols ≤ noExtra) :
    ∀ {L : List (List Item)}, Breaking.Exact newCols L →
      (∀ x, L.flatten.getLast? = some x → x.1.flags.contains .wrapline = true →
        L.flatten.length % newCols ≠ 0) →
      Ended L.flatten → ∀ id,
      (joinLine (lay newCols id L)).map Item.bare = L.flatten.map Item.bare := by
  intro L hL
  induction hL with
  | @last c h =>
    intro hmark he id
    rw [List.flatten_singleton] at hmark he ⊢
    rw [lay, joinLine, List.flatMap_singleton]
    exact Row.content_of_filled (Row.filled_fill hn id c h) (wrapped_fill hn h hmark id) he
  | @cons c d l h hd _ ih =>
    intro hmark he id
    have hne : (d :: l).flatten ≠ [] := by
      rw [List.flatten_cons]
      simp [hd]
    rw [List.flatten_cons] at hmark he ⊢
    have ih := ih (mark_tail h hmark) (he.of_append hne) (id + 1)
    have hfull := (Row.filled_fill hn id c h.le).items
    rw [h, Nat.sub_self, List.replicate_zero, List.append_nil] at hfull
    have hwrap := Row.wrapped_setWrapped (r := Row.fill newCols id c)
      (by rw [(Row.fill_id_length newCols id c).2]; exact hw) true
    rw [lay, joinLine, List.flatMap_cons, List.map_append, Row.content_of_wrapped hwrap,
      Row.items_setWrapped, hfull, ← joinLine, ih, List.map_append]

theorem text_fill (hn : newCols ≤ noExtra) (id : LineId) {c : List Item} (h : c.length ≤ newCols) :
    (Row.fill newCols id c).text = rowText c := by
  have hfill := Row.filled_fill hn id c h
  rw [Row.text_eq hfill.tidy, ← rowText_bare, hfill.items, rowText_append_padding, rowText_bare]
  intro x hx
  rw [List.eq_of_mem_replicate hx]
  decide

/-- The text of the rows of a line, row by row. -/
theorem map_text_lay (hn : newCols ≤ noExtra) : ∀ {L : List (List Item)},
    (∀ c ∈ L, c.length ≤ newCols) → ∀ id, (lay newCols id L).map Row.text = L.map rowText
  | [], _, _ => rfl
  | [c], h, id => by
    rw [lay, List.map_singleton, List.map_singleton, text_fill hn id (h c (by simp))]
  | c :: d :: cs, h, id => by
    have hfill := Row.filled_fill hn id c (h c (by simp))
    rw [lay, List.map_cons, map_text_lay hn (fun x hx => h x (List.mem_cons_of_mem c hx)) (id + 1),
      Row.text_eq (Row.tidy_setWrapped hfill.tidy true), ← rowText_bare, Row.items_setWrapped,
      rowText_bare, ← Row.text_eq hfill.tidy, text_fill hn id (h c (by simp))]
    rfl

/-! ## The rows a line came in -/

/-- The rows of a logical line break its cells exactly at their width. -/
theorem exact_content {cols : Nat} (hw : 0 < cols) : ∀ {line : List Row}, line ≠ [] →
    (∀ r ∈ line, r.cells.length = cols) → (∀ r ∈ line.dropLast, r.wrapped = true) →
    (∀ x, (joinLine line).getLast? = some x → x.1.flags.contains .wrapline = true →
      (joinLine line).length % cols ≠ 0) →
    Breaking.Exact cols (line.map Row.content)
  | [r], _, hwidth, _, _ =>
    Breaking.Exact.last ((Row.length_content_le r).trans (hwidth r (by simp)).le)
  | r :: r' :: line, _, hwidth, hwrap, hmark => by
    rw [List.dropLast_cons_cons] at hwrap
    have hr := Row.content_of_wrapped (hwrap r (by simp))
    have hlen : r.content.length = cols := by
      rw [hr, Row.length_items]
      exact hwidth r (by simp)
    have hne : r'.content ≠ [] := by
      intro hnil
      cases line with
      | nil =>
        -- The row before would end the line, and its mark with it.
        have hjoin : joinLine [r, r'] = r.items := by
          simp [joinLine, hnil, hr]
        have hw' := hwrap r (by simp)
        unfold Row.wrapped at hw'
        split at hw'
        · next c hc =>
          have := hmark (c, r.extra c) (by rw [hjoin, Row.items, List.getLast?_map, hc]; rfl) hw'
          rw [hjoin, ← hr, hlen, Nat.mod_self] at this
          exact this rfl
        · simp at hw'
      | cons a line =>
        have := Row.content_of_wrapped (hwrap r' (by simp))
        rw [hnil] at this
        have hlen' := hwidth r' (by simp)
        rw [← Row.length_items, ← this] at hlen'
        exact absurd hlen' (by simpa using ne_of_lt hw)
    refine Breaking.Exact.cons hlen hne (@exact_content cols hw (r' :: line) (by simp)
      (fun x hx => hwidth x (List.mem_cons_of_mem r hx))
      (fun x hx => hwrap x (List.mem_cons_of_mem r hx)) ?_)
    exact mark_tail hlen hmark

/-- So that breaking its cells there again gives its rows. -/
theorem broken_joinLine (hw : 0 < cols) {line : List Row} (hne : line ≠ [])
    (hwidth : ∀ r ∈ line, r.cells.length = cols) (hwrap : ∀ r ∈ line.dropLast, r.wrapped = true)
    (h : Whole cols (joinLine line)) : broken cols (joinLine line) = line.map Row.content := by
  refine (h.exact hw).unique hw (exact_content hw hne hwidth hwrap h.mark) ?_
  rw [broken, Breaking.flatten_breaks, List.nil_append, joinLine, List.flatMap_def]

/-- Breaking looks at nothing a move may change. -/
theorem broken_bare (newCols : Nat) (cells : List Item) :
    (broken newCols cells).map (List.map Item.bare) = broken newCols (cells.map Item.bare) := by
  unfold broken
  have hpush (n : Nat) (x : Item) : Breaking.pushes newCols (edge newCols) n x.bare =
      Breaking.pushes newCols (edge newCols) n x := by
    rw [Breaking.pushes, Breaking.pushes, Item.edge_bare]
  exact (Breaking.breaks_map Item.bare hpush [] cells).symm

theorem map_rowText_broken {xs ys : List Item} (h : xs.map Item.bare = ys.map Item.bare) :
    (broken newCols xs).map rowText = (broken newCols ys).map rowText := by
  have hbare (xs : List Item) : (broken newCols xs).map rowText =
      (broken newCols (xs.map Item.bare)).map rowText := by
    rw [← broken_bare, List.map_map]
    exact List.map_congr_left fun c _ => (rowText_bare c).symm
  rw [hbare xs, hbare ys, h]

/-- A line laid at another width and broken at its own again has the text
of its rows. -/
theorem text_relaid (hw : 0 < cols) (hpos : 0 < newCols) (hn : newCols ≤ noExtra) {line : List Row}
    (hne : line ≠ []) (hwidth : ∀ r ∈ line, r.cells.length = cols)
    (hwrap : ∀ r ∈ line.dropLast, r.wrapped = true) (htidy : ∀ r ∈ line, r.Tidy)
    (hold : Whole cols (joinLine line)) (hnew : Whole newCols (joinLine line))
    (he : Ended (joinLine line)) (id : LineId) :
    (broken cols (joinLine (lay newCols id (broken newCols (joinLine line))))).map rowText =
      line.map Row.text := by
  have hflat : (broken newCols (joinLine line)).flatten = joinLine line := by
    rw [broken, Breaking.flatten_breaks, List.nil_append]
  have hjoin := joinLine_lay hpos hn (hnew.exact hpos) (by rw [hflat]; exact hnew.mark)
    (by rw [hflat]; exact he) id
  rw [hflat] at hjoin
  rw [map_rowText_broken hjoin, broken_joinLine hw hne hwidth hwrap hold, List.map_map]
  exact List.map_congr_left fun r hr => (Row.text_eq_content (htidy r hr)).symm

/-! ## There and back -/

/-- Where the rows of a line of a rewrap come from. -/
theorem mem_rewrapFrom (newCols : Nat) : ∀ (lines : List (List Row)) (first : LineId),
    ∀ q ∈ rewrapFrom newCols lines first,
      ∃ id, q.2 = lay newCols id (broken newCols (joinLine q.1))
  | [], _, q, hq => by simp [rewrapFrom] at hq
  | line :: lines, first, q, hq => by
    rw [rewrapFrom] at hq
    rcases List.mem_cons.mp hq with rfl | hq
    · exact ⟨first, rfl⟩
    · exact mem_rewrapFrom newCols lines _ q hq

/-- The text of the rows of a rewrap. -/
theorem map_text_rewrapFrom (hpos : 0 < newCols) (hn : newCols ≤ noExtra) :
    ∀ (lines : List (List Row)) (first : LineId),
      ((rewrapFrom newCols lines first).flatMap Prod.snd).map Row.text =
        lines.flatMap fun line => (broken newCols (joinLine line)).map rowText
  | [], _ => rfl
  | line :: lines, first => by
    have hle : ∀ c ∈ broken newCols (joinLine line), c.length ≤ newCols :=
      Breaking.length_le_of_mem_breaks hpos [] (joinLine line) (Nat.zero_le _)
    rw [rewrapFrom, List.flatMap_cons, List.map_append, List.flatMap_cons,
      map_text_rewrapFrom hpos hn lines, map_text_lay hn hle]

/-- Cells of a blank row have blank text. -/
theorem rowText_of_blank {t : Cell} {xs : List Item} (h : ∀ x ∈ xs, x = (t.blankWith, none)) :
    ∀ c ∈ rowText xs, c = ' ' ∨ c = '\x00' := by
  intro c hc
  obtain ⟨x, hx, hc⟩ := List.mem_flatMap.mp hc
  rw [h x ((List.rdropWhile_prefix Item.isPadding xs).subset hx)] at hc
  exact text_blankWith t c hc

theorem text_blankRow (cols : Nat) (t : Cell) (id : LineId) :
    ∀ c ∈ (Storage.blankRow cols t id).text, c = ' ' ∨ c = '\x00' := by
  have htidy : (Storage.blankRow cols t id).Tidy := by
    intro c hc
    exact Or.inl (congrArg (fun x : Item => x.1.extra) (item_blankRow (List.mem_map_of_mem hc)))
  rw [Row.text_eq htidy]
  exact rowText_of_blank fun x hx => item_blankRow hx

/-- A blank row stays blank however it is broken. -/
theorem rowText_blank {t : Cell} {id : LineId} :
    ∀ s ∈ (broken newCols (joinLine [Storage.blankRow cols t id])).map rowText,
      ∀ c ∈ s, c = ' ' ∨ c = '\x00' := by
  intro s hs
  obtain ⟨xs, hxs, rfl⟩ := List.mem_map.mp hs
  refine rowText_of_blank (t := t) fun x hx => ?_
  have hmem : x ∈ joinLine [Storage.blankRow cols t id] := by
    rw [← List.nil_append (joinLine _), ← Breaking.flatten_breaks
      (Breaking.pushes newCols (edge newCols))]
    exact List.mem_flatten.mpr ⟨xs, hxs, hx⟩
  rw [joinLine, List.flatMap_singleton] at hmem
  obtain ⟨rest, hrest, _⟩ := (Storage.blankRow cols t id).items_eq_content
  exact item_blankRow (by rw [hrest]; exact List.mem_append_left _ hmem)

/-- The lines of a rewrap, laid and broken at the old width again. -/
theorem text_rewrapFrom_relaid (hw : 0 < cols) (hpos : 0 < newCols) (hn : newCols ≤ noExtra)
    {lines : List (List Row)} (first : LineId)
    (hline : ∀ line ∈ lines, line ≠ [] ∧ (∀ r ∈ line, r.cells.length = cols) ∧
      (∀ r ∈ line.dropLast, r.wrapped = true) ∧ ∀ r ∈ line, r.Tidy)
    (hold : ∀ line ∈ lines, Whole cols (joinLine line))
    (hnew : ∀ line ∈ lines, Whole newCols (joinLine line))
    (hended : ∀ line ∈ lines, Ended (joinLine line)) :
    (((rewrapFrom newCols lines first).map Prod.snd).flatMap fun line =>
      (broken cols (joinLine line)).map rowText) = lines.flatMap fun line => line.map Row.text := by
  have hfst := map_fst_rewrapFrom newCols lines first
  calc (((rewrapFrom newCols lines first).map Prod.snd).flatMap fun line =>
          (broken cols (joinLine line)).map rowText)
      = (rewrapFrom newCols lines first).flatMap fun q => q.1.map Row.text := by
        rw [List.flatMap_map]
        refine List.flatMap_congr fun q hq => ?_
        have hmem : q.1 ∈ lines := hfst ▸ List.mem_map_of_mem hq
        obtain ⟨id, hid⟩ := mem_rewrapFrom newCols lines first q hq
        obtain ⟨hne, hwidth, hwrap, htidy⟩ := hline _ hmem
        rw [hid]
        exact text_relaid hw hpos hn hne hwidth hwrap htidy (hold _ hmem) (hnew _ hmem)
          (hended _ hmem) id
    _ = ((rewrapFrom newCols lines first).map Prod.fst).flatMap fun line => line.map Row.text :=
        (List.flatMap_map ..).symm
    _ = lines.flatMap fun line => line.map Row.text := by rw [hfst]

namespace Grid

/-- A grid whose text a rewrap to `newCols` keeps: at the new width, and at
its own for the way back, no wide character is counted onto the last
column, nor the mark of an old wrap; and its lines are ended. -/
structure Rewrappable (g : Grid) (newCols : Nat) : Prop where
  tidy : ∀ r ∈ g.lines, r.Tidy
  there : ∀ line ∈ groupLines g.lines, Whole newCols (joinLine line)
  back : ∀ line ∈ groupLines g.lines, Whole g.cols (joinLine line)
  ended : ∀ line ∈ groupLines g.lines, Ended (joinLine line)

/-- Every row of `g` has its text in `g'`, where only blank rows follow. -/
def KeepsRows (g g' : Grid) : Prop :=
  ∃ extra, g'.lines.map Row.text = g.lines.map Row.text ++ extra ∧
    ∀ s ∈ extra, ∀ c ∈ s, c = ' ' ∨ c = '\x00'

/-- A resize and back leaves the text of every row. -/
theorem text_round_trip {g : Grid} (hs : g.Shape) (hl : 0 < g.scrollbackLimit)
    (hc : g.cols ≤ noExtra) {newCols : Nat} (hpos : 0 < newCols) (hn : newCols ≤ noExtra)
    (h : g.Rewrappable newCols) (hfit : g.Fits newCols) (t t' : Cell)
    (hback : (g.resize newCols g.rows t).1.Fits g.cols) :
    g.KeepsRows ((g.resize newCols g.rows t).1.resize g.cols g.rows t').1 := by
  have hmax : max newCols 1 = newCols := by omega
  have hmax₁ : max g.cols 1 = g.cols := by have := hs.cols_pos; omega
  have hrows : max g.rows 1 = g.rows := by have := hs.rows_pos; omega
  by_cases hne : newCols = g.cols
  · have hsame (t : Cell) : (g.resize newCols g.rows t).1 = g := by
      unfold resize
      dsimp only
      rw [if_pos ⟨hmax.trans hne, hrows⟩]
    rw [hsame, ← hne, hsame]
    exact ⟨[], by simp, by simp⟩
  · have hr := resized_resize g newCols g.rows t hs
    have hcols := hr.cols
    rw [hmax] at hcols
    have hlines := @lines_resize g newCols hs (by rwa [hmax]) hl (by rwa [hmax]) t
    rw [hmax] at hlines
    generalize (g.resize newCols g.rows t).1 = g₂ at *
    have hrows₂ : g₂.rows = g.rows := hr.rows.trans hrows
    have hlines₂ := @lines_resize g₂ g.cols hr.shape
      (by rw [hmax₁, hcols]; exact fun h => hne h.symm) (by rw [hr.limit]; exact hl)
      (by rwa [hmax₁]) t'
    rw [hmax₁, hrows₂] at hlines₂
    have hline : ∀ line ∈ groupLines g.lines, line ≠ [] ∧
        (∀ r ∈ line, r.cells.length = g.cols) ∧ (∀ r ∈ line.dropLast, r.wrapped = true) ∧
        ∀ r ∈ line, r.Tidy := by
      intro line hmem
      have hin : ∀ r ∈ line, r ∈ g.lines := fun r hr => by
        rw [← flatten_groupLines g.lines]
        exact List.mem_flatten.mpr ⟨line, hmem, hr⟩
      exact ⟨ne_nil_of_mem_groupLines hmem, fun r hr => hs.width r (hin r hr),
        wrapped_of_mem_groupLines hmem, fun r hr => h.tidy r (hin r hr)⟩
    generalize List.range' _ (g.rows - (g.rewrapped newCols).length) = ids at hlines
    generalize List.range' _ (g.rows - (g₂.rewrapped g.cols).length) = ids₂ at hlines₂
    have hgroups : groupLines g₂.lines = (g.rewrap newCols).map Prod.snd ++
        ids.map fun id => [Storage.blankRow newCols t id] := by
      rw [hlines, rewrapped, rewrap, groupLines_rewrapFrom hpos hn _ _ _ h.there,
        groupLines_blankRows]
    have htext : (g₂.rewrapped g.cols).map Row.text = g.lines.map Row.text ++
        (ids.map fun id => [Storage.blankRow newCols t id]).flatMap fun line =>
          (broken g.cols (joinLine line)).map rowText := by
      rw [rewrapped, rewrap, map_text_rewrapFrom hs.cols_pos hc, hgroups, List.flatMap_append,
        rewrap, text_rewrapFrom_relaid hs.cols_pos hpos hn _ hline h.back h.there h.ended,
        ← List.map_flatMap, List.flatMap_id', flatten_groupLines]
    rw [KeepsRows, hlines₂, List.map_append, htext, List.append_assoc]
    refine ⟨_, rfl, fun s hmem => ?_⟩
    rcases List.mem_append.mp hmem with hmem | hmem
    · obtain ⟨line, hline, hmem⟩ := List.mem_flatMap.mp hmem
      obtain ⟨id, _, rfl⟩ := List.mem_map.mp hline
      exact rowText_blank s hmem
    · obtain ⟨r, hr, rfl⟩ := List.mem_map.mp hmem
      obtain ⟨id, _, rfl⟩ := List.mem_map.mp hr
      exact text_blankRow g.cols t' id

/-- Six letters and two more on the next line, at four columns. -/
def letters : Grid :=
  ((Terminal.new asciiVt 4 3 10).advance
    [0x61, 0x62, 0x63, 0x64, 0x65, 0x66, 0x0d, 0x0a, 0x67, 0x68]).state.grid

theorem rewrappable_letters : letters.Rewrappable 3 := by
  have hwhole : ∀ line ∈ groupLines letters.lines, ∀ x ∈ joinLine line,
      x.1.flags.contains .wide = false := by decide +kernel
  have hlast : ∀ line ∈ groupLines letters.lines, ((joinLine line).getLast?.all fun x =>
      !x.1.flags.contains .wrapline && !Item.isPadding x) = true := by decide +kernel
  have hend (line) (hline : line ∈ groupLines letters.lines) (x) (hx : (joinLine line).getLast? = some x) :
      x.1.flags.contains .wrapline = false ∧ Item.isPadding x = false := by
    have := hlast line hline
    rw [hx] at this
    simpa using this
  have hany (newCols : Nat) : ∀ line ∈ groupLines letters.lines, Whole newCols (joinLine line) := by
    refine fun line hline => ⟨fun i x hx hw => ?_, fun x hx hw => ?_⟩
    · rw [hwhole line hline x (List.mem_of_getElem? hx)] at hw
      simp at hw
    · rw [(hend line hline x hx).1] at hw
      simp at hw
  refine ⟨by decide +kernel, hany 3, hany _, fun line hline x hx hpad => ?_⟩
  rw [(hend line hline x hx).2] at hpad
  simp at hpad

/-- `asciiVt`, with one wide character. -/
def wideVt : Vt :=
  { asciiVt with width := fun c => if c = '世' then some 2 else asciiVt.width c }

/-- Two letters and a wide character, filling four columns. -/
def wideLine : Grid :=
  ([.print 'a', .print 'b', .print '世'].foldl (TermState.perform wideVt)
    (TermState.new 4 2 10)).grid

end Grid

end Zesterm
