/-
Zesterm.Core.ReaderTheorems — a reader's view holds still.

Where a reader looks is counted from the end of the ring, so every move of
the boundary between history and screen has to move the reader's place with
it. `Follows` says that a move did: a reader at the bottom stays there, and
one who has scrolled back goes on seeing the same line at the top, as long
as it is held and the display has not met an end of the ring.

Two moves do not follow in every state. Taking back a provisional settle
moves a reader who is at the bottom, and dropping scrollback rows moves a
reader by all the rows dropped, those above the reader's line with the rest.
`Op.Calm` says when they do, and `still_run` that the law holds over every
run of such moves, whatever their order.
-/
import Zesterm.Core.ReplicaTheorems

namespace Zesterm

namespace Grid

/-! ## What a reader sees -/

/-- The line at the top of the display. -/
def topLine (g : Grid) : LineId := (g.row 0).id

/-- The display is at the bottom or at the oldest row. -/
def AtEnd (g : Grid) : Prop := g.displayOffset = 0 ∨ g.displayOffset = g.scrollbackLen

/-- The ring is in shape, the reader is inside it and no line is numbered
past the counter. -/
structure Reading (g : Grid) : Prop where
  shape : g.Shape
  offset : g.displayOffset ≤ g.scrollbackLen
  minted : ∀ id ∈ g.ids, id < g.nextLineId

/-- A reader at the bottom is still there; one who has scrolled back sees the
same line, where it is held and the display is not at an end. -/
structure Still (g g' : Grid) : Prop where
  bottom : g.displayOffset = 0 → g'.displayOffset = 0
  top : 0 < g.displayOffset → g.topLine ∈ g'.ids → g'.topLine = g.topLine ∨ g'.AtEnd

/-- What a move comes to that takes the reader along. -/
structure Follows (g g' : Grid) : Prop extends Still g g' where
  shape : g'.Shape
  offset : g'.displayOffset ≤ g'.scrollbackLen
  ledger : Ledger.Evolves g.ids g.nextLineId g'.ids g'.nextLineId
  /-- A display that has met an end stays there. -/
  ends : g.AtEnd → g'.AtEnd

variable {g g' g'' : Grid}

/-- The reader's line by its place in the ring. -/
theorem Reading.topLine_eq (h : g.Reading) :
    g.ids[g.scrollbackLen - g.displayOffset]? = some g.topLine := by
  have hlen := h.shape.len
  have hpos := h.shape.rows_pos
  have hoff := h.offset
  have hbase : g.viewportBase + 0 = g.scrollbackLen - g.displayOffset := by
    unfold viewportBase
    omega
  have hin : g.scrollbackLen - g.displayOffset < g.storage.len := by omega
  unfold topLine row ids lines
  rw [hbase, Storage.row_eq _ _ hin, List.getElem?_map, List.getD_eq_getElem?_getD,
    List.getElem?_eq_getElem (by simpa using hin)]
  rfl

theorem Reading.evolves (h : g.Reading) (hs : g'.Shape)
    (hoff : g'.displayOffset ≤ g'.scrollbackLen)
    (hledger : Ledger.Evolves g.ids g.nextLineId g'.ids g'.nextLineId) : g'.Reading := by
  refine ⟨hs, hoff, fun id hid => ?_⟩
  obtain ⟨hle, kept, fresh, heq, hsub, -, hfresh⟩ := hledger
  rw [heq] at hid
  rcases List.mem_append.mp hid with hid | hid
  · exact (h.minted id (hsub.subset hid)).trans_le hle
  · exact (hfresh id hid).2

theorem Follows.reading (h : g.Reading) (hf : Follows g g') : g'.Reading :=
  h.evolves hf.shape hf.offset hf.ledger

/-- Nothing moves. -/
theorem Follows.refl (h : g.Reading) : Follows g g :=
  ⟨⟨id, fun _ _ => .inl rfl⟩, h.shape, h.offset, Ledger.Evolves.refl _ _, id⟩

/-- The ring, the boundary and the reader are as they were. -/
theorem follows_frame (h : g.Reading) (hs : g'.storage = g.storage) (hc : g'.cols = g.cols)
    (hrows : g'.rows = g.rows) (hb : g'.scrollbackLen = g.scrollbackLen)
    (hd : g'.displayOffset = g.displayOffset) : Follows g g' := by
  refine ⟨⟨hd.trans, fun _ _ => .inl ?_⟩, ?_, ?_, ?_, ?_⟩
  · simp only [topLine, row, viewportBase, hs, hrows, hd]
  · exact ⟨hrows ▸ h.shape.rows_pos, hc ▸ h.shape.cols_pos, by rw [hs, hb, hrows]; exact h.shape.len,
      by simp only [lines, hs, hc]; exact h.shape.width⟩
  · rw [hd, hb]
    exact h.offset
  · simp only [ids, lines, nextLineId, hs]
    exact Ledger.Evolves.refl _ _
  · unfold AtEnd
    rw [hd, hb]
    exact id

/-- A line that was let go is not minted again, so a display that has lost
its line is at an end for good or has no line to keep. -/
theorem Follows.trans (h : g.Reading) (hf : Follows g g') (hf' : Follows g' g'') :
    Follows g g'' := by
  refine ⟨⟨fun h0 => hf'.bottom (hf.bottom h0), fun hpos hheld => ?_⟩, hf'.shape, hf'.offset,
    hf.ledger.trans hf'.ledger, fun he => hf'.ends (hf.ends he)⟩
  by_cases hend : g'.AtEnd
  · exact .inr (hf'.ends hend)
  · have hpos' : 0 < g'.displayOffset := Nat.pos_of_ne_zero fun h0 => hend (.inl h0)
    have hminted : g.topLine < g.nextLineId :=
      h.minted _ (List.mem_of_getElem? h.topLine_eq)
    have hheld' : g.topLine ∈ g'.ids := hf'.ledger.mem_of_lt hheld (hminted.trans_le hf.ledger.next_le)
    have hsame : g'.topLine = g.topLine := (hf.top hpos hheld').resolve_right hend
    rw [← hsame] at hheld ⊢
    exact hf'.top hpos' hheld

/-! ## Moves that do not move the boundary -/

/-- Rows were edited in place, and neither the boundary nor the reader
moved. -/
structure Repaints (g g' : Grid) : Prop where
  evolves : g.Evolves g'
  ids : g'.ids = g.ids
  next : g'.nextLineId = g.nextLineId
  boundary : g'.scrollbackLen = g.scrollbackLen
  offset : g'.displayOffset = g.displayOffset

theorem Repaints.refl (g : Grid) : Repaints g g := ⟨Evolves.refl g, rfl, rfl, rfl, rfl⟩

theorem Repaints.trans (h : Repaints g g') (h' : Repaints g' g'') : Repaints g g'' :=
  ⟨h.evolves.trans h'.evolves, h'.ids.trans h.ids, h'.next.trans h.next,
    h'.boundary.trans h.boundary, h'.offset.trans h.offset⟩

theorem Repaints.foldl {β : Type} (f : Grid → β → Grid) (hf : ∀ (g : Grid) b, Repaints g (f g b)) :
    ∀ (l : List β) (g : Grid), Repaints g (l.foldl f g)
  | [], g => Repaints.refl g
  | b :: l, g => (hf g b).trans (Repaints.foldl f hf l (f g b))

theorem Repaints.follows (hr : g.Reading) (h : Repaints g g') : Follows g g' := by
  have hshape := h.evolves.shape hr.shape
  have hoffset : g'.displayOffset ≤ g'.scrollbackLen := by
    rw [h.offset, h.boundary]
    exact hr.offset
  have hr' : g'.Reading := ⟨hshape, hoffset, by rw [h.ids, h.next]; exact hr.minted⟩
  have htop : g'.topLine = g.topLine := by
    have := hr'.topLine_eq
    rw [h.ids, h.boundary, h.offset, hr.topLine_eq] at this
    exact (Option.some.inj this).symm
  refine ⟨⟨fun h0 => h.offset.trans h0, fun _ _ => .inl htop⟩, hshape, hoffset, h.evolves.ledger,
    fun he => ?_⟩
  unfold AtEnd
  rwa [h.offset, h.boundary]

theorem repaints_modifyRow {i : Nat} {f : Row → Row} (he : g.Evolves (g.modifyRow i f))
    (hid : ∀ r, (f r).id = r.id) : Repaints g (g.modifyRow i f) := by
  refine ⟨he, ?_, rfl, rfl, rfl⟩
  simp only [ids, lines, modifyRow, Storage.logical_modifyRow]
  exact Storage.map_modify_of_eq Row.id f hid _ _

theorem repaints_eraseInRow (g : Grid) (row start stop : Nat) (t : Cell) :
    Repaints g (g.eraseInRow row start stop t) := by
  unfold eraseInRow
  dsimp only
  split
  · have hseen : Repaints g { g with restateRowsSeen := max g.restateRowsSeen (row + 1) } :=
      ⟨Evolves.of_frame rfl rfl rfl rfl rfl rfl rfl fun _ hw => { hw with }, rfl, rfl, rfl, rfl⟩
    exact hseen.trans (repaints_modifyRow
      (evolves_modifyRow _ _ _ (fun _ => rfl) fun r => by simp) fun _ => rfl)
  · exact repaints_modifyRow (evolves_modifyRow _ _ _ (fun _ => rfl) fun r => by simp) fun _ => rfl

theorem repaints_eraseRows (g : Grid) (first last : Nat) (t : Cell) :
    Repaints g (g.eraseRows first last t) :=
  Repaints.foldl _ (fun g row => repaints_eraseInRow g row 0 (g.cols - 1) t) _ g

theorem repaints_cancelRestateDebt (g : Grid) : Repaints g g.cancelRestateDebt :=
  ⟨evolves_cancelRestateDebt g, rfl, rfl, rfl, rfl⟩

theorem repaints_clearAll (g : Grid) (t : Cell) : Repaints g (g.clearAll t) := by
  have hfold := Repaints.foldl (fun g row => g.eraseInRow row 0 (g.cols - 1) t)
    (fun g row => repaints_eraseInRow g row 0 (g.cols - 1) t) (List.range g.rows) g
  exact ⟨evolves_clearAll g t, hfold.ids, hfold.next, hfold.boundary, hfold.offset⟩

theorem repaints_scrollRegionUp (g : Grid) (n : Nat) (t : Cell) :
    Repaints g (g.scrollRegionUp n t) := by
  obtain ⟨s, hs, heq⟩ := g.scrollRegionUp_edits n t
  rw [heq]
  exact ⟨Evolves.of_edits hs, hs.ids, hs.nextId, rfl, rfl⟩

theorem repaints_scrollDown (g : Grid) (n : Nat) (t : Cell) : Repaints g (g.scrollDown n t) := by
  by_cases hn : n = 0
  · unfold scrollDown
    rw [if_pos hn]
    exact Repaints.refl g
  · obtain ⟨s, hs, heq⟩ := g.scrollDown_edits hn t
    have he := evolves_scrollDown g n t
    rw [heq] at he ⊢
    exact ⟨he, hs.ids, hs.nextId, rfl, rfl⟩

theorem repaints_insertLines (g : Grid) (n : Nat) (t : Cell) : Repaints g (g.insertLines n t) := by
  have he := evolves_insertLines g n t
  unfold insertLines at he ⊢
  split
  · next hin =>
    rw [if_pos hin] at he
    have hdown := repaints_scrollDown { g with region := { g.region with top := g.cursor.row } } n t
    exact ⟨he, hdown.ids, hdown.next, hdown.boundary, hdown.offset⟩
  · exact Repaints.refl g

/-! ## Moves of the boundary -/

/-- Rows join at the bottom and the oldest are let go; the boundary and the
reader move with the rows that joined. -/
theorem follows_slide (hr : g.Reading) (gone : Nat) (fresh : List LineId)
    (hids : g'.ids = (g.ids ++ fresh).drop gone) (hgone : gone ≤ g.scrollbackLen + fresh.length)
    (hb : g'.scrollbackLen = g.scrollbackLen + fresh.length - gone) (hshape : g'.Shape)
    (hledger : Ledger.Evolves g.ids g.nextLineId g'.ids g'.nextLineId)
    (hd : g'.displayOffset =
      if g.displayOffset = 0 then 0 else min (g.displayOffset + fresh.length) g'.scrollbackLen) :
    Follows g g' := by
  have hoff := hr.offset
  have hoffset : g'.displayOffset ≤ g'.scrollbackLen := by
    rw [hd]
    split <;> omega
  refine ⟨⟨fun h0 => by rw [hd, if_pos h0], fun hpos _ => ?_⟩, hshape, hoffset, hledger, fun he => ?_⟩
  · rw [if_neg (by omega)] at hd
    by_cases hlost : g.scrollbackLen - g.displayOffset < gone
    · -- The line itself was let go: the display stands at the oldest row.
      exact .inr (.inr (by omega))
    · left
      have htop := (hr.evolves hshape hoffset hledger).topLine_eq
      have hplace : gone + (g'.scrollbackLen - g'.displayOffset) = g.scrollbackLen - g.displayOffset := by
        omega
      have hin : g.scrollbackLen - g.displayOffset < g.ids.length := by
        have := hr.shape.len
        have := hr.shape.rows_pos
        simp only [ids, lines, List.length_map, Storage.length_logical]
        omega
      rw [hids, List.getElem?_drop, hplace, List.getElem?_append_left hin, hr.topLine_eq] at htop
      exact (Option.some.inj htop).symm
  · unfold AtEnd at he ⊢
    rw [hd]
    split
    · exact .inl rfl
    · right
      omega

/-- Rows leave the bottom and the boundary moves up by as many; the reader
who was among the newest rows of the history is at the bottom. -/
theorem follows_pull (hr : g.Reading) {k : Nat} (hk : k ≤ g.scrollbackLen)
    (hids : g'.ids = g.ids.take (g.ids.length - k)) (hb : g'.scrollbackLen = g.scrollbackLen - k)
    (hshape : g'.Shape) (hledger : Ledger.Evolves g.ids g.nextLineId g'.ids g'.nextLineId)
    (hd : g'.displayOffset = min (g.displayOffset - k) (g.scrollbackLen - k)) : Follows g g' := by
  have hoff := hr.offset
  have hoffset : g'.displayOffset ≤ g'.scrollbackLen := by omega
  refine ⟨⟨fun h0 => by omega, fun hpos _ => ?_⟩, hshape, hoffset, hledger, fun he => ?_⟩
  · by_cases hnear : g.displayOffset ≤ k
    · exact .inr (.inl (by omega))
    · left
      have htop := (hr.evolves hshape hoffset hledger).topLine_eq
      have hplace : g'.scrollbackLen - g'.displayOffset = g.scrollbackLen - g.displayOffset := by omega
      have hin : g.scrollbackLen - g.displayOffset < g.ids.length - k := by
        have := hr.shape.len
        have := hr.shape.rows_pos
        simp only [ids, lines, List.length_map, Storage.length_logical]
        omega
      rw [hids, hplace, List.getElem?_take_of_lt hin, hr.topLine_eq] at htop
      exact (Option.some.inj htop).symm
  · unfold AtEnd at he ⊢
    omega

/-! ## The moves of the source -/

theorem follows_scrollScreenUp1 (hr : g.Reading) (hp : g.settledPull = 0) (t : Cell) :
    Follows g (g.scrollScreenUp1 t) := by
  have he := evolves_scrollScreenUp1 g t hp
  obtain ⟨gone, b, hgone, hlines, hlen, hd⟩ := scrollScreenUp1_spec hr.shape t
  refine follows_slide hr gone [b.id] ?_ (by simp; omega) hlen
    (he.shape hr.shape) he.ledger hd
  unfold ids
  rw [hlines, List.map_drop, List.map_append]
  rfl

theorem follows_scrollScreenUp (t : Cell) : ∀ (n : Nat) {g : Grid}, g.Reading → g.settledPull = 0 →
    Follows g (g.scrollScreenUp t n)
  | 0, _, hr, _ => Follows.refl hr
  | n + 1, g, hr, hp =>
    have hone := follows_scrollScreenUp1 hr hp t
    hone.trans hr (follows_scrollScreenUp t n (hone.reading hr)
      ((settledPull_scrollScreenUp1 g t).trans hp))

/-- The rows that leave are the screen's, and the history keeps its place. -/
theorem follows_overflow (hr : g.Reading) (n : Nat) (t : Cell) :
    Follows g { g with storage :=
      (g.storage.resizeRows (g.storage.len + n) g.cols t).removeRange g.scrollbackLen n } := by
  have he := evolves_overflow g n t
  have hlen := hr.shape.len
  have hpos := hr.shape.rows_pos
  refine ⟨⟨id, fun hd _ => .inl ?_⟩, he.shape hr.shape, hr.offset, he.ledger, id⟩
  have htop := (hr.evolves (he.shape hr.shape) hr.offset he.ledger).topLine_eq
  have hin : g.scrollbackLen - g.displayOffset < g.scrollbackLen := by
    have := hr.offset
    omega
  have hids : ∃ rest, ids { g with storage :=
      (g.storage.resizeRows (g.storage.len + n) g.cols t).removeRange g.scrollbackLen n } =
        g.ids.take g.scrollbackLen ++ rest := by
    unfold ids lines
    rw [Storage.logical_removeRange _ _ _ (by rw [Storage.len_resizeRows]; omega), List.map_append,
      List.map_take, Storage.logical_resizeRows, Nat.sub_eq_zero_of_le (Nat.le_add_right _ _),
      List.drop_zero, List.map_append, List.take_append_of_le_length (by simp; omega)]
    exact ⟨_, rfl⟩
  obtain ⟨rest, hrest⟩ := hids
  have hheld : g.scrollbackLen - g.displayOffset < (g.ids.take g.scrollbackLen).length := by
    simp only [ids, lines, List.length_take, List.length_map, Storage.length_logical]
    omega
  rw [hrest, List.getElem?_append_left hheld, List.getElem?_take_of_lt hin, hr.topLine_eq] at htop
  exact (Option.some.inj htop).symm

theorem follows_scrollUp (hr : g.Reading) (n : Nat) (t : Cell) : Follows g (g.scrollUp n t) := by
  unfold scrollUp
  split
  · exact Follows.refl hr
  · dsimp only
    split
    · exact follows_overflow hr _ t
    · have hcancel := (repaints_cancelRestateDebt g).follows hr
      refine hcancel.trans hr ?_
      split
      · exact follows_scrollScreenUp t _ (hcancel.reading hr) rfl
      · exact (repaints_scrollRegionUp _ _ t).follows (hcancel.reading hr)

/-- The region is neither the reader's nor the ring's. -/
theorem Follows.region (h : Follows g g') (r : ScrollRegion) : Follows g { g' with region := r } :=
  ⟨⟨h.bottom, h.top⟩, ⟨h.shape.1, h.shape.2, h.shape.3, h.shape.4⟩, h.offset, h.ledger, h.ends⟩

theorem follows_deleteLines (hr : g.Reading) (n : Nat) (t : Cell) :
    Follows g (g.deleteLines n t) := by
  unfold deleteLines
  split
  · have hr' : Reading { g with region := { g.region with top := g.cursor.row } } :=
      ⟨⟨hr.shape.1, hr.shape.2, hr.shape.3, hr.shape.4⟩, hr.offset, hr.minted⟩
    have hup := (follows_scrollUp hr' n t).region g.region
    exact ⟨⟨hup.bottom, hup.top⟩, hup.shape, hup.offset, hup.ledger, hup.ends⟩
  · exact Follows.refl hr

theorem follows_settleRestate (hr : g.Reading) : Follows g g.settleRestate.1 := by
  have he := evolves_settleRestate g
  unfold settleRestate at he ⊢
  dsimp only at he ⊢
  split
  · next hc =>
    rw [if_pos hc] at he
    exact Repaints.follows hr ⟨he, rfl, rfl, rfl, rfl⟩
  · next hc =>
    rw [if_neg hc] at he
    generalize hk : min (min (min g.endRestatementWindow.pendingRestate
      g.endRestatementWindow.blankTail) (g.endRestatementWindow.rows - 1 -
        min g.endRestatementWindow.cursor.row (g.endRestatementWindow.rows - 1)))
      g.endRestatementWindow.scrollbackLen = k at he ⊢
    have hle : k ≤ g.scrollbackLen := by
      rw [← hk]
      exact Nat.min_le_right _ g.scrollbackLen
    split
    · next h0 =>
      rw [if_pos h0] at he
      exact Repaints.follows hr ⟨he, rfl, rfl, rfl, rfl⟩
    · next h0 =>
      rw [if_neg h0] at he
      refine follows_pull hr hle ?_ rfl (he.shape hr.shape) he.ledger rfl
      have hlen := hr.shape.len
      have hpos := hr.shape.rows_pos
      show (g.storage.truncateBottom k).logical.map Row.id = g.ids.take (g.ids.length - k)
      rw [Storage.logical_truncateBottom, if_neg h0, List.map_take]
      congr 1
      simp only [ids, lines, List.length_map, Storage.length_logical]
      omega

/-- The ring with blank rows minted at its end. -/
theorem ids_grown (s : Storage) (n cols : Nat) (t : Cell) :
    (s.resizeRows (s.len + n) cols t).logical.map Row.id =
      s.logical.map Row.id ++ List.range' s.nextId n := by
  rw [Storage.logical_resizeRows, Nat.sub_eq_zero_of_le (Nat.le_add_right _ _),
    Nat.add_sub_cancel_left, List.drop_zero, List.map_append, List.map_map]
  exact congrArg _ (List.map_id _)

/-- The boundary moves down over the rows of a settle, and as many are minted
below. -/
theorem follows_bank (hr : g.Reading) {k : Nat} (t : Cell) (he : g.Evolves g')
    (hs : g'.storage = g.storage.resizeRows (g.scrollbackLen + k + g.rows) g.cols t)
    (hb : g'.scrollbackLen = g.scrollbackLen + k)
    (hd : g'.displayOffset =
      if g.displayOffset = 0 then 0 else min (g.displayOffset + k) (g.scrollbackLen + k)) :
    Follows g g' := by
  have hgrown : g.scrollbackLen + k + g.rows = g.storage.len + k := by
    have := hr.shape.len
    omega
  refine follows_slide hr 0 (List.range' g.storage.nextId k) ?_ (Nat.zero_le _)
    (by simpa using hb) (he.shape hr.shape) he.ledger (by rw [hd, hb, List.length_range'])
  unfold ids lines
  rw [hs, hgrown, ids_grown]
  rfl

/-- A settle is taken back; a reader at the bottom is moved into history. -/
theorem follows_rebankSettled (hr : g.Reading) (t : Cell)
    (hcalm : g.settledPull = 0 ∨ 0 < g.displayOffset) : Follows g (g.rebankSettled t) := by
  have he := evolves_rebankSettled g t
  unfold rebankSettled at he ⊢
  dsimp only at he ⊢
  split
  · next h0 =>
    rw [if_pos h0] at he
    exact Repaints.follows hr ⟨he, rfl, rfl, rfl, rfl⟩
  · next h0 =>
    rw [if_neg h0] at he
    refine follows_bank hr t he rfl rfl ?_
    rw [if_neg (Nat.pos_iff_ne_zero.mp (hcalm.resolve_left h0))]

theorem follows_strandSettled (hr : g.Reading) (t : Cell) : Follows g (g.strandSettled t).1 := by
  have he := evolves_strandSettled g t
  unfold strandSettled at he ⊢
  dsimp only at he ⊢
  split
  · next h0 =>
    rw [if_pos h0] at he
    exact Repaints.follows hr ⟨he, rfl, rfl, rfl, rfl⟩
  · next h0 =>
    rw [if_neg h0] at he
    split
    · next hd =>
      rw [if_pos hd] at he
      exact follows_bank hr t he rfl rfl (by rw [if_neg (by omega)])
    · next hd =>
      rw [if_neg hd] at he
      refine follows_bank hr t he rfl rfl ?_
      rw [if_pos (by omega)]
      show g.displayOffset = 0
      omega

theorem follows_bankViewportTop (hr : g.Reading) (n : Nat) (t : Cell) :
    Follows g (g.bankViewportTop n t) := by
  by_cases hn : n = 0
  · unfold bankViewportTop
    rw [if_pos hn]
    exact Follows.refl hr
  · have hledger := g.ledger_bankViewportTop n t
    have hshape := shape_bankViewportTop hr.shape n t
    have hlen := hr.shape.len
    have hd : (g.bankViewportTop n t).displayOffset = if g.displayOffset = 0 then 0 else
        min (g.displayOffset + n) (g.bankViewportTop n t).scrollbackLen := by
      obtain ⟨s, sb, heq, -⟩ := g.bankViewportTop_cases hn t
      rw [heq]
      dsimp only
      split <;> split <;> omega
    have hids := ids_grown g.storage n g.cols t
    obtain ⟨s, sb, heq, ⟨hsb, -, rfl⟩ | ⟨hover, hsb, rfl⟩⟩ := g.bankViewportTop_cases hn t
    · rw [heq] at hledger hshape hd ⊢
      exact follows_slide hr 0 (List.range' g.storage.nextId n) hids
        (Nat.zero_le _) (by simpa using hsb) hshape hledger (by simpa using hd)
    · rw [heq] at hledger hshape hd ⊢
      refine follows_slide hr (g.scrollbackLen + n - g.scrollbackLimit)
        (List.range' g.storage.nextId n) ?_ (by simp) (by simp; omega) hshape hledger
        (by simpa using hd)
      unfold ids lines
      rw [Storage.logical_resizeRows, Storage.len_resizeRows, Nat.sub_eq_zero_of_le (Nat.sub_le _ _),
        List.range'_zero, List.map_nil, List.append_nil, List.map_drop, hids]
      congr 1
      omega

/-! ## Rows taken back from history -/

/-- The rows of history that `named` strikes out stand clear of the reader:
the line at the top of the display goes itself, or it stays and no row above
it goes, or as many rows go as the reader is scrolled back. -/
def Clear (g : Grid) (named : List LineId) : Prop :=
  (g.topLine ∈ named ∧ g.ids.count g.topLine = 1) ∨
    (g.topLine ∉ named ∧
      ∀ id ∈ g.ids.take (g.scrollbackLen - g.displayOffset), id ∉ named) ∨
    ((g.ids.take g.scrollbackLen).Pairwise (· < ·) ∧
      g.displayOffset ≤ (g.ids.take g.scrollbackLen).countP (· ∈ named))

/-- Of a history in order each row stays or is named. -/
theorem Shape.length_unnamed (hs : g.Shape) (hasc : (g.ids.take g.scrollbackLen).Pairwise (· < ·))
    (named : List LineId) : (unnamed named (g.lines.take g.scrollbackLen)).length +
      (g.ids.take g.scrollbackLen).countP (· ∈ named) = g.scrollbackLen := by
  have hlen := hs.len
  unfold ids at hasc ⊢
  rw [← List.map_take] at hasc ⊢
  rw [Zesterm.length_unnamed (List.pairwise_map.mp hasc) named]
  simp only [lines, List.length_take, Storage.length_logical]
  omega

/-- The history about the reader: the rows above, the reader's and the newer
ones. -/
theorem Reading.split (h : g.Reading) (hpos : 0 < g.displayOffset) :
    ∃ above top below, g.lines.take g.scrollbackLen = above ++ top :: below ∧
      above.length = g.scrollbackLen - g.displayOffset ∧ below.length + 1 = g.displayOffset ∧
      top.id = g.topLine ∧
      g.ids.take (g.scrollbackLen - g.displayOffset) = above.map Row.id := by
  have hoff := h.offset
  have hlen : (g.lines.take g.scrollbackLen).length = g.scrollbackLen := by
    have := h.shape.len
    simp only [lines, List.length_take, Storage.length_logical]
    omega
  have hin : g.scrollbackLen - g.displayOffset < (g.lines.take g.scrollbackLen).length := by omega
  refine ⟨(g.lines.take g.scrollbackLen).take (g.scrollbackLen - g.displayOffset),
    (g.lines.take g.scrollbackLen)[g.scrollbackLen - g.displayOffset],
    (g.lines.take g.scrollbackLen).drop (g.scrollbackLen - g.displayOffset + 1), ?_, ?_, ?_, ?_, ?_⟩
  · rw [← List.drop_eq_getElem_cons hin, List.take_append_drop]
  · rw [List.length_take, hlen]
    omega
  · rw [List.length_drop, hlen]
    omega
  · have htop := h.topLine_eq
    unfold ids at htop
    rw [List.getElem?_map, ← List.getElem?_take_of_lt (by omega : _ < g.scrollbackLen),
      List.getElem?_eq_getElem hin] at htop
    exact Option.some.inj htop
  · rw [List.take_take, Nat.min_eq_left (Nat.sub_le _ _), List.map_take]
    rfl

/-- The rows above the reader's line and that line are where they were. -/
theorem topLine_of_kept (hr : g'.Reading) (above kept : List Row) {top : Row}
    (hlines : g'.lines.take g'.scrollbackLen = above ++ top :: kept)
    (hd : g'.displayOffset = kept.length + 1) : g'.topLine = top.id := by
  have hlen := congrArg List.length hlines
  have hshape := hr.shape.len
  simp only [lines, List.length_take, List.length_append, List.length_cons,
    Storage.length_logical] at hlen
  have htop := hr.topLine_eq
  have hplace : g'.scrollbackLen - g'.displayOffset = above.length := by omega
  unfold ids at htop
  rw [hplace, List.getElem?_map, ← List.getElem?_take_of_lt (by omega : _ < g'.scrollbackLen), hlines,
    List.getElem?_append_right (Nat.le_refl _), Nat.sub_self] at htop
  exact (Option.some.inj htop).symm

theorem follows_dropScrollbackRows (hr : g.Reading) (named : List LineId)
    (hclear : g.displayOffset = 0 ∨ g.Clear named) : Follows g (g.dropScrollbackRows named).1 := by
  have hoff := hr.offset
  have hlen := hr.shape.len
  have he := evolves_dropScrollbackRows hr.shape hoff named
  obtain ⟨s, kept, hkept, heq, hlog, hnext⟩ := g.dropScrollbackRows_spec named hr.shape hoff
  rw [heq] at he ⊢
  have hsub : kept.Sublist (g.lines.take g.scrollbackLen) := hkept ▸ unnamed_sublist named _
  have hle : kept.length ≤ g.scrollbackLen := hsub.length_le.trans (List.length_take_le _ _)
  have hshape := he.shape hr.shape
  have hledger := he.ledger
  refine ⟨⟨fun h0 => ?_, fun hpos hheld => ?_⟩, hshape, Nat.min_le_right _ _, hledger, fun he => ?_⟩
  · show min (g.displayOffset - (g.scrollbackLen - kept.length)) kept.length = 0
    omega
  · obtain ⟨above, top, below, hsplit, habove, hbelow, htop, htake⟩ := hr.split hpos
    rw [hsplit] at hkept
    have hstays (h : ∃ kept', kept'.Sublist below ∧ kept = above ++ top :: kept') : topLine { g with
        storage := s
        scrollbackLen := kept.length
        displayOffset := min (g.displayOffset - (g.scrollbackLen - kept.length)) kept.length } =
          g.topLine := by
      obtain ⟨kept', hsub', rfl⟩ := h
      have := hsub'.length_le
      refine (topLine_of_kept (hr.evolves hshape (Nat.min_le_right _ _) hledger) above kept'
        ?_ ?_).trans htop
      · show s.logical.take _ = _
        rw [hlog]
        exact List.take_left
      · simp only [List.length_append, List.length_cons] at hle ⊢
        omega
    rcases hclear.resolve_left (by omega) with ⟨hnamed, hone⟩ | ⟨hfree, hfrees⟩ | ⟨hasc, hmany⟩
    · rw [← htop] at hnamed
      rcases unnamed_of_named hnamed above below with ⟨kept', hsub', hwhole⟩ | hgone
      · exact .inl (hstays ⟨kept', hsub', hkept.trans hwhole⟩)
      · -- The line stood nowhere else, so it is not held any more.
        rw [← hkept] at hgone
        have hids : g.ids = (above ++ top :: below).map Row.id ++
            (g.lines.drop g.scrollbackLen).map Row.id := by
          rw [← hsplit, ← List.map_append, List.take_append_drop]
          rfl
        have hheld' : g.topLine ∈ (above ++ below).map Row.id ++
            (g.lines.drop g.scrollbackLen).map Row.id := by
          replace hheld : g.topLine ∈ s.logical.map Row.id := hheld
          rw [hlog, List.map_append] at hheld
          exact ((hgone.map Row.id).append (List.Sublist.refl _)).subset hheld
        rw [hids, ← htop] at hone
        rw [← htop] at hheld'
        have hcount := List.count_pos_iff.mpr hheld'
        simp only [List.map_append, List.map_cons, List.count_append, List.count_cons_self] at hone hcount
        omega
    · left
      refine hstays ?_
      rw [hkept]
      refine unnamed_of_clear (htop ▸ hfree) (fun a ha => hfrees a.id ?_) below
      rw [htake]
      exact List.mem_map_of_mem ha
    · right
      left
      have hcount := hr.shape.length_unnamed hasc named
      rw [hsplit, ← hkept] at hcount
      show min (g.displayOffset - (g.scrollbackLen - kept.length)) kept.length = 0
      omega
  · unfold AtEnd at he ⊢
    dsimp only
    omega

/-! ## Notes of a repaint -/

theorem follows_opened (hr : g.Reading) (t : Cell)
    (hcalm : g.settledPull = 0 ∨ 0 < g.displayOffset) :
    Follows g ({ g with restatementOpen := true }.rebankSettled t) := by
  have hopen : Follows g { g with restatementOpen := true } := follows_frame hr rfl rfl rfl rfl rfl
  exact hopen.trans hr (follows_rebankSettled (hopen.reading hr) t hcalm)

theorem follows_noteRestatementBegan (hr : g.Reading) (cols rows : Nat) (t : Cell)
    (hcalm : g.settledPull = 0 ∨ 0 < g.displayOffset) :
    Follows g (g.noteRestatementBegan cols rows t) := by
  have hopened := follows_opened hr t hcalm
  have hr' := hopened.reading hr
  unfold noteRestatementBegan
  dsimp only
  split
  · exact hopened
  · split
    · split
      · exact hopened
      · exact hopened.trans hr (follows_frame hr' rfl rfl rfl rfl rfl)
    · exact hopened.trans hr (follows_frame hr' rfl rfl rfl rfl rfl)

theorem follows_noteCursorHomedWhileHidden (hr : g.Reading) (t : Cell)
    (hcalm : g.sittingOut = true ∨ g.restating = true ∨ g.settledPull = 0 ∨ 0 < g.displayOffset) :
    Follows g (g.noteCursorHomedWhileHidden t) := by
  unfold noteCursorHomedWhileHidden
  dsimp only
  split
  · next hin =>
    have hopened := follows_opened hr t (by
      rcases hcalm with h | h | h
      · simp [h] at hin
      · simp [h] at hin
      · exact h)
    split
    · exact hopened.trans hr (follows_frame (hopened.reading hr) rfl rfl rfl rfl rfl)
    · exact hopened
  · split
    · exact follows_frame hr rfl rfl rfl rfl rfl
    · exact follows_frame hr rfl rfl rfl rfl rfl

/-! ## Every run -/

/-- What the program and the host do to a grid, the reader scrolling no
further: output and its scrolls, edits in place, the notes of a repaint, its
settles and strands, a replica's banks and the rows it takes back. -/
def Op.OfOutput : Op → Prop
  | .scrollDisplay _ | .scrollToBottom | .scrollToLine _ => False
  | .resize _ _ _ | .pushHistory _ | .clearHistory | .setNextLineId _ => False
  | .modifyRow _ f => ∀ r, (f r).id = r.id ∧ (f r).cells.length = r.cells.length
  | _ => True

/-- What a move must find so that the reader is taken along. A settle is
taken back by the note that opens a repaint, where that repaint is not one to
sit out already. -/
def Op.Calm (g : Grid) : Op → Prop
  | .noteRestatementBegan _ _ _ => g.settledPull = 0 ∨ 0 < g.displayOffset
  | .noteCursorHomedWhileHidden _ =>
    g.sittingOut = true ∨ g.restating = true ∨ g.settledPull = 0 ∨ 0 < g.displayOffset
  | .dropScrollbackRows named => g.displayOffset = 0 ∨ g.Clear named
  | _ => True

theorem follows_apply (hr : g.Reading) {o : Op} (hout : o.OfOutput) (hcalm : o.Calm g) :
    Follows g (g.apply o) := by
  cases o with
  | scrollUp n t => exact follows_scrollUp hr n t
  | scrollDown n t => exact (repaints_scrollDown g n t).follows hr
  | scrollDisplay | scrollToBottom | scrollToLine | resize | pushHistory | clearHistory
    | setNextLineId => exact hout.elim
  | dropScrollbackRows named => exact follows_dropScrollbackRows hr named hcalm
  | bankViewportTop n t => exact follows_bankViewportTop hr n t
  | setViewportRestatedElsewhere | endRestatementWindow | setCaptureEvicted | takeEvicted
    | setCursor | setRegion => exact follows_frame hr rfl rfl rfl rfl rfl
  | noteRestatementBegan cols rows t => exact follows_noteRestatementBegan hr cols rows t hcalm
  | noteCursorHomedWhileHidden t => exact follows_noteCursorHomedWhileHidden hr t hcalm
  | settleRestate => exact follows_settleRestate hr
  | strandSettled t => exact follows_strandSettled hr t
  | cancelRestateDebt => exact (repaints_cancelRestateDebt g).follows hr
  | eraseInRow row start stop t => exact (repaints_eraseInRow g row start stop t).follows hr
  | eraseRows first last t => exact (repaints_eraseRows g first last t).follows hr
  | insertCells n t =>
    exact (repaints_modifyRow (evolves_insertCells g n t) fun _ => rfl).follows hr
  | deleteCells n t =>
    exact (repaints_modifyRow (evolves_deleteCells g n t) fun _ => rfl).follows hr
  | insertLines n t => exact (repaints_insertLines g n t).follows hr
  | deleteLines n t => exact follows_deleteLines hr n t
  | clearAll t => exact (repaints_clearAll g t).follows hr
  | setWrapped row wrapped =>
    exact (repaints_modifyRow (evolves_setWrapped g row wrapped) fun _ => rfl).follows hr
  | modifyRow row f =>
    exact (repaints_modifyRow (evolves_modifyRow g row f (fun r => (hout r).1) fun r => (hout r).2)
      fun r => (hout r).1).follows hr

/-- Over every run of moves that find what they must, whatever their order,
the reader's view holds still. -/
theorem still_run (hr : g.Reading)
    (hrun : Run (fun g o => o.OfOutput ∧ o.Calm g) g g') : Still g g' := by
  suffices h : Follows g g' from h.toStill
  induction hrun with
  | refl => exact Follows.refl hr
  | op o ho _ ih => exact ih.trans hr (follows_apply (ih.reading hr) ho.1 ho.2)

/-! ## No other moves -/

/-- Taking back a settle moves a reader at the bottom by all its rows. -/
theorem displayOffset_rebankSettled (t : Cell) (hk : g.settledPull ≠ 0) :
    (g.rebankSettled t).displayOffset =
      min (g.displayOffset + g.settledPull) (g.scrollbackLen + g.settledPull) := by
  unfold rebankSettled
  dsimp only
  rw [if_neg hk]

theorem displayOffset_noteRestatementBegan (g : Grid) (cols rows : Nat) (t : Cell) :
    (g.noteRestatementBegan cols rows t).displayOffset =
      ({ g with restatementOpen := true }.rebankSettled t).displayOffset := by
  unfold noteRestatementBegan
  dsimp only
  split
  · rfl
  · split
    · split <;> rfl
    · rfl

theorem displayOffset_noteCursorHomed (t : Cell) (hopen : (!g.sittingOut && !g.restating) = true) :
    (g.noteCursorHomedWhileHidden t).displayOffset =
      ({ g with restatementOpen := true }.rebankSettled t).displayOffset := by
  unfold noteCursorHomedWhileHidden
  dsimp only
  rw [if_pos hopen]
  split <;> rfl

/-- Where rows above the reader's line go and that line stays, the reader is
moved past it. -/
theorem clear_of_still (hr : g.Reading) (hn : Ledger.Numbered g.ids g.nextLineId)
    {named : List LineId} (hpos : 0 < g.displayOffset)
    (hstill : Still g (g.dropScrollbackRows named).1) : g.Clear named := by
  have hoff := hr.offset
  have hlen := hr.shape.len
  have he := evolves_dropScrollbackRows hr.shape hoff named
  obtain ⟨s, kept, hkept, heq, hlog, hnext⟩ := g.dropScrollbackRows_spec named hr.shape hoff
  obtain ⟨above, top, below, hsplit, habove, hbelow, htop, htake⟩ := hr.split hpos
  rw [heq] at he hstill
  have hasc : (g.ids.take g.scrollbackLen).Pairwise (· < ·) := hn.sorted.sublist (List.take_sublist _ _)
  by_contra hnot
  unfold Clear at hnot
  rw [not_or, not_or] at hnot
  obtain ⟨hone, hsome, hfew⟩ := hnot
  -- A line has one row, so the reader's is not named, and a row above it is.
  have hfree : top.id ∉ named := fun hin => hone ⟨htop ▸ hin,
    List.count_eq_one_of_mem hn.sorted.nodup (List.mem_of_getElem? hr.topLine_eq)⟩
  have hnamed : ∃ a ∈ above, a.id ∈ named := by
    by_contra hall
    refine hsome ⟨htop ▸ hfree, fun id hid hin => ?_⟩
    rw [htake] at hid
    obtain ⟨a, ha, rfl⟩ := List.mem_map.mp hid
    exact hall ⟨a, ha, hin⟩
  -- Fewer rows go than the reader is scrolled back.
  have hcount := hr.shape.length_unnamed hasc named
  have hfew' : (g.ids.take g.scrollbackLen).countP (· ∈ named) < g.displayOffset := by
    by_contra hmany
    exact hfew ⟨hasc, Nat.le_of_not_lt hmany⟩
  rw [← hkept] at hcount
  have hfilter : kept = (above.filter fun r => r.id ∉ named) ++
      top :: below.filter fun r => r.id ∉ named := by
    rw [hkept, hsplit, unnamed_eq_filter, List.filter_append, List.filter_cons_of_pos (by simpa using hfree)]
    rw [← hsplit]
    exact List.pairwise_map.mp (by rw [List.map_take]; exact hasc)
  have hless : (above.filter fun r => r.id ∉ named).length < above.length := by
    obtain ⟨a, ha, hin⟩ := hnamed
    exact List.length_filter_lt_length_iff_exists.mpr ⟨a, ha, by simpa using hin⟩
  have hheld : top.id ∈ s.logical.map Row.id := by
    rw [hlog, hfilter]
    simp
  rcases hstill.top hpos (htop ▸ hheld) with hsame | h0 | hend
  · -- The line has moved up by the rows that went above it.
    have hat := (hr.evolves (he.shape hr.shape) (Nat.min_le_right _ _) he.ledger).topLine_eq
    replace hat : (s.logical.map Row.id)[kept.length -
        min (g.displayOffset - (g.scrollbackLen - kept.length)) kept.length]? = some g.topLine :=
      hsame ▸ hat
    have hmoved : (s.logical.map Row.id)[(above.filter fun r => r.id ∉ named).length]? =
        some g.topLine := by
      rw [hlog, hfilter, List.getElem?_map, List.append_assoc, List.getElem?_append_right (Nat.le_refl _),
        Nat.sub_self, ← htop]
      rfl
    have hnodup : (s.logical.map Row.id).Nodup := (he.ledger.numbered hn).sorted.nodup
    have hin : (above.filter fun r => r.id ∉ named).length < (s.logical.map Row.id).length := by
      rw [hlog, hfilter]
      simp
    have := (List.getElem?_inj hin hnodup).mp (hmoved.trans hat.symm)
    omega
  · replace h0 : min (g.displayOffset - (g.scrollbackLen - kept.length)) kept.length = 0 := h0
    omega
  · replace hend : min (g.displayOffset - (g.scrollbackLen - kept.length)) kept.length = kept.length := hend
    omega

/-- In a grid whose line ids are in order the conditions are exact. -/
theorem still_apply_iff (hr : g.Reading) (hn : Ledger.Numbered g.ids g.nextLineId) {o : Op}
    (hout : o.OfOutput) : Still g (g.apply o) ↔ o.Calm g := by
  refine ⟨fun hstill => ?_, fun hcalm => (follows_apply hr hout hcalm).toStill⟩
  -- A reader at the bottom has not been moved by a settle taken back.
  have hback (t : Cell)
      (h0 : g.displayOffset = 0 → ({ g with restatementOpen := true }.rebankSettled t).displayOffset = 0) :
      g.settledPull = 0 ∨ 0 < g.displayOffset := by
    by_contra hnot
    rw [not_or, Nat.not_lt, Nat.le_zero] at hnot
    have := h0 hnot.2
    rw [displayOffset_rebankSettled t (g := { g with restatementOpen := true }) hnot.1] at this
    dsimp only at this
    omega
  cases o with
  | noteRestatementBegan cols rows t =>
    exact hback t fun h0 => (displayOffset_noteRestatementBegan g cols rows t).symm.trans (hstill.bottom h0)
  | noteCursorHomedWhileHidden t =>
    cases hopen : !g.sittingOut && !g.restating with
    | true =>
      exact .inr (.inr (hback t fun h0 =>
        (displayOffset_noteCursorHomed t hopen).symm.trans (hstill.bottom h0)))
    | false =>
      rcases Bool.and_eq_false_iff.mp hopen with h | h
      · exact .inl (by simpa using h)
      · exact .inr (.inl (by simpa using h))
  | dropScrollbackRows named =>
    rcases Nat.eq_zero_or_pos g.displayOffset with h0 | hpos
    · exact .inl h0
    · exact .inr (clear_of_still hr hn hpos hstill)
  | _ => trivial

/-- A run of moves holds the reader still at every step exactly where each
finds what it must. -/
theorem still_steps_iff (ops : List Op) (hout : ∀ o ∈ ops, o.OfOutput) :
    ∀ {g : Grid}, g.Reading → Ledger.Numbered g.ids g.nextLineId →
      ((∀ n o, ops[n]? = some o →
          Still (g.runOps (ops.take n)) ((g.runOps (ops.take n)).apply o)) ↔
        OpsMeet (fun g o => o.Calm g) g ops) := by
  induction ops with
  | nil => exact fun _ _ => iff_of_true (fun n o h => by simp at h) trivial
  | cons o ops ih =>
    intro g hr hn
    have ho := hout o List.mem_cons_self
    by_cases hcalm : o.Calm g
    · have hf := follows_apply hr ho hcalm
      have hrest := ih (fun o h => hout o (List.mem_cons_of_mem _ h)) (hf.reading hr)
        (hf.ledger.numbered hn)
      rw [OpsMeet, and_iff_right hcalm, ← hrest]
      refine ⟨fun h n => h (n + 1), fun h n => ?_⟩
      cases n with
      | zero =>
        intro o' ho'
        obtain rfl : o = o' := by simpa using ho'
        exact hf.toStill
      | succ n => exact h n
    · exact iff_of_false (fun h => hcalm ((still_apply_iff hr hn ho).mp (h 0 o rfl)))
        fun h => hcalm h.1

/-! ## A reader who is moved -/

/-- A reader two lines back, and what happens meanwhile: output, a displaced
viewport, rows taken back below the reader. -/
def scrolledBack : Grid :=
  (Grid.new 4 2 5).runOps [.scrollUp 2 Cell.blank, .scrollUp 2 Cell.blank, .scrollDisplay 2]

def meanwhile : List Op :=
  [.scrollUp 1 Cell.blank, .bankViewportTop 1 Cell.blank, .dropScrollbackRows [3, 4]]

theorem reading_scrolledBack : scrolledBack.Reading :=
  ⟨⟨by decide, by decide, by decide, by decide⟩, by decide,
    by decide⟩

theorem still_run_scrolledBack : Still scrolledBack (scrolledBack.runOps meanwhile) ∧
    0 < scrolledBack.displayOffset ∧ scrolledBack.topLine ∈ (scrolledBack.runOps meanwhile).ids := by
  have hclear : ((scrolledBack.apply (.scrollUp 1 Cell.blank)).apply
      (.bankViewportTop 1 Cell.blank)).Clear [3, 4] :=
    .inr (.inl ⟨by decide, by decide⟩)
  have hmeet : OpsMeet (fun g o => o.OfOutput ∧ o.Calm g) scrolledBack meanwhile :=
    ⟨⟨trivial, trivial⟩, ⟨trivial, trivial⟩, ⟨trivial, .inr hclear⟩, trivial⟩
  exact ⟨still_run reading_scrolledBack (Run.refl.of_ops meanwhile hmeet), by decide,
    by decide⟩

/-- A drag that settled, a reader at the bottom, and the repaint of a size
already left: the settle is taken back, and no other follows. -/
def settled : Grid := (Grid.new 4 4 10).runOps settleOps

theorem still_steps_repaint :
    ¬∀ n o, [Op.noteRestatementBegan 4 2 Cell.blank][n]? = some o →
      Still (settled.runOps ([Op.noteRestatementBegan 4 2 Cell.blank].take n))
        ((settled.runOps ([Op.noteRestatementBegan 4 2 Cell.blank].take n)).apply o) := by
  have hiff := still_steps_iff [Op.noteRestatementBegan 4 2 Cell.blank] (by simp [Op.OfOutput])
    (g := settled) ⟨⟨by decide, by decide, by decide, by decide⟩, by decide, by decide⟩
    ⟨by decide, by decide⟩
  have hmoved : ¬(settled.settledPull = 0 ∨ 0 < settled.displayOffset) := by decide
  exact fun h => hmoved (hiff.mp h).1

theorem not_still_stale_repaint :
    ¬∀ g g' : Grid, g.Reading → Run (fun _ o => o.OfOutput) g g' → Still g g' := by
  intro hall
  have hreading : settled.Reading :=
    ⟨⟨by decide, by decide, by decide, by decide⟩, by decide,
      by decide⟩
  have hstill := hall settled _ hreading (Run.refl.op (.noteRestatementBegan 4 2 Cell.blank) trivial)
  exact absurd (hstill.bottom (by decide)) (by decide)

end Grid

end Zesterm
