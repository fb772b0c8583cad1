/-
Zesterm.Core.RestateTheorems — what a restating pty is owed.

A shrink of a restated screen files rows as history and counts them, in
`restateDebt`; a grow moves the count to `pendingRestate`; the repaint that
answers pulls as many rows back down and counts them in `settledPull`, until
they are filed again or the count is cancelled. Three counters of rows of one
ring, so what matters is which rows they count.

`Grid.owedIds` are the rows counted: the last of history for the first two
counters, the first of the screen for the third. They are one stretch of the
ring, and no move between the counters changes it. `Grid.Owing` says that it
lies where it is said to and that a shrink filed every row of it; every
operation of a terminal keeps that (`stable_owing`), a shrink adds the rows
it files (`owing_resize`), and what is left are the two places where the
source forgets the count: ED 3 given on the alternate screen, and a width
change, which gives every row another id.
-/
import Zesterm.Core.HoldTheorems
import Zesterm.Core.ReplicaTheorems

namespace Zesterm

namespace Grid

/-! ## The rows counted -/

/-- The ids of the rows the three counters count: the last of history, then
the first of the screen. -/
def owedIds (g : Grid) : List LineId :=
  (g.ids.take (g.scrollbackLen + g.settledPull)).drop
    (g.scrollbackLen - (g.restateDebt + g.pendingRestate))

/-- What is counted is held, and is among the rows `filed`; the flags of the
repaint in hand agree. -/
structure Owing (filed : List LineId) (limit : Nat) (g : Grid) : Prop where
  shape : g.Shape
  capped : g.scrollbackLimit = limit
  restated : limit ≠ 0 → g.viewportRestatedElsewhere = true
  held : g.restateDebt + g.pendingRestate ≤ g.scrollbackLen
  inside : g.settledPull ≤ g.rows
  counted : ∀ id ∈ g.owedIds, id ∈ filed
  opened : g.restating = true ∨ g.sittingOut = true → g.restatementOpen = true
  provisional : g.restatementOpen = true → g.settledPull = 0

variable {filed : List LineId} {limit : Nat} {g : Grid}

/-- A grid that owes nothing. -/
theorem Owing.of_idle {g' : Grid} (h : g.Owing filed limit) (he : g.Evolves g')
    (hd : g'.restateDebt = 0) (hp : g'.pendingRestate = 0) (hk : g'.settledPull = 0)
    (ho : g'.restating = true ∨ g'.sittingOut = true → g'.restatementOpen = true) :
    g'.Owing filed limit := by
  refine ⟨he.shape h.shape, he.limit.trans h.capped, fun hl => he.restated.trans (h.restated hl),
    by omega, by omega, fun id hid => ?_, ho, fun _ => hk⟩
  simp only [owedIds, hd, hp, hk, Nat.add_zero, Nat.sub_zero] at hid
  rw [List.drop_of_length_le (by simp)] at hid
  exact absurd hid List.not_mem_nil

/-- Rows were edited in place. -/
theorem Owing.edits (h : g.Owing filed limit) {s : Storage} (hs : g.storage.Edits s) :
    ({ g with storage := s } : Grid).Owing filed limit := by
  have hids : ({ g with storage := s } : Grid).ids = g.ids := hs.ids
  refine ⟨(Evolves.of_edits hs).shape h.shape, h.capped, h.restated, h.held, h.inside, fun id hid => ?_,
    h.opened, h.provisional⟩
  unfold owedIds at hid
  rw [hids] at hid
  exact h.counted id hid

theorem Owing.modifyRow (h : g.Owing filed limit) (i : Nat) {f : Row → Row} (hid : ∀ r, (f r).id = r.id)
    (hw : ∀ w, (∀ r ∈ g.lines, r.cells.length = w) → ∀ r ∈ g.lines, (f r).cells.length = w) :
    (g.modifyRow i f).Owing filed limit :=
  h.edits (Storage.edits_modifyRow _ _ f hid hw)

theorem Owing.seen (h : g.Owing filed limit) (n : Nat) :
    ({ g with restateRowsSeen := n } : Grid).Owing filed limit :=
  ⟨⟨h.shape.1, h.shape.2, h.shape.3, h.shape.4⟩, h.capped, h.restated, h.held, h.inside, h.counted, h.opened,
    h.provisional⟩

/-! ## Erasing and scrolling -/

theorem Owing.eraseInRow (h : g.Owing filed limit) (row start stop : Nat) (t : Cell) :
    (g.eraseInRow row start stop t).Owing filed limit := by
  have hseen : (if g.viewportRestatedElsewhere then
      { g with restateRowsSeen := max g.restateRowsSeen (row + 1) } else g : Grid).Owing filed limit := by
    split
    · exact h.seen _
    · exact h
  unfold Grid.eraseInRow
  dsimp only
  refine hseen.modifyRow _ (fun _ => rfl) fun w hw r hr => ?_
  rw [← hw r hr]
  simp

theorem Owing.cancel (h : g.Owing filed limit) : g.cancelRestateDebt.Owing filed limit :=
  h.of_idle (evolves_cancelRestateDebt g) rfl rfl rfl fun ho => by
    simp [cancelRestateDebt, endRestatementWindow] at ho

/-- Scrolling the screen moves no count. -/
theorem counts_scrollScreenUp (t : Cell) (n : Nat) (g : Grid) :
    (g.scrollScreenUp t n).restateDebt = g.restateDebt ∧
      (g.scrollScreenUp t n).pendingRestate = g.pendingRestate ∧
      (g.scrollScreenUp t n).settledPull = g.settledPull ∧
      (g.scrollScreenUp t n).restating = g.restating ∧
      (g.scrollScreenUp t n).sittingOut = g.sittingOut := by
  induction n generalizing g with
  | zero => exact ⟨rfl, rfl, rfl, rfl, rfl⟩
  | succ n ih =>
    obtain ⟨hd, hp, hk, hr, hs⟩ := ih (g.scrollScreenUp1 t)
    have hone : (g.scrollScreenUp1 t).restateDebt = g.restateDebt ∧
        (g.scrollScreenUp1 t).pendingRestate = g.pendingRestate ∧
        (g.scrollScreenUp1 t).settledPull = g.settledPull ∧
        (g.scrollScreenUp1 t).restating = g.restating ∧
        (g.scrollScreenUp1 t).sittingOut = g.sittingOut := by
      unfold scrollScreenUp1
      dsimp only
      split <;> split <;>
        first | exact ⟨rfl, rfl, rfl, rfl, rfl⟩ | (split <;> exact ⟨rfl, rfl, rfl, rfl, rfl⟩)
    exact ⟨hd.trans hone.1, hp.trans hone.2.1, hk.trans hone.2.2.1, hr.trans hone.2.2.2.1,
      hs.trans hone.2.2.2.2⟩

/-- The overflow of a repaint leaves history as it is, and no pull is
provisional while a repaint is open. -/
theorem Owing.overflow (h : g.Owing filed limit) (hopen : g.restatementOpen = true) (n : Nat) (t : Cell) :
    ({ g with storage := (g.storage.resizeRows (g.storage.len + n) g.cols t).removeRange g.scrollbackLen n } :
      Grid).Owing filed limit := by
  have hlen := h.shape.len
  have hpos := h.shape.rows_pos
  have hpull := h.provisional hopen
  have hshape := (evolves_overflow g n t).shape h.shape
  generalize hover : ({ g with storage :=
    (g.storage.resizeRows (g.storage.len + n) g.cols t).removeRange g.scrollbackLen n } : Grid) = g' at hshape ⊢
  have hhistory : g'.ids.take (g.scrollbackLen + g.settledPull) =
      g.ids.take (g.scrollbackLen + g.settledPull) := by
    rw [hpull, Nat.add_zero, ← hover]
    unfold ids lines
    dsimp only
    rw [Storage.logical_removeRange _ _ _ (by rw [Storage.len_resizeRows]; omega),
      Storage.logical_resizeRows, Nat.sub_eq_zero_of_le (by omega), List.drop_zero, List.map_append,
      List.take_append_of_le_length (by simp; omega), ← List.map_take, List.take_take, Nat.min_self,
      List.take_append_of_le_length (by simp; omega), List.map_take]
  have howed : g'.owedIds = g.owedIds := by
    unfold owedIds
    rw [← hhistory, ← hover]
  subst hover
  exact ⟨hshape, h.capped, h.restated, h.held, h.inside, fun id hid => h.counted id (howed ▸ hid), h.opened,
    h.provisional⟩

theorem Owing.scrollUp (h : g.Owing filed limit) (n : Nat) (t : Cell) :
    (g.scrollUp n t).Owing filed limit := by
  have he := evolves_scrollUp g n t
  unfold Grid.scrollUp at he ⊢
  split
  · exact h
  · next hn =>
    rw [if_neg hn] at he
    dsimp only at he ⊢
    split
    · next hover =>
      simp only [Bool.and_eq_true] at hover
      exact h.overflow hover.1.2 _ t
    · next hover =>
      rw [if_neg hover] at he
      split
      · next hfull =>
        rw [if_pos hfull] at he
        obtain ⟨hd, hp, hk, hr, hs⟩ := counts_scrollScreenUp t
          (min n (g.region.bottom - g.region.top + 1)) g.cancelRestateDebt
        refine h.of_idle he hd hp hk fun ho => ?_
        rw [hr, hs] at ho
        simp [cancelRestateDebt, endRestatementWindow] at ho
      · next hfull =>
        rw [if_neg hfull] at he
        obtain ⟨s, hs, heq⟩ := g.cancelRestateDebt.scrollRegionUp_edits
          (min n (g.region.bottom - g.region.top + 1)) t
        rw [heq]
        exact h.cancel.edits hs

theorem Owing.scrollDown (h : g.Owing filed limit) (n : Nat) (t : Cell) :
    (g.scrollDown n t).Owing filed limit := by
  by_cases hn : n = 0
  · unfold Grid.scrollDown
    rw [if_pos hn]
    exact h
  · obtain ⟨s, hs, heq⟩ := g.scrollDown_edits hn t
    rw [heq]
    exact h.cancel.edits hs

theorem Owing.insertCells (h : g.Owing filed limit) (n : Nat) (t : Cell) :
    (g.insertCells n t).Owing filed limit := by
  refine h.modifyRow _ (fun _ => rfl) fun w hw r hr => ?_
  have hcols := h.shape.width r hr
  rw [← hw r hr]
  simp
  omega

theorem Owing.deleteCells (h : g.Owing filed limit) (n : Nat) (t : Cell) :
    (g.deleteCells n t).Owing filed limit := by
  refine h.modifyRow _ (fun _ => rfl) fun w hw r hr => ?_
  have hcols := h.shape.width r hr
  rw [← hw r hr]
  simp
  omega

/-! ## The restating pty -/

/-- Rows joined to the bottom of the ring move none that is counted. -/
theorem take_ids_resizeRows {n k : Nat} (hk : k ≤ g.storage.len) (hn : g.storage.len ≤ n)
    (t : Cell) : ((g.storage.resizeRows n g.cols t).logical.map Row.id).take k = g.ids.take k := by
  rw [Storage.logical_resizeRows, Nat.sub_eq_zero_of_le hn, List.drop_zero, List.map_append,
    List.take_append_of_le_length (by simp; omega)]
  rfl

/-- A repaint that opens files the pull again and owes it. -/
theorem Owing.rebank (h : g.Owing filed limit) (t : Cell) :
    ({ g with restatementOpen := true }.rebankSettled t).Owing filed limit := by
  have hlen := h.shape.len
  have hheld := h.held
  have hinside := h.inside
  have he := (evolves_repaint g g.restateDebt g.pendingRestate g.restateRowsSeen g.restating g.sittingOut
    true).trans (evolves_rebankSettled _ t)
  have hshape := he.shape h.shape
  unfold rebankSettled at hshape ⊢
  dsimp only at hshape ⊢
  by_cases hk : g.settledPull = 0
  · rw [if_pos hk] at hshape ⊢
    refine ⟨hshape, h.capped, h.restated, h.held, Nat.zero_le _, fun id hid => h.counted id ?_,
      fun _ => rfl, fun _ => rfl⟩
    unfold owedIds at hid ⊢
    rw [hk]
    exact hid
  · rw [if_neg hk] at hshape ⊢
    refine ⟨hshape, h.capped, h.restated, by dsimp only; omega, Nat.zero_le _,
      fun id hid => h.counted id ?_, fun _ => rfl, fun _ => rfl⟩
    have hsame : g.scrollbackLen + g.settledPull - (g.restateDebt + (g.pendingRestate + g.settledPull)) =
        g.scrollbackLen - (g.restateDebt + g.pendingRestate) := by omega
    unfold owedIds ids lines at hid
    dsimp only at hid
    rw [Nat.add_zero, take_ids_resizeRows (by omega) (by omega), hsame] at hid
    exact hid

theorem Owing.armed (h : g.Owing filed limit) (hopen : g.restatementOpen = true) (restating sittingOut : Bool)
    (seen : Nat) : ({ g with restating := restating, sittingOut := sittingOut, restateRowsSeen := seen } :
      Grid).Owing filed limit :=
  ⟨⟨h.shape.1, h.shape.2, h.shape.3, h.shape.4⟩, h.capped, h.restated, h.held, h.inside, h.counted,
    fun _ => hopen, h.provisional⟩

@[simp] theorem restatementOpen_rebankSettled (g : Grid) (t : Cell) :
    (g.rebankSettled t).restatementOpen = g.restatementOpen := by
  unfold rebankSettled
  dsimp only
  split <;> rfl

theorem Owing.began (h : g.Owing filed limit) (cols rows : Nat) (t : Cell) :
    (g.noteRestatementBegan cols rows t).Owing filed limit := by
  have hbank := h.rebank t
  have hopen : ({ g with restatementOpen := true }.rebankSettled t).restatementOpen = true := by simp
  unfold noteRestatementBegan
  dsimp only
  split
  · exact hbank
  · split
    · split
      · exact hbank
      · exact hbank.armed hopen _ _ _
    · exact hbank.armed hopen _ _ _

theorem Owing.homed (h : g.Owing filed limit) (t : Cell) :
    (g.noteCursorHomedWhileHidden t).Owing filed limit := by
  unfold noteCursorHomedWhileHidden
  dsimp only
  split
  · have hbank := h.rebank t
    split
    · exact hbank.armed (by simp) _ _ _
    · exact hbank
  · next hbusy =>
    -- A repaint that is already in hand opened before, and no pull is left.
    have hopen : g.restatementOpen = true := h.opened <| by
      cases hr : g.restating with
      | true => exact .inl rfl
      | false => exact .inr (by simpa [hr] using hbusy)
    have hstay : ({ g with restatementOpen := true } : Grid).Owing filed limit :=
      ⟨⟨h.shape.1, h.shape.2, h.shape.3, h.shape.4⟩, h.capped, h.restated, h.held, h.inside, h.counted,
        fun _ => rfl, fun _ => h.provisional hopen⟩
    split
    · exact hstay.armed rfl _ _ _
    · exact hstay

theorem Owing.endWindow (h : g.Owing filed limit) : g.endRestatementWindow.Owing filed limit :=
  ⟨⟨h.shape.1, h.shape.2, h.shape.3, h.shape.4⟩, h.capped, h.restated, h.held, h.inside, h.counted,
    fun ho => by simp [endRestatementWindow] at ho, fun ho => by simp [endRestatementWindow] at ho⟩

theorem Owing.strand (h : g.Owing filed limit) (t : Cell) :
    (g.strandSettled t).1.Owing filed limit := by
  have he := evolves_strandSettled g t
  unfold strandSettled at he ⊢
  dsimp only at he ⊢
  by_cases hk : g.settledPull = 0
  · rw [if_pos hk] at he ⊢
    refine ⟨he.shape h.shape, h.capped, h.restated, h.held, Nat.zero_le _, fun id hid => h.counted id ?_,
      h.opened, fun _ => rfl⟩
    unfold owedIds at hid ⊢
    rw [hk]
    exact hid
  · rw [if_neg hk] at he ⊢
    have hopen (ho : g.restating = true ∨ g.sittingOut = true) : g.restatementOpen = true := h.opened ho
    split
    · next hoff =>
      rw [if_pos hoff] at he
      exact h.of_idle he rfl rfl rfl hopen
    · next hoff =>
      rw [if_neg hoff] at he
      exact h.of_idle he rfl rfl rfl hopen

/-- What a settle pulls down is counted, and stays so. -/
theorem Owing.settle (h : g.Owing filed limit) (hr : g.restating = true) :
    g.settleRestate.1.Owing filed limit := by
  have hlen := h.shape.len
  have hpos := h.shape.rows_pos
  have hheld := h.held
  have hpull := h.provisional (h.opened (.inl hr))
  have hshape := (evolves_settleRestate g).shape h.shape
  unfold settleRestate at hshape ⊢
  dsimp only at hshape ⊢
  split
  · exact h.endWindow
  · next hcovered =>
    rw [if_neg hcovered] at hshape
    generalize hkd : min (min (min g.endRestatementWindow.pendingRestate g.endRestatementWindow.blankTail)
      (g.endRestatementWindow.rows - 1 - min g.endRestatementWindow.cursor.row
        (g.endRestatementWindow.rows - 1))) g.endRestatementWindow.scrollbackLen = k at hshape ⊢
    have hpending : k ≤ g.pendingRestate := by
      rw [← hkd]
      exact (Nat.min_le_left _ _).trans ((Nat.min_le_left _ _).trans (Nat.min_le_left _ _))
    have hbelow : k ≤ g.rows - 1 - min g.cursor.row (g.rows - 1) := by
      rw [← hkd]
      exact (Nat.min_le_left _ _).trans (Nat.min_le_right _ _)
    have hdebt : g.endRestatementWindow.restateDebt = g.restateDebt := rfl
    have hwas : g.endRestatementWindow.pendingRestate = g.pendingRestate := rfl
    have hsb : g.endRestatementWindow.scrollbackLen = g.scrollbackLen := rfl
    have hflags : ∀ id, id ∈ (g.ids.take g.scrollbackLen).drop
        (g.scrollbackLen - (g.restateDebt + g.pendingRestate)) → id ∈ filed := by
      intro id hid
      refine h.counted id ?_
      unfold owedIds
      rw [hpull]
      exact hid
    split
    · next hk =>
      rw [if_pos hk] at hshape
      refine ⟨hshape, h.capped, h.restated, ?_, h.inside, fun id hid => hflags id ?_,
        fun ho => by simp [endRestatementWindow] at ho, fun ho => by simp [endRestatementWindow] at ho⟩
      · dsimp only
        omega
      · unfold owedIds at hid
        dsimp only at hid
        rw [show g.endRestatementWindow.settledPull = 0 from hpull, hdebt, hwas, hk, hsb] at hid
        exact hid
    · next hk =>
      rw [if_neg hk] at hshape
      refine ⟨hshape, h.capped, h.restated, ?_, ?_, fun id hid => hflags id ?_,
        fun ho => by simp [endRestatementWindow] at ho, fun ho => by simp [endRestatementWindow] at ho⟩
      · dsimp only
        omega
      · show k ≤ g.rows
        omega
      · have hsame : g.scrollbackLen - k - (g.restateDebt + (g.pendingRestate - k) + 0) =
            g.scrollbackLen - (g.restateDebt + g.pendingRestate) := by omega
        have htake : g.scrollbackLen - k + k = g.scrollbackLen := by omega
        unfold owedIds ids lines at hid
        dsimp only at hid
        rw [hdebt, hwas, hsb, hsame, htake] at hid
        have hids : ((g.storage.truncateBottom k).logical.map Row.id).take g.scrollbackLen =
            g.ids.take g.scrollbackLen := by
          rw [Storage.logical_truncateBottom, if_neg hk, List.map_take, List.take_take]
          congr 1
          omega
        rwa [show g.endRestatementWindow.storage = g.storage from rfl, hids] at hid

/-- What every operation on whole rows keeps. -/
theorem stable_owing (filed : List LineId) (limit : Nat) :
    Stable (fun _ => True) (Owing filed limit) where
  cursor _ h := ⟨⟨h.shape.1, h.shape.2, h.shape.3, h.shape.4⟩, h.capped, h.restated, h.held, h.inside,
    h.counted, h.opened, h.provisional⟩
  region _ h := ⟨⟨h.shape.1, h.shape.2, h.shape.3, h.shape.4⟩, h.capped, h.restated, h.held, h.inside,
    h.counted, h.opened, h.provisional⟩
  offset _ h := ⟨⟨h.shape.1, h.shape.2, h.shape.3, h.shape.4⟩, h.capped, h.restated, h.held, h.inside,
    h.counted, h.opened, h.provisional⟩
  wrapped _ w h := h.modifyRow _ (fun _ => rfl) fun _ hw r hr =>
    (Row.length_setWrapped r w).trans (hw r hr)
  eraseLine row t h := h.eraseInRow row 0 _ t
  scrollUp n t _ h := h.scrollUp n t
  scrollDown n t _ h := h.scrollDown n t
  cancel h := h.cancel
  endWindow h := h.endWindow
  strand _ h := h.strand _
  began cols rows _ _ h := h.began cols rows _
  homed _ h := h.homed _
  settle hr h := h.settle hr

/-! ## Resizing -/

theorem mem_owedIds {id : LineId} :
    id ∈ g.owedIds ↔ ∃ j, g.scrollbackLen - (g.restateDebt + g.pendingRestate) ≤ j ∧
      j < g.scrollbackLen + g.settledPull ∧ g.ids[j]? = some id := by
  unfold owedIds
  rw [List.mem_iff_getElem?]
  constructor
  · rintro ⟨i, hi⟩
    rw [List.getElem?_drop] at hi
    have hlt : g.scrollbackLen - (g.restateDebt + g.pendingRestate) + i <
        g.scrollbackLen + g.settledPull := by
      by_contra hge
      rw [List.getElem?_take, if_neg hge] at hi
      exact absurd hi (by simp)
    rw [List.getElem?_take_of_lt hlt] at hi
    exact ⟨_, by omega, hlt, hi⟩
  · rintro ⟨j, hle, hlt, hj⟩
    refine ⟨j - (g.scrollbackLen - (g.restateDebt + g.pendingRestate)), ?_⟩
    rw [List.getElem?_drop, Nat.add_sub_cancel' hle, List.getElem?_take_of_lt hlt]
    exact hj

/-- The ids of the rows one grid has on its screen and another in its
history. -/
def crossed (g g' : Grid) : List LineId :=
  (g.screen.map Row.id).filter fun id => (g'.history.map Row.id).contains id

theorem mem_crossed {g g' : Grid} {id : LineId} {i j : Nat} (hi : g.ids[i]? = some id)
    (hle : g.scrollbackLen ≤ i) (hj : g'.ids[j]? = some id) (hlt : j < g'.scrollbackLen) :
    id ∈ g.crossed g' := by
  unfold crossed
  rw [List.mem_filter, List.contains_iff_mem]
  constructor
  · rw [screen, List.map_drop, List.mem_iff_getElem?]
    exact ⟨i - g.scrollbackLen, by rw [List.getElem?_drop, Nat.add_sub_cancel' hle]; exact hi⟩
  · rw [history, List.map_take, List.mem_iff_getElem?]
    exact ⟨j, by rw [List.getElem?_take_of_lt hlt]; exact hj⟩

/-- How many rows a shrink has to take over the top. -/
def overTheTop (g : Grid) (rows : Nat) : Nat :=
  g.rows - rows - min (g.rows - rows) (g.rows - 1 - min g.cursor.row (g.rows - 1))

/-- What a shrink does to the counters: what it files it owes, and no longer
holds as pulled. -/
theorem counts_shrinkRows (hle : g.scrollbackLen ≤ g.scrollbackLimit) (rows : Nat)
    (hflag : g.scrollbackLimit ≠ 0 → g.viewportRestatedElsewhere = true) :
    (g.shrinkRows rows).scrollbackLen = min (g.scrollbackLen + g.overTheTop rows) g.scrollbackLimit ∧
      (g.shrinkRows rows).restateDebt =
        g.restateDebt + (min (g.scrollbackLen + g.overTheTop rows) g.scrollbackLimit - g.scrollbackLen) ∧
      (g.shrinkRows rows).pendingRestate = g.pendingRestate ∧
      (g.shrinkRows rows).settledPull =
        g.settledPull - (min (g.scrollbackLen + g.overTheTop rows) g.scrollbackLimit - g.scrollbackLen) ∧
      (g.shrinkRows rows).restating = g.restating ∧ (g.shrinkRows rows).sittingOut = g.sittingOut ∧
      (g.shrinkRows rows).restatementOpen = g.restatementOpen ∧
      (g.shrinkRows rows).storage = g.storage.truncateBottom
        (min (g.rows - rows) (g.rows - 1 - min g.cursor.row (g.rows - 1))) := by
  have hnone (h0 : g.scrollbackLimit = 0) :
      min (g.scrollbackLen + g.overTheTop rows) g.scrollbackLimit - g.scrollbackLen = 0 := by omega
  unfold shrinkRows
  dsimp only
  rw [← overTheTop]
  split
  · split
    · exact ⟨rfl, rfl, rfl, rfl, rfl, rfl, rfl, rfl⟩
    · next hunflagged =>
      have h0 : g.scrollbackLimit = 0 := by
        by_contra hne
        exact hunflagged (hflag hne)
      refine ⟨rfl, ?_, rfl, rfl, rfl, rfl, rfl, rfl⟩
      rw [hnone h0, Nat.add_zero]
  · next hover =>
    have h0 : g.overTheTop rows = 0 := by omega
    rw [h0, Nat.add_zero, Nat.min_eq_left hle, Nat.sub_self]
    exact ⟨rfl, rfl, rfl, rfl, rfl, rfl, rfl, rfl⟩

/-- The ids of a shrunk grid are a stretch of the ids it had. -/
theorem ids_shrinkRows (hs : g.Shape) (hle : g.scrollbackLen ≤ g.scrollbackLimit) {rows : Nat}
    (hpos : 0 < rows) (hlt : rows < g.rows) (hflag : g.scrollbackLimit ≠ 0 → g.viewportRestatedElsewhere = true)
    (t : Cell) (j : Nat) (id : LineId)
    (hj : (((g.shrinkRows rows).storage.resizeRows ((g.shrinkRows rows).scrollbackLen + rows) g.cols t).logical.map
      Row.id)[j]? = some id) :
    g.ids[j + (g.scrollbackLen + g.overTheTop rows - (g.shrinkRows rows).scrollbackLen)]? = some id := by
  have hlen := hs.len
  obtain ⟨hsb, -, -, -, -, -, -, hst⟩ := counts_shrinkRows hle rows hflag
  have hcut : (g.storage.truncateBottom (min (g.rows - rows) (g.rows - 1 - min g.cursor.row (g.rows - 1)))).logical =
      g.lines.take (g.scrollbackLen + g.overTheTop rows + rows) := by
    unfold overTheTop
    rw [Storage.logical_truncateBottom]
    split
    · rw [List.take_of_length_le]
      · rfl
      · simp only [lines, Storage.length_logical]
        omega
    · unfold lines
      congr 1
      omega
  have hcutlen := congrArg List.length hcut
  simp only [lines, List.length_take, Storage.length_logical] at hcutlen
  have hover : g.overTheTop rows ≤ g.rows - rows := by
    unfold overTheTop
    omega
  generalize g.storage.truncateBottom _ = cut at hcut hcutlen hst
  have hmint : (g.shrinkRows rows).scrollbackLen + rows - cut.len = 0 := by omega
  rw [hst, Storage.logical_resizeRows, hmint, List.range'_zero, List.map_nil, List.append_nil, hcut, List.map_drop,
    List.map_take, List.getElem?_drop, List.getElem?_take] at hj
  split at hj
  · rw [← hj]
    unfold ids
    congr 1
    omega
  · exact absurd hj (by simp)

/-- A shrink: what it files is owed, and is filed. -/
theorem Owing.shrink (h : g.Owing filed limit) (hroom : g.scrollbackLen + g.settledPull ≤ g.scrollbackLimit)
    {rows : Nat} (hpos : 0 < rows) (hlt : rows < g.rows) (hcut : g.settledPull ≤ max rows (g.cursor.row + 1))
    (t : Cell) : (g.resizeHeight g.cols rows t).Owing (filed ++ g.crossed (g.resizeHeight g.cols rows t)) limit := by
  have hlen := h.shape.len
  have hheld := h.held
  have hlimit := h.capped
  have hflag : g.scrollbackLimit ≠ 0 → g.viewportRestatedElsewhere = true := fun hne =>
    h.restated (h.capped ▸ hne)
  have hle : g.scrollbackLen ≤ g.scrollbackLimit := by omega
  have hr := restacked_resizeHeight g rows t
  obtain ⟨hsb, hd, hp, hk, hrestating, hsitting, hopen, -⟩ := counts_shrinkRows hle rows hflag
  have hids := ids_shrinkRows h.shape hle hpos hlt hflag t
  have hover : g.overTheTop rows ≤ g.rows - rows := by
    unfold overTheTop
    omega
  have hinside : g.settledPull ≤ rows + g.overTheTop rows := by
    have hscreen := h.inside
    unfold overTheTop
    omega
  have hres : g.resizeHeight g.cols rows t =
      { g.shrinkRows rows with
        storage := (g.shrinkRows rows).storage.resizeRows ((g.shrinkRows rows).scrollbackLen + rows) g.cols t
        rows := rows } := by
    unfold resizeHeight
    rw [if_neg (by omega), if_pos hlt]
  have hlen' := len_resizeHeight g g.cols rows t h.shape.len
  have hrows := rows_resizeHeight g g.cols rows t
  generalize g.resizeHeight g.cols rows t = g' at hr hres hlen' hrows ⊢
  have hsb' : g'.scrollbackLen = (g.shrinkRows rows).scrollbackLen := by rw [hres]
  have hd' : g'.restateDebt = (g.shrinkRows rows).restateDebt := by rw [hres]
  have hp' : g'.pendingRestate = (g.shrinkRows rows).pendingRestate := by rw [hres]
  have hk' : g'.settledPull = (g.shrinkRows rows).settledPull := by rw [hres]
  refine ⟨⟨by omega, ?_, by omega, hr.width h.shape.width⟩, hr.limit.trans h.capped,
    fun hl => hr.restated.trans (h.restated hl), by omega, by omega, fun id hid => ?_, fun ho => ?_,
    fun ho => ?_⟩
  · rw [hr.cols]
    exact h.shape.cols_pos
  · rw [mem_owedIds] at hid
    obtain ⟨j, hge, hjlt, hj⟩ := hid
    have hold := hids j id (by rw [hres] at hj; exact hj)
    rw [List.mem_append]
    by_cases hwas : j + (g.scrollbackLen + g.overTheTop rows - (g.shrinkRows rows).scrollbackLen) <
        g.scrollbackLen + g.settledPull
    · exact .inl (h.counted id (mem_owedIds.mpr ⟨_, by omega, hwas, hold⟩))
    · exact .inr (mem_crossed hold (by omega) hj (by omega))
  · rw [hres] at ho ⊢
    dsimp only at ho ⊢
    rw [hrestating, hsitting] at ho
    rw [hopen]
    exact h.opened ho
  · have := h.provisional (by rw [hres] at ho; exact hopen ▸ ho)
    omega

/-- A grow moves a count and no row: blanks join below. -/
theorem Owing.grow (h : g.Owing filed limit) (hroom : g.scrollbackLen + g.settledPull ≤ g.scrollbackLimit)
    {rows : Nat} (hlt : g.rows < rows) (t : Cell) : (g.resizeHeight g.cols rows t).Owing filed limit := by
  have hlen := h.shape.len
  have hheld := h.held
  have hinside := h.inside
  have hr := restacked_resizeHeight g rows t
  have hlen' := len_resizeHeight g g.cols rows t h.shape.len
  have hrows := rows_resizeHeight g g.cols rows t
  have hmoved : (g.resizeHeight g.cols rows t).scrollbackLen = g.scrollbackLen ∧
      (g.resizeHeight g.cols rows t).restateDebt + (g.resizeHeight g.cols rows t).pendingRestate =
        g.restateDebt + g.pendingRestate ∧
      (g.resizeHeight g.cols rows t).settledPull = g.settledPull ∧
      (g.resizeHeight g.cols rows t).restating = g.restating ∧
      (g.resizeHeight g.cols rows t).sittingOut = g.sittingOut ∧
      (g.resizeHeight g.cols rows t).restatementOpen = g.restatementOpen ∧
      (g.resizeHeight g.cols rows t).storage = g.storage.resizeRows (g.scrollbackLen + rows) g.cols t := by
    unfold resizeHeight
    rw [if_neg (by omega), if_neg (by omega)]
    dsimp only
    split
    · unfold growRestated
      exact ⟨rfl, by dsimp only; omega, rfl, rfl, rfl, rfl, rfl⟩
    · next hflag =>
      have h0 : limit = 0 := by
        by_contra hne
        exact hflag (h.restated hne)
      have hsb : g.scrollbackLen = 0 := by
        have := h.capped
        omega
      unfold growRows
      dsimp only
      rw [hsb, Nat.min_zero, Nat.sub_zero]
      exact ⟨rfl, rfl, rfl, rfl, rfl, rfl, rfl⟩
  obtain ⟨hsb, howed, hpull, hrestating, hsitting, hopen, hst⟩ := hmoved
  generalize g.resizeHeight g.cols rows t = g' at hr hlen' hrows hsb howed hpull hrestating hsitting hopen hst ⊢
  refine ⟨⟨by omega, ?_, by omega, hr.width h.shape.width⟩, hr.limit.trans h.capped,
    fun hl => hr.restated.trans (h.restated hl), by omega, by omega, fun id hid => h.counted id ?_,
    fun ho => hopen ▸ h.opened (hrestating ▸ hsitting ▸ ho), fun ho => hpull.trans (h.provisional (hopen ▸ ho))⟩
  · rw [hr.cols]
    exact h.shape.cols_pos
  · unfold owedIds ids lines at hid
    rw [hsb, howed, hpull, hst, take_ids_resizeRows (by omega) (by omega)] at hid
    exact hid

theorem Owing.mono (h : g.Owing filed limit) {more : List LineId} (hsub : ∀ id ∈ filed, id ∈ more) :
    g.Owing more limit :=
  ⟨h.shape, h.capped, h.restated, h.held, h.inside, fun id hid => hsub id (h.counted id hid), h.opened,
    h.provisional⟩

theorem Owing.resizeHeight (h : g.Owing filed limit)
    (hroom : g.scrollbackLen + g.settledPull ≤ g.scrollbackLimit) {rows : Nat} (hpos : 0 < rows)
    (hcut : g.settledPull ≤ max rows (g.cursor.row + 1)) (t : Cell) :
    (g.resizeHeight g.cols rows t).Owing (filed ++ g.crossed (g.resizeHeight g.cols rows t)) limit := by
  have hsub : ∀ id ∈ filed, id ∈ filed ++ g.crossed (g.resizeHeight g.cols rows t) := fun id hid =>
    List.mem_append_left _ hid
  rcases Nat.lt_trichotomy rows g.rows with hlt | heq | hgt
  · exact h.shrink hroom hpos hlt hcut t
  · refine Owing.mono ?_ hsub
    unfold Grid.resizeHeight
    rw [if_pos heq]
    exact h
  · exact (h.grow hroom hgt t).mono hsub

/-- A width change that finds nothing owed leaves nothing owed. -/
theorem Owing.resizeWidth (h : g.Owing filed limit) {cols : Nat} (hpos : 0 < cols)
    (hidle : cols ≠ g.cols → g.restateDebt + g.pendingRestate = 0) (t : Cell) :
    (g.resizeWidth cols t).1.Owing (if cols = g.cols then filed else []) limit := by
  by_cases hsame : cols = g.cols
  · unfold Grid.resizeWidth
    rw [if_pos hsame, if_pos hsame]
    exact h
  · have hidle := hidle hsame
    obtain ⟨hcols, hrows, hlimit, hflag, -, hlen, hwidth, -, -⟩ := resizeWidth_keeps g cols t h.shape
    have hcounts : (g.resizeWidth cols t).1.restateDebt = g.restateDebt ∧
        (g.resizeWidth cols t).1.pendingRestate = g.pendingRestate ∧
        (g.resizeWidth cols t).1.settledPull = 0 ∧
        (g.resizeWidth cols t).1.restating = g.restating ∧
        (g.resizeWidth cols t).1.sittingOut = g.sittingOut ∧
        (g.resizeWidth cols t).1.restatementOpen = g.restatementOpen := by
      unfold Grid.resizeWidth
      rw [if_neg hsame]
      dsimp only
      split
      · exact ⟨rfl, rfl, rfl, rfl, rfl, rfl⟩
      · unfold reflow
        dsimp only
        split <;> exact ⟨rfl, rfl, rfl, rfl, rfl, rfl⟩
    obtain ⟨hd, hp, hk, hrestating, hsitting, hopen⟩ := hcounts
    rw [if_neg hsame]
    generalize (g.resizeWidth cols t).1 = g' at *
    refine ⟨⟨hrows ▸ h.shape.rows_pos, hcols ▸ hpos, hlen, hcols ▸ hwidth⟩, hlimit.trans h.capped,
      fun hl => hflag.trans (h.restated hl), by omega, by omega, fun id hid => ?_,
      fun ho => hopen ▸ h.opened (hrestating ▸ hsitting ▸ ho), fun _ => hk⟩
    obtain ⟨j, hge, hlt, -⟩ := mem_owedIds.mp hid
    omega

/-- The ids a resize files: on the screen once the width has changed, and in
history once the height has. -/
def filedBy (g : Grid) (cols rows : Nat) (t : Cell) : List LineId :=
  (g.resizeWidth (max cols 1) t).1.crossed (g.resize cols rows t).1

/-- What a run has filed, after a resize. A width change gives every row
another id, so none from before it is left. -/
def filedAfter (g : Grid) (filed : List LineId) (cols rows : Nat) (t : Cell) : List LineId :=
  (if max cols 1 = g.cols then filed else []) ++ g.filedBy cols rows t

theorem settledPull_resizeWidth (g : Grid) {cols : Nat} (hne : cols ≠ g.cols) (t : Cell) :
    (g.resizeWidth cols t).1.settledPull = 0 := by
  unfold Grid.resizeWidth
  rw [if_neg hne]
  dsimp only
  split
  · rfl
  · unfold reflow
    dsimp only
    split <;> rfl

/-- The width half does not read what repaint is in hand. -/
theorem resizeWidth_armed (g : Grid) (restating sittingOut : Bool) (cols : Nat) (t : Cell) :
    (({ g with restating := restating, sittingOut := sittingOut } : Grid).resizeWidth cols t).1 =
      { (g.resizeWidth cols t).1 with restating := restating, sittingOut := sittingOut } := by
  unfold Grid.resizeWidth
  dsimp only
  split
  · rfl
  · split
    · rfl
    · unfold reflow
      dsimp only
      split <;> rfl

/-- A resize that changes something is its two halves, the repaint in hand
set aside. -/
theorem resize_halves {cols rows : Nat} (h : ¬(max cols 1 = g.cols ∧ max rows 1 = g.rows)) (t : Cell) :
    (g.resize cols rows t).1 =
      let g₁ := ((if g.restating then { g with restating := false, sittingOut := true } else g : Grid).resizeWidth
        (max cols 1) t).1
      let g₂ := g₁.resizeHeight (max cols 1) (max rows 1) t
      { g₂ with
        region := ScrollRegion.full g₂.rows
        cursor := ⟨min g₂.cursor.row (g₂.rows - 1), min g₂.cursor.col (g₂.cols - 1), false⟩
        displayOffset := min g₂.displayOffset g₂.scrollbackLen } := by
  unfold Grid.resize
  rw [if_neg h]

/-- A resize keeps what is counted, where a width change finds nothing owed
and a shrink cuts off no row that was pulled down. -/
theorem Owing.resize (h : g.Owing filed limit) (hroom : g.scrollbackLen + g.settledPull ≤ g.scrollbackLimit)
    (cols rows : Nat) (hidle : max cols 1 ≠ g.cols → g.restateDebt + g.pendingRestate = 0)
    (hcut : max cols 1 = g.cols → g.settledPull ≤ max (max rows 1) (g.cursor.row + 1)) (t : Cell) :
    (g.resize cols rows t).1.Owing (g.filedAfter filed cols rows t) limit := by
  unfold filedAfter filedBy
  by_cases hsame : max cols 1 = g.cols ∧ max rows 1 = g.rows
  · have heq : (g.resize cols rows t).1 = g := by
      unfold Grid.resize
      rw [if_pos hsame]
    rw [heq, if_pos hsame.1]
    exact h.mono fun id hid => List.mem_append_left _ hid
  · have hpos : 0 < max cols 1 := Nat.lt_of_lt_of_le Nat.one_pos (Nat.le_max_right cols 1)
    have hroom₁ := limit_resizeWidth g (max cols 1) t hroom
    have hcols := (resizeWidth_keeps g (max cols 1) t h.shape).1
    have hcut₁ : (g.resizeWidth (max cols 1) t).1.settledPull ≤
        max (max rows 1) ((g.resizeWidth (max cols 1) t).1.cursor.row + 1) := by
      by_cases hw : max cols 1 = g.cols
      · rw [(resizeWidth_keeps g (max cols 1) t h.shape).2.2.2.2.2.2.2.2 hw]
        exact hcut hw
      · rw [settledPull_resizeWidth g hw]
        exact Nat.zero_le _
    rw [resize_halves hsame]
    -- The repaint in hand, set aside, is of no account to either half.
    generalize hfiled : (if max cols 1 = g.cols then filed else []) = filed₁
    have hhalves (g₁ : Grid) (h₁ : g₁.Owing filed₁ limit) (hc : g₁.cols = max cols 1)
        (hroom : g₁.scrollbackLen + g₁.settledPull ≤ g₁.scrollbackLimit)
        (hcut : g₁.settledPull ≤ max (max rows 1) (g₁.cursor.row + 1)) :
        (g₁.resizeHeight (max cols 1) (max rows 1) t).Owing
          (filed₁ ++ g₁.crossed (g₁.resizeHeight (max cols 1) (max rows 1) t)) limit := by
      rw [← hc]
      exact h₁.resizeHeight hroom (Nat.lt_of_lt_of_le Nat.one_pos (Nat.le_max_right rows 1)) hcut t
    split
    · next hr =>
      have harmed := (h.armed (h.opened (.inl hr)) false true g.restateRowsSeen).resizeWidth hpos hidle t
      have hframe := resizeWidth_armed g false true (max cols 1) t
      rw [hframe, hfiled] at harmed
      have hres := hhalves _ harmed hcols hroom₁ hcut₁
      rw [hframe]
      exact ⟨⟨hres.shape.1, hres.shape.2, hres.shape.3, hres.shape.4⟩, hres.capped, hres.restated, hres.held,
        hres.inside, hres.counted, hres.opened, hres.provisional⟩
    · have hwidth := h.resizeWidth hpos hidle t
      rw [hfiled] at hwidth
      have hres := hhalves _ hwidth hcols hroom₁ hcut₁
      exact ⟨⟨hres.shape.1, hres.shape.2, hres.shape.3, hres.shape.4⟩, hres.capped, hres.restated, hres.held,
        hres.inside, hres.counted, hres.opened, hres.provisional⟩

/-! ## Destroying and rebasing history -/

/-- History destroyed while nothing of it is owed. -/
theorem Owing.clearHistory (h : g.Owing filed limit) (hidle : g.restateDebt + g.pendingRestate = 0) :
    g.clearHistory.Owing filed limit := by
  have hlines := lines_clearHistory g h.shape
  have hsb := scrollbackLen_clearHistory g
  have hframe : g.clearHistory.scrollbackLimit = g.scrollbackLimit ∧
      g.clearHistory.viewportRestatedElsewhere = g.viewportRestatedElsewhere ∧
      g.clearHistory.restateDebt = g.restateDebt ∧ g.clearHistory.pendingRestate = g.pendingRestate ∧
      g.clearHistory.settledPull = g.settledPull ∧ g.clearHistory.restating = g.restating ∧
      g.clearHistory.sittingOut = g.sittingOut ∧ g.clearHistory.restatementOpen = g.restatementOpen ∧
      g.clearHistory.rows = g.rows := by
    unfold Grid.clearHistory
    dsimp only
    split <;> exact ⟨rfl, rfl, rfl, rfl, rfl, rfl, rfl, rfl, rfl⟩
  obtain ⟨hlimit, hflag, hd, hp, hk, hrestating, hsitting, hopen, hrows⟩ := hframe
  have hshape := shape_clearHistory g h.shape
  generalize g.clearHistory = g' at *
  refine ⟨hshape, hlimit.trans h.capped, fun hl => hflag.trans (h.restated hl), by omega,
    hk ▸ hrows ▸ h.inside, fun id hid => h.counted id ?_,
    fun ho => hopen ▸ h.opened (hrestating ▸ hsitting ▸ ho), fun ho => hk.trans (h.provisional (hopen ▸ ho))⟩
  obtain ⟨j, -, hlt, hj⟩ := mem_owedIds.mp hid
  refine mem_owedIds.mpr ⟨g.scrollbackLen + j, by omega, by omega, ?_⟩
  rw [← hj]
  unfold ids
  rw [hlines, List.map_drop, List.getElem?_drop]

/-- Rows filed above the anchored line while nothing is owed. -/
theorem Owing.rebase (h : g.Owing filed limit) (hidle : g.restateDebt + g.pendingRestate = 0)
    (hpull : g.settledPull = 0) (n : Nat) (t : Cell) : (g.bankViewportTop n t).Owing filed limit := by
  have hframe : (g.bankViewportTop n t).restateDebt = g.restateDebt ∧
      (g.bankViewportTop n t).pendingRestate = g.pendingRestate ∧
      (g.bankViewportTop n t).settledPull = g.settledPull ∧
      (g.bankViewportTop n t).restating = g.restating ∧ (g.bankViewportTop n t).sittingOut = g.sittingOut ∧
      (g.bankViewportTop n t).restatementOpen = g.restatementOpen := by
    unfold bankViewportTop
    split
    · exact ⟨rfl, rfl, rfl, rfl, rfl, rfl⟩
    · dsimp only
      split <;> split <;> exact ⟨rfl, rfl, rfl, rfl, rfl, rfl⟩
  obtain ⟨hd, hp, hk, hrestating, hsitting, hopen⟩ := hframe
  exact h.of_idle (evolves_bankViewportTop g n t hpull) (by omega) (by omega) (by omega)
    fun ho => hopen ▸ h.opened (hrestating ▸ hsitting ▸ ho)

/-! ## What can be paid -/

/-- What the counters say is owed is there to be paid, and paying it pulls
down no row that a shrink did not file. -/
structure Payable (filed : List LineId) (g : Grid) : Prop where
  held : g.restateDebt + g.pendingRestate ≤ g.scrollbackLen
  last : ∀ r ∈ g.history.drop (g.scrollbackLen - (g.restateDebt + g.pendingRestate)), r.id ∈ filed
  inside : g.settledPull ≤ g.rows
  first : ∀ r ∈ g.screen.take g.settledPull, r.id ∈ filed
  pulls : ∀ r ∈ g.history, r.id ∈ g.settleRestate.1.screen.map Row.id → r.id ∈ filed

/-- A settle leaves the ring's rows where they are and moves the boundary up
past no more of them than are pending. -/
theorem settleRestate_moves (g : Grid) : ∃ k n, k ≤ g.pendingRestate ∧
    g.settleRestate.1.scrollbackLen = g.scrollbackLen - k ∧
    g.settleRestate.1.lines = g.lines.take n := by
  have hall : g.lines = g.lines.take g.storage.len := (List.take_of_length_le (by simp [lines])).symm
  unfold settleRestate
  dsimp only
  split
  · exact ⟨0, g.storage.len, Nat.zero_le _, rfl, hall⟩
  · split
    · exact ⟨0, g.storage.len, Nat.zero_le _, rfl, hall⟩
    · next hk =>
      refine ⟨_, _, ?_, rfl, (Storage.logical_truncateBottom _ _).trans (if_neg hk)⟩
      exact (Nat.min_le_left _ _).trans ((Nat.min_le_left _ _).trans (Nat.min_le_left _ _))

theorem Owing.payable (h : g.Owing filed limit) (hn : g.Numbered) : g.Payable filed := by
  have hlen := h.shape.len
  have hheld := h.held
  have hids : g.ids.length = g.storage.len := by simp [ids, lines]
  refine ⟨h.held, fun r hr => ?_, h.inside, fun r hr => ?_, fun r hr hs => ?_⟩
  · obtain ⟨i, hi⟩ := List.mem_iff_getElem?.mp hr
    rw [history, List.getElem?_drop, List.getElem?_take] at hi
    split at hi
    · refine h.counted _ (mem_owedIds.mpr ⟨_, Nat.le_add_right _ i, by omega, ?_⟩)
      rw [ids, List.getElem?_map, hi]
      rfl
    · exact absurd hi (by simp)
  · obtain ⟨i, hi⟩ := List.mem_iff_getElem?.mp hr
    rw [screen, List.getElem?_take] at hi
    split at hi
    · rw [List.getElem?_drop] at hi
      refine h.counted _ (mem_owedIds.mpr ⟨g.scrollbackLen + i, by omega, by omega, ?_⟩)
      rw [ids, List.getElem?_map, hi]
      rfl
    · exact absurd hi (by simp)
  · obtain ⟨k, n, hk, hsb, hlines⟩ := g.settleRestate_moves
    obtain ⟨j, hj⟩ := List.mem_iff_getElem?.mp hr
    rw [history, List.getElem?_take] at hj
    split at hj
    · next hlt =>
      have hidj : g.ids[j]? = some r.id := by rw [ids, List.getElem?_map, hj]; rfl
      obtain ⟨i, hi⟩ := List.mem_iff_getElem?.mp hs
      rw [screen, hlines, hsb, List.map_drop, List.map_take, List.getElem?_drop, List.getElem?_take] at hi
      split at hi
      · -- An id stands in one place of the ring.
        have hnodup : g.ids.Nodup := hn.1.imp fun hlt => Nat.ne_of_lt hlt
        have hidi : g.ids[g.scrollbackLen - k + i]? = some r.id := hi
        have hij : j = g.scrollbackLen - k + i :=
          (List.getElem?_inj (by omega) hnodup).mp (hidj.trans hidi.symm)
        exact h.counted _ (mem_owedIds.mpr ⟨j, by omega, by omega, hidj⟩)
      · exact absurd hi (by simp)
    · exact absurd hj (by simp)

theorem Payable.mono (h : g.Payable filed) {more : List LineId} (hsub : ∀ id ∈ filed, id ∈ more) :
    g.Payable more :=
  ⟨h.held, fun r hr => hsub _ (h.last r hr), h.inside, fun r hr => hsub _ (h.first r hr),
    fun r hr hs => hsub _ (h.pulls r hr hs)⟩

end Grid

namespace TermState

/-! ## Both screens -/

/-- What a terminal that a restating pty drives keeps of its two screens. The
alternate screen, which keeps no history, owes nothing. -/
abbrev Restates (filed : List LineId) (limit : Nat) (s : TermState) : Prop :=
  s.Holds (fun _ => True) (Grid.Owing filed limit) (Grid.Owing [] 0)

theorem selectable_true : Cell.Selectable fun _ => True := ⟨trivial, fun _ _ _ _ => trivial⟩

/-- A new grid owes nothing. -/
theorem owing_new (cols rows limit : Nat) (yes : Bool) (hyes : limit ≠ 0 → yes = true) :
    ((Grid.new cols rows limit).setViewportRestatedElsewhere yes).Owing [] limit := by
  have hshape := Grid.shape_new cols rows limit
  exact ⟨⟨hshape.1, hshape.2, hshape.3, hshape.4⟩, rfl, hyes, Nat.le_refl _, Nat.zero_le _,
    fun id hid => absurd hid List.not_mem_nil, fun ho => by simp [Grid.new, Grid.setViewportRestatedElsewhere] at ho,
    fun _ => rfl⟩

theorem enters_owing : Enters (fun _ => True) (Grid.Owing [] 0) := by
  intro cols rows t yes _
  have hnew := owing_new cols rows 0 (Grid.new cols rows 0).viewportRestatedElsewhere fun h => absurd rfl h
  have hclear := (Grid.stable_owing [] 0).clearAll t hnew
  exact ⟨⟨hclear.shape.1, hclear.shape.2, hclear.shape.3, hclear.shape.4⟩, hclear.capped,
    fun h => absurd rfl h, hclear.held, hclear.inside, hclear.counted, hclear.opened, hclear.provisional⟩

variable {filed : List LineId} {limit : Nat} {s : TermState}

/-- An edit of the cells of the screen in use. -/
theorem Holds.edit (h : s.Restates filed limit) {f : Grid → Grid}
    (hf : ∀ {filed : List LineId} {limit : Nat} {g : Grid}, g.Owing filed limit → (f g).Owing filed limit) :
    (s.modifyGrid f).Restates filed limit :=
  h.modifyGrid (fun _ => hf h.primary) fun g hg => hf (h.alt g hg)

/-- A move of rows, on either screen. -/
theorem Restates.stable (filed : List LineId) (limit : Nat) :
    Grid.Stable (fun _ => True) (Grid.Owing filed limit) ∧ Grid.Stable (fun _ => True) (Grid.Owing [] 0) :=
  ⟨Grid.stable_owing filed limit, Grid.stable_owing [] 0⟩

theorem restates_putChar (h : s.Restates filed limit) (ch : Char) (width : Nat) :
    (s.putChar ch width).Restates filed limit := by
  have hset (s : TermState) (h : s.Restates filed limit) (row col : Nat) (c : Cell) :
      (s.modifyGrid fun g => g.setCell row col c).Restates filed limit :=
    h.edit fun hg => hg.modifyRow row (fun _ => rfl) fun _ hw r hr => (Row.length_setCell r col c).trans (hw r hr)
  have hinsert : (if s.modes.contains .insert then s.modifyGrid fun g => g.insertCells width s.template
      else s).Restates filed limit := by
    split
    · exact h.edit fun hg => hg.insertCells width s.template
    · exact h
  unfold putChar
  dsimp only
  generalize (if s.modes.contains .insert then
    s.modifyGrid fun g => g.insertCells width s.template else s) = s₁ at hinsert ⊢
  refine Holds.touch ?_
  obtain ⟨hI, hJ⟩ := Restates.stable filed limit
  by_cases hwide : width = 2
  · simp only [hwide, if_true]
    split
    · exact (hset _ (hset _ hinsert _ _ _) _ _ _).modifyCursor hI hJ _
    · exact (hset _ (hset _ hinsert _ _ _) _ _ _).modifyCursor hI hJ _
  · simp only [hwide, if_false]
    split
    · exact (hset _ hinsert _ _ _).modifyCursor hI hJ _
    · exact (hset _ hinsert _ _ _).modifyCursor hI hJ _

theorem restates_writeMark (h : s.Restates filed limit) (ch : Char) : (s.writeMark ch).Restates filed limit := by
  unfold writeMark
  dsimp only
  split
  · refine Holds.touch (h.edit fun hg => hg.modifyRow _ (fun r => by simp) fun _ hw r hr => ?_)
    rw [← hw r hr]
    simp
  · exact h

theorem restates_writeChar (vt : Vt) (h : s.Restates filed limit) (ch : Char) :
    (s.writeChar vt ch).Restates filed limit := by
  obtain ⟨hI, hJ⟩ := Restates.stable filed limit
  have hstrand := holds_strandIfDiverged hI hJ h
  unfold writeChar
  dsimp only
  split
  · exact restates_writeMark hstrand ch
  · have hwrap : (if (s.strandIfDiverged.activeGrid.cursor.pendingWrap &&
          s.strandIfDiverged.modes.contains .autoWrap) = true then
        s.strandIfDiverged.wrapRow.modifyCursor fun c => { c with pendingWrap := false }
      else s.strandIfDiverged).Restates filed limit := by
      split
      · exact (holds_wrapRow hI hJ hstrand).modifyCursor hI hJ _
      · exact hstrand
    generalize (if (s.strandIfDiverged.activeGrid.cursor.pendingWrap &&
        s.strandIfDiverged.modes.contains .autoWrap) = true then
      s.strandIfDiverged.wrapRow.modifyCursor fun c => { c with pendingWrap := false }
    else s.strandIfDiverged) = s₁ at hwrap ⊢
    split
    · split
      · exact restates_putChar (holds_wrapRow hI hJ hwrap) ch _
      · exact hwrap
    · exact restates_putChar hwrap ch _

theorem restates_eraseInRow (h : s.Restates filed limit) (row start stop : Nat) :
    (s.eraseInRow row start stop).Restates filed limit :=
  h.edit fun hg => hg.eraseInRow row start stop s.template

theorem restates_eraseRows (h : s.Restates filed limit) (first last : Nat) :
    (s.eraseRows first last).Restates filed limit := by
  obtain ⟨hI, hJ⟩ := Restates.stable filed limit
  exact h.op hI hJ fun hK _ hg => hK.eraseRows first last _ hg

theorem restates_eraseScreenBlocks (h : s.Restates filed limit) : s.eraseScreenBlocks.Restates filed limit := by
  unfold eraseScreenBlocks
  split
  · dsimp only
    split
    · exact h.of_frame rfl rfl rfl rfl rfl
    · exact h.of_frame rfl rfl rfl rfl rfl
  · exact h

/-- ED 3's destruction of history, while nothing of it is owed. -/
theorem restates_eraseHistory (h : s.Restates filed limit)
    (hidle : s.grid.restateDebt + s.grid.pendingRestate = 0) : s.eraseHistory.Restates filed limit := by
  have hcut : ({ s with grid := s.grid.clearHistory, blocks := s.blocks.eraseScreen 0 } : TermState).Restates
      filed limit := ⟨h.primary.clearHistory hidle, h.alt, h.template, h.saved, h.savedAlt⟩
  exact hcut.pushEvent _

/-- The clear that ED 2 and ED 3 share: what is owed on the screen in use is
forgotten. -/
theorem restates_clearScreen (h : s.Restates filed limit) :
    (((s.eraseRows 0 (s.activeGrid.rows - 1)).eraseScreenBlocks).modifyGrid Grid.cancelRestateDebt).Restates
      filed limit := by
  obtain ⟨hI, hJ⟩ := Restates.stable filed limit
  exact (restates_eraseScreenBlocks (restates_eraseRows h _ _)).op hI hJ fun hK _ hg => hK.cancel hg

/-- Where the primary screen is in use, the clear leaves nothing owed on it;
where it is not, it leaves it alone. -/
theorem owed_clearScreen (s : TermState) (rows : Nat)
    (hidle : s.altGrid.isSome → s.grid.restateDebt + s.grid.pendingRestate = 0) :
    (((s.eraseRows 0 rows).eraseScreenBlocks).modifyGrid Grid.cancelRestateDebt).grid.restateDebt +
      (((s.eraseRows 0 rows).eraseScreenBlocks).modifyGrid Grid.cancelRestateDebt).grid.pendingRestate = 0 := by
  have hscreens (u : TermState) : u.eraseScreenBlocks.grid = u.grid ∧ u.eraseScreenBlocks.altGrid = u.altGrid := by
    unfold eraseScreenBlocks
    split
    · dsimp only
      split <;> exact ⟨rfl, rfl⟩
    · exact ⟨rfl, rfl⟩
  obtain ⟨hg, ha⟩ := hscreens (s.eraseRows 0 rows)
  unfold modifyGrid
  rw [ha, hg]
  unfold eraseRows modifyGrid
  cases hs : s.altGrid with
  | none => rfl
  | some alt => exact hidle (by rw [hs]; rfl)

theorem restates_eraseInDisplay (h : s.Restates filed limit) (mode : Nat)
    (hidle : mode = 3 → s.altGrid.isSome → s.grid.restateDebt + s.grid.pendingRestate = 0) :
    (s.eraseInDisplay mode).Restates filed limit := by
  obtain ⟨hI, hJ⟩ := Restates.stable filed limit
  have hstrand := holds_strandIfDiverged hI hJ h
  unfold eraseInDisplay
  dsimp only
  refine Holds.touchFull ?_
  split
  · split
    · exact restates_eraseRows (restates_eraseInRow hstrand _ _ _) _ _
    · exact restates_eraseInRow hstrand _ _ _
  · refine restates_eraseInRow ?_ _ _ _
    split
    · exact restates_eraseRows hstrand _ _
    · exact hstrand
  · exact restates_clearScreen hstrand
  · refine restates_eraseHistory (restates_clearScreen hstrand) (owed_clearScreen _ _ fun hsome => ?_)
    have hd := draws_strandIfDiverged s
    have hsome' : s.altGrid.isSome := hd.isAlt ▸ hsome
    rw [hd.primary hsome']
    exact hidle rfl hsome'
  · exact hstrand

end TermState

/-- Whether an action is ED 3. -/
def Action.erasesHistory : Action → Bool
  | .csi params _ ignore c => !ignore && c == 'J' && TermState.arg params 0 0 == 3
  | _ => false

namespace TermState

variable {filed : List LineId} {limit : Nat} {s : TermState}

/-- ED 3 is not given on the alternate screen while the primary owes rows. -/
def ClearsWhatIsPaid (s : TermState) (a : Action) : Prop :=
  a.erasesHistory = true → s.altGrid.isSome → s.grid.restateDebt + s.grid.pendingRestate = 0

instance (s : TermState) (a : Action) : Decidable (s.ClearsWhatIsPaid a) :=
  inferInstanceAs (Decidable (_ → _ → _))

theorem restates_edits (vt : Vt) (h : s.Restates filed limit) {a : Action} (ha : a.edits = true)
    (hidle : s.ClearsWhatIsPaid a) : (s.perform vt a).Restates filed limit := by
  obtain ⟨hI, hJ⟩ := Restates.stable filed limit
  have hstrand := holds_strandIfDiverged hI hJ h
  cases a with
  | print ch => exact restates_writeChar vt h ch
  | execute | osc => simp [Action.edits] at ha
  | esc intermediates ignore byte =>
    have hbyte : byte.toNat = 0x38 := by simpa [Action.edits] using ha
    show (s.escDispatch intermediates byte).Restates filed limit
    unfold escDispatch
    dsimp only
    split
    · next heq => exact absurd (hbyte.symm.trans heq) (by decide)
    · split
      · exact holds_restoreCursor hI hJ h
      · refine Holds.touchFull (Holds.foldl _ (fun u row hu => hu.edit fun hg => ?_) _ h)
        exact hg.modifyRow row (fun _ => rfl) fun _ hw r hr => by simpa using hw r hr
      · exact h
    · next heq => exact absurd (hbyte.symm.trans heq) (by decide)
    · next heq => exact absurd (hbyte.symm.trans heq) (by decide)
    · next heq => exact absurd (hbyte.symm.trans heq) (by decide)
    · next heq => exact absurd (hbyte.symm.trans heq) (by decide)
    · next heq => exact absurd (hbyte.symm.trans heq) (by decide)
    · exact h
  | csi params intermediates ignore c =>
    have hc : c = 'J' ∨ c = 'K' ∨ c = 'X' ∨ c = '@' ∨ c = 'P' := by
      simpa [Action.edits] using ha
    show (s.csiDispatch params intermediates ignore c).Restates filed limit
    unfold csiDispatch
    dsimp only
    split
    · exact h
    · next hignore =>
      rcases hc with rfl | rfl | rfl | rfl | rfl
      · refine restates_eraseInDisplay h _ fun hmode => hidle ?_
        simp [Action.erasesHistory, hignore, hmode]
      · show (s.eraseInLine _).Restates filed limit
        unfold eraseInLine
        dsimp only
        refine Holds.touch ?_
        split
        · exact restates_eraseInRow hstrand _ _ _
        · exact restates_eraseInRow hstrand _ _ _
        · exact restates_eraseInRow hstrand _ _ _
        · exact hstrand
      · exact (restates_eraseInRow hstrand _ _ _).touch
      · exact (h.edit fun hg => hg.insertCells _ s.template).touch
      · exact (h.edit fun hg => hg.deleteCells _ s.template).touch

theorem restates_perform (vt : Vt) (h : s.Restates filed limit) (a : Action) (hidle : s.ClearsWhatIsPaid a) :
    (s.perform vt a).Restates filed limit := by
  obtain ⟨hI, hJ⟩ := Restates.stable filed limit
  cases ha : a.edits with
  | true => exact restates_edits vt h ha hidle
  | false => exact holds_perform selectable_true hI hJ enters_owing vt h a ha

/-! ## Resizing both screens -/

/-- How many rows a resize files above the line that was the screen's
first. -/
def rebaseDepth (s : TermState) (cols rows : Nat) : Nat :=
  anchorDepth (s.resizeScreens cols rows).1.grid (s.resizeScreens cols rows).2 (s.resizeAnchor cols)

/-- A resize that forgets no count: a width change finds nothing owed, a
shrink cuts off no row that was pulled down, and no row is filed over one
that the same resize has counted. -/
structure ResizesWhatIsPaid (s : TermState) (cols rows : Nat) : Prop where
  idle : max cols 1 ≠ s.grid.cols → s.grid.restateDebt + s.grid.pendingRestate = 0
  cut : max cols 1 = s.grid.cols → s.grid.settledPull ≤ max (max rows 1) (s.grid.cursor.row + 1)
  rebase : s.rebaseDepth cols rows = 0 ∨ (s.grid.resize cols rows s.template).1.restateDebt +
    (s.grid.resize cols rows s.template).1.pendingRestate = 0

/-- Rows are filed above an anchored line only where the width changed,
which has ended any settle. -/
theorem settledPull_of_rebaseDepth {c r : Nat} (hs : s.Sound c r) {cols rows : Nat}
    (hk : s.rebaseDepth cols rows ≠ 0) : (s.grid.resize cols rows s.template).1.settledPull = 0 := by
  by_cases hne : max cols 1 = s.grid.cols
  · have hmap : (s.resizeScreens cols rows).2 = {} :=
      (Grid.monotone_resize s.grid cols rows s.template hs.primary.numbered).2 hne
    unfold rebaseDepth at hk
    rw [hmap] at hk
    exact absurd (by simp [anchorDepth, Reindex.lookup]) hk
  · exact Grid.settledPull_resize s.grid hne rows s.template

/-- A grid without history to keep owes nothing, whatever was filed. -/
theorem Owing.forget {g : Grid} (h : g.Owing filed 0)
    (hroom : g.scrollbackLen + g.settledPull ≤ g.scrollbackLimit) : g.Owing [] 0 := by
  have hlimit := h.capped
  refine ⟨h.shape, h.capped, h.restated, h.held, h.inside, fun id hid => ?_, h.opened, h.provisional⟩
  obtain ⟨j, -, hlt, -⟩ := Grid.mem_owedIds.mp hid
  omega

theorem restates_resize {c r : Nat} (h : s.Restates filed limit) (hs : s.Sound c r) {cols rows : Nat}
    (hpaid : s.ResizesWhatIsPaid cols rows) :
    (s.resize cols rows).Restates (s.grid.filedAfter filed cols rows s.template) limit := by
  have hprimary := h.primary.resize hs.primary.within.limit cols rows hpaid.idle hpaid.cut s.template
  have halt (g : Grid) (hg : s.altGrid = some g) : (g.resize cols rows s.template).1.Owing [] 0 := by
    have hg' := h.alt g hg
    have hin := (hs.alt g hg).within
    have hlimit := hg'.capped
    have hheld := hg'.held
    have hroom := hin.limit
    refine Owing.forget (hg'.resize hroom cols rows (fun _ => by omega) (fun _ => by omega) s.template) ?_
    exact ((Grid.resized_resize g cols rows s.template hg'.shape).within hin).limit
  have hscreens : (s.resizeScreens cols rows).1.Restates (s.grid.filedAfter filed cols rows s.template) limit := by
    refine ⟨hprimary, fun g hg => ?_, h.template, h.saved, h.savedAlt⟩
    obtain ⟨a, ha, rfl⟩ := Option.map_eq_some_iff.mp hg
    exact halt a ha
  have hrebase : ((s.resizeScreens cols rows).1.rebase (s.rebaseDepth cols rows)).Restates
      (s.grid.filedAfter filed cols rows s.template) limit := by
    unfold rebase
    split
    · next hk =>
      have hpull := settledPull_of_rebaseDepth hs (Nat.pos_iff_ne_zero.mp hk)
      rcases hpaid.rebase with h0 | hidle
      · omega
      · have hbanked : ({ (s.resizeScreens cols rows).1 with
            grid := (s.resizeScreens cols rows).1.grid.bankViewportTop (s.rebaseDepth cols rows)
              (s.resizeScreens cols rows).1.template } : TermState).Restates
              (s.grid.filedAfter filed cols rows s.template) limit :=
          ⟨hscreens.primary.rebase hidle hpull _ _, hscreens.alt, h.template, h.saved, h.savedAlt⟩
        exact hbanked.pushEvent _
    · exact hscreens
  have hreanchor (u : TermState) (x : Reindex)
      (hu : u.Restates (s.grid.filedAfter filed cols rows s.template) limit) :
      (u.reanchorBlocks x).Restates (s.grid.filedAfter filed cols rows s.template) limit := by
    unfold reanchorBlocks
    split
    · exact hu.of_frame rfl rfl rfl rfl rfl
    · exact hu
  exact Holds.touchFull ((hreanchor _ _ hrebase).of_frame rfl rfl rfl rfl rfl)

end TermState

namespace Terminal

variable {vt : Vt}

/-! ## Runs -/

/-- A call that leaves the pty one that restates its viewport. -/
def Call.StaysRestated : Call → Prop
  | .setPtyRestatesViewport yes => yes = true
  | _ => True

/-- The rows the shrinks of a run have filed, after one more call. -/
def filedAfter (t : Terminal vt) (filed : List LineId) : Call → List LineId
  | .resize cols rows => t.state.grid.filedAfter filed cols rows t.state.template
  | _ => filed

/-- A terminal whose viewport is restated elsewhere from the start, after
calls that each meet a condition, and the rows its shrinks have filed. -/
inductive Restated (P : Terminal vt → Call → Prop) : Terminal vt → List LineId → Prop where
  | new (cols rows scrollback : Nat) :
      Restated P ((Terminal.new vt cols rows scrollback).setPtyRestatesViewport true) []
  | call {t : Terminal vt} {filed : List LineId} (c : Call) (hr : c.StaysRestated) (hc : P t c) :
      Restated P t filed → Restated P (t.call c) (t.filedAfter filed c)

/-- A call that forgets no count. -/
def Call.KeepsCount (t : Terminal vt) : Call → Prop
  | .advance bytes => TermState.Performs vt TermState.ClearsWhatIsPaid t.state (t.actions bytes)
  | .resize cols rows => t.state.ResizesWhatIsPaid cols rows
  | _ => True

theorem restates_call {t : Terminal vt} {filed : List LineId} {limit c r : Nat}
    (h : t.state.Restates filed limit) (hs : t.state.Sound c r) {call : Call} (hr : call.StaysRestated)
    (hc : call.KeepsCount t) : (t.call call).state.Restates (t.filedAfter filed call) limit := by
  obtain ⟨hI, hJ⟩ := TermState.Restates.stable filed limit
  by_cases hq : call.isQuiet = true
  · have hfiled : t.filedAfter filed call = filed := by
      cases call <;> first | rfl | simp [Call.isQuiet] at hq
    rw [hfiled]
    exact holds_call hI hJ h call hq
  · cases call with
    | advance bytes =>
      exact TermState.Performs.keeps (Q := fun u => u.Restates filed limit)
        (fun _ a ha hu => TermState.restates_perform vt hu a ha) _ hc h
    | resize cols rows => exact TermState.restates_resize h hs hc
    | setBlockContext => exact h.of_frame rfl rfl rfl rfl rfl
    | setPtyRestatesViewport yes =>
      obtain rfl : yes = true := hr
      have hflag {filed : List LineId} {limit : Nat} {g : Grid} (hg : g.Owing filed limit) :
          (g.setViewportRestatedElsewhere true).Owing filed limit :=
        ⟨⟨hg.shape.1, hg.shape.2, hg.shape.3, hg.shape.4⟩, hg.capped, fun _ => rfl, hg.held, hg.inside,
          hg.counted, hg.opened, hg.provisional⟩
      refine ⟨hflag h.primary, fun g hg => ?_, trivial, trivial, trivial⟩
      obtain ⟨a, ha, rfl⟩ := Option.map_eq_some_iff.mp hg
      exact hflag (h.alt a ha)
    | _ => exact absurd rfl hq

theorem restates_of_restated {t : Terminal vt} {filed : List LineId}
    (h : Restated (fun t c => c.KeepsCount t) t filed) :
    ∃ limit, t.state.Restates filed limit ∧ ∃ c r, t.state.Sound c r := by
  induction h with
  | new cols rows scrollback =>
    refine ⟨scrollback, ⟨TermState.owing_new cols rows scrollback true fun _ => rfl, fun g hg => ?_, trivial,
      trivial, trivial⟩, _, _, (sound_new cols rows scrollback).setViewportRestatedElsewhere true⟩
    exact absurd hg (by simp [setPtyRestatesViewport, TermState.setViewportRestatedElsewhere, Terminal.new,
      TermState.new])
  | call c hr hc _ ih =>
    obtain ⟨limit, h, _, _, hs⟩ := ih
    exact ⟨limit, restates_call h hs hr hc, sound_call hs c⟩

/-- In a run that gives ED 3 on the alternate screen only while nothing is
owed, and resizes without forgetting a count, both screens can always pay
what they owe out of rows that shrinks have filed. -/
theorem payable_of_restated {t : Terminal vt} {filed : List LineId}
    (h : Restated (fun t c => c.KeepsCount t) t filed) :
    t.state.grid.Payable filed ∧ ∀ g, t.state.altGrid = some g → g.Payable filed := by
  obtain ⟨limit, h, _, _, hs⟩ := restates_of_restated h
  refine ⟨h.primary.payable hs.primary.numbered, fun g hg => ?_⟩
  exact ((h.alt g hg).payable (hs.alt g hg).numbered).mono fun id hid => absurd hid List.not_mem_nil

/-- A restated screen of three lines. -/
def threeLines : Terminal asciiVt :=
  (((Terminal.new asciiVt 4 3 10).setPtyRestatesViewport true).call
    (.advance [0x61, 0x0d, 0x0a, 0x62, 0x0d, 0x0a, 0x63]))

/-- Shrunk to its last line, a repaint of the taller screen then under way. -/
theorem payable_threeLines :
    ((threeLines.call (.resize 4 1)).call (.resize 4 3)).state.grid.Payable [0, 1] ∧
      ∀ g, ((threeLines.call (.resize 4 1)).call (.resize 4 3)).state.altGrid = some g → g.Payable [0, 1] := by
  have hlines : Restated (fun t c => c.KeepsCount t) threeLines [] :=
    .call _ trivial (by unfold Call.KeepsCount; decide) (.new 4 3 10)
  have hshrunk := hlines.call (.resize 4 1) trivial
    ⟨by decide +kernel, by decide +kernel, by decide +kernel⟩
  have hgrown := hshrunk.call (.resize 4 3) trivial
    ⟨by decide +kernel, by decide +kernel, by decide +kernel⟩
  have hfiled : (threeLines.call (.resize 4 1)).filedAfter (threeLines.filedAfter [] (.resize 4 1)) (.resize 4 3) =
      [0, 1] := by decide +kernel
  rw [← hfiled]
  exact payable_of_restated hgrown

/-- Shrunk to its last line, the alternate screen entered and ED 3 given on
it: the history two rows are owed from is gone. -/
theorem not_payable_erasedFromAlt :
    ¬ ∀ (t : Terminal asciiVt) (filed : List LineId), Restated (fun _ _ => True) t filed →
      t.state.grid.Payable filed ∧ ∀ g, t.state.altGrid = some g → g.Payable filed := by
  intro h
  have hlines : Restated (fun _ _ => True) threeLines [] := .call _ trivial trivial (.new 4 3 10)
  have herased := (hlines.call (.resize 4 1) trivial trivial).call
    (.advance [0x1b, 0x5b, 0x3f, 0x31, 0x30, 0x34, 0x39, 0x68, 0x1b, 0x5b, 0x33, 0x4a]) trivial trivial
  exact absurd (h _ _ herased).1.held (by decide +kernel)

end Terminal

end Zesterm
