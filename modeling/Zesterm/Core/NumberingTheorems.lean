/-
Zesterm.Core.NumberingTheorems — line ids only grow.

In every terminal the primary screen's ids stand in strict order below the
counter, and no call lowers the counter. At one width old ids only leave and
new ones are drawn from the counter (`Ledger.Evolves`). A width change of a
grid with scrollback starts over from the oldest id held (`relinedIds`),
and the order it starts from is what its line map is searched by
(`search_relined`). A grid without scrollback is never rewrapped and keeps
its ids.
-/
import Zesterm.Core.AnchorTheorems
import Zesterm.Lib.Bisect

namespace Zesterm

/-! ## Searching the line map -/

namespace Reindex

/-- `lookup` as the source has it: a binary search for the old id. -/
def search (x : Reindex) (old : LineId) : Option LineId :=
  (Bisect.find Prod.fst x.map old).map Prod.snd

/-- Old ids in order are found by halving. -/
theorem search_eq_lookup {x : Reindex} (h : x.Monotone) (old : LineId) :
    x.search old = x.lookup old := by
  have hkeys : (x.map.map Prod.fst).Pairwise (· < ·) :=
    List.pairwise_map.mpr (h.imp fun hpq => hpq.1)
  rw [search, Bisect.find_eq hkeys, lookup]
  rfl

/-- A line map less some of its targets. -/
theorem lookup_filter {x x' : Reindex} (h : (x.map.map Prod.fst).Nodup) {P : LineId → Bool}
    (hmap : x'.map = x.map.filter fun p => P p.2) (old : LineId) :
    x'.lookup old = (x.lookup old).filter P := by
  have hsub : x'.map.Sublist x.map := hmap ▸ List.filter_sublist
  cases hl : x.lookup old with
  | none =>
    refine lookup_eq_none fun hmem => ?_
    obtain ⟨p, hp, rfl⟩ := List.mem_map.mp hmem
    rw [lookup_eq_some h (hsub.subset hp)] at hl
    simp at hl
  | some new =>
    have hmem := mem_of_lookup hl
    cases hP : P new with
    | true =>
      rw [Option.filter_some_pos hP]
      refine lookup_eq_some (h.sublist (hsub.map _)) ?_
      rw [hmap]
      exact List.mem_filter.mpr ⟨hmem, hP⟩
    | false =>
      rw [Option.filter_some_neg (by simp [hP])]
      refine lookup_eq_none fun hkey => ?_
      obtain ⟨p, hp, rfl⟩ := List.mem_map.mp hkey
      have hp' := List.mem_filter.mp (hmap ▸ hp)
      -- One old id, one target.
      have : new = p.2 := Option.some.inj (hl.symm.trans (lookup_eq_some h hp'.1))
      rw [← this, hP] at hp'
      simp at hp'

end Reindex

/-! ## What a width change makes of the ids -/

namespace Grid

/-- The ids a rewrap leaves: counted off from the oldest id held, less what
the scrollback bound drops. -/
def relinedIds (g : Grid) (newCols : Nat) : List LineId :=
  (List.range' (g.lines.headD default).id (max (g.rewrapped newCols).length g.rows)).drop
    (g.excess newCols)

/-- The counter a rewrap leaves. -/
def relinedNext (g : Grid) (newCols : Nat) : LineId :=
  max g.storage.nextId
    ((g.lines.headD default).id + max (g.rewrapped newCols).length g.rows)

/-- A resize to another width renumbers the rows; the new height then drops
some of them or mints more. -/
theorem relined_resize {g : Grid} (hs : g.Shape) {newCols : Nat} (hne : max newCols 1 ≠ g.cols)
    (hl : 0 < g.scrollbackLimit) (newRows : Nat) (t : Cell) :
    (g.resize newCols newRows t).2.map = (g.relined (max newCols 1)).filter (fun p =>
        decide ((g.lines.headD default).id + g.excess (max newCols 1) ≤ p.2)) ∧
      Ledger.Evolves (g.relinedIds (max newCols 1)) (g.relinedNext (max newCols 1))
        (g.resize newCols newRows t).1.ids (g.resize newCols newRows t).1.storage.nextId ∧
      (max newRows 1 = g.rows →
        (g.resize newCols newRows t).1.ids = g.relinedIds (max newCols 1) ∧
        (g.resize newCols newRows t).1.storage.nextId = g.relinedNext (max newCols 1)) := by
  have hs' : ({ g with restating := false, sittingOut := true } : Grid).Shape :=
    ⟨hs.1, hs.2, hs.3, hs.4⟩
  -- The rewrap looks at no bookkeeping of the repaint.
  have hwidth (g₀ : Grid) (hs₀ : g₀.Shape) (hne₀ : max newCols 1 ≠ g₀.cols)
      (hl₀ : 0 < g₀.scrollbackLimit) :
      (g₀.resizeWidth (max newCols 1) t).2.map = (g₀.relined (max newCols 1)).filter (fun p =>
          decide ((g₀.lines.headD default).id + g₀.excess (max newCols 1) ≤ p.2)) ∧
        (g₀.resizeWidth (max newCols 1) t).1.ids = g₀.relinedIds (max newCols 1) ∧
        (g₀.resizeWidth (max newCols 1) t).1.storage.nextId = g₀.relinedNext (max newCols 1) := by
    have hs₁ : ({ g₀ with settledPull := 0 } : Grid).Shape := ⟨hs₀.1, hs₀.2, hs₀.3, hs₀.4⟩
    obtain ⟨hlines, hmap, hnext⟩ := reflow_cut hs₁ (by omega : 0 < max newCols 1) t
    unfold resizeWidth
    rw [if_neg hne₀]
    dsimp only
    rw [if_neg (by omega : ¬ g₀.scrollbackLimit = 0)]
    refine ⟨hmap, ?_, hnext⟩
    have := congrArg (List.map Row.id) hlines
    rw [List.map_drop, ids_refilled] at this
    exact this
  have hheight (g₁ : Grid) (hc : g₁.cols = max newCols 1) :
      Ledger.Evolves g₁.ids g₁.storage.nextId
          (g₁.resizeHeight (max newCols 1) (max newRows 1) t).ids
          (g₁.resizeHeight (max newCols 1) (max newRows 1) t).storage.nextId ∧
        (max newRows 1 = g₁.rows → g₁.resizeHeight (max newCols 1) (max newRows 1) t = g₁) := by
    refine ⟨?_, fun h => ?_⟩
    · rw [← hc]
      exact (restacked_resizeHeight g₁ (max newRows 1) t).ledger
    · unfold resizeHeight
      rw [if_pos h]
  -- Both halves, on the grid itself or with its repaint disarmed.
  have hboth (g₀ : Grid) (hs₀ : g₀.Shape) (hne₀ : max newCols 1 ≠ g₀.cols)
      (hl₀ : 0 < g₀.scrollbackLimit) :
      (g₀.resizeWidth (max newCols 1) t).2.map = (g₀.relined (max newCols 1)).filter (fun p =>
          decide ((g₀.lines.headD default).id + g₀.excess (max newCols 1) ≤ p.2)) ∧
        Ledger.Evolves (g₀.relinedIds (max newCols 1)) (g₀.relinedNext (max newCols 1))
          ((g₀.resizeWidth (max newCols 1) t).1.resizeHeight (max newCols 1)
            (max newRows 1) t).ids
          ((g₀.resizeWidth (max newCols 1) t).1.resizeHeight (max newCols 1)
            (max newRows 1) t).storage.nextId ∧
        (max newRows 1 = g₀.rows →
          ((g₀.resizeWidth (max newCols 1) t).1.resizeHeight (max newCols 1)
            (max newRows 1) t).ids = g₀.relinedIds (max newCols 1) ∧
          ((g₀.resizeWidth (max newCols 1) t).1.resizeHeight (max newCols 1)
            (max newRows 1) t).storage.nextId = g₀.relinedNext (max newCols 1)) := by
    obtain ⟨hmap, hids, hnext⟩ := hwidth g₀ hs₀ hne₀ hl₀
    obtain ⟨hc, hr, _⟩ := resizeWidth_keeps g₀ (max newCols 1) t hs₀
    obtain ⟨hledger, hsame⟩ := hheight _ hc
    rw [hids, hnext] at hledger
    refine ⟨hmap, hledger, fun h => ?_⟩
    rw [hsame (h.trans hr.symm)]
    exact ⟨hids, hnext⟩
  unfold resize
  dsimp only
  rw [if_neg fun h => hne h.1]
  split
  · exact hboth _ hs' hne hl
  · exact hboth g hs hne hl

/-- What a search of the line map answers: the first row that a line became,
unless the scrollback bound dropped it. -/
theorem search_relined {g : Grid} (hn : g.Numbered) {newCols : Nat} {k : LineId} {x : Reindex}
    (hmono : x.Monotone)
    (hmap : x.map = (g.relined newCols).filter fun p => decide (k ≤ p.2)) :
    (∀ q ∈ g.rewrapIds newCols, ∀ l ∈ q.1,
        x.search l = q.2.head?.filter fun new => decide (k ≤ new)) ∧
      ∀ l, l ∉ g.ids → x.search l = none := by
  obtain ⟨hold, hnone, _⟩ := Reindex.lookup_of_rewrap (x := ⟨g.relined newCols⟩) hn rfl
  have hkeys : ((g.relined newCols).map Prod.fst).Nodup := by
    have hids : (g.relined newCols).map Prod.fst = g.ids := by
      rw [relined, List.map_flatMap, ← g.old_rewrapIds newCols, rewrapIds, List.flatMap_map]
      simp [Function.comp_def]
    rw [hids]
    exact hn.sorted.imp ne_of_lt
  have hfilter (l : LineId) : x.lookup l =
      (Reindex.lookup ⟨g.relined newCols⟩ l).filter fun new => decide (k ≤ new) :=
    Reindex.lookup_filter (x := ⟨g.relined newCols⟩) (P := fun new => decide (k ≤ new)) hkeys hmap l
  refine ⟨fun q hq l hl => ?_, fun l hl => ?_⟩
  · rw [Reindex.search_eq_lookup hmono, hfilter, hold q hq l hl]
  · rw [Reindex.search_eq_lookup hmono, hfilter, hnone l hl]
    rfl

/-- A resize of a grid without scrollback only lets the lines evolve. -/
theorem ledger_resize_unwrapped {g : Grid} (hl : g.scrollbackLimit = 0) (newCols newRows : Nat)
    (t : Cell) :
    Ledger.Evolves g.ids g.storage.nextId (g.resize newCols newRows t).1.ids
      (g.resize newCols newRows t).1.storage.nextId := by
  have hwidth (g₀ : Grid) (hl₀ : g₀.scrollbackLimit = 0) :
      (g₀.resizeWidth (max newCols 1) t).1.ids = g₀.ids ∧
        (g₀.resizeWidth (max newCols 1) t).1.storage.nextId = g₀.storage.nextId ∧
        (g₀.resizeWidth (max newCols 1) t).1.cols = max newCols 1 := by
    unfold resizeWidth
    split
    · next h => exact ⟨rfl, rfl, h.symm⟩
    · dsimp only
      rw [if_pos hl₀]
      refine ⟨?_, rfl, rfl⟩
      show (g₀.storage.resizeCols (max newCols 1) t).logical.map Row.id = g₀.ids
      rw [Storage.logical_resizeCols, List.map_map]
      rfl
  have hboth (g₀ : Grid) (hl₀ : g₀.scrollbackLimit = 0) :
      Ledger.Evolves g₀.ids g₀.storage.nextId
        ((g₀.resizeWidth (max newCols 1) t).1.resizeHeight (max newCols 1) (max newRows 1) t).ids
        ((g₀.resizeWidth (max newCols 1) t).1.resizeHeight (max newCols 1)
          (max newRows 1) t).storage.nextId := by
    obtain ⟨hids, hnext, hc⟩ := hwidth g₀ hl₀
    rw [← hids, ← hnext]
    have := (restacked_resizeHeight (g₀.resizeWidth (max newCols 1) t).1 (max newRows 1) t).ledger
    rwa [hc] at this
  unfold resize
  dsimp only
  split
  · exact Ledger.Evolves.refl _ _
  · split
    · exact hboth { g with restating := false, sittingOut := true } hl
    · exact hboth g hl

end Grid

/-! ## Every terminal -/

namespace TermState

/-- After the two screens are resized, the lines evolve. -/
theorem ledger_resize (s : TermState) (cols rows : Nat) :
    Ledger.Evolves (s.grid.resize cols rows s.template).1.ids
      (s.grid.resize cols rows s.template).1.storage.nextId
      (s.resize cols rows).grid.ids (s.resize cols rows).grid.storage.nextId :=
  (numbers_rebase (s.resizeScreens cols rows).1 _).trans (numbers_reanchorBlocks _ _)

/-- Only a restated viewport is rebased. -/
theorem grid_resize (s : TermState) (cols rows : Nat)
    (hr : s.grid.viewportRestatedElsewhere = false) :
    (s.resize cols rows).grid = (s.grid.resize cols rows s.template).1 := by
  have hanchor : s.resizeAnchor cols = none := by
    unfold resizeAnchor
    rw [if_neg (by simp [hr])]
  have hreanchor (u : TermState) (x : Reindex) : (u.reanchorBlocks x).grid = u.grid := by
    unfold reanchorBlocks
    split <;> rfl
  unfold resize
  rw [hanchor]
  exact hreanchor _ _

end TermState

namespace Terminal

variable {vt : Vt}

/-- The counter never falls, whatever the call. -/
theorem next_le_call {t : Terminal vt} {cols rows : Nat} (hs : t.state.Sound cols rows) (c : Call) :
    t.state.grid.storage.nextId ≤ (t.call c).state.grid.storage.nextId := by
  by_cases hc : c.KeepsWidth t
  · exact (numbers_call hs c hc).next_le
  · cases c with
    | resize newCols newRows =>
      have hle := (t.state.ledger_resize newCols newRows).next_le
      refine le_trans ?_ hle
      by_cases hne : max newCols 1 = t.state.grid.cols
      · exact ((Grid.resized_resize t.state.grid newCols newRows t.state.template
          hs.primary.shape).ledger hne).next_le
      · by_cases hl : t.state.grid.scrollbackLimit = 0
        · exact (Grid.ledger_resize_unwrapped hl newCols newRows t.state.template).next_le
        · have := (Grid.relined_resize hs.primary.shape hne (Nat.pos_of_ne_zero hl) newRows
            t.state.template).2.1.next_le
          exact le_trans (Nat.le_max_left _ _) this
    | _ => exact absurd trivial hc

/-- In every terminal the primary screen's line ids are in order and below
the counter, and no call lowers the counter. A width change of a terminal
that keeps scrollback counts every row off from the oldest id held, and
searching its line map by halving answers for every line; without
scrollback a width change renumbers nothing. -/
theorem line_ids_grow {t : Terminal vt} (ht : t.Reachable) :
    t.state.grid.ids.Pairwise (· < ·) ∧
    (∀ l ∈ t.state.grid.ids, l < t.state.grid.storage.nextId) ∧
    (∀ c : Call, t.state.grid.storage.nextId ≤ (t.call c).state.grid.storage.nextId) ∧
    ∀ cols rows, max cols 1 ≠ t.state.grid.cols →
      (0 < t.state.grid.scrollbackLimit →
        Ledger.Evolves (t.state.grid.relinedIds (max cols 1)) (t.state.grid.relinedNext (max cols 1))
          (t.call (.resize cols rows)).state.grid.ids
          (t.call (.resize cols rows)).state.grid.storage.nextId ∧
        (max rows 1 = t.state.grid.rows → t.state.grid.viewportRestatedElsewhere = false →
          (t.call (.resize cols rows)).state.grid.ids = t.state.grid.relinedIds (max cols 1)) ∧
        (∀ q ∈ t.state.grid.rewrapIds (max cols 1), ∀ l ∈ q.1,
          (t.state.grid.resize cols rows t.state.template).2.search l =
            q.2.head?.filter fun new => decide
              ((t.state.grid.lines.headD default).id + t.state.grid.excess (max cols 1) ≤ new)) ∧
        ∀ l, l ∉ t.state.grid.ids →
          (t.state.grid.resize cols rows t.state.template).2.search l = none) ∧
      (t.state.grid.scrollbackLimit = 0 →
        Ledger.Evolves t.state.grid.ids t.state.grid.storage.nextId
          (t.call (.resize cols rows)).state.grid.ids
          (t.call (.resize cols rows)).state.grid.storage.nextId) := by
  obtain ⟨_, _, hs⟩ := ht.sound
  have hn := hs.primary.numbered
  refine ⟨hn.sorted, hn.below, fun c => next_le_call hs c, fun cols rows hne => ⟨fun hl => ?_,
    fun hl => ?_⟩⟩
  · obtain ⟨hmap, hledger, hsame⟩ :=
      Grid.relined_resize hs.primary.shape hne hl rows t.state.template
    have hmono := (Grid.monotone_resize t.state.grid cols rows t.state.template hn).1
    obtain ⟨hold, hnone⟩ := Grid.search_relined hn hmono hmap
    refine ⟨hledger.trans (t.state.ledger_resize cols rows), fun hrows hr => ?_, hold, hnone⟩
    have hgrid := t.state.grid_resize cols rows hr
    exact (congrArg Grid.ids hgrid).trans (hsame hrows).1
  · exact (Grid.ledger_resize_unwrapped hl cols rows t.state.template).trans
      (t.state.ledger_resize cols rows)

/-- A terminal without scrollback whose ids have a gap. -/
def gapped : Terminal asciiVt :=
  ((Terminal.new asciiVt 3 2 0).call (.resize 3 1)).call (.resize 3 3)

theorem gapped_reachable : gapped.Reachable :=
  ((Reachable.new 3 2 0).call (.resize 3 1)).call (.resize 3 3)

/-- Its width change renumbers nothing. -/
theorem width_keeps_ids :
    gapped.Reachable ∧ max 5 1 ≠ gapped.state.grid.cols ∧ gapped.state.grid.ids = [0, 2, 3] ∧
      (gapped.call (.resize 5 3)).state.grid.ids = [0, 2, 3] ∧
      ¬ ∃ first n, (gapped.call (.resize 5 3)).state.grid.ids = List.range' first n := by
  have hids : (gapped.call (.resize 5 3)).state.grid.ids = [0, 2, 3] := by decide
  refine ⟨gapped_reachable, by decide, by decide, hids, fun h => ?_⟩
  obtain ⟨first, n, h⟩ := h
  rw [hids] at h
  match n with
  | 0 => simp at h
  | 1 => simp at h
  | n + 2 =>
    rw [List.range'_succ, List.range'_succ] at h
    simp only [List.cons.injEq] at h
    obtain ⟨rfl, h, _⟩ := h
    simp at h

/-- A width change that does renumber. -/
theorem line_ids_grow_wider :
    ((((Terminal.new asciiVt 3 2 10).call (.resize 3 1)).call (.resize 3 3)).call
      (.resize 5 3)).state.grid.ids = [0, 1, 2] := by
  have ht : (((Terminal.new asciiVt 3 2 10).call (.resize 3 1)).call (.resize 3 3)).Reachable :=
    ((Reachable.new 3 2 10).call (.resize 3 1)).call (.resize 3 3)
  refine ((((line_ids_grow ht).2.2.2 5 3 (by decide)).1 (by decide)).2.1
    (by decide) (by decide)).trans ?_
  decide

end Terminal

end Zesterm
