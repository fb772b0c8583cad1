/-
Zesterm.Core.TerminalTheorems — what holds of every terminal.

`Terminal.Reachable` is every terminal the public methods can make.
`TermState.Sound` is what all of them keep: both screens have their shape
and their numbering, the alternate one is as large as the primary, and the
mode word says which of the two is live. A step of a program changes
neither screen's size; a resize gives both the same new one.
-/
import Zesterm.Core.PerformTheorems
import Zesterm.Core.ResizeTheorems

namespace Zesterm

/-! ## History a program destroys, and history a rebase files -/

namespace Grid

variable (g : Grid)

theorem shape_new (cols rows limit : Nat) : (Grid.new cols rows limit).Shape := by
  refine ⟨?_, ?_, ?_, ?_⟩
  · show 0 < max rows 1
    omega
  · show 0 < max cols 1
    omega
  · simp [Grid.new, Storage.new, Storage.len]
  · intro r hr
    simp only [lines, Grid.new, Storage.logical_new] at hr
    obtain ⟨i, _, rfl⟩ := List.mem_map.mp hr
    exact Row.length_new _ _

theorem within_new (cols rows limit : Nat) : (Grid.new cols rows limit).Within := by
  have hrows : 0 < max rows 1 := by omega
  have hcols : 0 < max cols 1 := by omega
  exact
    { limit := Nat.zero_le _
      offset := Nat.zero_le _
      row := hrows
      col := hcols
      ordered := Nat.zero_le _
      bottom := Nat.sub_lt hrows Nat.one_pos }

theorem numbered_new (cols rows limit : Nat) : (Grid.new cols rows limit).Numbered := by
  have hids : (Grid.new cols rows limit).ids = List.range (max rows 1) := by
    simp only [ids, lines, Grid.new, Storage.logical_new, List.map_map]
    exact (List.map_congr_left fun _ _ => rfl).trans (List.map_id _)
  refine ⟨?_, ?_⟩
  · rw [hids]
    exact List.pairwise_lt_range
  · rw [hids]
    intro x hx
    exact List.mem_range.mp hx

/-- What ED 3 leaves: the viewport's rows and nothing above them. -/
theorem lines_clearHistory (hs : g.Shape) :
    g.clearHistory.lines = g.lines.drop g.scrollbackLen := by
  have hlen := hs.len
  have hpos := hs.rows_pos
  unfold clearHistory
  dsimp only
  split
  · show (g.storage.removeRange 0 g.scrollbackLen).logical = _
    rw [Storage.logical_removeRange _ _ _ (by omega)]
    simp [lines]
  · next h =>
    have : g.scrollbackLen = 0 := by omega
    simp [lines, this]

theorem scrollbackLen_clearHistory : g.clearHistory.scrollbackLen = 0 := by
  unfold clearHistory
  dsimp only
  split
  · rfl
  · next h =>
    show g.scrollbackLen = 0
    omega

theorem frame_clearHistory :
    g.clearHistory.cols = g.cols ∧ g.clearHistory.rows = g.rows ∧
      g.clearHistory.storage.nextId = g.storage.nextId := by
  unfold clearHistory
  dsimp only
  split
  · exact ⟨rfl, rfl, Storage.nextId_removeRange _ _ _⟩
  · exact ⟨rfl, rfl, rfl⟩

theorem shape_clearHistory (hs : g.Shape) : g.clearHistory.Shape := by
  obtain ⟨hc, hr, _⟩ := frame_clearHistory g
  have hl := lines_clearHistory g hs
  refine ⟨by rw [hr]; exact hs.rows_pos, by rw [hc]; exact hs.cols_pos, ?_, ?_⟩
  · rw [scrollbackLen_clearHistory, hr, ← Storage.length_logical]
    have := congrArg List.length hl
    simp only [lines, List.length_drop, Storage.length_logical] at this ⊢
    have := hs.len
    omega
  · intro r hr'
    rw [hl] at hr'
    rw [hc]
    exact hs.width r (List.mem_of_mem_drop hr')

theorem within_clearHistory {g : Grid} (hw : g.Within) : g.clearHistory.Within := by
  have hlimit : g.settledPull ≤ g.scrollbackLimit := (Nat.le_add_left _ _).trans hw.limit
  unfold clearHistory
  dsimp only
  split
  · exact { hw with limit := by simpa using hlimit, offset := Nat.zero_le _ }
  · exact { hw with offset := Nat.zero_le _ }

theorem ledger_clearHistory (hs : g.Shape) :
    Ledger.Evolves g.ids g.storage.nextId g.clearHistory.ids g.clearHistory.storage.nextId := by
  rw [(frame_clearHistory g).2.2]
  refine Ledger.Evolves.of_sublist ?_
  simp only [ids, lines_clearHistory g hs]
  exact (List.drop_sublist _ _).map _

/-- What filing viewport rows as history comes to: as many rows minted below,
and the oldest let go past the limit. -/
theorem bankViewportTop_cases {n : Nat} (hn : n ≠ 0) (t : Cell) :
    ∃ s sb, g.bankViewportTop n t = { g with
        storage := s
        scrollbackLen := sb
        displayOffset :=
          if g.displayOffset > 0 then min (g.displayOffset + n) sb else g.displayOffset } ∧
      ((sb = g.scrollbackLen + n ∧ sb ≤ g.scrollbackLimit ∧
          s = g.storage.resizeRows (g.storage.len + n) g.cols t) ∨
        (g.scrollbackLimit < g.scrollbackLen + n ∧ sb = g.scrollbackLimit ∧
          s = (g.storage.resizeRows (g.storage.len + n) g.cols t).resizeRows
            (g.storage.len + n - (g.scrollbackLen + n - g.scrollbackLimit)) g.cols t)) := by
  unfold bankViewportTop
  rw [if_neg hn]
  dsimp only
  by_cases hover : g.scrollbackLen + n > g.scrollbackLimit
  · refine ⟨_, _, ?_, Or.inr ⟨hover, rfl, rfl⟩⟩
    rw [if_pos hover, Storage.len_resizeRows]
    dsimp only
    split <;> rfl
  · refine ⟨_, _, ?_, Or.inl ⟨rfl, Nat.le_of_not_lt hover, rfl⟩⟩
    rw [if_neg hover]
    dsimp only
    split <;> rfl

theorem ledger_bankViewportTop (n : Nat) (t : Cell) :
    Ledger.Evolves g.ids g.storage.nextId (g.bankViewportTop n t).ids
      (g.bankViewportTop n t).storage.nextId := by
  have hgrow := ledger_resizeRows g.storage (g.storage.len + n) g.cols t
  by_cases hn : n = 0
  · unfold bankViewportTop
    rw [if_pos hn]
    exact Ledger.Evolves.refl _ _
  · obtain ⟨s, sb, heq, ⟨_, _, rfl⟩ | ⟨_, _, rfl⟩⟩ := g.bankViewportTop_cases hn t
    · rw [heq]
      exact hgrow
    · rw [heq]
      exact hgrow.trans (ledger_resizeRows _ _ _ _)

theorem shape_bankViewportTop {g : Grid} (hs : g.Shape) (n : Nat) (t : Cell) :
    (g.bankViewportTop n t).Shape := by
  by_cases hn : n = 0
  · unfold bankViewportTop
    rwa [if_pos hn]
  · obtain ⟨s, sb, heq, hcases⟩ := g.bankViewportTop_cases hn t
    rw [heq]
    have hwidth := width_resizeRows g.storage (g.storage.len + n) g.cols t hs.width
    have hlen := hs.len
    refine ⟨hs.rows_pos, hs.cols_pos, ?_, ?_⟩
    · rcases hcases with ⟨rfl, _, rfl⟩ | ⟨hover, rfl, rfl⟩
      · rw [Storage.len_resizeRows, hlen, Nat.add_right_comm]
      · rw [Storage.len_resizeRows, hlen]
        dsimp only
        omega
    · rcases hcases with ⟨_, _, rfl⟩ | ⟨_, _, rfl⟩
      · exact hwidth
      · exact width_resizeRows _ _ _ _ hwidth

/-- The bounds are kept where no settle is waiting to be taken back. -/
theorem evolves_bankViewportTop (n : Nat) (t : Cell) (hp : g.settledPull = 0) :
    g.Evolves (g.bankViewportTop n t) := by
  by_cases hn : n = 0
  · unfold bankViewportTop
    rw [if_pos hn]
    exact Evolves.refl g
  · have hledger := g.ledger_bankViewportTop n t
    have hshape (hs : g.Shape) := shape_bankViewportTop hs n t
    obtain ⟨s, sb, heq, hcases⟩ := g.bankViewportTop_cases hn t
    rw [heq] at hledger hshape ⊢
    refine ⟨rfl, rfl, rfl, rfl, rfl, hledger, hshape,
      fun _ hw => { hw with limit := ?_, offset := ?_ }⟩
    · show sb + g.settledPull ≤ g.scrollbackLimit
      rw [hp]
      rcases hcases with ⟨_, hle, _⟩ | ⟨_, rfl, _⟩
      · exact hle
      · exact Nat.le_refl _
    · have hoffset := hw.offset
      show (if g.displayOffset > 0 then min (g.displayOffset + n) sb else g.displayOffset) ≤ sb
      split
      · exact Nat.min_le_right _ _
      · omega

end Grid

/-! ## The invariant of a terminal -/

namespace TermState

/-- A grid of a given size, in shape and in order. -/
structure Screen (cols rows : Nat) (g : Grid) : Prop where
  cols : g.cols = cols
  rows : g.rows = rows
  shape : g.Shape
  within : g.Within
  numbered : g.Numbered

theorem Screen.of_evolves {cols rows : Nat} {g g' : Grid} (h : Screen cols rows g)
    (he : g.Evolves g') : Screen cols rows g' :=
  ⟨he.cols.trans h.cols, he.rows.trans h.rows, he.shape h.shape, he.within h.shape h.within,
    he.ledger.numbered h.numbered⟩

theorem Screen.clearHistory {cols rows : Nat} {g : Grid} (h : Screen cols rows g) :
    Screen cols rows g.clearHistory := by
  obtain ⟨hc, hr, _⟩ := Grid.frame_clearHistory g
  exact ⟨hc.trans h.cols, hr.trans h.rows, Grid.shape_clearHistory g h.shape,
    Grid.within_clearHistory h.within, (Grid.ledger_clearHistory g h.shape).numbered h.numbered⟩

/-- Both screens of a terminal of a given size. -/
structure Sound (cols rows : Nat) (s : TermState) : Prop where
  primary : Screen cols rows s.grid
  alt : ∀ g, s.altGrid = some g → Screen cols rows g
  flag : s.AltFlag

namespace Sound

variable {cols rows : Nat} {s s' : TermState}

theorem active (h : s.Sound cols rows) : Screen cols rows s.activeGrid := by
  unfold activeGrid
  cases ha : s.altGrid with
  | none => exact h.primary
  | some g => exact h.alt g ha

/-- The same two screens. -/
theorem of_frame (h : s.Sound cols rows) (hg : s'.grid = s.grid) (ha : s'.altGrid = s.altGrid)
    (hf : s.AltFlag → s'.AltFlag) : s'.Sound cols rows :=
  ⟨hg ▸ h.primary, fun g hg' => h.alt g (ha ▸ hg'), hf h.flag⟩

theorem draws (h : s.Sound cols rows) (hd : s.Draws s') : s'.Sound cols rows := by
  have hactive := h.active.of_evolves hd.active
  have his := hd.isAlt
  cases ha : s.altGrid with
  | none =>
    have ha' : s'.altGrid = none := by simpa [ha] using his
    have hg : s'.activeGrid = s'.grid := by simp [activeGrid, ha']
    exact ⟨hg ▸ hactive, by simp [ha'], hd.flag h.flag⟩
  | some g =>
    have hg := hd.primary (by simp [ha])
    refine ⟨hg ▸ h.primary, fun g' hg' => ?_, hd.flag h.flag⟩
    have : s'.activeGrid = g' := by simp [activeGrid, hg']
    exact this ▸ hactive

theorem freshAlt (h : s.Sound cols rows) : Screen cols rows s.freshAlt := by
  have hsh := h.primary.shape
  have hnew : Screen cols rows (Grid.new s.grid.cols s.grid.rows 0) := by
    refine ⟨?_, ?_, Grid.shape_new _ _ _, Grid.within_new _ _ _, Grid.numbered_new _ _ _⟩
    · show max s.grid.cols 1 = cols
      have := hsh.cols_pos
      have := h.primary.cols
      omega
    · show max s.grid.rows 1 = rows
      have := hsh.rows_pos
      have := h.primary.rows
      omega
  have hclear := hnew.of_evolves (Grid.evolves_clearAll _ s.template)
  exact ⟨hclear.cols, hclear.rows, ⟨hclear.shape.1, hclear.shape.2, hclear.shape.3, hclear.shape.4⟩,
    { hclear.within with }, hclear.numbered⟩

variable {G : Guards}

/-- One step keeps both screens and their size. -/
theorem step (h : s.Sound cols rows) (hst : Step G s s') : s'.Sound cols rows := by
  cases hst with
  | draw hd => exact h.draws hd
  | block _ hg ha hf => exact h.of_frame hg ha hf
  | history hg ha _ hf =>
    exact ⟨hg ▸ h.primary.clearHistory, fun g hg' => h.alt g (ha ▸ hg'), hf h.flag⟩
  | enterAlt _ hg ha _ hf =>
    refine ⟨hg ▸ h.primary, fun g hg' => ?_, hf⟩
    rw [ha] at hg'
    exact Option.some.inj hg' ▸ h.freshAlt
  | leaveAlt _ hg ha _ hf => exact ⟨hg ▸ h.primary, by simp [ha], hf⟩

theorem steps (h : s.Sound cols rows) (hst : s.Steps G s') : s'.Sound cols rows :=
  hst.keeps (fun _ _ hst hs => hs.step hst) h

theorem resizeScreens (h : s.Sound cols rows) (newCols newRows : Nat) :
    (s.resizeScreens newCols newRows).1.Sound (max newCols 1) (max newRows 1) := by
  have hscreen (g : Grid) (hs : Screen cols rows g) :
      Screen (max newCols 1) (max newRows 1) (g.resize newCols newRows s.template).1 := by
    have hr := Grid.resized_resize g newCols newRows s.template hs.shape
    exact ⟨hr.cols, hr.rows, hr.shape, hr.within hs.within, hr.numbered hs.numbered⟩
  refine ⟨hscreen _ h.primary, fun g hg => ?_, ?_⟩
  · obtain ⟨a, ha, rfl⟩ := Option.map_eq_some_iff.mp hg
    exact hscreen a (h.alt a ha)
  · have := h.flag
    unfold AltFlag at this ⊢
    simpa [TermState.resizeScreens] using this

/-- Rows are rebased after a width change, which has ended any settle. -/
theorem rebase (h : s.Sound cols rows) (k : Nat) (hk : 0 < k → s.grid.settledPull = 0) :
    (s.rebase k).Sound cols rows := by
  unfold TermState.rebase
  split
  · next hpos =>
    exact ⟨h.primary.of_evolves (Grid.evolves_bankViewportTop _ _ _ (hk hpos)), h.alt, h.flag⟩
  · exact h

theorem reanchorBlocks (h : s.Sound cols rows) (reindex : Reindex) :
    (s.reanchorBlocks reindex).Sound cols rows := by
  unfold TermState.reanchorBlocks
  split
  · exact h.of_frame rfl rfl id
  · exact h

theorem resize (h : s.Sound cols rows) (newCols newRows : Nat) :
    (s.resize newCols newRows).Sound (max newCols 1) (max newRows 1) := by
  have hended : 0 < anchorDepth (s.resizeScreens newCols newRows).1.grid
      (s.resizeScreens newCols newRows).2 (s.resizeAnchor newCols) →
        (s.resizeScreens newCols newRows).1.grid.settledPull = 0 := by
    intro hk
    by_cases hne : max newCols 1 = s.grid.cols
    · -- Nothing was renumbered, so no line is found above the anchored one.
      have hmap : (s.resizeScreens newCols newRows).2 = {} :=
        (Grid.monotone_resize s.grid newCols newRows s.template h.primary.numbered).2 hne
      rw [hmap] at hk
      exact absurd hk (by simp [anchorDepth, Reindex.lookup])
    · exact Grid.settledPull_resize s.grid hne newRows s.template
  exact (((h.resizeScreens newCols newRows).rebase _ hended).reanchorBlocks _).of_frame rfl rfl id

theorem setViewportRestatedElsewhere (h : s.Sound cols rows) (yes : Bool) :
    (s.setViewportRestatedElsewhere yes).Sound cols rows := by
  have hscreen {g : Grid} (hs : Screen cols rows g) :
      Screen cols rows (g.setViewportRestatedElsewhere yes) :=
    ⟨hs.cols, hs.rows, ⟨hs.shape.1, hs.shape.2, hs.shape.3, hs.shape.4⟩, { hs.within with },
      hs.numbered⟩
  refine ⟨hscreen h.primary, fun g hg => ?_, ?_⟩
  · obtain ⟨a, ha, rfl⟩ := Option.map_eq_some_iff.mp hg
    exact hscreen (h.alt a ha)
  · have := h.flag
    unfold AltFlag at this ⊢
    simpa [TermState.setViewportRestatedElsewhere] using this

end Sound

variable {s s' : TermState}

/-! ## The primary screen's numbering -/

/-- The primary screen's lines evolved. -/
def Numbers (s s' : TermState) : Prop :=
  Ledger.Evolves s.grid.ids s.grid.storage.nextId s'.grid.ids s'.grid.storage.nextId

theorem numbers_of_grid_eq (h : s'.grid = s.grid) : s.Numbers s' := by
  unfold Numbers
  rw [h]
  exact Ledger.Evolves.refl _ _

theorem numbers_draws (h : s.Draws s') : s.Numbers s' := by
  cases ha : s.altGrid with
  | none =>
    have ha' : s'.altGrid = none := by simpa [ha] using h.isAlt
    have hledger := h.active.ledger
    unfold Numbers
    simpa [activeGrid, ha, ha'] using hledger
  | some g => exact numbers_of_grid_eq (h.primary (by simp [ha]))

theorem numbers_step {G : Guards} {cols rows : Nat} (hs : s.Sound cols rows) (hst : Step G s s') :
    s.Numbers s' := by
  cases hst with
  | draw h => exact numbers_draws h
  | block _ hg _ _ => exact numbers_of_grid_eq hg
  | history hg _ _ _ =>
    unfold Numbers
    rw [hg]
    exact Grid.ledger_clearHistory _ hs.primary.shape
  | enterAlt _ hg _ _ _ => exact numbers_of_grid_eq hg
  | leaveAlt _ hg _ _ _ => exact numbers_of_grid_eq hg

theorem numbers_steps {G : Guards} {cols rows : Nat} (hs : s.Sound cols rows) (hst : s.Steps G s') :
    s.Numbers s' := by
  have hstep (u u' : TermState) (hu : Step G u u') (h : u.Sound cols rows ∧ s.Numbers u) :
      u'.Sound cols rows ∧ s.Numbers u' := ⟨h.1.step hu, h.2.trans (numbers_step h.1 hu)⟩
  exact (hst.keeps hstep ⟨hs, Ledger.Evolves.refl _ _⟩).2

theorem numbers_rebase (u : TermState) (k : Nat) : u.Numbers (u.rebase k) := by
  unfold rebase
  split
  · exact Grid.ledger_bankViewportTop u.grid k u.template
  · exact Ledger.Evolves.refl _ _

theorem numbers_reanchorBlocks (u : TermState) (x : Reindex) : u.Numbers (u.reanchorBlocks x) := by
  unfold reanchorBlocks
  split <;> exact Ledger.Evolves.refl _ _

/-- A height change strikes rows out and mints blanks below. -/
theorem numbers_resize {cols rows : Nat} (hs : s.Sound cols rows) (newRows : Nat) :
    s.Numbers (s.resize s.grid.cols newRows) := by
  have hpos := hs.primary.shape.cols_pos
  have hscreens : s.Numbers (s.resizeScreens s.grid.cols newRows).1 :=
    (Grid.resized_resize s.grid s.grid.cols newRows s.template hs.primary.shape).ledger (by omega)
  exact (hscreens.trans (numbers_rebase _ _)).trans (numbers_reanchorBlocks _ _)

/-- A resize re-anchors the blocks where it renumbered the lines. -/
theorem blocks_resize (s : TermState) (cols rows : Nat) :
    (s.resize cols rows).blocks =
      if (s.grid.resize cols rows s.template).2.isEmpty then s.blocks
      else s.blocks.reanchor (s.grid.resize cols rows s.template).2 := by
  have hbase (u : TermState) (k : Nat) : (u.rebase k).blocks = u.blocks := by
    unfold rebase
    split <;> rfl
  have hre (u : TermState) (x : Reindex) :
      (u.reanchorBlocks x).blocks = if x.isEmpty then u.blocks else u.blocks.reanchor x := by
    unfold reanchorBlocks
    cases x.isEmpty <;> rfl
  exact (hre _ _).trans (by rw [hbase]; rfl)

end TermState

/-! ## Every terminal there is -/

namespace Terminal

variable {vt : Vt}
variable {P : Terminal vt → Call → Prop} {t t' : Terminal vt}

/-- A call of one of the methods that change a terminal. -/
inductive Call where
  | advance (bytes : List UInt8)
  | resize (cols rows : Nat)
  | setNowMs (ms : Nat)
  | setInputAuthor (author : Option (List UInt8))
  | setBlockContext (id : BlockId) (context : BlockContext)
  | setPtyRestatesViewport (yes : Bool)
  | setDefaultCursorStyle (style : CursorStyle)
  | setPalette (seed : PaletteSnapshot)
  | takeEvents
  | takeDamage
  | scrollDisplay (delta : Int)
  | scrollToBottom
  | scrollToLine (line : LineId)

def call (t : Terminal vt) : Call → Terminal vt
  | .advance bytes => t.advance bytes
  | .resize cols rows => t.resize cols rows
  | .setNowMs ms => t.setNowMs ms
  | .setInputAuthor author => t.setInputAuthor author
  | .setBlockContext id context => t.setBlockContext id context
  | .setPtyRestatesViewport yes => t.setPtyRestatesViewport yes
  | .setDefaultCursorStyle style => t.setDefaultCursorStyle style
  | .setPalette seed => t.setPalette seed
  | .takeEvents => t.takeEvents.1
  | .takeDamage => t.takeDamage.1
  | .scrollDisplay delta => t.scrollDisplay delta
  | .scrollToBottom => t.scrollToBottom
  | .scrollToLine line => (t.scrollToLine line).1

/-- A run whose every call meets a condition on the terminal it is made
on. -/
inductive Runs (P : Terminal vt → Call → Prop) (t : Terminal vt) : Terminal vt → Prop where
  | refl : Runs P t t
  | call {t' : Terminal vt} (c : Call) (hc : P t' c) : Runs P t t' → Runs P t (t'.call c)

/-- Whatever every call keeps holds at the end of a run. -/
theorem Runs.keeps {Q : Terminal vt → Prop} (hcall : ∀ u c, P u c → Q u → Q (u.call c))
    (h : Runs P t t') (ht : Q t) : Q t' := by
  induction h with
  | refl => exact ht
  | call c hc _ ih => exact hcall _ c hc ih

theorem Runs.mono {Q : Terminal vt → Call → Prop} (hPQ : ∀ u c, P u c → Q u c) (h : Runs P t t') :
    Runs Q t t' := by
  induction h with
  | refl => exact Runs.refl
  | call c hc _ ih => exact Runs.call c (hPQ _ c hc) ih

theorem Runs.trans {t'' : Terminal vt} (h : Runs P t t') (h' : Runs P t' t'') : Runs P t t'' := by
  induction h' with
  | refl => exact h
  | call c hc _ ih => exact Runs.call c hc ih

/-- The terminals the methods of `Terminal` can make. -/
def Reachable (t : Terminal vt) : Prop :=
  ∃ cols rows scrollback, Runs (fun _ _ => True) (Terminal.new vt cols rows scrollback) t

theorem Reachable.new (cols rows scrollback : Nat) :
    (Terminal.new vt cols rows scrollback).Reachable := ⟨cols, rows, scrollback, Runs.refl⟩

theorem Reachable.runs (ht : t.Reachable) (h : Runs P t t') : t'.Reachable := by
  obtain ⟨cols, rows, scrollback, h₀⟩ := ht
  exact ⟨cols, rows, scrollback, h₀.trans (h.mono fun _ _ _ => trivial)⟩

theorem Reachable.call (ht : t.Reachable) (c : Call) : (t.call c).Reachable :=
  ht.runs (Runs.call (P := fun _ _ => True) c trivial Runs.refl)

/-- Calls that change neither screen's rows nor any block. -/
def Call.isQuiet : Call → Bool
  | .advance _ => false
  | .resize _ _ => false
  | .setBlockContext _ _ => false
  | .setPtyRestatesViewport _ => false
  | _ => true

theorem draws_scrollToLine (t : Terminal vt) (line : LineId) :
    t.state.Draws (t.scrollToLine line).1.state := by
  unfold scrollToLine
  split
  · exact TermState.Draws.refl _
  · next ha =>
    have hnone : t.state.altGrid = none := by simpa using ha
    have hevolves : t.state.grid.Evolves (t.state.grid.scrollToLine line).1 := by
      unfold Grid.scrollToLine
      split
      · exact Grid.Evolves.refl _
      · exact Grid.evolves_displayOffset _ _ fun _ => Nat.min_le_right _ _
    have hgrid (s : TermState) (hg : s.grid = (t.state.grid.scrollToLine line).1)
        (ha' : s.altGrid = t.state.altGrid) (hb : s.blocks = t.state.blocks)
        (hm : s.modes = t.state.modes) : t.state.Draws s := by
      refine ⟨?_, by rw [ha'], fun h => by simp [hnone] at h, hb, fun hf => ?_⟩
      · simp only [TermState.activeGrid, ha', hnone, hg, Option.getD_none]
        exact hevolves
      · unfold TermState.AltFlag at hf ⊢
        rw [hm, ha', hf]
    dsimp only
    split
    · exact hgrid _ rfl rfl rfl rfl
    · exact hgrid _ rfl rfl rfl rfl

theorem draws_call (t : Terminal vt) (c : Call) (h : c.isQuiet = true) :
    t.state.Draws (t.call c).state := by
  cases c with
  | advance | resize | setBlockContext | setPtyRestatesViewport => simp [Call.isQuiet] at h
  | setNowMs | setInputAuthor | setDefaultCursorStyle | setPalette | takeEvents | takeDamage =>
    exact TermState.Draws.of_frame rfl rfl rfl rfl
  | scrollDisplay delta =>
    exact (TermState.Draws.modifyGrid _ (fun g => g.scrollDisplay delta)
      (Grid.evolves_scrollDisplay _ _)).trans (TermState.Draws.of_frame rfl rfl rfl rfl)
  | scrollToBottom =>
    exact (TermState.Draws.modifyGrid _ Grid.scrollToBottom
      (Grid.evolves_displayOffset _ _ fun _ => Nat.zero_le _)).trans
        (TermState.Draws.of_frame rfl rfl rfl rfl)
  | scrollToLine line => exact draws_scrollToLine t line

/-- Every call keeps both screens in shape and in order. -/
theorem sound_call {cols rows : Nat} (hs : t.state.Sound cols rows) (c : Call) :
    ∃ cols' rows', (t.call c).state.Sound cols' rows' := by
  by_cases hq : c.isQuiet = true
  · exact ⟨cols, rows, hs.draws (draws_call t c hq)⟩
  · cases c with
    | advance bytes => exact ⟨cols, rows, hs.steps (t.steps_advance bytes)⟩
    | resize newCols newRows => exact ⟨_, _, hs.resize newCols newRows⟩
    | setBlockContext => exact ⟨cols, rows, hs.of_frame rfl rfl id⟩
    | setPtyRestatesViewport yes => exact ⟨cols, rows, hs.setViewportRestatedElsewhere yes⟩
    | _ => exact absurd rfl hq

theorem sound_new (cols rows scrollback : Nat) :
    (Terminal.new vt cols rows scrollback).state.Sound (max cols 1) (max rows 1) := by
  refine ⟨⟨rfl, rfl, Grid.shape_new _ _ _, Grid.within_new _ _ _, Grid.numbered_new _ _ _⟩,
    fun g hg => by simp [Terminal.new, TermState.new] at hg, ?_⟩
  show Modes.initial.contains .altScreen = false
  decide

/-- Every terminal has both its screens in shape and in order. -/
theorem Reachable.sound (h : t.Reachable) : ∃ cols rows, t.state.Sound cols rows := by
  obtain ⟨cols, rows, scrollback, h⟩ := h
  refine h.keeps (Q := fun u => ∃ cols rows, u.state.Sound cols rows) (fun u c _ hu => ?_)
    ⟨_, _, sound_new cols rows scrollback⟩
  obtain ⟨_, _, hu⟩ := hu
  exact sound_call hu c

/-! ## Runs at a constant width -/

/-- A call that does not change the width. -/
def Call.KeepsWidth (t : Terminal vt) : Call → Prop
  | .resize cols _ => cols = t.state.grid.cols
  | _ => True

theorem numbers_call {cols rows : Nat} (hs : t.state.Sound cols rows) (c : Call)
    (hc : c.KeepsWidth t) : t.state.Numbers (t.call c).state := by
  by_cases hq : c.isQuiet = true
  · exact TermState.numbers_draws (draws_call t c hq)
  · cases c with
    | advance bytes => exact TermState.numbers_steps hs (t.steps_advance bytes)
    | resize newCols newRows =>
      obtain rfl : newCols = t.state.grid.cols := hc
      exact TermState.numbers_resize hs newRows
    | setBlockContext | setPtyRestatesViewport => exact Ledger.Evolves.refl _ _
    | _ => exact absurd rfl hq

/-- At a constant width the primary screen's lines only evolve. -/
theorem Runs.numbers (h : Runs (fun t c => c.KeepsWidth t) t t') {cols rows : Nat}
    (hs : t.state.Sound cols rows) :
    (∃ cols' rows', t'.state.Sound cols' rows') ∧ t.state.Numbers t'.state := by
  refine h.keeps
    (Q := fun u => (∃ cols rows, u.state.Sound cols rows) ∧ t.state.Numbers u.state)
    (fun u c hc hu => ?_) ⟨⟨cols, rows, hs⟩, Ledger.Evolves.refl _ _⟩
  obtain ⟨⟨_, _, hu⟩, hn⟩ := hu
  exact ⟨sound_call hu c, hn.trans (numbers_call hu c hc)⟩

end Terminal

end Zesterm
