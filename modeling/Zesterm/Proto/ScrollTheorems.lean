/-
Zesterm.Proto.ScrollTheorems — when a delta's scroll says what happened.

The encoder takes the difference of two line ids for the number of rows
that left. `Gapless` is what makes that right: no id between the old top
and the new is missing from the old viewport, and no row from the new top
on has been destroyed since. `scrollExact_iff` is the exact statement; the
host can break it by destroying rows without rewinding its counter.
-/
import Zesterm.Proto.EncodeTheorems
import Zesterm.Proto.Session
import Zesterm.Core.AsciiVt
import Zesterm.Lib.Ascending

namespace Zesterm

/-! ## The viewport as the end of the ring -/

namespace Grid

/-- The live screen is what stands below the scrollback. -/
theorem activeRows_eq (g : Grid) (hs : g.Shape) :
    Encoder.activeRows g = g.lines.drop g.scrollbackLen := by
  have hlen := hs.len
  apply List.ext_getElem
  · simp only [Encoder.length_activeRows, List.length_drop, lines, Storage.length_logical]
    omega
  · intro i h₁ h₂
    have hi : i < g.rows := by simpa using h₁
    have hbase : g.activeBase = g.scrollbackLen := by unfold activeBase; omega
    simp only [Encoder.activeRows, List.getElem_map, List.getElem_range, activeRow, hbase,
      List.getElem_drop]
    rw [Storage.row_eq _ _ (by omega), List.getD_eq_getElem?_getD, List.getElem?_eq_getElem (by
      rw [Storage.length_logical]; omega)]
    rfl

/-- The ids of the live screen, top first. -/
def viewIds (g : Grid) : List LineId := g.ids.drop g.scrollbackLen

/-- The lines of the live screen as the wire names them. -/
def viewLines (g : Grid) : List Int := g.viewIds.map wireLine

/-- Every line held, as the wire names it. -/
def heldLines (g : Grid) : List Int := g.ids.map wireLine

theorem map_activeRows (g : Grid) (hs : g.Shape) :
    (Encoder.activeRows g).map (fun r => wireLine r.id) = g.viewLines := by
  rw [activeRows_eq g hs, viewLines, viewIds, ids, ← List.map_drop, List.map_map]
  rfl

theorem viewIds_sorted (g : Grid) (hn : g.Numbered) : g.viewIds.Pairwise (· < ·) :=
  hn.sorted.sublist (List.drop_sublist _ _)

/-- The top line of the live screen. -/
theorem viewIds_zero (g : Grid) (hs : g.Shape) : g.viewIds[0]? = some (g.activeRow 0).id := by
  have h : (Encoder.activeRows g)[0]? = some (g.activeRow 0) := by
    have := hs.rows_pos
    rw [Encoder.activeRows, List.getElem?_map, List.getElem?_range this]
    rfl
  have hmap : g.viewIds = (Encoder.activeRows g).map Row.id := by
    rw [activeRows_eq g hs, viewIds, ids, List.map_drop]
  rw [hmap, List.getElem?_map, h]
  rfl

end Grid

/-! ## Line ids on the wire -/

theorem wireLine_mono {a b : Nat} (h : a ≤ b) : wireLine a ≤ wireLine b := by
  unfold wireLine
  omega

theorem wireLine_of_lt {a : Nat} {x : Int} (h : wireLine a < x) (hx : x ≤ i64Max) :
    wireLine a = a := by
  unfold wireLine at *
  omega

theorem wireLine_le_max (a : Nat) : wireLine a ≤ i64Max := by
  unfold wireLine
  omega

/-! ## The claim and its condition -/

/-- A scroll by `k` says what happened between two viewports: exactly the
first `k` lines of the old one have left, and exactly they are pushed. -/
structure ScrollExact (old new pushed : List Int) (k : Int) : Prop where
  left : ∀ (j : Nat) (line : Int), old[j]? = some line → (line ∉ new ↔ (j : Int) < k)
  pushes : pushed = old.take k.toNat
  gone : ∀ line ∈ pushed, line ∉ new

/-- No id from the old top to the new one is missing from the old viewport,
none of its lines from the new top on has been destroyed, and the jump fits
the wire; or the tops are no scroll apart. -/
def Gapless (old : List Int) (oldTop newTop : Int) (held : List Int) : Prop :=
  newTop ≤ oldTop ∨ old.length ≤ newTop - oldTop ∨
    (newTop - oldTop ≤ 32767 ∧ (∀ x, oldTop ≤ x → x < newTop → x ∈ old) ∧
      ∀ x ∈ old, newTop ≤ x → x ∈ held)

/-! ## Two viewports of one history -/

section Viewports

variable {g g' : Grid} (hs : g.Shape) (hs' : g'.Shape) (hn : g.Numbered) (hn' : g'.Numbered)
  (he : Ledger.Evolves g.ids g.storage.nextId g'.ids g'.storage.nextId)

/-- Every line of a viewport is at or below its top. -/
theorem Grid.top_le {g : Grid} (hs : g.Shape) (hn : g.Numbered) {x : LineId}
    (hx : x ∈ g.viewIds) : (g.activeRow 0).id ≤ x :=
  Ascending.head_le (g.viewIds_sorted hn)
    (by rw [List.head?_eq_getElem?]; exact g.viewIds_zero hs) hx

/-- A line held at or below the top of a viewport is in it. -/
theorem Grid.mem_viewIds {g : Grid} (hs : g.Shape) (hn : g.Numbered) {x : LineId}
    (hx : x ∈ g.ids) (hle : (g.activeRow 0).id ≤ x) : x ∈ g.viewIds :=
  Ascending.mem_drop_of_le hn.sorted
    (by rw [List.head?_eq_getElem?]; exact g.viewIds_zero hs) hx hle

theorem Grid.top_mem {g : Grid} (hs : g.Shape) : (g.activeRow 0).id ∈ g.viewIds :=
  List.mem_of_getElem? (g.viewIds_zero hs)

include hs hs' hn he in
/-- A line of the old viewport at or below the new top makes the new top
itself a line of the old viewport: the counter had passed it. -/
theorem top_mem_of_le {x : LineId} (hx : x ∈ g.viewIds) (hle : (g'.activeRow 0).id ≤ x)
    (hlt : (g.activeRow 0).id < (g'.activeRow 0).id) : (g'.activeRow 0).id ∈ g.viewIds := by
  have hxids : x ∈ g.ids := (List.drop_sublist _ _).subset hx
  have htop : (g'.activeRow 0).id ∈ g'.ids := (List.drop_sublist _ _).subset (Grid.top_mem hs')
  exact Grid.mem_viewIds hs hn
    (he.mem_of_lt htop (lt_of_le_of_lt hle (hn.below x hxids))) hlt.le

/-- What stands at place `j` of a viewport, on the wire. -/
theorem viewLines_getElem? {g : Grid} {j : Nat} {line : Int} :
    g.viewLines[j]? = some line ↔ ∃ x, g.viewIds[j]? = some x ∧ wireLine x = line := by
  rw [Grid.viewLines, List.getElem?_map, Option.map_eq_some_iff]

/-- The greatest number the wire names, by the place it stands in. -/
theorem wire_add_le {g : Grid} (hs : g.Shape) (hn : g.Numbered) {j : Nat} {x : LineId}
    (hx : g.viewIds[j]? = some x) :
    min (wireLine (g.activeRow 0).id + j) i64Max ≤ wireLine x := by
  have hlow : (g.activeRow 0).id + (j - 0) ≤ (x : Nat) :=
    Ascending.add_le_of_ascending (g.viewIds_sorted hn) (Nat.zero_le j) (g.viewIds_zero hs) hx
  have hmono := wireLine_mono hlow
  refine le_trans ?_ hmono
  generalize (g.activeRow 0).id = first
  unfold wireLine
  push_cast
  omega

/-- A line held at or below the top of a viewport, as the wire names them,
is in it. -/
theorem mem_viewLines {g : Grid} (hs : g.Shape) (hn : g.Numbered) {line : Int}
    (hheld : line ∈ g.heldLines) (hle : wireLine (g.activeRow 0).id ≤ line) :
    line ∈ g.viewLines := by
  obtain ⟨x, hx, rfl⟩ := List.mem_map.mp hheld
  rcases lt_or_ge x (g.activeRow 0).id with hlt | hge
  · have heq : wireLine x = wireLine (g.activeRow 0).id :=
      le_antisymm (wireLine_mono hlt.le) hle
    rw [heq]
    exact List.mem_map_of_mem (Grid.top_mem hs)
  · exact List.mem_map_of_mem (Grid.mem_viewIds hs hn hx hge)

/-- Every line of a viewport, as the wire names it, is at or below its top. -/
theorem wire_top_le {g : Grid} (hs : g.Shape) (hn : g.Numbered) {line : Int}
    (h : line ∈ g.viewLines) : wireLine (g.activeRow 0).id ≤ line := by
  obtain ⟨x, hx, rfl⟩ := List.mem_map.mp h
  exact wireLine_mono (Grid.top_le hs hn hx)

variable {n : Nat} (hdist : wireLine (g'.activeRow 0).id = wireLine (g.activeRow 0).id + n)

include hdist in
/-- The old top is below the clamp, so it is its own wire name. -/
theorem wire_first_eq (hpos : 0 < n) : wireLine (g.activeRow 0).id = (g.activeRow 0).id :=
  wireLine_of_lt (x := wireLine (g'.activeRow 0).id) (by omega) (wireLine_le_max _)

include hs hs' hn hn' hdist in
/-- Without a gap the scroll is exact. -/
theorem scrollExact_of_gapless (hpos : 0 < n)
    (hgap : ∀ x, wireLine (g.activeRow 0).id ≤ x → x < wireLine (g'.activeRow 0).id →
      x ∈ g.viewLines)
    (hheld : ∀ x ∈ g.viewLines, wireLine (g'.activeRow 0).id ≤ x → x ∈ g'.heldLines) :
    ScrollExact g.viewLines g'.viewLines (g.viewLines.take n) n := by
  have hfirst := wire_first_eq hdist hpos
  have hmax := wireLine_le_max (g'.activeRow 0).id
  -- The places before the `n`-th are counted off, so they stand above the new top.
  have hcount : ∀ j < n, g.viewIds[j]? = some ((g.activeRow 0).id + j) := by
    refine Ascending.eq_add_of_forall_mem (g.viewIds_sorted hn) (g.viewIds_zero hs) fun x hx hlt => ?_
    obtain ⟨y, hy, hxy⟩ := List.mem_map.mp (hgap x (by omega) (by omega))
    have : wireLine y = y := wireLine_of_lt (x := wireLine (g'.activeRow 0).id) (by omega) hmax
    have hyx : y = x := Int.ofNat_inj.mp (this.symm.trans hxy)
    exact hyx ▸ hy
  have hleft : ∀ (j : Nat) (line : Int), g.viewLines[j]? = some line →
      (line ∉ g'.viewLines ↔ (j : Int) < n) := by
    intro j line hj
    obtain ⟨x, hx, rfl⟩ := viewLines_getElem?.mp hj
    constructor
    · intro hnot
      by_contra hge
      have hle : wireLine (g'.activeRow 0).id ≤ wireLine x := by
        have := wire_add_le hs hn hx
        omega
      exact hnot (mem_viewLines hs' hn' (hheld _ (List.mem_of_getElem? hj) hle) hle)
    · intro hlt hmem
      have hxj := hcount j (by omega)
      rw [hx] at hxj
      have hle := wire_top_le hs' hn' hmem
      have hwire : wireLine x ≤ (x : Int) := min_le_left _ _
      have hxe : x = (g.activeRow 0).id + j := Option.some.inj hxj
      rw [hxe] at hwire hle
      push_cast at hwire
      omega
  refine ⟨hleft, by simp, fun line hline => ?_⟩
  obtain ⟨j, hj⟩ := List.mem_iff_getElem?.mp hline
  obtain ⟨hjn, _⟩ := List.getElem?_eq_some_iff.mp hj
  have hjn' : j < n := by simp at hjn; omega
  rw [List.getElem?_take, if_pos hjn'] at hj
  exact (hleft j line hj).mpr (by omega)

include hs hs' hn he hdist in
/-- In an exact scroll every counted line stands above the new top. -/
theorem above_top_of_exact (hpos : 0 < n)
    (hleft : ∀ (j : Nat) (line : Int), g.viewLines[j]? = some line →
      (line ∉ g'.viewLines ↔ (j : Int) < n)) {j : Nat} {x : LineId}
    (hx : g.viewIds[j]? = some x) (hj : j < n) : wireLine x < wireLine (g'.activeRow 0).id := by
  by_contra hle
  have hnot := (hleft j _ (viewLines_getElem?.mpr ⟨x, hx, rfl⟩)).mpr (by omega)
  have htop : wireLine (g'.activeRow 0).id ∈ g'.viewLines :=
    List.mem_map_of_mem (Grid.top_mem hs')
  rcases lt_or_ge x (g'.activeRow 0).id with hlt | hge
  · -- The clamp: both are the greatest number there is.
    have heq : wireLine x = wireLine (g'.activeRow 0).id :=
      le_antisymm (wireLine_mono hlt.le) (not_lt.mp hle)
    exact hnot (heq ▸ htop)
  · have hfirst : (g.activeRow 0).id < (g'.activeRow 0).id := by
      by_contra hnlt
      have := wireLine_mono (not_lt.mp hnlt)
      omega
    have hmem := top_mem_of_le hs hs' hn he (List.mem_of_getElem? hx) hge hfirst
    obtain ⟨m, hm⟩ := List.mem_iff_getElem?.mp hmem
    have hmj := Ascending.index_le_of_le (g.viewIds_sorted hn) hm hx hge
    exact (hleft m _ (viewLines_getElem?.mpr ⟨_, hm, rfl⟩)).mpr (by omega) htop

include hs hs' hn he hdist in
/-- An exact scroll leaves no gap. -/
theorem gapless_of_exact (hpos : 0 < n) (hlt : n < g.viewLines.length)
    (hleft : ∀ (j : Nat) (line : Int), g.viewLines[j]? = some line →
      (line ∉ g'.viewLines ↔ (j : Int) < n)) :
    (∀ x, wireLine (g.activeRow 0).id ≤ x → x < wireLine (g'.activeRow 0).id →
      x ∈ g.viewLines) ∧
    ∀ x ∈ g.viewLines, wireLine (g'.activeRow 0).id ≤ x → x ∈ g'.heldLines := by
  have hfirst := wire_first_eq hdist hpos
  have hlen : g.viewIds.length = g.viewLines.length := by simp [Grid.viewLines]
  have habove {j : Nat} {x : LineId} (hx : g.viewIds[j]? = some x) (hj : j < n) :=
    above_top_of_exact hs hs' hn he hdist hpos hleft hx hj
  constructor
  · -- `n` lines rise by less than `n`, so they are counted off.
    obtain ⟨last, hlast⟩ : ∃ last, g.viewIds[n - 1]? = some last :=
      ⟨_, List.getElem?_eq_getElem (by omega)⟩
    have hlastlt := habove hlast (by omega)
    have hlasteq : wireLine last = last := wireLine_of_lt hlastlt (wireLine_le_max _)
    have hcount := Ascending.eq_add_of_lt (g.viewIds_sorted hn) (g.viewIds_zero hs) hlast
      (by rw [hlasteq] at hlastlt; rw [hfirst] at hdist; omega)
    intro x hle hx
    obtain ⟨k, rfl⟩ : ∃ k : Nat, x = wireLine (g.activeRow 0).id + k :=
      ⟨(x - wireLine (g.activeRow 0).id).toNat, by omega⟩
    refine List.mem_of_getElem? (viewLines_getElem?.mpr ⟨_, hcount k (by omega), ?_⟩)
    have hmax := wireLine_le_max (g'.activeRow 0).id
    rw [hfirst] at hx ⊢
    generalize (g.activeRow 0).id = first at *
    unfold wireLine
    push_cast
    omega
  · intro line hline hle
    obtain ⟨j, hj⟩ := List.mem_iff_getElem?.mp hline
    obtain ⟨x, hx, rfl⟩ := viewLines_getElem?.mp hj
    have hjn : n ≤ j := by
      by_contra hjn
      have := habove hx (by omega)
      omega
    have hmem : wireLine x ∈ g'.viewLines := by
      by_contra hnot
      have := (hleft j _ hj).mp hnot
      omega
    exact (List.drop_sublist g'.scrollbackLen g'.ids).map wireLine |>.subset hmem

end Viewports

/-! ## The scroll of a delta -/

namespace Encoder

variable (e : Encoder) (grid : Grid) (cursor : CursorState) (modes : Modes) (title : Str)
  (blocks : BlockIndex)

/-- Whether an op scrolls or files history. -/
def movesLines : DeltaOp → Bool
  | .scroll .. => true
  | .sbPush _ => true
  | _ => false

theorem movesLines_outside (op : DeltaOp) (seen fresh : List RowPayload)
    (h : op ∈ switchOps e.modes modes ∨ op ∈ rowOps seen fresh ∨ op ∈ closingOps e cursor title) :
    movesLines op = false := by
  rcases h with h | h | h
  · rcases List.mem_append.mp h with h | h
    · split at h
      · rw [List.mem_singleton.mp h]; rfl
      · simp at h
    · split at h
      · rw [List.mem_singleton.mp h]; rfl
      · simp at h
  · rw [rowOps_eq] at h
    obtain ⟨p, _, rfl⟩ := List.mem_map.mp h
    rfl
  · rcases List.mem_append.mp h with h | h
    · split at h
      · rw [List.mem_singleton.mp h]; rfl
      · simp at h
    · split at h
      · rw [List.mem_singleton.mp h]; rfl
      · simp at h

/-- An op that moves lines is one of the scroll's. -/
theorem mem_scrolledOps {op : DeltaOp} (hop : movesLines op = true) :
    op ∈ (e.delta grid cursor modes title blocks).1.ops ↔ op ∈ scrolledOps e.seen grid := by
  rw [ops_delta]
  simp only [List.mem_append]
  constructor
  · rintro (((h | h) | h) | h)
    · rw [movesLines_outside e cursor modes title op [] [] (Or.inl h)] at hop; simp at hop
    · exact h
    · rw [movesLines_outside e cursor modes title op _ _ (Or.inr (Or.inl h))] at hop; simp at hop
    · rw [movesLines_outside e cursor modes title op [] [] (Or.inr (Or.inr h))] at hop; simp at hop
  · exact fun h => Or.inl (Or.inl (Or.inr h))

theorem pushedLines_delta :
    (e.delta grid cursor modes title blocks).1.pushedLines =
      match scrollDistance e.seen grid with
      | some n => (e.seen.map RowPayload.line).take n
      | none => [] := by
  have hnone (ops : List DeltaOp) (h : ∀ op ∈ ops, movesLines op = false) :
      ops.filterMap DeltaOp.pushed = [] := by
    rw [List.filterMap_eq_nil_iff]
    intro op hop
    have := h op hop
    cases op <;> first | rfl | simp [movesLines] at this
  unfold Delta.pushedLines
  rw [ops_delta, List.filterMap_append, List.filterMap_append, List.filterMap_append,
    hnone _ fun op h => movesLines_outside e cursor modes title op [] [] (Or.inl h),
    hnone _ fun op h => movesLines_outside e cursor modes title op _ _ (Or.inr (Or.inl h)),
    hnone _ fun op h => movesLines_outside e cursor modes title op [] [] (Or.inr (Or.inr h))]
  unfold scrolledOps
  cases scrollDistance e.seen grid with
  | none => rfl
  | some n =>
    have hpush (rows : List RowPayload) :
        (rows.map DeltaOp.sbPush).filterMap DeltaOp.pushed = rows := by
      rw [List.filterMap_map]
      exact List.filterMap_some
    simp only [scrollOps, List.nil_append, List.append_nil]
    rw [List.filterMap_cons_none rfl, hpush, List.map_take]

/-- The scroll of a delta names its distance. -/
theorem scroll_mem_delta {top bottom : Nat} {k : Int} :
    .scroll top bottom k ∈ (e.delta grid cursor modes title blocks).1.ops ↔
      ∃ n, scrollDistance e.seen grid = some n ∧ top = 0 ∧
        bottom = wireU16 (e.seen.length - 1) ∧ k = wireI16 n := by
  rw [mem_scrolledOps e grid cursor modes title blocks rfl]
  unfold scrolledOps
  cases scrollDistance e.seen grid with
  | none => simp
  | some n =>
    simp only [scrollOps, List.mem_cons, DeltaOp.scroll.injEq, List.mem_map, reduceCtorEq, and_false,
      exists_false, or_false, Option.some.injEq, exists_eq_left']

theorem scrollDistance_eq_none {seen : List RowPayload} {grid : Grid} {first : RowPayload}
    (hfirst : seen.head? = some first) (h : scrollDistance seen grid = none) :
    wireLine (grid.activeRow 0).id ≤ first.line ∨
      seen.length ≤ wireLine (grid.activeRow 0).id - first.line := by
  unfold scrollDistance at h
  rw [hfirst] at h
  dsimp only at h
  split at h
  · simp at h
  · next hmoved => omega

end Encoder

/-- A look leaves the shadow naming the lines it saw. -/
theorem Terminal.Encodes.lines {vt : Vt} {t : Terminal vt} {e e' : Encoder} (h : t.Encodes e e')
    (hs : t.state.activeGrid.Shape) :
    e'.seen.map RowPayload.line = t.state.activeGrid.viewLines := by
  rcases h with rfl | rfl
  · exact (Encoder.lines_encodeRows _ _).trans (Grid.map_activeRows _ hs)
  · exact (Encoder.lines_encodeRows _ _).trans (Grid.map_activeRows _ hs)

/-- **When a scroll says what happened.** Between two looks at the primary
screen, whatever the host printed and however its height changed, the
scroll of the second look is exact if and only if the ids have no gap
where the distance counts them. -/
theorem scroll_exact_iff {vt : Vt} (t t' : Terminal vt) (e e' : Encoder) (ht : t.Reachable)
    (hlook : t.Encodes e e') (hrun : Terminal.Runs (fun u c => c.KeepsWidth u) t t') (hprimary : t.state.altGrid = none)
    (hprimary' : t'.state.altGrid = none) :
    (∀ top bottom k, .scroll top bottom k ∈ (t'.delta e').1.ops →
      ScrollExact t.state.grid.viewLines t'.state.grid.viewLines (t'.delta e').1.pushedLines k) ↔
    Gapless t.state.grid.viewLines (wireLine (t.state.grid.activeRow 0).id)
      (wireLine (t'.state.grid.activeRow 0).id) t'.state.grid.heldLines := by
  obtain ⟨_, _, hs⟩ := ht.sound
  obtain ⟨⟨_, _, hs'⟩, he⟩ := hrun.numbers hs
  have hactive : t.state.activeGrid = t.state.grid := by
    simp [TermState.activeGrid, hprimary]
  have hactive' : t'.state.activeGrid = t'.state.grid := by
    simp [TermState.activeGrid, hprimary']
  have hlines : e'.seen.map RowPayload.line = t.state.grid.viewLines :=
    hactive ▸ hlook.lines hs.active.shape
  have hlen : e'.seen.length = t.state.grid.viewLines.length := by
    rw [← hlines, List.length_map]
  obtain ⟨first, hfirst, hline⟩ : ∃ first, e'.seen.head? = some first ∧
      first.line = wireLine (t.state.grid.activeRow 0).id := by
    have hzero : t.state.grid.viewLines[0]? = some (wireLine (t.state.grid.activeRow 0).id) :=
      viewLines_getElem?.mpr ⟨_, Grid.viewIds_zero _ hs.primary.shape, rfl⟩
    rw [← hlines, List.getElem?_map] at hzero
    obtain ⟨p, hp, hpl⟩ := Option.map_eq_some_iff.mp hzero
    exact ⟨p, by rw [List.head?_eq_getElem?]; exact hp, hpl⟩
  unfold Terminal.delta
  rw [Encoder.pushedLines_delta, hlines, hactive']
  simp only [Encoder.scroll_mem_delta]
  cases hmoved : Encoder.scrollDistance e'.seen t'.state.grid with
  | none =>
    have hno := Encoder.scrollDistance_eq_none hfirst hmoved
    rw [hline] at hno
    refine iff_of_true (by simp) ?_
    rcases hno with h | h
    · exact Or.inl h
    · exact Or.inr (Or.inl (hlen ▸ h))
  | some n =>
    obtain ⟨hpos, hlt, first', hfirst', hdist⟩ := Encoder.scrollDistance_eq_some hmoved
    rw [hfirst] at hfirst'
    rw [← Option.some.inj hfirst', hline] at hdist
    rw [hlen] at hlt
    constructor
    · intro h
      have hexact := h 0 _ (wireI16 n) ⟨n, rfl, rfl, rfl, rfl⟩
      dsimp only at hexact
      have hfits : (n : Int) ≤ 32767 := by
        by_contra hbig
        have hk : wireI16 n = 32767 := by unfold wireI16; rw [if_pos (by omega)]
        have := congrArg List.length hexact.pushes
        rw [hk, List.length_take, List.length_take] at this
        have h32 : (32767 : Int).toNat = 32767 := rfl
        omega
      have hk : wireI16 n = n := by unfold wireI16; rw [if_neg (by omega)]
      rw [hk] at hexact
      obtain ⟨hgap, hheld⟩ := gapless_of_exact hs.primary.shape hs'.primary.shape
        hs.primary.numbered he hdist hpos hlt hexact.left
      exact Or.inr (Or.inr ⟨by omega, hgap, hheld⟩)
    · rintro (h | h | ⟨hfits, hgap, hheld⟩) top bottom k ⟨m, hm, _, _, rfl⟩
      · omega
      · omega
      · obtain rfl := Option.some.inj hm
        have hk : wireI16 n = n := by unfold wireI16; rw [if_neg (by omega)]
        rw [hk]
        exact scrollExact_of_gapless hs.primary.shape hs'.primary.shape hs.primary.numbered
          hs'.primary.numbered hdist hpos hgap hheld

/-- Two rows, shrunk to one and grown to three: lines 0, 2 and 3. -/
def gapHost : Terminal asciiVt := ((Terminal.new asciiVt 4 2 10).resize 4 1).resize 4 3

/-- The same host after three newlines. -/
def gapScrolled : Terminal asciiVt := gapHost.advance [0x0d, 0x0a, 0x0d, 0x0a, 0x0d, 0x0a]

theorem gapHost_reachable : gapHost.Reachable :=
  ((Terminal.Reachable.new 4 2 10).call (.resize 4 1)).call (.resize 4 3)

/-- The scroll across a gap: line 1 never came back, so the distance is
two where one row left, and line 2 is pushed while it is on the screen. -/
theorem scroll_not_exact :
    gapHost.Reachable ∧ Terminal.Runs (fun u c => c.KeepsWidth u) gapHost gapScrolled ∧
      gapHost.Encodes Encoder.new (gapHost.keyframe Encoder.new).2 ∧
      gapHost.state.altGrid = none ∧ gapScrolled.state.altGrid = none ∧
      .scroll 0 2 2 ∈ (gapScrolled.delta (gapHost.keyframe Encoder.new).2).1.ops ∧
      ¬ ScrollExact gapHost.state.grid.viewLines gapScrolled.state.grid.viewLines
        (gapScrolled.delta (gapHost.keyframe Encoder.new).2).1.pushedLines 2 := by
  refine ⟨gapHost_reachable, Terminal.Runs.call (.advance _) trivial Terminal.Runs.refl, Or.inl rfl, rfl, rfl, by decide, ?_⟩
  intro h
  exact h.gone 2 (by decide) (by decide)

/-- Three rows that were never shrunk, and the same newlines. -/
def plainHost : Terminal asciiVt := Terminal.new asciiVt 4 3 10

def plainScrolled : Terminal asciiVt := plainHost.advance [0x0d, 0x0a, 0x0d, 0x0a, 0x0d, 0x0a]

theorem gapless_plain :
    Gapless plainHost.state.grid.viewLines (wireLine (plainHost.state.grid.activeRow 0).id)
      (wireLine (plainScrolled.state.grid.activeRow 0).id) plainScrolled.state.grid.heldLines := by
  have htop : wireLine (plainScrolled.state.grid.activeRow 0).id = 1 := by decide
  have hold : wireLine (plainHost.state.grid.activeRow 0).id = 0 := by decide
  have hview : plainHost.state.grid.viewLines = [0, 1, 2] := by decide
  have hheld : plainScrolled.state.grid.heldLines = [0, 1, 2, 3] := by decide
  rw [htop, hold, hview, hheld]
  refine Or.inr (Or.inr ⟨by decide, fun x h₁ h₂ => ?_, by decide⟩)
  obtain rfl : x = 0 := by omega
  decide

theorem scroll_exact_plain :
    .scroll 0 2 1 ∈ (plainScrolled.delta (plainHost.keyframe Encoder.new).2).1.ops ∧
      ScrollExact plainHost.state.grid.viewLines plainScrolled.state.grid.viewLines
        (plainScrolled.delta (plainHost.keyframe Encoder.new).2).1.pushedLines 1 := by
  have hmem : .scroll 0 2 1 ∈ (plainScrolled.delta (plainHost.keyframe Encoder.new).2).1.ops := by
    decide
  exact ⟨hmem, (scroll_exact_iff plainHost plainScrolled Encoder.new _
    (Terminal.Reachable.new 4 3 10) (Or.inl rfl)
    (Terminal.Runs.call (.advance _) trivial Terminal.Runs.refl) rfl rfl).mpr
      gapless_plain 0 2 1 hmem⟩

end Zesterm
