/-
Zesterm.Core.FloorTheorems — what the floor of a block index says of the
blocks that left by eviction.

`IndexRun` is an index with the ids of the blocks it has evicted since the
last history clear. `Cleared` is what the floor is for: it stands above
every one of them, so that a client told to drop its blocks from the floor
up keeps them. The floor never stands above a block still held
(`Floored`), and from that `step_cleared_iff` reads off, for each operation,
exactly when the floor stays above what was evicted. `run_cleared_iff` is
what follows for a whole run.
-/
import Zesterm.Core.BlockTheorems
import Zesterm.Core.TerminalTheorems
import Zesterm.Core.AsciiVt
import Zesterm.Lib.Ascending

namespace Zesterm

/-! ## Runs of an index -/

/-- An index, and the blocks that left it by eviction and by no history
clear since. -/
structure IndexRun where
  index : BlockIndex := {}
  evicted : List BlockId := []

namespace IndexRun

def step (r : IndexRun) (op : IndexOp) : IndexRun :=
  let index := op.apply r.index
  { index := index
    evicted :=
      match op with
      | .clearHistory _ => []
      | op => if op.evicts then r.evicted ++ r.index.ids.filter (!index.ids.contains ·)
        else r.evicted }

def run (ops : List IndexOp) : IndexRun := ops.foldl step {}

/-- The floor stands above every evicted block. -/
def Cleared (r : IndexRun) : Prop := ∀ id ∈ r.evicted, id < r.index.authoritativeFrom

/-! ## When the floor stays above what was evicted -/

/-- A block that goes when scrollback starts at `oldest`. -/
def Goes (oldest : LineId) (b : Block) : Prop := ∃ stop, b.endLine = some stop ∧ stop < oldest

/-- What an operation must meet for the floor to stay above every evicted
block: an eviction takes no block that stands after one it leaves, a rewrap
takes none, and a screen clear after an eviction leaves a block. -/
def KeepsFloor (r : IndexRun) : IndexOp → Prop
  | .evictBefore oldest => ∀ b ∈ r.index.blocks, Goes oldest b →
      ∀ b' ∈ r.index.blocks, b'.id < b.id → Goes oldest b'
  | .reanchor reindex => (r.index.reanchor reindex).ids = r.index.ids
  | .clearScreen first => r.evicted ≠ [] → r.index.blocks ≠ [] →
      ∃ b ∈ r.index.blocks, ∃ stop, b.endLine = some stop ∧ stop < first
  | _ => True

end IndexRun

/-! ## What the floor never passes -/

namespace BlockIndex

variable {x : BlockIndex}

/-- Ids ascend below the counter, and the floor stands above none of
them. -/
structure Floored (x : BlockIndex) : Prop where
  numbered : Ledger.Numbered x.ids x.nextId
  floor_le : ∀ id ∈ x.ids, x.authoritativeFrom ≤ id
  floor_le_next : x.authoritativeFrom ≤ x.nextId

theorem floored_empty : ({} : BlockIndex).Floored :=
  ⟨⟨List.Pairwise.nil, by simp [ids]⟩, by simp [ids], Nat.le_refl _⟩

/-- The newest block has the greatest id. -/
theorem Floored.le_newest (h : x.Floored) {newest b : Block} (hn : x.last = some newest)
    (hb : b ∈ x.blocks) : b.id ≤ newest.id := by
  obtain ⟨l, hl⟩ := List.getLast?_eq_some_iff.mp hn
  have hsorted := h.numbered.sorted
  unfold ids at hsorted
  rw [hl, List.map_append, List.pairwise_append] at hsorted
  rw [hl] at hb
  rcases List.mem_append.mp hb with hb | hb
  · exact (hsorted.2.2 b.id (List.mem_map_of_mem hb) newest.id (by simp)).le
  · rw [List.mem_singleton.mp hb]

theorem Floored.of_frame {x' : BlockIndex} (h : x.Floored) (hids : x'.ids = x.ids)
    (hn : x'.nextId = x.nextId) (hf : x'.authoritativeFrom = x.authoritativeFrom) : x'.Floored := by
  refine ⟨?_, ?_, ?_⟩
  · rw [hids, hn]
    exact h.numbered
  · rw [hids, hf]
    exact h.floor_le
  · rw [hf, hn]
    exact h.floor_le_next

/-- Blocks that go, under a floor that does not rise. -/
theorem Floored.of_sublist {x' : BlockIndex} (h : x.Floored) (hsub : x'.ids.Sublist x.ids)
    (hn : x'.nextId = x.nextId) (hf : x'.authoritativeFrom ≤ x.authoritativeFrom) : x'.Floored := by
  refine ⟨?_, fun id hid => hf.trans (h.floor_le id (hsub.subset hid)), ?_⟩
  · rw [hn]
    exact (Ledger.Evolves.of_sublist hsub).numbered h.numbered
  · rw [hn]
    exact hf.trans h.floor_le_next

theorem Floored.modifyLast (h : x.Floored) (f : Block → Block) (hid : ∀ b, (f b).id = b.id) :
    (x.modifyLast f).Floored :=
  h.of_frame (ids_modifyLast x f hid) rfl rfl

theorem Floored.beginPrompt (h : x.Floored) (line : LineId) (cwd : Str) :
    (x.beginPrompt line cwd).Floored := by
  have hfresh : ({ x with
      blocks := x.blocks ++ [{ id := x.nextId, promptLine := line, cwd := cwd }]
      nextId := x.nextId + 1 } : BlockIndex).Floored := by
    refine ⟨?_, fun id hid => ?_, h.floor_le_next.trans (Nat.le_succ _)⟩
    · unfold ids
      rw [List.map_append]
      exact (Ledger.Evolves.append (Nat.le_succ _) (List.pairwise_singleton _ _)
        (by simp)).numbered h.numbered
    · simp only [ids, List.map_append, List.map_cons, List.map_nil, List.mem_append,
        List.mem_singleton] at hid
      rcases hid with hid | rfl
      · exact h.floor_le id hid
      · exact h.floor_le_next
  unfold BlockIndex.beginPrompt
  dsimp only
  split
  · split
    · exact h.modifyLast _ fun _ => rfl
    · exact hfresh
  · exact hfresh

/-- An eviction raises the floor to the oldest block it leaves. -/
theorem evictBefore_floor_some (h : x.Floored) (oldest : LineId) {first : Block}
    (hf : (x.evictBefore oldest).blocks.head? = some first) :
    (x.evictBefore oldest).authoritativeFrom = first.id := by
  have hmem : first ∈ x.blocks :=
    (evictBefore_sublist x oldest).1.subset (List.mem_of_head? hf)
  have hle := h.floor_le first.id (List.mem_map_of_mem hmem)
  unfold evictBefore at hf ⊢
  cases hn : x.last with
  | none => simp [List.getLast?_eq_none_iff.mp hn] at hmem
  | some newest =>
    rw [hn] at hf
    dsimp only at hf ⊢
    rw [hf]
    exact max_eq_right hle

/-- An eviction that leaves none raises the floor past the newest. -/
theorem evictBefore_floor_none (h : x.Floored) (oldest : LineId) {newest : Block}
    (hn : x.last = some newest) (hf : (x.evictBefore oldest).blocks.head? = none) :
    (x.evictBefore oldest).authoritativeFrom = newest.id + 1 := by
  have hle := h.floor_le newest.id (List.mem_map_of_mem (mem_of_last hn))
  unfold evictBefore at hf ⊢
  rw [hn] at hf ⊢
  dsimp only at hf ⊢
  rw [hf]
  exact max_eq_right (hle.trans (Nat.le_succ _))

theorem Floored.evictBefore (h : x.Floored) (oldest : LineId) : (x.evictBefore oldest).Floored := by
  obtain ⟨hsub, hnext⟩ := evictBefore_sublist x oldest
  cases hn : x.last with
  | none =>
    have : x.evictBefore oldest = x := by
      unfold BlockIndex.evictBefore
      rw [hn]
    rwa [this]
  | some newest =>
    have hnum : Ledger.Numbered (x.evictBefore oldest).ids (x.evictBefore oldest).nextId := by
      rw [hnext]
      exact (Ledger.Evolves.of_sublist (hsub.map Block.id)).numbered h.numbered
    cases hhead : (x.evictBefore oldest).blocks.head? with
    | none =>
      refine ⟨hnum, ?_, ?_⟩
      · simp [ids, List.head?_eq_none_iff.mp hhead]
      · rw [evictBefore_floor_none h oldest hn hhead, hnext]
        exact h.numbered.below _ (List.mem_map_of_mem (mem_of_last hn))
    | some b =>
      have hfloor := evictBefore_floor_some h oldest hhead
      have hb : (x.evictBefore oldest).ids.head? = some b.id := by
        simp [ids, List.head?_map, hhead]
      refine ⟨hnum, fun id hid => ?_, ?_⟩
      · rw [hfloor]
        exact Ascending.head_le hnum.sorted hb hid
      · rw [hfloor]
        exact (hnum.below _ (List.mem_of_head? hb)).le

/-- A clear does not raise the floor. -/
theorem eraseScreen_floor_le (x : BlockIndex) (first : LineId) :
    (x.eraseScreen first).authoritativeFrom ≤ x.authoritativeFrom := by
  unfold eraseScreen
  dsimp only
  split
  · exact Nat.le_refl _
  · exact min_le_left _ _

/-- What a clear leaves unchanged, or the floor below its last survivor. -/
theorem eraseScreen_floor_some {first : LineId} {b : Block}
    (hlast : (x.eraseScreen first).last = some b) :
    x.eraseScreen first = x ∨
      (x.eraseScreen first).authoritativeFrom = min x.authoritativeFrom (b.id + 1) := by
  unfold eraseScreen at hlast ⊢
  dsimp only at hlast ⊢
  split at hlast
  · next hlen =>
    rw [if_pos hlen, List.filter_sublist.eq_of_length hlen]
    exact Or.inl rfl
  · next hlen =>
    rw [if_neg hlen]
    simp only [BlockIndex.last] at hlast
    rw [hlast]
    exact Or.inr rfl

/-- A clear that takes every block drops the floor to zero. -/
theorem eraseScreen_floor_none {first : LineId} (hne : x.blocks ≠ [])
    (hnone : (x.eraseScreen first).blocks = []) : (x.eraseScreen first).authoritativeFrom = 0 := by
  unfold eraseScreen at hnone ⊢
  dsimp only at hnone ⊢
  split at hnone
  · next hlen =>
    rw [show List.filter _ _ = [] from hnone] at hlen
    exact absurd (List.length_eq_zero_iff.mp hlen.symm) hne
  · next hlen =>
    rw [if_neg hlen, show List.filter _ _ = [] from hnone]
    exact min_eq_right (Nat.zero_le _)

theorem Floored.eraseScreen (h : x.Floored) (first : LineId) : (x.eraseScreen first).Floored := by
  obtain ⟨hsub, hn⟩ := eraseScreen_sublist x first
  exact h.of_sublist (hsub.map Block.id) hn (eraseScreen_floor_le x first)

theorem Floored.reanchor (h : x.Floored) (reindex : Reindex) : (x.reanchor reindex).Floored := by
  obtain ⟨hsub, hn⟩ := ids_reanchor_sublist x reindex
  refine h.of_sublist hsub hn ?_
  unfold BlockIndex.reanchor
  split <;> exact Nat.le_refl _

/-- Every operation leaves the floor at or below every block held. -/
theorem Floored.apply (h : x.Floored) (op : IndexOp) : (op.apply x).Floored := by
  cases op with
  | beginPrompt line cwd => exact h.beginPrompt line cwd
  | beginOutput line command nowMs author => exact h.modifyLast _ fun _ => rfl
  | finish line exitCode nowMs =>
    refine h.modifyLast _ fun b => ?_
    split <;> rfl
  | setContext id context =>
    exact h.of_frame (ids_setContext x id context) rfl rfl
  | evictBefore oldest => exact h.evictBefore oldest
  | reanchor reindex => exact h.reanchor reindex
  | clearScreen first => exact h.eraseScreen first
  | clearHistory first =>
    cases first with
    | none => exact h.eraseScreen 0
    | some first => exact (h.eraseScreen first).eraseScreen 0

end BlockIndex

/-! ## One operation -/

namespace IndexRun

variable {r : IndexRun}

/-- A block an eviction took, or left. -/
theorem mem_evictBefore {x : BlockIndex} {oldest : LineId} {b : Block} :
    b ∈ (x.evictBefore oldest).blocks ↔ b ∈ x.blocks ∧ ¬ Goes oldest b := by
  have hgoes : (b.endLine.all fun stop => decide (oldest ≤ stop)) = true ↔ ¬ Goes oldest b := by
    unfold Goes
    cases b.endLine with
    | none => simp
    | some stop => simp
  unfold BlockIndex.evictBefore
  cases hn : x.last with
  | none => simp [List.getLast?_eq_none_iff.mp hn]
  | some newest => simp only [List.mem_filter, hgoes]

/-- The ids an operation took. -/
def lost (r : IndexRun) (op : IndexOp) : List BlockId :=
  r.index.ids.filter (!(op.apply r.index).ids.contains ·)

theorem mem_lost {op : IndexOp} {id : BlockId} :
    id ∈ r.lost op ↔ id ∈ r.index.ids ∧ id ∉ (op.apply r.index).ids := by
  simp [lost]

/-- An eviction keeps the floor above what left before it. -/
theorem floor_le_evictBefore (x : BlockIndex) (oldest : LineId) :
    x.authoritativeFrom ≤ (x.evictBefore oldest).authoritativeFrom := by
  unfold BlockIndex.evictBefore
  split
  · exact Nat.le_refl _
  · exact le_max_left _ _

/-- The floor stands above the blocks an eviction took just when it took
none that stands after one it left. -/
theorem evictBefore_cleared_iff (h : r.index.Floored) (oldest : LineId) :
    (∀ id ∈ r.lost (.evictBefore oldest), id < (r.index.evictBefore oldest).authoritativeFrom) ↔
      KeepsFloor r (.evictBefore oldest) := by
  cases hn : r.index.last with
  | none =>
    have hempty : r.index.blocks = [] := List.getLast?_eq_none_iff.mp hn
    simp [KeepsFloor, lost, BlockIndex.ids, hempty]
  | some newest =>
    have hlost {b : Block} (hb : b ∈ r.index.blocks) (hg : Goes oldest b) :
        b.id ∈ r.lost (.evictBefore oldest) := by
      refine mem_lost.mpr ⟨List.mem_map_of_mem hb, fun hmem => ?_⟩
      obtain ⟨b', hb', hid⟩ := List.mem_map.mp hmem
      obtain ⟨hold, hkept⟩ := mem_evictBefore.mp hb'
      rw [BlockIndex.eq_of_id_eq h.numbered.sorted hb hold hid] at hkept
      exact hkept hg
    constructor
    · intro hall b hb hg b' hb' hlt
      by_contra hkept
      -- The oldest block left stands at or before `b'`, so the floor does.
      have hmem : b' ∈ (r.index.evictBefore oldest).blocks := mem_evictBefore.mpr ⟨hb', hkept⟩
      have hle := (h.evictBefore oldest).floor_le b'.id (List.mem_map_of_mem hmem)
      exact absurd (hall b.id (hlost hb hg)) (not_lt.mpr (hle.trans hlt.le))
    · intro hkeeps id hid
      obtain ⟨hheld, hgone⟩ := mem_lost.mp hid
      obtain ⟨b, hb, rfl⟩ := List.mem_map.mp hheld
      have hg : Goes oldest b := by
        by_contra hkept
        exact hgone (List.mem_map_of_mem (mem_evictBefore.mpr ⟨hb, hkept⟩))
      cases hhead : (r.index.evictBefore oldest).blocks.head? with
      | none =>
        rw [BlockIndex.evictBefore_floor_none h oldest hn hhead]
        exact Nat.lt_succ_of_le (h.le_newest hn hb)
      | some first =>
        rw [BlockIndex.evictBefore_floor_some h oldest hhead]
        obtain ⟨hfirst, hkept⟩ := mem_evictBefore.mp (List.mem_of_head? hhead)
        by_contra hle
        rcases Nat.lt_or_eq_of_le (not_lt.mp hle) with hlt | heq
        · exact hkept (hkeeps b hb hg first hfirst hlt)
        · rw [BlockIndex.eq_of_id_eq h.numbered.sorted hb hfirst heq] at hkept
          exact hkept hg

/-- A clear leaves the floor above what was evicted just when it took
nothing, or left a block, or nothing was evicted. -/
theorem clearScreen_cleared_iff (h : r.index.Floored) (hc : r.Cleared) (first : LineId) :
    (∀ id ∈ r.evicted, id < (r.index.eraseScreen first).authoritativeFrom) ↔
      KeepsFloor r (.clearScreen first) := by
  have hkept {b : Block} : b ∈ (r.index.eraseScreen first).blocks ↔
      b ∈ r.index.blocks ∧ ∃ stop, b.endLine = some stop ∧ stop < first := by
    have hany : (b.endLine.any fun stop => decide (stop < first)) = true ↔
        ∃ stop, b.endLine = some stop ∧ stop < first := by
      cases b.endLine with
      | none => simp
      | some stop => simp
    rw [BlockIndex.blocks_eraseScreen, List.mem_filter, hany]
  cases hlast : (r.index.eraseScreen first).last with
  | some b =>
    -- A block is left, so the floor falls no lower than it.
    have hb := hkept.mp (BlockIndex.mem_of_last hlast)
    have hge : r.index.authoritativeFrom ≤ (r.index.eraseScreen first).authoritativeFrom := by
      rcases BlockIndex.eraseScreen_floor_some hlast with hsame | hmin
      · rw [hsame]
      · rw [hmin]
        exact le_min (le_refl _)
          ((h.floor_le b.id (List.mem_map_of_mem hb.1)).trans (Nat.le_succ _))
    exact iff_of_true (fun id hid => lt_of_lt_of_le (hc id hid) hge) fun _ _ => ⟨b, hb⟩
  | none =>
    have hnil : (r.index.eraseScreen first).blocks = [] := List.getLast?_eq_none_iff.mp hlast
    have hnone : ∀ b ∈ r.index.blocks, ¬ ∃ stop, b.endLine = some stop ∧ stop < first := by
      intro b hb hstop
      have hmem := hkept.mpr ⟨hb, hstop⟩
      rw [hnil] at hmem
      simp at hmem
    constructor
    · intro hall hev hne
      obtain ⟨id, hid⟩ := List.exists_mem_of_ne_nil _ hev
      have := hall id hid
      rw [BlockIndex.eraseScreen_floor_none hne hnil] at this
      exact absurd this (Nat.not_lt_zero _)
    · intro hkeeps id hid
      by_cases hne : r.index.blocks = []
      · -- Nothing was held, so nothing goes and the floor stays.
        have hsame : (r.index.eraseScreen first).authoritativeFrom =
            r.index.authoritativeFrom := by
          unfold BlockIndex.eraseScreen
          simp [hne]
        rw [hsame]
        exact hc id hid
      · obtain ⟨b, hb, hstop⟩ := hkeeps (List.ne_nil_of_mem hid) hne
        exact absurd hstop (hnone b hb)

/-- A rewrap leaves the floor where it was, below whatever it drops. -/
theorem reanchor_cleared_iff (h : r.index.Floored) (reindex : Reindex) :
    (∀ id ∈ r.lost (.reanchor reindex), id < r.index.authoritativeFrom) ↔
      KeepsFloor r (.reanchor reindex) := by
  have hsub := (BlockIndex.ids_reanchor_sublist r.index reindex).1
  constructor
  · intro hall
    refine hsub.eq_of_length_le ?_
    have hmem : ∀ id ∈ r.index.ids, id ∈ (r.index.reanchor reindex).ids := by
      intro id hid
      by_contra hgone
      exact absurd (h.floor_le id hid) (not_le.mpr (hall id (mem_lost.mpr ⟨hid, hgone⟩)))
    exact (List.subperm_of_subset (h.numbered.sorted.imp ne_of_lt) hmem).length_le
  · intro hsame id hid
    obtain ⟨hheld, hgone⟩ := mem_lost.mp hid
    exact absurd (hsame ▸ hheld) hgone

/-- What one operation must meet, and no more. -/
theorem step_cleared_iff (h : r.index.Floored) (hc : r.Cleared) (op : IndexOp) :
    (r.step op).Cleared ↔ KeepsFloor r op := by
  have hkeep (hev : (r.step op).evicted = r.evicted)
      (hf : (r.step op).index.authoritativeFrom = r.index.authoritativeFrom)
      (ht : KeepsFloor r op = True) : (r.step op).Cleared ↔ KeepsFloor r op := by
    rw [ht, iff_true]
    intro id hid
    rw [hev] at hid
    rw [hf]
    exact hc id hid
  cases op with
  | beginPrompt line cwd =>
    refine hkeep rfl ?_ rfl
    show (r.index.beginPrompt line cwd).authoritativeFrom = _
    unfold BlockIndex.beginPrompt
    dsimp only
    split
    · split <;> rfl
    · rfl
  | beginOutput | finish | setContext => exact hkeep rfl rfl rfl
  | evictBefore oldest =>
    rw [← evictBefore_cleared_iff h oldest]
    show (∀ id ∈ r.evicted ++ r.lost (.evictBefore oldest), _) ↔ _
    simp only [List.mem_append]
    constructor
    · exact fun hall id hid => hall id (Or.inr hid)
    · rintro hall id (hid | hid)
      · exact lt_of_lt_of_le (hc id hid) (floor_le_evictBefore r.index oldest)
      · exact hall id hid
  | reanchor reindex =>
    have hfloor : (r.index.reanchor reindex).authoritativeFrom = r.index.authoritativeFrom := by
      unfold BlockIndex.reanchor
      split <;> rfl
    rw [← reanchor_cleared_iff h reindex]
    show (∀ id ∈ r.evicted ++ r.lost (.reanchor reindex),
      id < (r.index.reanchor reindex).authoritativeFrom) ↔ _
    rw [hfloor]
    simp only [List.mem_append]
    constructor
    · exact fun hall id hid => hall id (Or.inr hid)
    · rintro hall id (hid | hid)
      · exact hc id hid
      · exact hall id hid
  | clearScreen first => exact clearScreen_cleared_iff h hc first
  | clearHistory first => exact iff_of_true (fun id hid => by simp [step] at hid) trivial

/-! ## A whole run -/

theorem floored_run (ops : List IndexOp) : (run ops).index.Floored := by
  induction ops using List.reverseRecOn with
  | nil => exact BlockIndex.floored_empty
  | append_singleton ops op ih =>
    unfold run at ih ⊢
    rw [List.foldl_append]
    exact ih.apply op

theorem run_succ (ops : List IndexOp) {n : Nat} {op : IndexOp} (h : ops[n]? = some op) :
    run (ops.take (n + 1)) = (run (ops.take n)).step op := by
  unfold run
  rw [List.take_add_one, h, List.foldl_append]
  rfl

/-- A client told to drop its blocks from the floor up keeps what was
evicted, whatever it holds, just when the floor is clear of it. -/
theorem cleared_iff_retained (r : IndexRun) : r.Cleared ↔ ∀ client : BlockIndex,
    ∀ b ∈ client.blocks, b.id ∈ r.evicted →
      b ∈ (client.retainBelow r.index.authoritativeFrom).blocks := by
  constructor
  · intro hc client b hb hid
    exact List.mem_filter.mpr ⟨hb, decide_eq_true (hc b.id hid)⟩
  · intro h id hid
    have := h { blocks := [{ (default : Block) with id := id }] } _ (List.mem_singleton.mpr rfl) hid
    simpa [BlockIndex.retainBelow] using this

/-- The floor stands above every evicted block all along a run, and a
client keeps them, exactly when every operation of the run leaves it so. -/
theorem run_cleared_iff (ops : List IndexOp) :
    ((∀ n, (run (ops.take n)).Cleared) ↔
      ∀ n op, ops[n]? = some op → KeepsFloor (run (ops.take n)) op) ∧
    ∀ n, (run (ops.take n)).Cleared → ∀ client : BlockIndex, ∀ b ∈ client.blocks,
      b.id ∈ (run (ops.take n)).evicted →
        b ∈ (client.retainBelow (run (ops.take n)).index.authoritativeFrom).blocks := by
  refine ⟨⟨fun hall n op hop => ?_, fun hkeeps n => ?_⟩, fun n => (cleared_iff_retained _).mp⟩
  · have hnext := hall (n + 1)
    rw [run_succ ops hop] at hnext
    exact (step_cleared_iff (floored_run _) (hall n) op).mp hnext
  · induction n with
    | zero => exact fun id hid => by simp [run] at hid
    | succ n ih =>
      cases hop : ops[n]? with
      | none =>
        rw [List.take_add_one, hop]
        simpa using ih
      | some op =>
        rw [run_succ ops hop]
        exact (step_cleared_iff (floored_run _) ih op).mpr (hkeeps n op hop)

/-- The oldest block evicted from above an open one leaves the floor clear
of it. -/
theorem run_cleared_evicted : ∀ n, (run (([.beginPrompt 0 [], .finish 0 none none,
    .beginPrompt 1 [], .evictBefore 1] : List IndexOp).take n)).Cleared := by
  refine (run_cleared_iff _).1.mpr fun n op hop => ?_
  match n with
  | 0 => obtain rfl := Option.some.inj hop; trivial
  | 1 => obtain rfl := Option.some.inj hop; trivial
  | 2 => obtain rfl := Option.some.inj hop; trivial
  | 3 =>
    obtain rfl := Option.some.inj hop
    have hb : (run [.beginPrompt 0 [], .finish 0 none none, .beginPrompt 1 []]).index.blocks =
        [{ id := 0, promptLine := 0, endLine := some 0, state := .finished none, cwd := [] },
          { id := 1, promptLine := 1, cwd := [] }] := by decide
    show ∀ b ∈ (run [.beginPrompt 0 [], .finish 0 none none, .beginPrompt 1 []]).index.blocks,
      Goes 1 b → ∀ b' ∈ (run [.beginPrompt 0 [], .finish 0 none none,
        .beginPrompt 1 []]).index.blocks, b'.id < b.id → Goes 1 b'
    rw [hb]
    simp [Goes]
  | n + 4 => simp at hop

/-! ## A terminal's index is such a run -/

/-- Every block operation of a terminal is one of an index, but for RIS,
which starts over with an empty one. -/
theorem exists_run_blockStep {G : TermState.Guards} {s : TermState} {x : BlockIndex}
    {ops : List IndexOp} (hops : (run ops).index = s.blocks) (h : TermState.BlockStep G s x) :
    ∃ ops', (run ops').index = x := by
  have hnext (op : IndexOp) : (run (ops ++ [op])).index = op.apply s.blocks := by
    unfold run at hops ⊢
    rw [List.foldl_append, ← hops]
    rfl
  cases h with
  | prompt _ cwd => exact ⟨_, hnext (.beginPrompt _ cwd)⟩
  | output _ _ _ command => exact ⟨_, hnext (.beginOutput _ command _ _)⟩
  | finish _ exitCode => exact ⟨_, hnext (.finish _ exitCode _)⟩
  | evict _ _ _ => exact ⟨_, hnext (.evictBefore _)⟩
  | @erase first _ _ => exact ⟨_, hnext (.clearScreen first)⟩
  | clear => exact ⟨_, hnext (.clearHistory none)⟩
  | reset _ => exact ⟨[], rfl⟩

/-- The index of every terminal is what some run of operations makes. -/
theorem exists_run_of_reachable {vt : Vt} {t : Terminal vt} (h : t.Reachable) :
    ∃ ops, (run ops).index = t.state.blocks := by
  obtain ⟨cols, rows, scrollback, h⟩ := h
  refine h.keeps (Q := fun u => ∃ ops, (run ops).index = u.state.blocks) (fun u c _ hu => ?_)
    ⟨[], rfl⟩
  obtain ⟨ops, hops⟩ := hu
  have hnext (op : IndexOp) (hb : (u.call c).state.blocks = op.apply u.state.blocks) :
      ∃ ops, (run ops).index = (u.call c).state.blocks := by
    refine ⟨ops ++ [op], ?_⟩
    rw [hb, ← hops]
    unfold run
    rw [List.foldl_append]
    rfl
  by_cases hq : c.isQuiet = true
  · exact ⟨ops, hops.trans (Terminal.draws_call u c hq).blocks.symm⟩
  · cases c with
    | advance bytes =>
      refine (u.steps_advance bytes).keeps (P := fun s => ∃ ops, (run ops).index = s.blocks)
        (fun s s' hst hs => ?_) ⟨ops, hops⟩
      obtain ⟨ops, hops⟩ := hs
      rcases TermState.blocks_step hst with heq | hstep
      · exact ⟨ops, hops.trans heq.symm⟩
      · exact exists_run_blockStep hops hstep
    | resize newCols newRows =>
      have hblocks := u.state.blocks_resize newCols newRows
      split at hblocks
      · exact ⟨ops, hops.trans hblocks.symm⟩
      · exact hnext (.reanchor _) hblocks
    | setBlockContext id context => exact hnext (.setContext id context) rfl
    | setPtyRestatesViewport yes => exact ⟨ops, hops⟩
    | _ => exact absurd rfl hq

/-- Two prompts on a 4×2 screen without scrollback, the first one finished
and scrolled off, then ED 2. -/
def clearedBytes : List UInt8 :=
  [0x1b, 0x5d, 0x31, 0x33, 0x33, 0x3b, 0x41, 0x07, 0x1b, 0x5d, 0x31, 0x33, 0x33, 0x3b, 0x44, 0x07,
    0x0d, 0x0a, 0x1b, 0x5d, 0x31, 0x33, 0x33, 0x3b, 0x41, 0x07, 0x0d, 0x0a,
    0x1b, 0x5b, 0x32, 0x4a]

/-- The block operations those bytes make. -/
def clearedOps : List IndexOp :=
  [.beginPrompt 0 [], .finish 0 none none, .beginPrompt 1 [], .evictBefore 1, .clearScreen 1]

/-- The first block was evicted, and the clear that took the second one
drops the floor to zero: a client told to forget from there forgets both. -/
theorem run_not_cleared :
    ((Terminal.new asciiVt 4 2 0).advance clearedBytes).state.blocks = (run clearedOps).index ∧
      (run clearedOps).evicted = [0] ∧ (run clearedOps).index.authoritativeFrom = 0 ∧
      ¬ ∀ n, (run (clearedOps.take n)).Cleared := by
  have hev : (run clearedOps).evicted = [0] := by decide
  have hfloor : (run clearedOps).index.authoritativeFrom = 0 := by decide
  refine ⟨by decide, hev, hfloor, fun hall => ?_⟩
  have := hall 5 0 (by show 0 ∈ (run clearedOps).evicted; rw [hev]; simp)
  rw [show (run (clearedOps.take 5)).index.authoritativeFrom = 0 from hfloor] at this
  exact absurd this (Nat.lt_irrefl 0)

end IndexRun

end Zesterm
