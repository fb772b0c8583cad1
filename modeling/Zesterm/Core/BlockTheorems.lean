/-
Zesterm.Core.BlockTheorems — what the operations of a block index keep.

Blocks are records of a `Ledger`: they come under ids from a counter, they
go, and none comes back (`evolves_…`). An index is `WellFormed` when its
ids ascend below the counter, a block is finished exactly when it has an
end, and no end stands before its prompt. `Frozen` says that what one index
records of a finished block another records too.

Every operation keeps both, and `beginOutput` under a condition: it starts
the newest block's output whatever state that block is in.
-/
import Zesterm.Core.Blocks
import Zesterm.Core.ResizeTheorems

namespace Zesterm

/-! ## One block -/

namespace Block

/-- Finished exactly with an end, and an end never before the prompt. -/
structure WellFormed (b : Block) : Prop where
  finished : b.state.isFinished = true ↔ b.endLine.isSome = true
  ordered : ∀ stop, b.endLine = some stop → b.promptLine ≤ stop

/-- A block that has not finished has no end. -/
theorem WellFormed.endLine_none {b : Block} (h : b.WellFormed) (hf : b.state.isFinished = false) :
    b.endLine = none := by
  cases he : b.endLine with
  | none => rfl
  | some stop => rw [h.finished.mpr (by rw [he]; rfl)] at hf; simp at hf

/-- `b'` records of a command what `b` does: its text, where its output
and its end stand, and how it ended. -/
structure Records (b b' : Block) : Prop where
  command : b'.command = b.command
  outputLine : b'.outputLine = b.outputLine
  endLine : b'.endLine = b.endLine
  state : b'.state = b.state

theorem Records.refl (b : Block) : b.Records b := ⟨rfl, rfl, rfl, rfl⟩

end Block

namespace BlockIndex

variable {x : BlockIndex} {b b' : Block} {f : Block → Block} {reindex : Reindex}

/-- Ids ascend below the counter, and every block is well formed. -/
structure WellFormed (x : BlockIndex) : Prop where
  numbered : Ledger.Numbered x.ids x.nextId
  blocks : ∀ b ∈ x.blocks, b.WellFormed

/-- What `x` records of its finished blocks, `x'` does not contradict. -/
def Frozen (x x' : BlockIndex) : Prop :=
  ∀ b ∈ x.blocks, b.state.isFinished = true → ∀ b' ∈ x'.blocks, b'.id = b.id → b.Records b'

/-- Blocks come and go as a ledger's records do. -/
def Evolves (x x' : BlockIndex) : Prop := Ledger.Evolves x.ids x.nextId x'.ids x'.nextId

theorem wellFormed_empty : ({} : BlockIndex).WellFormed :=
  ⟨⟨List.Pairwise.nil, by simp [ids]⟩, by simp⟩

/-- Ids name blocks. -/
theorem eq_of_id_eq (h : x.ids.Pairwise (· < ·)) (hb : b ∈ x.blocks) (hb' : b' ∈ x.blocks)
    (hid : b'.id = b.id) : b' = b := by
  have hnodup : (x.blocks.map Block.id).Nodup := h.imp fun hlt => ne_of_lt hlt
  exact List.inj_on_of_nodup_map hnodup hb' hb hid

theorem WellFormed.eq_of_id_eq (h : x.WellFormed) (hb : b ∈ x.blocks) (hb' : b' ∈ x.blocks)
    (hid : b'.id = b.id) : b' = b :=
  BlockIndex.eq_of_id_eq h.numbered.sorted hb hb' hid

theorem mem_of_last (h : x.last = some b) : b ∈ x.blocks :=
  List.mem_of_getLast? h

/-! ## Editing the newest block -/

/-- Every block is an old one, or the newest one edited. -/
theorem mem_modifyLast (h : b' ∈ (x.modifyLast f).blocks) :
    b' ∈ x.blocks ∨ ∃ b, x.last = some b ∧ b' = f b := by
  obtain ⟨j, hj⟩ := List.mem_iff_getElem?.mp h
  simp only [modifyLast, List.getElem?_modify] at hj
  cases hget : x.blocks[j]? with
  | none => rw [hget] at hj; simp at hj
  | some b =>
    rw [hget] at hj
    simp only [Option.map_eq_map, Option.map_some, Option.some.injEq] at hj
    split at hj
    · next hlast =>
      refine Or.inr ⟨b, ?_, hj.symm⟩
      rw [last, List.getLast?_eq_getElem?, hlast]
      exact hget
    · exact Or.inl (hj ▸ List.mem_of_getElem? hget)

theorem last_modifyLast (h : x.last = some b) : (x.modifyLast f).last = some (f b) := by
  unfold last at h ⊢
  rw [List.getLast?_eq_getElem?] at h ⊢
  simp only [modifyLast, List.length_modify, List.getElem?_modify, h, if_true, Option.map_eq_map,
    Option.map_some]

theorem ids_modifyLast (x : BlockIndex) (f : Block → Block) (hf : ∀ b, (f b).id = b.id) :
    (x.modifyLast f).ids = x.ids := Storage.map_modify_of_eq Block.id f hf _ _

theorem evolves_modifyLast (x : BlockIndex) (f : Block → Block) (hf : ∀ b, (f b).id = b.id) :
    x.Evolves (x.modifyLast f) := by
  unfold Evolves
  rw [ids_modifyLast x f hf]
  exact Ledger.Evolves.refl _ _

theorem WellFormed.modifyLast (h : x.WellFormed) (hid : ∀ b, (f b).id = b.id)
    (hf : ∀ b, x.last = some b → (f b).WellFormed) : (x.modifyLast f).WellFormed := by
  refine ⟨(evolves_modifyLast x f hid).numbered h.numbered, fun b' hb' => ?_⟩
  rcases mem_modifyLast hb' with hb | ⟨b, hb, rfl⟩
  · exact h.blocks b' hb
  · exact hf b hb

theorem WellFormed.frozen_modifyLast (h : x.WellFormed) (hid : ∀ b, (f b).id = b.id)
    (hf : ∀ b, x.last = some b → b.state.isFinished = true → b.Records (f b)) :
    x.Frozen (x.modifyLast f) := by
  intro b hb hfin b' hb' heq
  rcases mem_modifyLast hb' with hmem | ⟨c, hc, rfl⟩
  · rw [h.eq_of_id_eq hb hmem heq]
    exact Block.Records.refl b
  · rw [hid] at heq
    obtain rfl := h.eq_of_id_eq hb (mem_of_last hc) heq
    exact hf c hc hfin

/-! ## The markers -/

theorem evolves_beginPrompt (x : BlockIndex) (line : LineId) (cwd : Str) :
    x.Evolves (x.beginPrompt line cwd) := by
  have hfresh : x.Evolves { x with
      blocks := x.blocks ++ [{ id := x.nextId, promptLine := line, cwd := cwd }]
      nextId := x.nextId + 1 } := by
    unfold Evolves ids
    rw [List.map_append]
    exact Ledger.Evolves.append (Nat.le_succ _) (List.pairwise_singleton _ _) (by simp)
  unfold beginPrompt
  dsimp only
  split
  · split
    · exact evolves_modifyLast _ _ fun _ => rfl
    · exact hfresh
  · exact hfresh

/-- A prompt is begun on a fresh block, or moved on one that is still at
its prompt. -/
theorem WellFormed.beginPrompt (h : x.WellFormed) (line : LineId) (cwd : Str) :
    (x.beginPrompt line cwd).WellFormed ∧ x.Frozen (x.beginPrompt line cwd) := by
  have hnum := (evolves_beginPrompt x line cwd).numbered h.numbered
  have hfresh (y : BlockIndex) (hy : y.blocks =
      x.blocks ++ [{ id := x.nextId, promptLine := line, cwd := cwd }])
      (hn : Ledger.Numbered y.ids y.nextId) : y.WellFormed ∧ x.Frozen y := by
    refine ⟨⟨hn, fun b hb => ?_⟩, fun b hb hfin b' hb' heq => ?_⟩
    · rw [hy] at hb
      rcases List.mem_append.mp hb with hb | hb
      · exact h.blocks b hb
      · rw [List.mem_singleton.mp hb]
        exact ⟨by simp [BlockState.isFinished], by simp⟩
    · rw [hy] at hb'
      rcases List.mem_append.mp hb' with hb' | hb'
      · rw [h.eq_of_id_eq hb hb' heq]
        exact Block.Records.refl b
      · -- The fresh id is above every one held.
        rw [List.mem_singleton.mp hb'] at heq
        have hlt := h.numbered.below b.id (List.mem_map_of_mem hb)
        rw [← heq] at hlt
        exact absurd hlt (lt_irrefl _)
  unfold BlockIndex.beginPrompt at hnum ⊢
  dsimp only at hnum ⊢
  split
  · next b hb =>
    split
    · next hprompt =>
      refine ⟨h.modifyLast (fun _ => rfl) fun c hc => ?_, h.frozen_modifyLast (fun _ => rfl)
        fun c hc hfin => ?_⟩
      · obtain rfl : b = c := by rw [hb] at hc; exact Option.some.inj hc
        have hopen : b.endLine = none :=
          (h.blocks b (mem_of_last hb)).endLine_none (by rw [hprompt.1]; rfl)
        refine ⟨?_, fun stop hstop => ?_⟩
        · rw [hprompt.1, hopen]
          simp [BlockState.isFinished]
        · rw [show b.endLine = some stop from hstop] at hopen
          simp at hopen
      · obtain rfl : b = c := by rw [hb] at hc; exact Option.some.inj hc
        rw [hprompt.1] at hfin
        simp [BlockState.isFinished] at hfin
    · next hnot =>
      rw [hb] at hnum
      exact hfresh _ rfl (by simpa [hnot] using hnum)
  · next hnone =>
    rw [hnone] at hnum
    exact hfresh _ rfl hnum

/-- Output begins on a block that has not finished. -/
theorem WellFormed.beginOutput (h : x.WellFormed) (line : LineId) (command : Str)
    (nowMs : Option Nat) (author : Option (List UInt8))
    (hopen : ∀ b, x.last = some b → b.state.isFinished = false) :
    (x.beginOutput line command nowMs author).WellFormed ∧
      x.Frozen (x.beginOutput line command nowMs author) := by
  refine ⟨h.modifyLast (fun _ => rfl) fun b hb => ?_, h.frozen_modifyLast (fun _ => rfl)
    fun b hb hfin => ?_⟩
  · have hnone := (h.blocks b (mem_of_last hb)).endLine_none (hopen b hb)
    refine ⟨?_, fun stop hstop => ?_⟩
    · simp [BlockState.isFinished, hnone]
    · rw [show b.endLine = some stop from hstop] at hnone
      simp at hnone
  · rw [hopen b hb] at hfin
    simp at hfin

/-- A block finishes once, at or below its prompt. -/
theorem WellFormed.finish (h : x.WellFormed) (line : LineId) (exitCode : Option Int)
    (nowMs : Option Nat) (hline : ∀ b, x.last = some b → b.promptLine ≤ line) :
    (x.finish line exitCode nowMs).WellFormed ∧ x.Frozen (x.finish line exitCode nowMs) := by
  have hid : ∀ b : Block, (if b.state.isFinished then b else
      { b with endLine := some line, state := .finished exitCode, endedMs := nowMs }).id = b.id := by
    intro b
    split <;> rfl
  refine ⟨h.modifyLast hid fun b hb => ?_, h.frozen_modifyLast hid fun b hb hfin => ?_⟩
  · split
    · exact h.blocks b (mem_of_last hb)
    · refine ⟨by simp [BlockState.isFinished], fun stop hstop => ?_⟩
      obtain rfl := Option.some.inj hstop
      exact hline b hb
  · rw [if_pos hfin]
    exact Block.Records.refl b

theorem evolves_finish (x : BlockIndex) (line : LineId) (exitCode : Option Int)
    (nowMs : Option Nat) : x.Evolves (x.finish line exitCode nowMs) := by
  refine evolves_modifyLast _ _ fun b => ?_
  split <;> rfl

theorem ids_setContext (x : BlockIndex) (id : BlockId) (context : BlockContext) :
    (x.setContext id context).ids = x.ids :=
  Storage.map_modify_of_eq Block.id
    (fun b => { b with context := if context.isEmpty then none else some context })
    (fun _ => rfl) _ _

/-- A context is stamped beside what a finished block keeps. -/
theorem WellFormed.setContext (h : x.WellFormed) (id : BlockId) (context : BlockContext) :
    (x.setContext id context).WellFormed ∧ x.Frozen (x.setContext id context) := by
  have hids := ids_setContext x id context
  have hmem {b' : Block} (hb' : b' ∈ (x.setContext id context).blocks) :
      ∃ b ∈ x.blocks, b'.id = b.id ∧ b'.promptLine = b.promptLine ∧ b.Records b' := by
    rcases Storage.mem_modify _ b' _ _ hb' with hb | ⟨b, hb, rfl⟩
    · exact ⟨b', hb, rfl, rfl, Block.Records.refl b'⟩
    · exact ⟨b, hb, rfl, rfl, rfl, rfl, rfl, rfl⟩
  refine ⟨⟨?_, fun b' hb' => ?_⟩, fun b hb _ b' hb' heq => ?_⟩
  · rw [hids]
    exact h.numbered
  · obtain ⟨b, hb, _, hprompt, hrec⟩ := hmem hb'
    have hwf := h.blocks b hb
    exact ⟨by rw [hrec.state, hrec.endLine]; exact hwf.finished, fun stop hstop => by
      rw [hprompt]; exact hwf.ordered stop (hrec.endLine ▸ hstop)⟩
  · obtain ⟨c, hc, hid, _, hrec⟩ := hmem hb'
    rw [h.eq_of_id_eq hb hc (hid.symm.trans heq)] at hrec
    exact hrec

/-! ## Blocks that go -/

/-- An index that lost blocks and nothing else. -/
theorem WellFormed.of_sublist {x' : BlockIndex} (h : x.WellFormed)
    (hsub : x'.blocks.Sublist x.blocks) (hn : x'.nextId = x.nextId) :
    x'.WellFormed ∧ x.Frozen x' := by
  refine ⟨⟨?_, fun b hb => h.blocks b (hsub.subset hb)⟩, fun b hb _ b' hb' heq => ?_⟩
  · rw [hn]
    exact (Ledger.Evolves.of_sublist (hsub.map Block.id)).numbered h.numbered
  · rw [h.eq_of_id_eq hb (hsub.subset hb') heq]
    exact Block.Records.refl b

theorem evictBefore_sublist (x : BlockIndex) (oldest : LineId) :
    (x.evictBefore oldest).blocks.Sublist x.blocks ∧ (x.evictBefore oldest).nextId = x.nextId := by
  unfold evictBefore
  split
  · exact ⟨List.Sublist.refl _, rfl⟩
  · exact ⟨List.filter_sublist, rfl⟩

/-- A clear leaves the blocks that end above the erased screen. -/
theorem blocks_eraseScreen (x : BlockIndex) (first : LineId) :
    (x.eraseScreen first).blocks =
      x.blocks.filter fun b => b.endLine.any fun stop => decide (stop < first) := by
  unfold eraseScreen
  dsimp only
  split <;> rfl

theorem eraseScreen_sublist (x : BlockIndex) (first : LineId) :
    (x.eraseScreen first).blocks.Sublist x.blocks ∧ (x.eraseScreen first).nextId = x.nextId := by
  unfold eraseScreen
  dsimp only
  split
  · exact ⟨List.filter_sublist, rfl⟩
  · exact ⟨List.filter_sublist, rfl⟩

/-! ## A rewrap -/

/-- A block that survives a rewrap keeps its id, its command and how it
ended, and its end still stands at or below its prompt. -/
theorem reanchorBlock_spec {oldest : LineId} (hm : reindex.Monotone)
    (ho : reindex.oldest = some oldest) (hb : b.WellFormed)
    (h : reanchorBlock reindex oldest b = some b') :
    b'.id = b.id ∧ b'.command = b.command ∧ b'.state = b.state ∧ b'.WellFormed := by
  unfold reanchorBlock at h
  dsimp only at h
  split at h
  · next hend =>
    obtain rfl := Option.some.inj h
    refine ⟨rfl, rfl, rfl, ⟨?_, fun stop hstop => ?_⟩⟩
    · exact hb.finished
    · rw [show b.endLine = some stop from hstop] at hend
      simp at hend
  · next stop hend =>
    split at h
    · next new hnew =>
      obtain rfl := Option.some.inj h
      refine ⟨rfl, rfl, rfl, ⟨?_, fun stop' hstop => ?_⟩⟩
      · rw [show (b.state.isFinished = true) ↔ _ from hb.finished, hend]
        simp
      · obtain rfl := Option.some.inj hstop
        show (reindex.lookup b.promptLine).getD oldest ≤ new
        cases hp : reindex.lookup b.promptLine with
        | none => exact hm.oldest_le ho hnew
        | some start => exact hm.lookup_le hp hnew (hb.ordered stop hend)
    · simp at h

theorem id_reanchorBlock {oldest : LineId} (h : reanchorBlock reindex oldest b = some b') :
    b'.id = b.id := by
  unfold reanchorBlock at h
  dsimp only at h
  split at h
  · obtain rfl := Option.some.inj h
    rfl
  · split at h
    · obtain rfl := Option.some.inj h
      rfl
    · simp at h

theorem ids_reanchor_sublist (x : BlockIndex) (reindex : Reindex) :
    (x.reanchor reindex).ids.Sublist x.ids ∧ (x.reanchor reindex).nextId = x.nextId := by
  unfold reanchor
  split
  · exact ⟨List.nil_sublist _, rfl⟩
  · next oldest _ =>
    refine ⟨?_, rfl⟩
    have hsub : ∀ l : List Block,
        ((l.filterMap (reanchorBlock reindex oldest)).map Block.id).Sublist (l.map Block.id) := by
      intro l
      induction l with
      | nil => exact List.Sublist.refl _
      | cons b l ih =>
        rw [List.filterMap_cons]
        cases hb : reanchorBlock reindex oldest b with
        | none => exact ih.cons _
        | some b' =>
          rw [List.map_cons, List.map_cons, id_reanchorBlock hb]
          exact ih.cons_cons _
    exact hsub x.blocks

/-- Re-anchoring keeps an index well formed. -/
theorem WellFormed.reanchor (h : x.WellFormed) (hm : reindex.Monotone) :
    (x.reanchor reindex).WellFormed := by
  obtain ⟨hsub, hn⟩ := ids_reanchor_sublist x reindex
  refine ⟨?_, fun b' hb' => ?_⟩
  · rw [hn]
    exact (Ledger.Evolves.of_sublist hsub).numbered h.numbered
  · unfold BlockIndex.reanchor at hb'
    split at hb'
    · simp at hb'
    · next oldest ho =>
      obtain ⟨b, hb, heq⟩ := List.mem_filterMap.mp hb'
      exact (reanchorBlock_spec hm ho (h.blocks b hb) heq).2.2.2

/-! ## Any operation -/

theorem evolves_of_sublist {x' : BlockIndex} (hsub : x'.ids.Sublist x.ids)
    (hn : x'.nextId = x.nextId) : x.Evolves x' := by
  unfold Evolves
  rw [hn]
  exact Ledger.Evolves.of_sublist hsub

theorem evolves_eraseScreen (x : BlockIndex) (first : LineId) : x.Evolves (x.eraseScreen first) :=
  evolves_of_sublist ((eraseScreen_sublist x first).1.map Block.id) (eraseScreen_sublist x first).2

theorem evolves_apply (x : BlockIndex) (op : IndexOp) : x.Evolves (op.apply x) := by
  cases op with
  | beginPrompt line cwd => exact evolves_beginPrompt x line cwd
  | beginOutput line command nowMs author => exact evolves_modifyLast x _ fun _ => rfl
  | finish line exitCode nowMs => exact evolves_finish x line exitCode nowMs
  | setContext id context =>
    exact evolves_of_sublist (by rw [IndexOp.apply, ids_setContext]) rfl
  | evictBefore oldest =>
    exact evolves_of_sublist ((evictBefore_sublist x oldest).1.map Block.id)
      (evictBefore_sublist x oldest).2
  | reanchor reindex =>
    exact evolves_of_sublist (ids_reanchor_sublist x reindex).1 (ids_reanchor_sublist x reindex).2
  | clearScreen first => exact evolves_eraseScreen x first
  | clearHistory first =>
    cases first with
    | none => exact evolves_eraseScreen x 0
    | some first => exact (evolves_eraseScreen x first).trans (evolves_eraseScreen _ 0)

end BlockIndex

end Zesterm
