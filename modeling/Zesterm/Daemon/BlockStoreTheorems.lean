/-
Zesterm.Daemon.BlockStoreTheorems — when every finished block is stored
once, under an id that is its own.

The reader's high-water mark is sound while nothing at or below it changes
but to go. `succeeds_step` says what one call does to the blocks: under
`Orderly` it leaves those already handed over alone. From it the collector
of `Lib.HighWater` is kept over every run (`state_run`), and with it both
halves of `Recorded`.

Three things break it. RIS starts the ids again; a marker may reach a block
that was handed over, or is older than one that was; and a block that ran,
finished and was started again may be running when the reader looks.
-/
import Zesterm.Core.EffectTheorems
import Zesterm.Daemon.BlockStore
import Zesterm.Lib.HighWater

namespace Zesterm

/-! ## What one call does to the blocks -/

/-- What is left of an index `x` in `y`: ids come and go as a ledger's, a
block that has an end keeps one, and what the store would be handed of a
block already handed over is as it was. -/
structure Archive.Succeeds (a : Archive) (x y : BlockIndex) : Prop where
  evolves : x.Evolves y
  old : ∀ b ∈ x.blocks, ∀ b' ∈ y.blocks, b'.id = b.id →
    (b.endLine.isSome = true → b'.endLine.isSome = true) ∧
      (a.isNew b.id = false →
        StoredBlock.fromBlock a.run a.session b' = StoredBlock.fromBlock a.run a.session b)
  ended : (∀ b ∈ x.blocks, b.state.isFinished = true → b.endLine.isSome = true) →
    ∀ b' ∈ y.blocks, b'.state.isFinished = true → b'.endLine.isSome = true

/-- Only a finished block has a stored form. -/
theorem StoredBlock.fromBlock_of_not_finished {run session : Nat} {b : Block}
    (h : b.state.isFinished = false) : StoredBlock.fromBlock run session b = none := by
  unfold StoredBlock.fromBlock
  cases hs : b.state with
  | finished code =>
    rw [hs] at h
    simp [BlockState.isFinished] at h
  | prompt => rfl
  | running => rfl

theorem StoredBlock.fromBlock_isSome {run session : Nat} {b : Block} :
    (StoredBlock.fromBlock run session b).isSome = b.state.isFinished := by
  unfold StoredBlock.fromBlock
  cases b.state <;> rfl

theorem StoredBlock.id_fromBlock {run session : Nat} {b : Block} {r : StoredBlock}
    (h : StoredBlock.fromBlock run session b = some r) : r.id = b.id := by
  unfold StoredBlock.fromBlock at h
  cases hs : b.state with
  | finished code =>
    rw [hs] at h
    exact congrArg StoredBlock.id (Option.some.inj h).symm
  | prompt | running =>
    rw [hs] at h
    simp at h

namespace Archive

variable {a : Archive} {x y : BlockIndex}

theorem Succeeds.of_sublist (hx : x.ids.Pairwise (· < ·)) (hsub : y.blocks.Sublist x.blocks)
    (hnext : y.nextId = x.nextId) : a.Succeeds x y where
  evolves := BlockIndex.evolves_of_sublist (hsub.map Block.id) hnext
  old := by
    intro b hb b' hb' hid
    obtain rfl := BlockIndex.eq_of_id_eq hx hb (hsub.subset hb') hid
    exact ⟨id, fun _ => rfl⟩
  ended := fun h b' hb' => h b' (hsub.subset hb')

theorem Succeeds.refl (hx : x.ids.Pairwise (· < ·)) : a.Succeeds x x :=
  .of_sublist hx (List.Sublist.refl _) rfl

/-- An edit of the newest block. -/
theorem Succeeds.modifyLast (hx : x.ids.Pairwise (· < ·)) {f : Block → Block}
    (hid : ∀ b, (f b).id = b.id)
    (hend : ∀ b, b.endLine.isSome = true → (f b).endLine.isSome = true)
    (hfin : ∀ b, x.last = some b → (b.state.isFinished = true → b.endLine.isSome = true) →
      (f b).state.isFinished = true → (f b).endLine.isSome = true)
    (hsame : ∀ b, x.last = some b → a.isNew b.id = false →
      StoredBlock.fromBlock a.run a.session (f b) = StoredBlock.fromBlock a.run a.session b) :
    a.Succeeds x (x.modifyLast f) where
  evolves := BlockIndex.evolves_modifyLast x f hid
  old := by
    intro b hb b' hb' heq
    rcases BlockIndex.mem_modifyLast hb' with hmem | ⟨c, hc, rfl⟩
    · obtain rfl := BlockIndex.eq_of_id_eq hx hb hmem heq
      exact ⟨id, fun _ => rfl⟩
    · rw [hid] at heq
      obtain rfl := BlockIndex.eq_of_id_eq hx hb (BlockIndex.mem_of_last hc) heq
      exact ⟨hend c, hsame c hc⟩
  ended := by
    intro h b' hb'
    rcases BlockIndex.mem_modifyLast hb' with hmem | ⟨c, hc, rfl⟩
    · exact h b' hmem
    · exact hfin c hc (h c (BlockIndex.mem_of_last hc))

theorem Succeeds.beginPrompt (hx : Ledger.Numbered x.ids x.nextId) (line : LineId) (cwd : Str) :
    a.Succeeds x (x.beginPrompt line cwd) := by
  have hfresh : a.Succeeds x { x with
      blocks := x.blocks ++ [{ id := x.nextId, promptLine := line, cwd := cwd }]
      nextId := x.nextId + 1 } := by
    refine ⟨?_, fun b hb b' hb' heq => ?_, fun h b' hb' hf => ?_⟩
    · unfold BlockIndex.Evolves BlockIndex.ids
      rw [List.map_append]
      exact Ledger.Evolves.append (Nat.le_succ _) (List.pairwise_singleton _ _) (by simp)
    · rcases List.mem_append.mp hb' with hmem | hmem
      · obtain rfl := BlockIndex.eq_of_id_eq hx.sorted hb hmem heq
        exact ⟨id, fun _ => rfl⟩
      · -- The fresh id is above every one held.
        rw [List.mem_singleton.mp hmem] at heq
        have hlt := hx.below b.id (List.mem_map_of_mem hb)
        rw [← heq] at hlt
        exact absurd hlt (lt_irrefl _)
    · rcases List.mem_append.mp hb' with hmem | hmem
      · exact h b' hmem hf
      · rw [List.mem_singleton.mp hmem] at hf
        simp [BlockState.isFinished] at hf
  unfold BlockIndex.beginPrompt
  dsimp only
  split
  · next b hb =>
    split
    · next hprompt =>
      refine .modifyLast hx.sorted (fun _ => rfl) (fun _ h => h) (fun _ _ h hf => h hf)
        fun c hc _ => ?_
      obtain rfl : b = c := Option.some.inj (hb.symm.trans hc)
      have hopen : b.state.isFinished = false := by rw [hprompt.1]; rfl
      rw [StoredBlock.fromBlock_of_not_finished hopen,
        StoredBlock.fromBlock_of_not_finished (b := { b with
          promptLine := line, cwd := cwd, command := [] }) hopen]
    · exact hfresh
  · exact hfresh

/-- `C` on a block that has not finished, or is not yet handed over. -/
theorem Succeeds.beginOutput (hx : x.ids.Pairwise (· < ·)) (line : LineId) (command : Str)
    (nowMs : Option Nat) (author : Option (List UInt8))
    (hnew : ∀ b, x.last = some b → b.state.isFinished = true → a.isNew b.id = true) :
    a.Succeeds x (x.beginOutput line command nowMs author) := by
  refine .modifyLast hx (fun _ => rfl) (fun _ h => h)
    (fun b _ _ hf => by simp [BlockState.isFinished] at hf) fun b hb hold => ?_
  have hopen : b.state.isFinished = false := by
    cases hf : b.state.isFinished with
    | false => rfl
    | true => exact absurd (hnew b hb hf) (by rw [hold]; exact Bool.false_ne_true)
  rw [StoredBlock.fromBlock_of_not_finished hopen]
  rfl

/-- `D` on a block that has finished, or is newer than any handed over. -/
theorem Succeeds.finish (hx : x.ids.Pairwise (· < ·)) (line : LineId) (exitCode : Option Int)
    (nowMs : Option Nat)
    (hnew : ∀ b, x.last = some b → b.state.isFinished = false → a.isNew b.id = true) :
    a.Succeeds x (x.finish line exitCode nowMs) := by
  refine .modifyLast hx (fun b => ?_) (fun b h => ?_) (fun b _ h hf => ?_) fun b hb hold => ?_
  · split <;> rfl
  · split
    · exact h
    · rfl
  · split
    · next hfin => exact h hfin
    · rfl
  · have hfin : b.state.isFinished = true := by
      cases hf : b.state.isFinished with
      | true => rfl
      | false => exact absurd (hnew b hb hf) (by rw [hold]; exact Bool.false_ne_true)
    rw [if_pos hfin]

/-- A rewrap moves lines, which the store is not told, and loses blocks. -/
theorem Succeeds.reanchor (hx : x.ids.Pairwise (· < ·)) (reindex : Reindex) :
    a.Succeeds x (x.reanchor reindex) := by
  have hmem : ∀ b' ∈ (x.reanchor reindex).blocks, ∃ b ∈ x.blocks, b'.id = b.id ∧
      b'.state = b.state ∧ b'.endLine.isSome = b.endLine.isSome ∧
      StoredBlock.fromBlock a.run a.session b' = StoredBlock.fromBlock a.run a.session b := by
    intro b' hb'
    unfold BlockIndex.reanchor at hb'
    split at hb'
    · exact absurd hb' List.not_mem_nil
    · obtain ⟨b, hb, heq⟩ := List.mem_filterMap.mp hb'
      refine ⟨b, hb, ?_⟩
      unfold BlockIndex.reanchorBlock at heq
      dsimp only at heq
      split at heq
      · next hend =>
        obtain rfl := Option.some.inj heq
        exact ⟨rfl, rfl, rfl, rfl⟩
      · next stop hend =>
        split at heq
        · obtain rfl := Option.some.inj heq
          exact ⟨rfl, rfl, by rw [hend]; rfl, rfl⟩
        · simp at heq
  obtain ⟨hsub, hnext⟩ := BlockIndex.ids_reanchor_sublist x reindex
  refine ⟨BlockIndex.evolves_of_sublist hsub hnext, fun b hb b' hb' heq => ?_, fun h b' hb' hf => ?_⟩
  · obtain ⟨c, hc, hid, _, hend, hform⟩ := hmem b' hb'
    obtain rfl := BlockIndex.eq_of_id_eq hx hb hc (hid.symm.trans heq)
    exact ⟨fun h => hend.trans h, fun _ => hform⟩
  · obtain ⟨c, hc, _, hstate, hend, _⟩ := hmem b' hb'
    exact hend.trans (h c hc (hstate ▸ hf))

/-- A stamp on a block that has not finished. -/
theorem Succeeds.setContext (hx : x.ids.Pairwise (· < ·)) (id : BlockId) (context : BlockContext)
    (hopen : ∀ b ∈ x.blocks, b.id = id → b.state.isFinished = false) :
    a.Succeeds x (x.setContext id context) := by
  have hmem : ∀ b' ∈ (x.setContext id context).blocks, b' ∈ x.blocks ∨ ∃ b ∈ x.blocks, b.id = id ∧
      b' = { b with context := if context.isEmpty then none else some context } := by
    intro b' hb'
    unfold BlockIndex.setContext at hb'
    obtain ⟨j, hj⟩ := List.mem_iff_getElem?.mp hb'
    rw [List.getElem?_modify] at hj
    cases hget : x.blocks[j]? with
    | none =>
      rw [hget] at hj
      simp at hj
    | some b =>
      rw [hget] at hj
      simp only [Option.map_eq_map, Option.map_some, Option.some.injEq] at hj
      split at hj
      · next hidx =>
        obtain ⟨hlt, hat⟩ := List.getElem?_eq_some_iff.mp hget
        have hfound := ((List.findIdx_eq hlt).mp hidx).1
        rw [hat] at hfound
        exact .inr ⟨b, List.mem_of_getElem? hget, by simpa using hfound, hj.symm⟩
      · exact .inl (hj ▸ List.mem_of_getElem? hget)
  refine ⟨BlockIndex.evolves_of_sublist (by rw [BlockIndex.ids_setContext]) rfl,
    fun b hb b' hb' heq => ?_, fun h b' hb' hf => ?_⟩
  · rcases hmem b' hb' with hmem | ⟨c, hc, hid, rfl⟩
    · obtain rfl := BlockIndex.eq_of_id_eq hx hb hmem heq
      exact ⟨fun h => h, fun _ => rfl⟩
    · obtain rfl := BlockIndex.eq_of_id_eq hx hb hc heq
      refine ⟨fun h => h, fun _ => ?_⟩
      have hstill := hopen c hc hid
      rw [StoredBlock.fromBlock_of_not_finished hstill,
        StoredBlock.fromBlock_of_not_finished (b := { c with
          context := if context.isEmpty then none else some context }) hstill]
  · rcases hmem b' hb' with hmem | ⟨c, hc, _, rfl⟩
    · exact h b' hmem hf
    · exact h c hc hf

end Archive

namespace Recorder

variable {vt : Vt}

/-! ## The condition -/

/-- The conditions under which the mark is sound. RIS comes before any
block was opened; a `C` finds a block that has not finished or was not yet
handed over; a `D` finds one that has finished or is newer than every block
handed over; and no block that has an end runs when the reader looks. -/
def Orderly (r : Recorder) : RecorderCall → Prop
  | .perform a =>
    (a.isReset = true → r.state.blocks.nextId = 0) ∧
      (r.state.blockLine.isSome = true → ∀ b, r.state.blocks.last = some b →
        (a.marker? = some 0x43 → b.state.isFinished = true → r.archive.isNew b.id = true) ∧
          (a.marker? = some 0x44 → b.state.isFinished = false → r.archive.isNew b.id = true))
  | .persist => ∀ b ∈ r.state.blocks.blocks, b.state.isFinished = false → b.endLine = none
  | _ => True

instance (r : Recorder) : ∀ c : RecorderCall, Decidable (r.Orderly c)
  | .perform a =>
    let newest := r.state.blocks.last.all fun b =>
      decide ((a.marker? = some 0x43 → b.state.isFinished = true → r.archive.isNew b.id = true) ∧
        (a.marker? = some 0x44 → b.state.isFinished = false → r.archive.isNew b.id = true))
    decidable_of_iff ((a.isReset = true → r.state.blocks.nextId = 0) ∧
        (r.state.blockLine.isSome = true → newest = true)) (by
      unfold Orderly
      dsimp only [newest]
      cases r.state.blocks.last with
      | none => simp
      | some b => simp only [Option.all_some, decide_eq_true_eq, Option.some.injEq, forall_eq'])
  | .persist =>
    inferInstanceAs (Decidable (∀ b ∈ r.state.blocks.blocks, b.state.isFinished = false →
      b.endLine = none))
  | .resize _ _ => isTrue trivial
  | .setNowMs _ => isTrue trivial
  | .setInputAuthor _ => isTrue trivial
  | .stamp _ => isTrue trivial

theorem blocks_stamp (s : TermState) (context : BlockContext) :
    (stamp s context).blocks = s.blocks ∨ ∃ b, s.blocks.last = some b ∧ b.isRunning = true ∧
      (stamp s context).blocks = s.blocks.setContext b.id context := by
  unfold stamp
  split
  · next b hb =>
    split
    · next hrun => exact .inr ⟨b, hb, (Bool.and_eq_true _ _ ▸ hrun).1, rfl⟩
    · exact .inl rfl
  · exact .inl rfl

/-- What a call of a run makes of the blocks. -/
theorem succeeds_step {r : Recorder} {c : RecorderCall} (hc : r.Orderly c)
    (hx : Ledger.Numbered r.state.blocks.ids r.state.blocks.nextId) :
    r.archive.Succeeds r.state.blocks (step vt r c).1.state.blocks := by
  cases c with
  | perform a =>
    obtain ⟨hreset, hmarks⟩ := hc
    show r.archive.Succeeds r.state.blocks (r.state.perform vt a).blocks
    have heffect := TermState.blocks_effect r.state vt a
    generalize (r.state.perform vt a).blocks = y at heffect
    cases heffect with
    | thinned hsub hnext => exact .of_sublist hx.sorted hsub hnext
    | prompt _ line cwd => exact .beginPrompt hx line cwd
    | output ha hs line command =>
      exact .beginOutput hx.sorted _ _ _ _ fun b hb => (hmarks hs b hb).1 ha
    | finish ha hs line code => exact .finish hx.sorted _ _ _ fun b hb => (hmarks hs b hb).2 ha
    | reset ha =>
      have hzero := hreset ha
      have hnil : r.state.blocks.blocks = [] := by
        rw [List.eq_nil_iff_forall_not_mem]
        intro b hb
        have hlt := hx.below b.id (List.mem_map_of_mem hb)
        rw [hzero] at hlt
        exact absurd hlt (Nat.not_lt_zero _)
      refine .of_sublist hx.sorted ?_ hzero.symm
      rw [hnil]
  | resize cols rows =>
    show r.archive.Succeeds r.state.blocks (r.state.resize cols rows).blocks
    rw [TermState.blocks_resize]
    split
    · exact .refl hx.sorted
    · exact .reanchor hx.sorted _
  | stamp context =>
    show r.archive.Succeeds r.state.blocks (stamp r.state context).blocks
    rcases blocks_stamp r.state context with heq | ⟨b, hb, hrun, heq⟩
    · rw [heq]
      exact .refl hx.sorted
    · rw [heq]
      refine .setContext hx.sorted _ _ fun c hc hid => ?_
      rw [BlockIndex.eq_of_id_eq hx.sorted (BlockIndex.mem_of_last hb) hc hid]
      unfold Block.isRunning at hrun
      rw [eq_of_beq hrun]
      rfl
  | setNowMs | setInputAuthor | persist => exact .refl hx.sorted

end Recorder

/-! ## One look at the blocks -/

theorem BlockIndex.get_eq_some_iff {x : BlockIndex} (hx : x.ids.Pairwise (· < ·)) {id : BlockId}
    {b : Block} : x.get id = some b ↔ b ∈ x.blocks ∧ b.id = id := by
  unfold BlockIndex.get
  constructor
  · intro h
    exact ⟨List.mem_of_find?_eq_some h, by simpa using List.find?_some h⟩
  · rintro ⟨hb, rfl⟩
    obtain ⟨c, hc⟩ := Option.isSome_iff_exists.mp
      (List.find?_isSome.mpr ⟨b, hb, by simp⟩ : (x.blocks.find? fun c => c.id == b.id).isSome = true)
    have hid : c.id = b.id := by simpa using List.find?_some hc
    rw [hc, BlockIndex.eq_of_id_eq hx hb (List.mem_of_find?_eq_some hc) hid]

namespace Archive

variable {a : Archive} {x : BlockIndex}

theorem isNew_iff {id : BlockId} : a.isNew id = true ↔ HighWater.Above a.persistedUpTo id := by
  unfold isNew HighWater.Above
  cases a.persistedUpTo <;> simp

/-- What stands under an id: nothing, a block that has no stored form yet,
or one that has. -/
def view (a : Archive) (x : BlockIndex) : HighWater.View BlockId StoredBlock :=
  fun id => (x.get id).map (StoredBlock.fromBlock a.run a.session)

/-- What has been handed over, by id. -/
def handed (a : Archive) : List (BlockId × StoredBlock) := a.stored.map fun r => (r.id, r)

/-- The archive is a collector of the blocks that stand. -/
def Kept (a : Archive) (x : BlockIndex) : Prop :=
  HighWater.Kept a.persistedUpTo a.handed (a.view x)

theorem view_eq_some_iff (hx : x.ids.Pairwise (· < ·)) {id : BlockId} {v : Option StoredBlock} :
    a.view x id = some v ↔
      ∃ b ∈ x.blocks, b.id = id ∧ StoredBlock.fromBlock a.run a.session b = v := by
  unfold view
  rw [Option.map_eq_some_iff]
  constructor
  · rintro ⟨b, hb, hv⟩
    obtain ⟨hmem, hid⟩ := (BlockIndex.get_eq_some_iff hx).mp hb
    exact ⟨b, hmem, hid, hv⟩
  · rintro ⟨b, hmem, hid, hv⟩
    exact ⟨b, (BlockIndex.get_eq_some_iff hx).mpr ⟨hmem, hid⟩, hv⟩

/-- The walk back from the newest block finds the finished ones above the
mark. -/
theorem mem_toStore (hx : x.ids.Pairwise (· < ·)) {r : StoredBlock} :
    r ∈ a.toStore x ↔
      ∃ b ∈ x.blocks, a.isNew b.id = true ∧ StoredBlock.fromBlock a.run a.session b = some r := by
  have hdown : x.blocks.reverse.Pairwise fun b c => a.isNew c.id = true → a.isNew b.id = true := by
    rw [List.pairwise_reverse]
    refine (List.pairwise_map.mp hx).imp fun hlt hnew => ?_
    rw [isNew_iff] at hnew ⊢
    exact fun w hw => lt_trans (hnew w hw) hlt
  unfold toStore
  simp only [List.mem_filterMap, HighWater.mem_takeWhile hdown, List.mem_reverse, and_assoc]

theorem nodup_toStore (hx : x.ids.Pairwise (· < ·)) :
    ((a.toStore x).map StoredBlock.id).Nodup := by
  have hids : (x.blocks.reverse.map Block.id).Nodup := by
    rw [List.map_reverse, List.nodup_reverse]
    exact hx.imp fun hlt => ne_of_lt hlt
  have hwalk : ((x.blocks.reverse.takeWhile fun b => a.isNew b.id).map Block.id).Nodup :=
    hids.sublist ((List.takeWhile_sublist _).map Block.id)
  unfold toStore
  revert hwalk
  generalize (x.blocks.reverse.takeWhile fun b => a.isNew b.id) = l
  intro hl
  have hsub : ((l.filterMap (StoredBlock.fromBlock a.run a.session)).map StoredBlock.id).Sublist
      (l.map Block.id) := by
    clear hl
    induction l with
    | nil => exact List.Sublist.refl _
    | cons b l ih =>
      rw [List.filterMap_cons]
      cases hb : StoredBlock.fromBlock a.run a.session b with
      | none => exact ih.cons _
      | some r =>
        rw [List.map_cons, List.map_cons, StoredBlock.id_fromBlock hb]
        exact ih.cons_cons _
  exact hl.sublist hsub

/-- What a look leaves of an archive. -/
theorem persist_spec (a : Archive) (x : BlockIndex) :
    (a.persist x).stored = a.stored ++ a.toStore x ∧ (a.persist x).run = a.run ∧
      (a.persist x).session = a.session ∧
      (∀ id, a.isNew id = false → (a.persist x).isNew id = false) ∧
      (∀ r ∈ a.toStore x, (a.persist x).isNew r.id = false) ∧
      ∀ w, (a.persist x).persistedUpTo = some w →
        a.persistedUpTo = some w ∨ ∃ r ∈ a.toStore x, r.id = w := by
  unfold persist
  dsimp only
  cases hmax : ((a.toStore x).map StoredBlock.id).max? with
  | none =>
    have hnil : a.toStore x = [] := by simpa using hmax
    rw [hnil]
    exact ⟨(List.append_nil _).symm, rfl, rfl, fun _ h => h, fun r hr => absurd hr List.not_mem_nil,
      fun w hw => .inl hw⟩
  | some newest =>
    obtain ⟨hmem, hle⟩ := List.max?_eq_some_iff.mp hmax
    obtain ⟨top, htop, hid⟩ := List.mem_map.mp hmem
    refine ⟨rfl, rfl, rfl, fun id hid => ?_, fun r hr => ?_, fun w hw => ?_⟩
    · unfold isNew at hid ⊢
      cases hw : a.persistedUpTo with
      | none =>
        rw [hw] at hid
        simp at hid
      | some w =>
        rw [hw] at hid
        simp only [Option.all_some, decide_eq_false_iff_not, not_lt] at hid
        show decide (max w newest < id) = false
        exact decide_eq_false (not_lt.mpr (le_trans hid (le_max_left w newest)))
    · have hr := hle r.id (List.mem_map_of_mem hr)
      unfold isNew
      cases a.persistedUpTo with
      | none => exact decide_eq_false (not_lt.mpr hr)
      | some w => exact decide_eq_false (not_lt.mpr (le_trans hr (le_max_right w newest)))
    · cases hp : a.persistedUpTo with
      | none =>
        rw [hp] at hw
        exact .inr ⟨top, htop, hid.trans (Option.some.inj hw)⟩
      | some v =>
        rw [hp] at hw
        have hw := Option.some.inj hw
        rcases le_total v newest with hle | hle
        · exact .inr ⟨top, htop, by rw [hid, ← hw]; exact (max_eq_right hle).symm⟩
        · exact .inl (by rw [← hw]; exact congrArg some (max_eq_left hle).symm)

/-- By id, the batch is what is done above the mark. -/
theorem mem_batch (hx : x.ids.Pairwise (· < ·)) (id : BlockId) (r : StoredBlock) :
    (id, r) ∈ ((a.toStore x).map fun r => (r.id, r)) ↔
      HighWater.Above a.persistedUpTo id ∧ a.view x id = some (some r) := by
  rw [view_eq_some_iff hx, ← isNew_iff]
  constructor
  · intro hr
    obtain ⟨r', hr', heq⟩ := List.mem_map.mp hr
    obtain ⟨rfl, rfl⟩ := Prod.mk.inj heq
    obtain ⟨b, hb, hnew, hform⟩ := (mem_toStore hx).mp hr'
    have hid := StoredBlock.id_fromBlock hform
    exact ⟨by rw [hid]; exact hnew, b, hb, hid.symm, hform⟩
  · rintro ⟨hnew, b, hb, rfl, hform⟩
    refine List.mem_map.mpr ⟨r, (mem_toStore hx).mpr ⟨b, hb, hnew, hform⟩, ?_⟩
    rw [StoredBlock.id_fromBlock hform]

theorem handed_persist (a : Archive) (x : BlockIndex) :
    (a.persist x).handed = a.handed ++ (a.toStore x).map fun r => (r.id, r) := by
  unfold handed
  rw [(persist_spec a x).1, List.map_append]

/-- A look hands over what is done, once. -/
theorem Kept.persist (h : a.Kept x) (hx : x.ids.Pairwise (· < ·)) : (a.persist x).Kept x := by
  obtain ⟨-, hrun, hsession, hraise, hmark, -⟩ := persist_spec a x
  have hview : (a.persist x).view x = a.view x := by
    unfold view
    rw [hrun, hsession]
  unfold Archive.Kept
  rw [handed_persist, hview]
  refine HighWater.Kept.collect h (mem_batch hx) ?_ (fun id hid => ?_) fun y hy => ?_
  · rw [List.map_map]
    exact nodup_toStore hx
  · rw [← isNew_iff, Bool.not_eq_true] at hid ⊢
    exact hraise id hid
  · obtain ⟨r, hr, rfl⟩ := List.mem_map.mp hy
    rw [← isNew_iff, Bool.not_eq_true]
    exact hmark r hr

/-- What a call leaves of the blocks, the archive still keeps. -/
theorem Kept.succeeds {y : BlockIndex} (h : a.Kept x) (hs : a.Succeeds x y)
    (hx : Ledger.Numbered x.ids x.nextId) (hmark : ∀ w, a.persistedUpTo = some w → w < x.nextId) :
    a.Kept y := by
  have hy := hs.evolves.numbered hx
  refine HighWater.Kept.moves h fun id hold => ?_
  rw [← isNew_iff, Bool.not_eq_true] at hold
  cases hv : a.view y id with
  | none => exact .inl rfl
  | some v =>
    obtain ⟨b', hb', hid, hform⟩ := (view_eq_some_iff hy.sorted).mp hv
    have hlt : id < x.nextId := by
      unfold isNew at hold
      cases hw : a.persistedUpTo with
      | none =>
        rw [hw] at hold
        simp at hold
      | some w =>
        rw [hw] at hold
        simp only [Option.all_some, decide_eq_false_iff_not, not_lt] at hold
        exact lt_of_le_of_lt hold (hmark w hw)
    obtain ⟨b, hb, hbid⟩ := List.mem_map.mp
      (hs.evolves.mem_of_lt (hid ▸ List.mem_map_of_mem hb') hlt)
    have hsame := (hs.old b hb b' hb' (hid.trans hbid.symm)).2 (by rw [hbid]; exact hold)
    exact .inr ((view_eq_some_iff hx.sorted).mpr ⟨b, hb, hbid, hsame.symm.trans hform⟩).symm

end Archive

/-! ## Runs -/

namespace Recorder

/-- One call of a run of a recorder. -/
abbrev Entry := Trace.Entry Recorder RecorderCall (List StoredBlock)

variable (vt : Vt)

/-- The id a call opens a block under. -/
def issued? (e : Entry) : Option BlockId :=
  if (step vt e.state e.call).1.state.blocks.nextId = e.state.state.blocks.nextId + 1 then
    some e.state.state.blocks.nextId
  else none

/-- Whether the block under an id stands finished. -/
def HasFinished (r : Recorder) (id : BlockId) : Prop :=
  ∃ b ∈ r.state.blocks.blocks, b.id = id ∧ b.state.isFinished = true

/-- A call by which the block under an id becomes finished. -/
def Finishes (e : Entry) (id : BlockId) : Prop :=
  ¬HasFinished e.state id ∧ HasFinished (step vt e.state e.call).1 id

/-- What a run that ends in `r` is to have done: no id is given to two
blocks, and a block that becomes finished and is still held at the next
look is handed over once, as it is when the run ends. -/
structure Recorded (h : List Entry) (r : Recorder) : Prop where
  noReissue : (h.filterMap (issued? vt)).Nodup
  handedOnce : ∀ before e mid p after id, h = before ++ e :: (mid ++ p :: after) →
    Finishes vt e id → (∀ f ∈ mid, f.call ≠ .persist) → p.call = .persist →
    id ∈ p.state.state.blocks.ids →
    ∃ record, r.archive.stored.filter (fun s => decide (s.id = id)) = [record] ∧
      ∀ b ∈ r.state.blocks.blocks, b.id = id →
        StoredBlock.fromBlock r.archive.run r.archive.session b = some record

/-- A block became finished after the last look. -/
def Pending (h : List Entry) (id : BlockId) : Prop :=
  ∃ before e mid, h = before ++ e :: mid ∧ Finishes vt e id ∧ ∀ f ∈ mid, f.call ≠ .persist

/-- A block became finished and was still held at the next look. -/
def Due (h : List Entry) (id : BlockId) : Prop :=
  ∃ before e mid p after, h = before ++ e :: (mid ++ p :: after) ∧ Finishes vt e id ∧
    (∀ f ∈ mid, f.call ≠ .persist) ∧ p.call = .persist ∧ id ∈ p.state.state.blocks.ids

/-- What every orderly run keeps. -/
structure Keeps (r : Recorder) (h : List Entry) : Prop where
  numbered : Ledger.Numbered r.state.blocks.ids r.state.blocks.nextId
  mark : ∀ w, r.archive.persistedUpTo = some w → w < r.state.blocks.nextId
  ended : ∀ b ∈ r.state.blocks.blocks, b.state.isFinished = true → b.endLine.isSome = true
  kept : r.archive.Kept r.state.blocks
  issued : (h.filterMap (issued? vt)).Pairwise (· < ·)
  below : ∀ id ∈ h.filterMap (issued? vt), id < r.state.blocks.nextId
  pending : ∀ id, Pending vt h id → id < r.state.blocks.nextId ∧
    ∀ b ∈ r.state.blocks.blocks, b.id = id → b.endLine.isSome = true
  due : ∀ id, Due vt h id → ∃ record, (id, record) ∈ r.archive.handed

variable {vt}

/-- The last call finished the block, or an earlier one did and the last
was no look. -/
theorem pending_snoc {h : List Entry} {f : Entry} {id : BlockId} (hp : Pending vt (h ++ [f]) id) :
    Finishes vt f id ∨ f.call ≠ .persist ∧ Pending vt h id := by
  obtain ⟨before, e, mid, hsplit, hfin, hmid⟩ := hp
  rcases List.eq_nil_or_concat mid with rfl | ⟨mid, x, rfl⟩
  · obtain ⟨rfl, hlast⟩ := List.append_inj' hsplit rfl
    obtain rfl := (List.cons.inj hlast).1
    exact .inl hfin
  · rw [List.concat_eq_append] at hsplit hmid
    rw [← List.cons_append, ← List.append_assoc] at hsplit
    obtain ⟨rfl, hlast⟩ := List.append_inj' hsplit rfl
    obtain rfl := (List.cons.inj hlast).1
    exact .inr ⟨hmid f (by simp), before, e, mid, rfl, hfin,
      fun g hg => hmid g (List.mem_append_left _ hg)⟩

/-- The last call was the look, or an earlier one was. -/
theorem due_snoc {h : List Entry} {f : Entry} {id : BlockId} (hd : Due vt (h ++ [f]) id) :
    Due vt h id ∨ f.call = .persist ∧ Pending vt h id ∧ id ∈ f.state.state.blocks.ids := by
  obtain ⟨before, e, mid, p, after, hsplit, hfin, hmid, hp, hheld⟩ := hd
  rcases List.eq_nil_or_concat after with rfl | ⟨after, x, rfl⟩
  · rw [← List.cons_append, ← List.append_assoc] at hsplit
    obtain ⟨rfl, hlast⟩ := List.append_inj' hsplit rfl
    obtain rfl := (List.cons.inj hlast).1
    exact .inr ⟨hp, ⟨before, e, mid, rfl, hfin, hmid⟩, hheld⟩
  · have hassoc : before ++ e :: (mid ++ p :: after.concat x) =
        (before ++ e :: (mid ++ p :: after)) ++ [x] := by simp
    rw [hassoc] at hsplit
    obtain ⟨rfl, -⟩ := List.append_inj' hsplit rfl
    exact .inl ⟨before, e, mid, p, after, rfl, hfin, hmid, hp, hheld⟩

/-- Only a look touches the archive. -/
theorem archive_step (r : Recorder) {c : RecorderCall} (hc : c ≠ .persist) :
    (step vt r c).1.archive = r.archive := by
  cases c with
  | persist => exact absurd rfl hc
  | _ => rfl

/-- One orderly call. -/
theorem keeps_step (r : Recorder) (h : List Entry) (c : RecorderCall) (hk : Keeps vt r h)
    (hc : r.Orderly c) : Keeps vt (step vt r c).1 (h ++ [⟨r, c, (step vt r c).2⟩]) := by
  have hs : r.archive.Succeeds r.state.blocks (step vt r c).1.state.blocks :=
    succeeds_step hc hk.numbered
  have hnum := hs.evolves.numbered hk.numbered
  have hnext : r.state.blocks.nextId ≤ (step vt r c).1.state.blocks.nextId := hs.evolves.next_le
  have hended := hs.ended hk.ended
  have hkept := hk.kept.succeeds hs hk.numbered hk.mark
  -- A block that became finished keeps its end for as long as it is held.
  have hpending : ∀ id, Pending vt h id → id < (step vt r c).1.state.blocks.nextId ∧
      ∀ b' ∈ (step vt r c).1.state.blocks.blocks, b'.id = id → b'.endLine.isSome = true := by
    intro id hp
    obtain ⟨hlt, hend⟩ := hk.pending id hp
    refine ⟨lt_of_lt_of_le hlt hnext, fun b' hb' hid => ?_⟩
    obtain ⟨b, hb, hbid⟩ := List.mem_map.mp
      (hs.evolves.mem_of_lt (hid ▸ List.mem_map_of_mem hb') hlt)
    exact (hs.old b hb b' hb' (hid.trans hbid.symm)).1 (hend b hb hbid)
  have hissued : ∀ id, issued? vt ⟨r, c, (step vt r c).2⟩ = some id →
      id = r.state.blocks.nextId ∧ id < (step vt r c).1.state.blocks.nextId := by
    intro id hid
    unfold issued? at hid
    split at hid
    · next heq =>
      obtain rfl := Option.some.inj hid
      exact ⟨rfl, by rw [heq]; exact Nat.lt_succ_self _⟩
    · simp at hid
  refine
    { numbered := hnum
      mark := ?_
      ended := hended
      kept := ?_
      issued := ?_
      below := ?_
      pending := ?_
      due := ?_ }
  · by_cases hp : c = .persist
    · subst hp
      intro w hw
      obtain ⟨-, -, -, -, -, hraised⟩ := r.archive.persist_spec r.state.blocks
      rcases hraised w hw with hold | ⟨s, hs', rfl⟩
      · exact hk.mark w hold
      · obtain ⟨b, hb, _, hform⟩ := (Archive.mem_toStore hk.numbered.sorted).mp hs'
        rw [StoredBlock.id_fromBlock hform]
        exact hk.numbered.below b.id (List.mem_map_of_mem hb)
    · rw [archive_step r hp]
      exact fun w hw => lt_of_lt_of_le (hk.mark w hw) hnext
  · by_cases hp : c = .persist
    · subst hp
      exact hk.kept.persist hk.numbered.sorted
    · rw [archive_step r hp]
      exact hkept
  · rw [List.filterMap_append, List.pairwise_append]
    refine ⟨hk.issued, ?_, fun i hi j hj => ?_⟩
    · rw [List.filterMap_cons]
      split
      · exact List.Pairwise.nil
      · exact List.pairwise_singleton _ _
    · obtain ⟨f, hf, hj⟩ := List.mem_filterMap.mp hj
      obtain rfl := List.mem_singleton.mp hf
      rw [(hissued j hj).1]
      exact hk.below i hi
  · intro id hid
    rw [List.filterMap_append] at hid
    rcases List.mem_append.mp hid with hid | hid
    · exact lt_of_lt_of_le (hk.below id hid) hnext
    · obtain ⟨f, hf, hid⟩ := List.mem_filterMap.mp hid
      obtain rfl := List.mem_singleton.mp hf
      exact (hissued id hid).2
  · intro id hp
    rcases pending_snoc hp with hfin | ⟨_, hp⟩
    · obtain ⟨-, b, hb, hid, hf⟩ := hfin
      refine ⟨hid ▸ hnum.below b.id (List.mem_map_of_mem hb), fun b' hb' hid' => ?_⟩
      rw [BlockIndex.eq_of_id_eq hnum.sorted hb hb' (hid'.trans hid.symm)]
      exact hended b hb hf
    · exact hpending id hp
  · intro id hd
    rcases due_snoc hd with hd | ⟨hp, hpend, hheld⟩
    · obtain ⟨record, hrecord⟩ := hk.due id hd
      refine ⟨record, ?_⟩
      by_cases hp : c = .persist
      · subst hp
        show (id, record) ∈ (r.archive.persist r.state.blocks).handed
        rw [Archive.handed_persist]
        exact List.mem_append_left _ hrecord
      · rw [archive_step r hp]
        exact hrecord
    · -- The look finds the block with its end, so finished, so done.
      obtain rfl : c = .persist := hp
      obtain ⟨b, hb, hid⟩ := List.mem_map.mp hheld
      have hend := (hk.pending id hpend).2 b hb hid
      have hfin : b.state.isFinished = true := by
        cases hf : b.state.isFinished with
        | true => rfl
        | false =>
          rw [hc b hb hf] at hend
          simp at hend
      have hsome : (StoredBlock.fromBlock r.archive.run r.archive.session b).isSome = true :=
        StoredBlock.fromBlock_isSome.trans hfin
      obtain ⟨record, hform⟩ := Option.isSome_iff_exists.mp hsome
      have hview : r.archive.view r.state.blocks id = some (some record) :=
        (Archive.view_eq_some_iff hk.numbered.sorted).mpr ⟨b, hb, hid, hform⟩
      refine ⟨record, ?_⟩
      show (id, record) ∈ (r.archive.persist r.state.blocks).handed
      rw [Archive.handed_persist]
      exact HighWater.Kept.mem_collect hk.kept (Archive.mem_batch hk.numbered.sorted) hview

theorem keeps_new (cols rows scrollback run session : Nat) :
    Keeps vt (Recorder.new cols rows scrollback run session) [] where
  numbered := ⟨List.Pairwise.nil, fun x hx => absurd hx List.not_mem_nil⟩
  mark := fun w hw => by simp [Recorder.new] at hw
  ended := fun b hb => absurd hb List.not_mem_nil
  kept := HighWater.Kept.empty _
  issued := List.Pairwise.nil
  below := fun id hid => absurd hid List.not_mem_nil
  pending := by
    rintro id ⟨before, e, mid, hsplit, -⟩
    simp at hsplit
  due := by
    rintro id ⟨before, e, mid, p, after, hsplit, -⟩
    simp at hsplit

/-- What is kept comes to the law. -/
theorem Keeps.recorded {r : Recorder} {h : List Entry} (hk : Keeps vt r h) : Recorded vt h r where
  noReissue := hk.issued.imp fun hlt => ne_of_lt hlt
  handedOnce := by
    intro before e mid p after id hsplit hfin hmid hp hheld
    obtain ⟨record, hrecord⟩ := hk.due id ⟨before, e, mid, p, after, hsplit, hfin, hmid, hp, hheld⟩
    have honce := HighWater.Kept.once hk.kept hrecord
    refine ⟨record, ?_, fun b hb hid => ?_⟩
    · unfold Archive.handed at honce
      rw [List.filter_map] at honce
      have hsnd := congrArg (List.map Prod.snd) honce
      rw [List.map_map] at hsnd
      simpa [Function.comp_def] using hsnd
    · exact HighWater.Kept.same hk.kept _ hrecord _
        ((Archive.view_eq_some_iff hk.numbered.sorted).mpr ⟨b, hb, hid, rfl⟩)

/-- In every run whose calls are orderly no id is given twice and every
finished block still held at the next look is stored once, as it stays. -/
theorem recorded_run (vt : Vt) (cols rows scrollback run session : Nat) (calls : List RecorderCall)
    (horderly : Trace.Each (fun _ e => e.state.Orderly e.call)
      (Trace.run (step vt) (Recorder.new cols rows scrollback run session) calls).2) :
    Recorded vt (Trace.run (step vt) (Recorder.new cols rows scrollback run session) calls).2
      (Trace.run (step vt) (Recorder.new cols rows scrollback run session) calls).1 :=
  (Trace.run_invariant_of_each (I := Keeps vt) (keeps_new cols rows scrollback run session)
    (fun r h c hk hc => keeps_step r h c hk hc) calls horderly).recorded

/-! ## Two runs of a shell -/

/-- `OSC 133 ; kind BEL`. -/
def promptMark (kind : UInt8) : List UInt8 := [0x1b, 0x5d, 0x31, 0x33, 0x33, 0x3b, kind, 0x07]

/-- A prompt, a command that prints nothing, and a look. -/
def oneCommand : List RecorderCall :=
  feed asciiVt asciiVt.new (promptMark 0x41 ++ promptMark 0x43 ++ promptMark 0x44) ++ [.persist]

/-- Two commands, and RIS between them. -/
def resetBetween : List RecorderCall :=
  oneCommand ++ feed asciiVt asciiVt.new [0x1b, 0x63] ++ oneCommand

/-- The second command's block bears the id of the first, and is never
stored. -/
theorem not_recorded_resetBetween :
    ¬Recorded asciiVt (Trace.run (step asciiVt) (Recorder.new 4 2 10 7 1) resetBetween).2
      (Trace.run (step asciiVt) (Recorder.new 4 2 10 7 1) resetBetween).1 := by
  intro h
  have hids : (Trace.run (step asciiVt) (Recorder.new 4 2 10 7 1) resetBetween).2.filterMap
      (issued? asciiVt) = [0, 0] := by decide
  have hnodup := h.noReissue
  rw [hids] at hnodup
  exact absurd hnodup (by decide)

theorem recorded_run_two :
    Recorded asciiVt
      (Trace.run (step asciiVt) (Recorder.new 4 2 10 7 1) (oneCommand ++ oneCommand)).2
      (Trace.run (step asciiVt) (Recorder.new 4 2 10 7 1) (oneCommand ++ oneCommand)).1 :=
  recorded_run asciiVt 4 2 10 7 1 (oneCommand ++ oneCommand)
    (Trace.each_of_forall (by decide))

end Recorder

end Zesterm
