/-
Zesterm.Proto.BlockSyncTheorems — what a subscriber learns of the blocks a
clear on the host destroyed.

A look restates the blocks where the encoder misses one at or above the
floor of the host's index, so a block that a clear took is announced as
long as the floor stands at or below it. `forgets_iff` says that of one
look, `run_forgets_iff` of every look of a run, and `Lowers` names the
operations that keep the floor low enough: a clear that leaves only blocks
older than those it takes, and an eviction that leaves the floor below what
is still to be announced.
-/
import Zesterm.Core.FloorTheorems
import Zesterm.Core.RemoteTheorems
import Zesterm.Proto.Session

namespace Zesterm

/-! ## The client's blocks -/

namespace BlockIndex

theorem mem_map_upsertInto (b : Block) (id : BlockId) : ∀ bs : List Block,
    id ∈ (upsertInto b bs).map Block.id ↔ id = b.id ∨ id ∈ bs.map Block.id
  | [] => by simp [upsertInto]
  | c :: bs => by
    have ih := mem_map_upsertInto b id bs
    unfold upsertInto
    split
    · next heq => simp [heq]
    · split
      · simp
      · simp only [List.map_cons, List.mem_cons, ih]
        exact or_left_comm

theorem mem_ids_upsert (x : BlockIndex) (b : Block) (id : BlockId) :
    id ∈ (x.upsert b).ids ↔ id = b.id ∨ id ∈ x.ids := mem_map_upsertInto b id x.blocks

theorem mem_ids_foldl_upsert (id : BlockId) : ∀ (bs : List BlockPayload) (x : BlockIndex),
    id ∈ (bs.foldl (fun x b => x.upsert b.toBlock) x).ids ↔
      id ∈ bs.map BlockPayload.id ∨ id ∈ x.ids
  | [], x => by simp
  | b :: bs, x => by
    rw [List.foldl_cons, mem_ids_foldl_upsert id bs, mem_ids_upsert, List.map_cons, List.mem_cons,
      or_left_comm, or_assoc]
    rfl

theorem mem_ids_retainBelow (x : BlockIndex) (first id : BlockId) :
    id ∈ (x.retainBelow first).ids ↔ id ∈ x.ids ∧ id < first := by
  simp only [ids, retainBelow, List.mem_map, List.mem_filter, decide_eq_true_eq]
  constructor
  · rintro ⟨b, ⟨hb, hlt⟩, rfl⟩
    exact ⟨⟨b, hb, rfl⟩, hlt⟩
  · rintro ⟨⟨b, hb, rfl⟩, hlt⟩
    exact ⟨b, ⟨hb, hlt⟩, rfl⟩

/-- After a keyframe a client holds what it names, and its own blocks
below the floor. -/
theorem mem_ids_restate (x : BlockIndex) (k : Keyframe) (id : BlockId) :
    id ∈ (x.restate k).ids ↔
      id ∈ k.blocks.map BlockPayload.id ∨ id ∈ x.ids ∧ id < k.blocksFrom := by
  rw [restate, mem_ids_foldl_upsert, mem_ids_retainBelow]

theorem mem_ids_amend (x : BlockIndex) (d : Delta) (id : BlockId) :
    id ∈ (x.amend d).ids ↔ id ∈ d.blocks.map BlockPayload.id ∨ id ∈ x.ids :=
  mem_ids_foldl_upsert id d.blocks x

end BlockIndex

/-! ## The applier's blocks -/

namespace Applier

variable (a : Applier) (s : TermState)

theorem blocks_foldl {β : Type} (f : TermState → β → TermState)
    (hf : ∀ (s : TermState) b, (f s b).blocks = s.blocks) :
    ∀ (l : List β) (s : TermState), (l.foldl f s).blocks = s.blocks
  | [], _ => rfl
  | b :: l, s => (blocks_foldl f hf l (f s b)).trans (hf s b)

theorem blocks_writeMarks (row : Nat) : ∀ (runs : List Run) (base : Nat) (s : TermState),
    (writeMarks row runs base s).blocks = s.blocks
  | [], _, _ => rfl
  | run :: runs, base, s => by
    unfold writeMarks
    rw [blocks_writeMarks row runs]
    exact blocks_foldl _ (fun s m => RemoteWriter.blocks_pushMarks s row _ m.marks) run.marks s

@[simp] theorem blocks_writeRow (row : Nat) (payload : RowPayload) :
    (a.writeRow s row payload).1.blocks = s.blocks :=
  (blocks_writeMarks row payload.runs 0 _).trans (RemoteWriter.blocks_writeRow s row _ _ _)

@[simp] theorem blocks_writeRows (rows : List RowPayload) :
    (a.writeRows rows s).blocks = s.blocks :=
  blocks_foldl (fun s (p : RowPayload × Nat) => (a.writeRow s p.2 p.1).1)
    (fun s p => blocks_writeRow a s p.2 p.1) _ s

@[simp] theorem blocks_syncLines (line : Int) : (syncLines s line).blocks = s.blocks := by
  unfold syncLines
  split <;> simp

@[simp] theorem blocks_applyCursor (cursor : CursorState) :
    (applyCursor s cursor).blocks = s.blocks := by
  simp [applyCursor]

@[simp] theorem blocks_rebank (named : List LineId) (cleared : Bool) :
    (rebank s named cleared).blocks = s.blocks := by
  unfold rebank
  split
  · rfl
  · next first _ =>
    dsimp only
    generalize (if cleared then 0 else displaced s.activeGrid first) = n
    split <;> simp

theorem blocks_upserts (bs : List BlockPayload) (s : TermState) :
    (bs.foldl (fun s b => RemoteWriter.upsertBlock s b.toBlock) s).blocks =
      bs.foldl (fun x b => x.upsert b.toBlock) s.blocks := by
  induction bs generalizing s with
  | nil => rfl
  | cons b bs ih => exact ih (RemoteWriter.upsertBlock s b.toBlock)

/-- An applied keyframe restates the client's blocks, after the resize that
makes the screens of one size. -/
theorem blocks_applyKeyframe (k : Keyframe) (seq : Nat) :
    (a.applyKeyframe s k seq).2.blocks =
      (if s.activeGrid.cols ≠ k.cols ∨ s.activeGrid.rows ≠ k.rows then
        RemoteWriter.resize s k.cols k.rows else s).blocks.restate k := by
  have htitle (s : TermState) :
      (if k.title.isEmpty then s else RemoteWriter.setTitle s k.title).blocks = s.blocks := by
    split <;> rfl
  have hclear (s : TermState) (b : Bool) :
      (if b then RemoteWriter.clearHistory s else s).blocks = s.blocks := by
    split <;> rfl
  unfold applyKeyframe
  dsimp only
  show (TermState.blocks (ite _ _ _)) = _
  rw [htitle, blocks_upserts]
  show List.foldl _ ((TermState.blocks _).retainBelow k.blocksFrom) _ = _
  rw [blocks_applyCursor, blocks_syncLines, blocks_writeRows, blocks_rebank, hclear,
    RemoteWriter.blocks_setModes]
  rfl

end Applier

/-! ## The encoder's blocks -/

namespace Encoder

/-- What is met in a list stands in it, and what is left of the list is
part of it. -/
theorem mergeId_spec (id : BlockId) : ∀ xs : List BlockId,
    ((mergeId id xs).1 = true → id ∈ xs) ∧ (mergeId id xs).2 ⊆ xs
  | [] => by simp [mergeId]
  | x :: xs => by
    obtain ⟨hmet, hrest⟩ := mergeId_spec id xs
    unfold mergeId
    split
    · exact ⟨fun h => List.mem_cons_of_mem x (hmet h), fun y hy => List.mem_cons_of_mem x (hrest hy)⟩
    · split
      · next heq => exact ⟨fun _ => by simp [heq], fun y hy => List.mem_cons_of_mem x hy⟩
      · exact ⟨by simp, List.Subset.refl _⟩

theorem mem_of_not_anyMissing : ∀ {ids fresh : List BlockId}, anyMissing ids fresh = false →
    ∀ id ∈ ids, id ∈ fresh
  | [], _, _, id, h => by simp at h
  | i :: ids, fresh, hm, id, h => by
    obtain ⟨hmet, hrest⟩ := mergeId_spec i fresh
    simp only [anyMissing, Bool.or_eq_false_iff, Bool.not_eq_false'] at hm
    rcases List.mem_cons.mp h with rfl | h
    · exact hmet hm.1
    · exact hrest (mem_of_not_anyMissing hm.2 id h)

/-- The ids a subscriber was last told of. -/
def seenIds (e : Encoder) : List BlockId := e.seenBlocks.map BlockPayload.id

/-- Without a keyframe, the host still holds every block at or above its
floor that the subscriber was told of. -/
theorem mem_ids_of_not_needKeyframe {e : Encoder} {blocks : BlockIndex}
    (h : e.blocksNeedKeyframe blocks = false) {id : BlockId} (hid : id ∈ e.seenIds)
    (hle : blocks.authoritativeFrom ≤ id) : id ∈ blocks.ids := by
  refine mem_of_not_anyMissing h id ?_
  obtain ⟨o, ho, rfl⟩ := List.mem_map.mp hid
  exact List.mem_map_of_mem (List.mem_filter.mpr ⟨ho, decide_eq_true hle⟩)

theorem changedBlocks_subset : ∀ old fresh : List BlockPayload, changedBlocks old fresh ⊆ fresh
  | _, [] => by simp [changedBlocks]
  | old, b :: fresh => by
    have hcons {l : List BlockPayload} (hl : l ⊆ fresh) : b :: l ⊆ b :: fresh :=
      List.cons_subset_cons b hl
    have hskip {l : List BlockPayload} (hl : l ⊆ fresh) : l ⊆ b :: fresh :=
      List.Subset.trans hl (List.subset_cons_self b fresh)
    unfold changedBlocks
    split
    · exact hcons (changedBlocks_subset [] fresh)
    · split
      · split
        · exact hskip (changedBlocks_subset _ fresh)
        · exact hcons (changedBlocks_subset _ fresh)
      · exact hcons (changedBlocks_subset _ fresh)

variable (e : Encoder) (grid : Grid) (cursor : CursorState) (modes : Modes) (title : Str)
  (blocks : BlockIndex)

theorem map_fromBlock_id : (blocks.blocks.map BlockPayload.fromBlock).map BlockPayload.id =
    blocks.ids := by
  rw [List.map_map]
  rfl

/-- A keyframe names every block of the host. -/
theorem blocks_keyframe :
    (e.keyframe grid cursor modes title blocks).1.blocks.map BlockPayload.id = blocks.ids :=
  map_fromBlock_id blocks

theorem seenIds_keyframe : (e.keyframe grid cursor modes title blocks).2.seenIds = blocks.ids :=
  map_fromBlock_id blocks

theorem seenIds_delta : (e.delta grid cursor modes title blocks).2.seenIds = blocks.ids :=
  map_fromBlock_id blocks

/-- A delta names blocks of the host only. -/
theorem blocks_delta_subset :
    (e.delta grid cursor modes title blocks).1.blocks.map BlockPayload.id ⊆ blocks.ids := by
  intro id hid
  obtain ⟨b, hb, rfl⟩ := List.mem_map.mp hid
  rw [← map_fromBlock_id blocks]
  exact List.mem_map_of_mem (changedBlocks_subset _ _ hb)

end Encoder

/-! ## One look -/

namespace BlockSession

/-- The client holds no block that a clear destroyed. -/
def Forgets (s : BlockSession) : Prop := ∀ id ∈ s.client.ids, id ∉ s.destroyed

/-- The floor stands at or below every destroyed block the client holds. -/
def Announces (s : BlockSession) : Prop :=
  ∀ id ∈ s.client.ids, id ∈ s.destroyed → s.host.authoritativeFrom ≤ id

/-- What a destroyed block is: an old one, not of the host's any more. -/
structure Sound (s : BlockSession) : Prop where
  floored : s.host.Floored
  client : ∀ id ∈ s.client.ids, id < s.host.nextId
  destroyed : ∀ id ∈ s.destroyed, id < s.host.nextId ∧ id ∉ s.host.ids

/-- The subscriber was told of every block its client holds, but for those
that left the host otherwise than by a clear. -/
def Told (s : BlockSession) : Prop :=
  ∀ id ∈ s.client.ids, id ∈ s.host.ids ∨ id ∈ s.destroyed → id ∈ s.encoder.seenIds

variable {s : BlockSession} {grid : Grid} {cursor : CursorState} {modes : Modes} {title : Str}
variable (moves : List BlockMove)

theorem look_host : (s.look grid cursor modes title).host = s.host := by
  unfold look
  split <;> rfl

theorem look_destroyed : (s.look grid cursor modes title).destroyed = s.destroyed := by
  unfold look
  split <;> rfl

theorem look_seenIds : (s.look grid cursor modes title).encoder.seenIds = s.host.ids := by
  unfold look
  split
  · exact Encoder.seenIds_keyframe _ _ _ _ _ _
  · exact Encoder.seenIds_delta _ _ _ _ _ _

/-- What a client holds after a look is the host's, or was its own. -/
theorem mem_look {id : BlockId} (h : id ∈ (s.look grid cursor modes title).client.ids) :
    id ∈ s.host.ids ∨ id ∈ s.client.ids := by
  unfold look at h
  split at h
  · rcases (BlockIndex.mem_ids_restate _ _ id).mp h with hid | hid
    · rw [Encoder.blocks_keyframe] at hid
      exact Or.inl hid
    · exact Or.inr hid.1
  · rcases (BlockIndex.mem_ids_amend _ _ id).mp h with hid | hid
    · exact Or.inl (Encoder.blocks_delta_subset _ _ _ _ _ _ hid)
    · exact Or.inr hid

theorem Sound.look (h : s.Sound) : (s.look grid cursor modes title).Sound := by
  refine ⟨?_, fun id hid => ?_, ?_⟩
  · rw [look_host]
    exact h.floored
  · rw [look_host]
    rcases mem_look hid with hid | hid
    · exact h.floored.numbered.below id hid
    · exact h.client id hid
  · rw [look_host, look_destroyed]
    exact h.destroyed

/-- A look that leaves no destroyed block has told the client of all. -/
theorem told_look (hf : (s.look grid cursor modes title).Forgets) :
    (s.look grid cursor modes title).Told := by
  intro id hid hor
  rw [look_seenIds]
  rcases hor with hhost | hgone
  · rwa [look_host] at hhost
  · exact absurd hgone (hf id hid)

/-- Exactly when a look rids the client of what a clear destroyed. -/
theorem forgets_iff (hs : s.Sound) (ht : s.Told) :
    (s.look grid cursor modes title).Forgets ↔ s.Announces := by
  have hkept (hno : s.encoder.blocksNeedKeyframe s.host = false) {id : BlockId}
      (hid : id ∈ s.client.ids) : id ∈ (s.look grid cursor modes title).client.ids := by
    unfold BlockSession.look
    rw [if_neg (by simp [hno])]
    exact (BlockIndex.mem_ids_amend _ _ id).mpr (Or.inr hid)
  have hbelow {id : BlockId} (hid : id ∈ s.client.ids) (hlt : id < s.host.authoritativeFrom) :
      id ∈ (s.look grid cursor modes title).client.ids := by
    by_cases hneed : s.encoder.blocksNeedKeyframe s.host = true
    · unfold BlockSession.look
      rw [if_pos hneed]
      exact (BlockIndex.mem_ids_restate _ _ id).mpr (Or.inr ⟨hid, hlt⟩)
    · exact hkept (by simpa using hneed) hid
  constructor
  · intro hf id hid hgone
    by_contra hlt
    have := hf id (hbelow hid (not_le.mp hlt))
    rw [look_destroyed] at this
    exact this hgone
  · intro ha id hid hgone
    rw [look_destroyed] at hgone
    have hnot := (hs.destroyed id hgone).2
    by_cases hneed : s.encoder.blocksNeedKeyframe s.host = true
    · -- A keyframe leaves only what is below the floor.
      unfold BlockSession.look at hid
      rw [if_pos hneed] at hid
      rcases (BlockIndex.mem_ids_restate _ _ id).mp hid with hid | ⟨hid, hlt⟩
      · rw [Encoder.blocks_keyframe] at hid
        exact hnot hid
      · exact absurd (ha id hid hgone) (not_le.mpr hlt)
    · -- A delta was taken because none at or above the floor is missing.
      rcases mem_look hid with hid | hid
      · exact hnot hid
      · exact hnot (Encoder.mem_ids_of_not_needKeyframe (by simpa using hneed)
          (ht id hid (Or.inr hgone)) (ha id hid hgone))

/-! ## The host's moves -/

theorem mem_destroyed_step {op : IndexOp} {id : BlockId}
    (h : id ∈ (s.step (.host op)).destroyed) :
    id ∈ s.destroyed ∨ id ∈ s.host.ids ∧ id ∉ (op.apply s.host).ids := by
  unfold step at h
  dsimp only at h
  split at h
  · rcases List.mem_append.mp h with h | h
    · exact Or.inl h
    · exact Or.inr (by simpa using h)
  · exact Or.inl h

theorem Sound.host (h : s.Sound) (op : IndexOp) : (s.step (.host op)).Sound := by
  have he := s.host.evolves_apply op
  refine ⟨h.floored.apply op, fun id hid => lt_of_lt_of_le (h.client id hid) he.next_le,
    fun id hid => ?_⟩
  rcases mem_destroyed_step hid with hold | ⟨hheld, hgone⟩
  · obtain ⟨hlt, hnot⟩ := h.destroyed id hold
    exact ⟨lt_of_lt_of_le hlt he.next_le, fun hmem => hnot (he.mem_of_lt hmem hlt)⟩
  · exact ⟨lt_of_lt_of_le (h.floored.numbered.below id hheld) he.next_le, hgone⟩

theorem told_host (h : s.Sound) (ht : s.Told) (op : IndexOp) : (s.step (.host op)).Told := by
  intro id hid hor
  refine ht id hid ?_
  rcases hor with hmem | hgone
  · exact Or.inl ((s.host.evolves_apply op).mem_of_lt hmem (h.client id hid))
  · rcases mem_destroyed_step hgone with hold | ⟨hheld, _⟩
    · exact Or.inr hold
    · exact Or.inl hheld

theorem Sound.step (h : s.Sound) (m : BlockMove) : (s.step m).Sound := by
  cases m with
  | host op => exact h.host op
  | look grid cursor modes title => exact h.look

/-! ## A whole run -/

theorem run_succ {n : Nat} {m : BlockMove} (h : moves[n]? = some m) :
    run (moves.take (n + 1)) = (run (moves.take n)).step m := by
  unfold run
  rw [List.take_add_one, h, List.foldl_append]
  rfl

theorem sound_run : (run moves).Sound := by
  induction moves using List.reverseRecOn with
  | nil => exact ⟨BlockIndex.floored_empty, by simp [run, BlockIndex.ids], by simp [run]⟩
  | append_singleton moves m ih =>
    unfold run at ih ⊢
    rw [List.foldl_append]
    exact ih.step m

/-- A run whose looks all rid the client of what was destroyed has told it
of all it holds. -/
theorem told_run (n : Nat)
    (hall : ∀ i grid cursor modes title, i < n → moves[i]? = some (.look grid cursor modes title) →
      (run (moves.take (i + 1))).Forgets) : (run (moves.take n)).Told := by
  induction n with
  | zero => intro id hid; simp [run, BlockIndex.ids] at hid
  | succ n ih =>
    have ih := ih fun i grid cursor modes title hi => hall i grid cursor modes title (by omega)
    cases hm : moves[n]? with
    | none =>
      rw [List.take_add_one, hm]
      simpa using ih
    | some m =>
      rw [run_succ moves hm]
      cases m with
      | host op => exact told_host (sound_run _) ih op
      | look grid cursor modes title =>
        have hf := hall n grid cursor modes title (Nat.lt_succ_self n) hm
        rw [run_succ moves hm] at hf
        exact told_look hf

/-- Every look of a run rids the client of what was destroyed exactly when
at each of them the floor stands low enough to announce it. -/
theorem run_forgets_iff (moves : List BlockMove) :
    (∀ n grid cursor modes title, moves[n]? = some (.look grid cursor modes title) →
      (run (moves.take (n + 1))).Forgets) ↔
    ∀ n grid cursor modes title, moves[n]? = some (.look grid cursor modes title) →
      (run (moves.take n)).Announces := by
  constructor
  · intro hall n grid cursor modes title hm
    have hf := hall n grid cursor modes title hm
    rw [run_succ moves hm] at hf
    exact (forgets_iff (sound_run _) (told_run moves n fun i g c m t _ => hall i g c m t)).mp hf
  · intro hann n
    induction n using Nat.strong_induction_on with
    | _ n ih =>
      intro grid cursor modes title hm
      rw [run_succ moves hm]
      exact (forgets_iff (sound_run _) (told_run moves n fun i g c m t hi => ih i hi g c m t)).mpr
        (hann n grid cursor modes title hm)

/-! ## What keeps the floor low enough -/

/-- A host's move that leaves the floor at or below what is still to be
announced: a clear leaves only blocks older than those it takes, and an
eviction leaves a block older than every destroyed one the client holds, or
has none but such to take. -/
def Lowers (s : BlockSession) : IndexOp → Prop
  | .clearScreen first => ∀ id ∈ (s.host.eraseScreen first).ids,
      ∀ gone ∈ s.host.ids, gone ∉ (s.host.eraseScreen first).ids → id < gone
  | .evictBefore oldest => ∀ gone ∈ s.client.ids, gone ∈ s.destroyed →
      (∃ b ∈ s.host.blocks, ¬ IndexRun.Goes oldest b ∧ b.id < gone) ∨
        ∀ b ∈ s.host.blocks, IndexRun.Goes oldest b ∧ b.id < gone
  | _ => True

/-- A clear that leaves only blocks older than `gone` announces it. -/
theorem eraseScreen_floor_le_gone {x : BlockIndex} {first : LineId} {gone : BlockId}
    (hheld : gone ∈ x.ids) (hgone : gone ∉ (x.eraseScreen first).ids)
    (hleft : ∀ id ∈ (x.eraseScreen first).ids, id < gone) :
    (x.eraseScreen first).authoritativeFrom ≤ gone := by
  cases hlast : (x.eraseScreen first).last with
  | none =>
    have hne : x.blocks ≠ [] := fun h => by simp [BlockIndex.ids, h] at hheld
    rw [BlockIndex.eraseScreen_floor_none hne (List.getLast?_eq_none_iff.mp hlast)]
    exact Nat.zero_le _
  | some b =>
    rcases BlockIndex.eraseScreen_floor_some hlast with hsame | hmin
    · rw [hsame] at hgone
      exact absurd hheld hgone
    · rw [hmin]
      exact (min_le_right _ _).trans
        (hleft b.id (List.mem_map_of_mem (BlockIndex.mem_of_last hlast)))

/-- A history clear takes every block, and drops the floor to zero. -/
theorem clearHistory_floor {x : BlockIndex} (hne : x.blocks ≠ []) (first : Option LineId) :
    ((IndexOp.clearHistory first).apply x).authoritativeFrom = 0 := by
  have hall (y : BlockIndex) : (y.eraseScreen 0).blocks = [] := by
    simp [BlockIndex.blocks_eraseScreen]
  cases first with
  | none => exact BlockIndex.eraseScreen_floor_none hne (hall x)
  | some first =>
    by_cases hleft : (x.eraseScreen first).blocks = []
    · have hzero := BlockIndex.eraseScreen_floor_none hne hleft
      exact Nat.le_zero.mp (hzero ▸ BlockIndex.eraseScreen_floor_le (x.eraseScreen first) 0)
    · exact BlockIndex.eraseScreen_floor_none hleft (hall _)

theorem evictBefore_floor_le_gone {x : BlockIndex} (h : x.Floored) {oldest : LineId}
    {gone : BlockId} (hfloor : x.authoritativeFrom ≤ gone)
    (hleft : (∃ b ∈ x.blocks, ¬ IndexRun.Goes oldest b ∧ b.id < gone) ∨
      ∀ b ∈ x.blocks, IndexRun.Goes oldest b ∧ b.id < gone) :
    (x.evictBefore oldest).authoritativeFrom ≤ gone := by
  rcases hleft with ⟨b, hb, hkept, hlt⟩ | hall
  · have hmem := IndexRun.mem_evictBefore.mpr ⟨hb, hkept⟩
    exact ((h.evictBefore oldest).floor_le b.id (List.mem_map_of_mem hmem)).trans hlt.le
  · cases hn : x.last with
    | none =>
      unfold BlockIndex.evictBefore
      rwa [hn]
    | some newest =>
      have hnone : (x.evictBefore oldest).blocks.head? = none := by
        rw [List.head?_eq_none_iff]
        refine List.eq_nil_iff_forall_not_mem.mpr fun b hb => ?_
        obtain ⟨hold, hkept⟩ := IndexRun.mem_evictBefore.mp hb
        exact hkept (hall b hold).1
      rw [BlockIndex.evictBefore_floor_none h oldest hn hnone]
      exact (hall newest (BlockIndex.mem_of_last hn)).2

/-- Such a move leaves every destroyed block the client holds to be
announced. -/
theorem announces_host (hs : s.Sound) (ha : s.Announces) {op : IndexOp} (hl : s.Lowers op) :
    (s.step (.host op)).Announces := by
  have hsame (hd : op.destroys = false)
      (hf : ∀ gone ∈ s.client.ids, gone ∈ s.destroyed →
        (op.apply s.host).authoritativeFrom ≤ gone) : (s.step (.host op)).Announces := by
    intro gone hheld hgone
    simp only [step, hd, Bool.false_eq_true, if_false] at hgone
    exact hf gone hheld hgone
  cases op with
  | beginPrompt line cwd =>
    refine hsame rfl fun gone hheld hgone => ?_
    have : (s.host.beginPrompt line cwd).authoritativeFrom = s.host.authoritativeFrom := by
      unfold BlockIndex.beginPrompt
      dsimp only
      split
      · split <;> rfl
      · rfl
    exact this ▸ ha gone hheld hgone
  | beginOutput | finish | setContext => exact hsame rfl ha
  | evictBefore oldest =>
    exact hsame rfl fun gone hheld hgone =>
      evictBefore_floor_le_gone hs.floored (ha gone hheld hgone) (hl gone hheld hgone)
  | reanchor reindex =>
    refine hsame rfl fun gone hheld hgone => ?_
    have : (s.host.reanchor reindex).authoritativeFrom = s.host.authoritativeFrom := by
      unfold BlockIndex.reanchor
      split <;> rfl
    exact this ▸ ha gone hheld hgone
  | clearScreen first =>
    intro gone hheld hgone
    rcases mem_destroyed_step hgone with hold | ⟨hhost, hnot⟩
    · exact (BlockIndex.eraseScreen_floor_le s.host first).trans (ha gone hheld hold)
    · exact eraseScreen_floor_le_gone hhost hnot fun id hid => hl id hid gone hhost hnot
  | clearHistory first =>
    intro gone hheld hgone
    by_cases hne : s.host.blocks = []
    · rcases mem_destroyed_step hgone with hold | ⟨hhost, _⟩
      · refine LE.le.trans ?_ (ha gone hheld hold)
        cases first with
        | none => exact BlockIndex.eraseScreen_floor_le s.host 0
        | some first =>
          exact (BlockIndex.eraseScreen_floor_le (s.host.eraseScreen first) 0).trans
            (BlockIndex.eraseScreen_floor_le s.host first)
      · simp [BlockIndex.ids, hne] at hhost
    · show ((IndexOp.clearHistory first).apply s.host).authoritativeFrom ≤ gone
      rw [clearHistory_floor hne]
      exact Nat.zero_le _

/-- In a run of such moves every look rids the client of what a clear
destroyed. -/
theorem run_forgets (hl : ∀ n op, moves[n]? = some (.host op) → (run (moves.take n)).Lowers op) :
    ∀ n grid cursor modes title, moves[n]? = some (.look grid cursor modes title) →
      (run (moves.take (n + 1))).Forgets := by
  have hinv (n : Nat) : (run (moves.take n)).Told ∧ (run (moves.take n)).Announces := by
    induction n with
    | zero => exact ⟨fun id hid => by simp [run, BlockIndex.ids] at hid,
        fun id hid => by simp [run, BlockIndex.ids] at hid⟩
    | succ n ih =>
      cases hm : moves[n]? with
      | none =>
        rw [List.take_add_one, hm]
        simpa using ih
      | some m =>
        rw [run_succ moves hm]
        cases m with
        | host op =>
          exact ⟨told_host (sound_run _) ih.1 op,
            announces_host (sound_run _) ih.2 (hl n op hm)⟩
        | look grid cursor modes title =>
          have hf : ((run (moves.take n)).look grid cursor modes title).Forgets :=
            (forgets_iff (sound_run _) ih.1).mpr ih.2
          exact ⟨told_look hf, fun id hid hgone => absurd hgone (hf id hid)⟩
  intro n grid cursor modes title hm
  rw [run_succ moves hm]
  exact (forgets_iff (sound_run _) (hinv n).1).mpr (hinv n).2

/-! ## Where it does not -/

/-- A look at a terminal. -/
def lookAt (t : Terminal asciiVt) : BlockMove :=
  .look t.state.activeGrid (cursorOf t.state) t.state.modes t.state.title

/-- A 4×2 terminal with one line of scrollback: a finished block in it, a
finished one and an open one on the screen. -/
def threeBlocks : Terminal asciiVt :=
  (Terminal.new asciiVt 4 2 1).advance
    [0x1b, 0x5d, 0x31, 0x33, 0x33, 0x3b, 0x41, 0x07, 0x1b, 0x5d, 0x31, 0x33, 0x33, 0x3b, 0x44, 0x07,
      0x0d, 0x0a, 0x1b, 0x5d, 0x31, 0x33, 0x33, 0x3b, 0x41, 0x07, 0x1b, 0x5d, 0x31, 0x33, 0x33, 0x3b,
      0x44, 0x07, 0x0d, 0x0a, 0x1b, 0x5d, 0x31, 0x33, 0x33, 0x3b, 0x41, 0x07]

/-- ED 2, a new prompt, and a scroll that evicts the oldest block. -/
def clearedBlocks : Terminal asciiVt :=
  threeBlocks.advance
    [0x1b, 0x5b, 0x32, 0x4a, 0x1b, 0x5d, 0x31, 0x33, 0x33, 0x3b, 0x41, 0x07, 0x0d, 0x0a]

/-- A clear that leaves no block. -/
theorem run_forgets_cleared :
    (run [.host (.beginPrompt 0 []), lookAt threeBlocks, .host (.clearScreen 0),
      lookAt clearedBlocks]).Forgets := by
  refine run_forgets [.host (.beginPrompt 0 []), lookAt threeBlocks, .host (.clearScreen 0),
    lookAt clearedBlocks] (fun n op hm => ?_) 3 _ _ _ _ rfl
  rcases n with _ | _ | _ | _ | n <;> simp [lookAt] at hm <;> subst hm
  · trivial
  · intro id hid
    exact absurd hid (by decide +revert)

/-- The same as block operations, with a look before and after. -/
def clearedMoves : List BlockMove :=
  [.host (.beginPrompt 0 []), .host (.finish 0 none none), .host (.beginPrompt 1 []),
    .host (.finish 1 none none), .host (.beginPrompt 2 []), lookAt threeBlocks,
    .host (.clearScreen 1), .host (.beginPrompt 2 []), .host (.evictBefore 1), lookAt clearedBlocks]

/-- The clear destroyed blocks 1 and 2 and the eviction of block 0 lifts
the floor to block 3: the second look is a delta and the client keeps
both. -/
theorem run_not_forgets :
    clearedBlocks.state.blocks = (run clearedMoves).host ∧
      (run clearedMoves).destroyed = [1, 2] ∧ (run clearedMoves).client.ids = [0, 1, 2, 3] ∧
      ¬ ∀ n grid cursor modes title, clearedMoves[n]? = some (.look grid cursor modes title) →
        (run (clearedMoves.take (n + 1))).Forgets := by
  have hgone : (run clearedMoves).destroyed = [1, 2] := by decide
  have hheld : (run clearedMoves).client.ids = [0, 1, 2, 3] := by decide
  refine ⟨by decide, hgone, hheld, fun hall => ?_⟩
  have hf : (run clearedMoves).Forgets := hall 9 _ _ _ _ rfl
  exact hf 1 (by rw [hheld]; simp) (by rw [hgone]; simp)

/-- A clear that no eviction follows is announced at the next look. -/
theorem run_forgets_clear :
    (run [.host (.beginPrompt 0 []), lookAt threeBlocks, .host (.clearScreen 0),
      lookAt clearedBlocks]).Forgets := by
  refine (run_forgets_iff [.host (.beginPrompt 0 []), lookAt threeBlocks, .host (.clearScreen 0),
    lookAt clearedBlocks]).mpr (fun n grid cursor modes title hm => ?_) 3 _ _ _ _ rfl
  match n with
  | 0 => simp at hm
  | 1 =>
    intro id hid
    simp [run, step, BlockIndex.ids] at hid
  | 2 => simp at hm
  | 3 =>
    have hfloor : (run [.host (.beginPrompt 0 []), lookAt threeBlocks,
        .host (.clearScreen 0)]).host.authoritativeFrom = 0 := by decide
    intro id _ _
    exact hfloor ▸ Nat.zero_le id
  | n + 4 => simp at hm

end BlockSession

end Zesterm
