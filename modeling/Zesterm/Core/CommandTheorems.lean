/-
Zesterm.Core.CommandTheorems — what a terminal's blocks record of the
commands that ran.

Every step of a terminal keeps its index well formed and its finished
blocks as they are, but for one: a `C` marker on a block that has finished
starts its output again (`finish` has the guard that `beginOutput` lacks).
`NeverReopens` says of a run of actions that this does not happen in it,
and `blocks_kept` is what then holds of every run of a terminal.
-/
import Zesterm.Core.BlockTheorems
import Zesterm.Core.TerminalTheorems
import Zesterm.Core.AsciiVt

namespace Zesterm

namespace TermState

/-! ## One step -/

/-- The newest block, if there is one, has not finished. -/
def LastOpen (s : TermState) : Prop :=
  ∀ b, s.blocks.last = some b → b.state.isFinished = false

instance (s : TermState) : Decidable s.LastOpen :=
  decidable_of_iff ((s.blocks.last.all fun b => !b.state.isFinished) = true) (by
    unfold LastOpen
    cases s.blocks.last with
    | none => simp
    | some b => simp)

/-- Output begins only where the newest block has not finished. -/
def openGuards (reset : Prop) : Guards := { output := LastOpen, reset := reset }

/-- The line a block finishes on is never above its own prompt. -/
theorem promptLine_le_finishLine (s : TermState) (line : LineId) :
    ∀ b, s.blocks.last = some b → b.promptLine ≤ s.finishLine line := by
  intro b hb
  unfold finishLine
  rw [hb]
  exact le_max_right _ _

/-- What a block operation keeps, where output is guarded. -/
theorem blockStep_keeps {R : Prop} {s : TermState} {x : BlockIndex}
    (h : BlockStep (openGuards R) s x) (hwf : s.blocks.WellFormed) :
    x.WellFormed ∧ s.blocks.Frozen x := by
  cases h with
  | prompt _ cwd => exact hwf.beginPrompt _ cwd
  | output hG _ _ command => exact hwf.beginOutput _ command _ _ hG
  | finish _ exitCode => exact hwf.finish _ exitCode _ (s.promptLine_le_finishLine _)
  | evict _ _ _ =>
    obtain ⟨hsub, hn⟩ := s.blocks.evictBefore_sublist s.grid.oldestLineId
    exact hwf.of_sublist hsub hn
  | @erase first _ _ =>
    obtain ⟨hsub, hn⟩ := s.blocks.eraseScreen_sublist first
    exact hwf.of_sublist hsub hn
  | clear =>
    obtain ⟨hsub, hn⟩ := s.blocks.eraseScreen_sublist 0
    exact hwf.of_sublist hsub hn
  | reset => exact ⟨BlockIndex.wellFormed_empty, fun _ _ _ _ hb => by simp at hb⟩

/-- Without RIS, blocks come and go as a ledger's records do. -/
theorem blockStep_evolves {G : Guards} (hR : ¬ G.reset) {s : TermState} {x : BlockIndex}
    (h : BlockStep G s x) : s.blocks.Evolves x := by
  have hsub {y : BlockIndex} (hs : y.blocks.Sublist s.blocks.blocks)
      (hn : y.nextId = s.blocks.nextId) : s.blocks.Evolves y := by
    unfold BlockIndex.Evolves
    rw [hn]
    exact Ledger.Evolves.of_sublist (hs.map Block.id)
  cases h with
  | prompt _ cwd => exact BlockIndex.evolves_beginPrompt _ _ cwd
  | output _ _ _ command => exact BlockIndex.evolves_modifyLast _ _ fun _ => rfl
  | finish _ exitCode => exact BlockIndex.evolves_finish _ _ exitCode _
  | evict _ _ _ => exact hsub (s.blocks.evictBefore_sublist _).1 (s.blocks.evictBefore_sublist _).2
  | erase _ _ => exact hsub (s.blocks.eraseScreen_sublist _).1 (s.blocks.eraseScreen_sublist _).2
  | clear => exact hsub (s.blocks.eraseScreen_sublist 0).1 (s.blocks.eraseScreen_sublist 0).2
  | reset hreset => exact absurd hreset hR

end TermState

namespace BlockIndex

theorem Frozen.refl {x : BlockIndex} (h : x.WellFormed) : x.Frozen x := by
  intro b hb _ b' hb' heq
  rw [h.eq_of_id_eq hb hb' heq]
  exact Block.Records.refl b

/-- What is recorded stays recorded as long as ids are not used twice. -/
theorem Frozen.trans {x x' x'' : BlockIndex} (h : x.Frozen x') (h' : x'.Frozen x'')
    (hwf : x.WellFormed) (he : x.Evolves x') (he' : x'.Evolves x'') : x.Frozen x'' := by
  intro b hb hfin b'' hb'' heq
  have hbelow : b''.id < x.nextId := heq ▸ hwf.numbered.below b.id (List.mem_map_of_mem hb)
  have hmem : b''.id ∈ x'.ids :=
    he'.mem_of_lt (List.mem_map_of_mem hb'') (lt_of_lt_of_le hbelow he.next_le)
  obtain ⟨b', hb', hid⟩ := List.mem_map.mp hmem
  have hrec := h b hb hfin b' hb' (hid.trans heq)
  have hrec' := h' b' hb' (by rw [hrec.state]; exact hfin) b'' hb'' hid.symm
  exact ⟨hrec'.command.trans hrec.command, hrec'.outputLine.trans hrec.outputLine,
    hrec'.endLine.trans hrec.endLine, hrec'.state.trans hrec.state⟩

/-- What one index keeps of another: its records, and its numbering. -/
structure Keeps (x x' : BlockIndex) : Prop where
  wellFormed : x'.WellFormed
  frozen : x.Frozen x'
  evolves : x.Evolves x'

theorem Keeps.refl {x : BlockIndex} (h : x.WellFormed) : x.Keeps x :=
  ⟨h, Frozen.refl h, Ledger.Evolves.refl _ _⟩

theorem Keeps.trans {x x' x'' : BlockIndex} (hwf : x.WellFormed) (h : x.Keeps x')
    (h' : x'.Keeps x'') : x.Keeps x'' :=
  ⟨h'.wellFormed, h.frozen.trans h'.frozen hwf h.evolves h'.evolves, h.evolves.trans h'.evolves⟩

end BlockIndex

namespace TermState

theorem steps_keep {s s' : TermState} (h : s.Steps (openGuards False) s')
    (hwf : s.blocks.WellFormed) : s.blocks.Keeps s'.blocks := by
  refine h.keeps (P := fun u => s.blocks.Keeps u.blocks) (fun u u' hst hu => ?_)
    (BlockIndex.Keeps.refl hwf)
  rcases blocks_step hst with heq | hb
  · rw [heq]; exact hu
  · obtain ⟨hw, hf⟩ := blockStep_keeps hb hu.wellFormed
    exact hu.trans hwf ⟨hw, hf, blockStep_evolves id hb⟩

/-! ## One action -/

/-- An action that is not a `C` marker on a finished block. -/
def NoReopen (s : TermState) (a : Action) : Prop :=
  a.startsOutput = true → s.blockLine.isSome = true → s.LastOpen

instance (s : TermState) (a : Action) : Decidable (s.NoReopen a) :=
  inferInstanceAs (Decidable (_ → _ → _))

/-- RIS leaves no block behind. -/
theorem blocks_perform_reset (vt : Vt) (s : TermState) (a : Action) (h : a.isReset = true) :
    (s.perform vt a).blocks = {} := by
  cases a with
  | esc intermediates ignore byte =>
    have hbyte : byte.toNat = 0x63 := by simpa [Action.isReset] using h
    unfold perform escDispatch
    simp only [hbyte]
    rfl
  | _ => simp [Action.isReset] at h

/-- An action keeps an index well formed and its finished blocks as they
are. -/
theorem perform_keeps (vt : Vt) {s : TermState} {a : Action} (hopen : s.NoReopen a)
    (hwf : s.blocks.WellFormed) :
    (s.perform vt a).blocks.WellFormed ∧ s.blocks.Frozen (s.perform vt a).blocks := by
  by_cases hreset : a.isReset = true
  · rw [blocks_perform_reset vt s a hreset]
    exact ⟨BlockIndex.wellFormed_empty, fun _ _ _ _ hb => by simp at hb⟩
  · have hsteps : s.Steps (openGuards False) (s.perform vt a) :=
      steps_perform vt s a hopen fun h => absurd h hreset
    exact ⟨(steps_keep hsteps hwf).wellFormed, (steps_keep hsteps hwf).frozen⟩

/-- A `C` marker on the primary screen starts the newest block's output. -/
theorem blocks_perform_output (vt : Vt) {s : TermState} {a : Action} {line : LineId}
    (ha : a.startsOutput = true) (hline : s.blockLine = some line) :
    ∃ line' command, (s.perform vt a).blocks =
      s.blocks.beginOutput line' command s.nowMs s.inputAuthor := by
  have hmarker (params : List (List UInt8)) :
      ∃ line' command, (s.oscMarker params 0x43).blocks =
        s.blocks.beginOutput line' command s.nowMs s.inputAuthor := by
    unfold oscMarker blockOutputStart
    rw [hline]
    exact ⟨_, _, rfl⟩
  cases a with
  | osc params bell =>
    have hboth : ((oscText params 0).bind (parseUnsigned 65535) = some 133 ∨
        (oscText params 0).bind (parseUnsigned 65535) = some 633) ∧
          markerKind params = some 0x43 := by
      simpa [Action.startsOutput, startsOutput] using ha
    obtain ⟨hcode, hkind⟩ := hboth
    have hprompt : s.oscPrompt params = s.oscMarker params 0x43 := by
      unfold oscPrompt
      rw [hkind]
    have hvscode : s.oscVscode params = s.oscMarker params 0x43 := by
      unfold oscVscode
      rw [hkind]
      rfl
    unfold perform oscDispatch
    rcases hcode with hcode | hcode
    · simp only [hcode, hprompt]
      exact hmarker params
    · simp only [hcode, hvscode]
      exact hmarker params
  | _ => simp [Action.startsOutput] at ha

/-- The condition is exact: a `C` marker on a finished block always leaves
a block that runs and has an end. -/
theorem not_wellFormed_of_reopen (vt : Vt) {s : TermState} {a : Action}
    (hwf : s.blocks.WellFormed) (h : ¬ s.NoReopen a) : ¬ (s.perform vt a).blocks.WellFormed := by
  unfold NoReopen LastOpen at h
  push Not at h
  obtain ⟨ha, hline, b, hb, hfin⟩ := h
  obtain ⟨line, hline⟩ := Option.isSome_iff_exists.mp hline
  obtain ⟨line', command, heq⟩ := blocks_perform_output vt ha hline
  intro hwf'
  rw [heq] at hwf'
  obtain ⟨stop, hstop⟩ := Option.isSome_iff_exists.mp
    ((hwf.blocks b (BlockIndex.mem_of_last hb)).finished.mp (by simpa using hfin))
  have hlast := BlockIndex.last_modifyLast (f := fun b => { b with
    outputLine := some line', command := command, state := .running, startedMs := s.nowMs,
    author := s.inputAuthor }) hb
  have hbad := (hwf'.blocks _ (BlockIndex.mem_of_last hlast)).finished.mpr (by
    show b.endLine.isSome = true
    rw [hstop]
    rfl)
  simp [BlockState.isFinished] at hbad

/-- No action of a run reopens a finished block. -/
def NeverReopens (vt : Vt) : TermState → List Action → Prop
  | _, [] => True
  | s, a :: actions => s.NoReopen a ∧ NeverReopens vt (s.perform vt a) actions

instance decidableNeverReopens (vt : Vt) :
    ∀ (actions : List Action) (s : TermState), Decidable (NeverReopens vt s actions)
  | [], _ => isTrue trivial
  | a :: actions, s =>
    have := decidableNeverReopens vt actions (s.perform vt a)
    inferInstanceAs (Decidable (s.NoReopen a ∧ NeverReopens vt (s.perform vt a) actions))

theorem wellFormed_foldl (vt : Vt) :
    ∀ (actions : List Action) (s : TermState), NeverReopens vt s actions →
      s.blocks.WellFormed → (actions.foldl (perform vt) s).blocks.WellFormed
  | [], _, _, h => h
  | a :: actions, s, hopen, h =>
    wellFormed_foldl vt actions (s.perform vt a) hopen.2 (perform_keeps vt hopen.1 h).1

/-- The index is well formed after every action of a run exactly where none
reopens a finished block. -/
theorem wellFormed_run_iff (vt : Vt) (actions : List Action) :
    ∀ {s : TermState}, s.blocks.WellFormed →
      ((∀ n, ((actions.take n).foldl (perform vt) s).blocks.WellFormed) ↔
        NeverReopens vt s actions) := by
  induction actions with
  | nil => exact fun hwf => iff_of_true (fun n => by simpa using hwf) trivial
  | cons a actions ih =>
    intro s hwf
    by_cases ha : s.NoReopen a
    · rw [NeverReopens, and_iff_right ha, ← ih (perform_keeps vt ha hwf).1]
      refine ⟨fun h n => h (n + 1), fun h n => ?_⟩
      cases n with
      | zero => exact hwf
      | succ n => exact h n
    · exact iff_of_false (fun h => not_wellFormed_of_reopen vt hwf ha (h 1)) fun h => ha h.1

/-- The markers `A` and `D` of a block, and a `C` after them. -/
def markers : List Action :=
  [0x41, 0x44, 0x43].map fun b => .osc [[0x31, 0x33, 0x33], [b]] true

theorem wellFormed_run_markers :
    ¬ ∀ n, ((markers.take n).foldl (perform asciiVt)
      (Terminal.new asciiVt 4 2 1).state).blocks.WellFormed :=
  (not_congr (wellFormed_run_iff asciiVt markers BlockIndex.wellFormed_empty)).mpr (by decide)

theorem keeps_foldl (vt : Vt) :
    ∀ (actions : List Action) (s : TermState), NeverReopens vt s actions →
      (∀ a ∈ actions, a.isReset = false) → s.blocks.WellFormed →
      s.blocks.Keeps (actions.foldl (perform vt) s).blocks
  | [], _, _, _, h => BlockIndex.Keeps.refl h
  | a :: actions, s, hopen, hris, h => by
    have hsteps : s.Steps (openGuards False) (s.perform vt a) :=
      steps_perform vt s a hopen.1 fun ha => by rw [hris a (by simp)] at ha; simp at ha
    have hfirst := steps_keep hsteps h
    exact hfirst.trans h (keeps_foldl vt actions (s.perform vt a) hopen.2
      (fun b hb => hris b (by simp [hb])) hfirst.wellFormed)

theorem neverReopens_append (vt : Vt) :
    ∀ (xs ys : List Action) (s : TermState), NeverReopens vt s (xs ++ ys) →
      NeverReopens vt s xs ∧ NeverReopens vt (xs.foldl (perform vt) s) ys
  | [], _, _, h => ⟨trivial, h⟩
  | a :: xs, ys, s, h => by
    obtain ⟨hxs, hys⟩ := neverReopens_append vt xs ys (s.perform vt a) h.2
    exact ⟨⟨h.1, hxs⟩, hys⟩

end TermState

/-! ## Runs of a terminal -/

namespace Terminal

variable {vt : Vt}

/-- The actions a chunk of output comes to. -/
def actions (t : Terminal vt) (bytes : List UInt8) : List Action := (vt.advance t.parser bytes).2

/-- A call whose output reopens no finished block. -/
def Call.NeverReopens (t : Terminal vt) : Call → Prop
  | .advance bytes => TermState.NeverReopens vt t.state (t.actions bytes)
  | _ => True

/-- A call whose output has no RIS in it. -/
def Call.NoReset (t : Terminal vt) : Call → Prop
  | .advance bytes => ∀ a ∈ t.actions bytes, a.isReset = false
  | _ => True

/-- A call that reopens nothing keeps the index well formed. -/
theorem wellFormed_call {t : Terminal vt} {cols rows : Nat} (hs : t.state.Sound cols rows)
    (hwf : t.state.blocks.WellFormed) (c : Call) (hc : c.NeverReopens t) :
    (t.call c).state.blocks.WellFormed := by
  by_cases hq : c.isQuiet = true
  · rw [(draws_call t c hq).blocks]
    exact hwf
  · cases c with
    | advance bytes => exact TermState.wellFormed_foldl vt _ _ hc hwf
    | resize newCols newRows =>
      show (t.state.resize newCols newRows).blocks.WellFormed
      rw [TermState.blocks_resize]
      split
      · exact hwf
      · exact hwf.reanchor (Grid.monotone_resize t.state.grid newCols newRows t.state.template
          hs.primary.numbered).1
    | setBlockContext id context => exact (hwf.setContext id context).1
    | setPtyRestatesViewport => exact hwf
    | _ => exact absurd rfl hq

/-- A height change leaves the blocks alone. -/
theorem blocks_resize_height {t : Terminal vt} {cols rows : Nat} (hs : t.state.Sound cols rows)
    (newRows : Nat) :
    (t.resize t.state.grid.cols newRows).state.blocks = t.state.blocks := by
  have hpos := hs.primary.shape.cols_pos
  have hmap := (Grid.monotone_resize t.state.grid t.state.grid.cols newRows t.state.template
    hs.primary.numbered).2 (by omega)
  show (t.state.resize t.state.grid.cols newRows).blocks = _
  rw [TermState.blocks_resize, hmap]
  rfl

theorem keeps_call {t : Terminal vt} {cols rows : Nat} (hs : t.state.Sound cols rows)
    (hwf : t.state.blocks.WellFormed) (c : Call) (hopen : c.NeverReopens t)
    (hwidth : c.KeepsWidth t) (hris : c.NoReset t) :
    t.state.blocks.Keeps (t.call c).state.blocks := by
  by_cases hq : c.isQuiet = true
  · rw [(draws_call t c hq).blocks]
    exact BlockIndex.Keeps.refl hwf
  · cases c with
    | advance bytes => exact TermState.keeps_foldl vt _ _ hopen hris hwf
    | resize newCols newRows =>
      obtain rfl : newCols = t.state.grid.cols := hwidth
      rw [show t.call (.resize t.state.grid.cols newRows) = t.resize t.state.grid.cols newRows
        from rfl, blocks_resize_height hs]
      exact BlockIndex.Keeps.refl hwf
    | setBlockContext id context =>
      obtain ⟨hw, hf⟩ := hwf.setContext id context
      refine ⟨hw, hf, ?_⟩
      have hids : (t.state.blocks.setContext id context).ids = t.state.blocks.ids :=
        Storage.map_modify_of_eq Block.id
          (fun b => { b with context := if context.isEmpty then none else some context })
          (fun _ => rfl) _ _
      show Ledger.Evolves _ _ (t.state.blocks.setContext id context).ids _
      rw [hids]
      exact Ledger.Evolves.refl _ _
    | setPtyRestatesViewport => exact BlockIndex.Keeps.refl hwf
    | _ => exact absurd rfl hq

/-- A run in which no call reopens a finished block. -/
abbrev RunsOpen : Terminal vt → Terminal vt → Prop := Runs fun t c => c.NeverReopens t

theorem RunsOpen.wellFormed {t t' : Terminal vt} (h : t.RunsOpen t')
    (hs : ∃ cols rows, t.state.Sound cols rows) (hwf : t.state.blocks.WellFormed) :
    (∃ cols rows, t'.state.Sound cols rows) ∧ t'.state.blocks.WellFormed := by
  refine h.keeps (Q := fun u =>
    (∃ cols rows, u.state.Sound cols rows) ∧ u.state.blocks.WellFormed) (fun u c hc hu => ?_)
    ⟨hs, hwf⟩
  obtain ⟨⟨_, _, hu⟩, hwf⟩ := hu
  exact ⟨sound_call hu c, wellFormed_call hu hwf c hc⟩

/-- **What a terminal records of its commands.** In a run that reopens
nothing, at every terminal reached: ids ascend, a block is finished exactly
with an end, and no end stands before its prompt; the next action of any
output keeps every finished block; and so does every further run in which
the width stays and no RIS empties the index. -/
theorem blocks_kept {vt : Vt} (cols rows scrollback : Nat) (t : Terminal vt)
    (ht : (Terminal.new vt cols rows scrollback).RunsOpen t) :
    t.state.blocks.WellFormed ∧
    (∀ bytes before a after, t.actions bytes = before ++ a :: after →
      TermState.NeverReopens vt t.state (t.actions bytes) →
      (before.foldl (TermState.perform vt) t.state).blocks.WellFormed ∧
      (before.foldl (TermState.perform vt) t.state).blocks.Frozen
        ((before.foldl (TermState.perform vt) t.state).perform vt a).blocks) ∧
    ∀ t', Runs (fun u c => c.NeverReopens u ∧ c.KeepsWidth u ∧ c.NoReset u) t t' →
      t.state.blocks.Frozen t'.state.blocks := by
  obtain ⟨hs, hwf⟩ := ht.wellFormed ⟨_, _, sound_new cols rows scrollback⟩
    BlockIndex.wellFormed_empty
  refine ⟨hwf, fun bytes before a after heq hopen => ?_, fun t' h => ?_⟩
  · rw [heq] at hopen
    obtain ⟨hbefore, hafter⟩ := TermState.neverReopens_append vt before (a :: after) t.state hopen
    have hwf' := TermState.wellFormed_foldl vt before t.state hbefore hwf
    exact ⟨hwf', (TermState.perform_keeps vt hafter.1 hwf').2⟩
  · have hkept := h.keeps (Q := fun u => (∃ cols rows, u.state.Sound cols rows) ∧
      t.state.blocks.Keeps u.state.blocks) (fun u c hc hu => by
        obtain ⟨⟨_, _, hu⟩, hk⟩ := hu
        exact ⟨sound_call hu c, hk.trans hwf
          (keeps_call hu hk.wellFormed c hc.1 hc.2.1 hc.2.2)⟩)
      ⟨hs, BlockIndex.Keeps.refl hwf⟩
    exact hkept.2.frozen

/-- The markers of a command, a second `C` after its end. -/
def reopenBytes : List UInt8 :=
  [0x1b, 0x5d, 0x31, 0x33, 0x33, 0x3b, 0x41, 0x07, 0x1b, 0x5d, 0x31, 0x33, 0x33, 0x3b, 0x43, 0x07,
    0x1b, 0x5d, 0x31, 0x33, 0x33, 0x3b, 0x44, 0x3b, 0x30, 0x07]

/-- `C` once more. -/
def outputBytes : List UInt8 := [0x1b, 0x5d, 0x31, 0x33, 0x33, 0x3b, 0x43, 0x07]

/-- The block those markers leave, finished on the line it began on. -/
def doneBlock : Block :=
  { id := 0, promptLine := 0, outputLine := some 0, endLine := some 0, state := .finished (some 0),
    cwd := [] }

/-- After `A C D` a second `C` reopens the finished block: it runs again
and keeps its end. -/
theorem block_reopened :
    ((Terminal.new asciiVt 8 3 10).advance reopenBytes).Reachable ∧
      ¬ (((Terminal.new asciiVt 8 3 10).advance reopenBytes).advance
        outputBytes).state.blocks.WellFormed ∧
      ¬ ((Terminal.new asciiVt 8 3 10).advance reopenBytes).state.blocks.Frozen
        (((Terminal.new asciiVt 8 3 10).advance reopenBytes).advance
          outputBytes).state.blocks := by
  have hdone : ((Terminal.new asciiVt 8 3 10).advance reopenBytes).state.blocks =
      { blocks := [doneBlock], nextId := 1 } := by decide
  have hagain : (((Terminal.new asciiVt 8 3 10).advance reopenBytes).advance
      outputBytes).state.blocks =
        { blocks := [{ doneBlock with state := .running }], nextId := 1 } := by decide
  refine ⟨(Reachable.new 8 3 10).call (.advance reopenBytes), fun h => ?_, fun h => ?_⟩
  · rw [hagain] at h
    exact absurd ((h.blocks _ (List.mem_singleton.mpr rfl)).finished.mpr rfl) (by decide)
  · rw [hdone, hagain] at h
    have hrec := h doneBlock (List.mem_singleton.mpr rfl) rfl _ (List.mem_singleton.mpr rfl) rfl
    exact absurd hrec.state (by decide)

/-- A command's markers in their order keep the index well formed. -/
theorem blocks_kept_command :
    ((Terminal.new asciiVt 8 3 10).advance reopenBytes).state.blocks.WellFormed :=
  (blocks_kept 8 3 10 ((Terminal.new asciiVt 8 3 10).advance reopenBytes)
    (Runs.call (.advance reopenBytes) (by
      show TermState.NeverReopens asciiVt _ _
      decide) Runs.refl)).1

end Terminal

end Zesterm
