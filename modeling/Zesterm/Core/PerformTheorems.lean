/-
Zesterm.Core.PerformTheorems — what one action of the escape parser can do
to a terminal's two screens and its blocks.

`TermState.Step` lists it once: drawing, entering and leaving the
alternate screen, ED 3, and the block operations, each with the data the
terminal calls it with. `steps_perform` says that every action is a path
of such steps, so that every invariant of a running terminal is proved
from the five kinds of step alone.

Two block operations come from one action each: a command's output begins
on a `C` marker, and the index is emptied by RIS. A path carries `Guards`
for the two, conditions under which its steps may take them, so that a run
without RIS, or without a `C` where it does harm, has paths without them.
-/
import Zesterm.Core.TermTheorems
import Mathlib.Logic.Relation

namespace Zesterm

namespace TermState

/-! ## Everything an action can do -/

/-- When a path may begin a command's output, and whether it may reset. -/
structure Guards where
  output : TermState → Prop
  reset : Prop

/-- No condition at all. -/
def Guards.any : Guards := { output := fun _ => True, reset := True }

variable {G : Guards}

/-- The block operations of a terminal, each with the lines the terminal
calls it with. -/
inductive BlockStep (G : Guards) (s : TermState) : BlockIndex → Prop where
  | prompt {line : LineId} (h : s.blockLine = some line) (cwd : Str) :
      BlockStep G s (s.blocks.beginPrompt line cwd)
  | output {line line' : LineId} (hG : G.output s) (h : s.blockLine = some line)
      (hl : line' = line ∨ line' = line + 1) (command : Str) :
      BlockStep G s (s.blocks.beginOutput line' command s.nowMs s.inputAuthor)
  | finish {line : LineId} (h : s.blockLine = some line) (exitCode : Option Int) :
      BlockStep G s (s.blocks.finish (s.finishLine line) exitCode s.nowMs)
  | evict {b : Block} {stop : LineId} (h : s.blocks.blocks.head? = some b)
      (hb : b.endLine = some stop) (hlt : stop < s.grid.oldestLineId) :
      BlockStep G s (s.blocks.evictBefore s.grid.oldestLineId)
  | erase {first : LineId} (hs : s.altGrid = none) (h : s.grid.activeLineIdAt 0 = some first) :
      BlockStep G s (s.blocks.eraseScreen first)
  | clear : BlockStep G s (s.blocks.eraseScreen 0)
  | reset (hR : G.reset) : BlockStep G s {}

/-- One step of a terminal. -/
inductive Step (G : Guards) : TermState → TermState → Prop where
  | draw {s s' : TermState} (h : s.Draws s') : Step G s s'
  | block {s s' : TermState} (h : BlockStep G s s'.blocks) (hg : s'.grid = s.grid)
      (ha : s'.altGrid = s.altGrid) (hf : s.AltFlag → s'.AltFlag) : Step G s s'
  | history {s s' : TermState} (hg : s'.grid = s.grid.clearHistory) (ha : s'.altGrid = s.altGrid)
      (hb : s'.blocks = s.blocks) (hf : s.AltFlag → s'.AltFlag) : Step G s s'
  | enterAlt {s s' : TermState} (h : s.altGrid = none) (hg : s'.grid = s.grid)
      (ha : s'.altGrid = some s.freshAlt) (hb : s'.blocks = s.blocks) (hf : s'.AltFlag) : Step G s s'
  | leaveAlt {s s' : TermState} (h : s.altGrid.isSome) (hg : s'.grid = s.grid)
      (ha : s'.altGrid = none) (hb : s'.blocks = s.blocks) (hf : s'.AltFlag) : Step G s s'

/-- A path of steps. -/
def Steps (G : Guards) : TermState → TermState → Prop :=
  Relation.ReflTransGen (Step G)

namespace Steps

theorem refl (s : TermState) : s.Steps G s := Relation.ReflTransGen.refl

theorem single {s s' : TermState} (h : Step G s s') : s.Steps G s' := Relation.ReflTransGen.single h

theorem trans {s s' s'' : TermState} (h : s.Steps G s') (h' : s'.Steps G s'') : s.Steps G s'' :=
  Relation.ReflTransGen.trans h h'

theorem draws {s s' s'' : TermState} (h : s.Steps G s') (h' : s'.Draws s'') : s.Steps G s'' :=
  Relation.ReflTransGen.tail h (Step.draw h')

theorem ite {s a b : TermState} {c : Prop} [Decidable c] (ha : s.Steps G a) (hb : s.Steps G b) :
    s.Steps G (if c then a else b) := by
  split
  · exact ha
  · exact hb

theorem foldl {β : Type} (f : TermState → β → TermState)
    (hf : ∀ (s : TermState) b, s.Steps G (f s b)) :
    ∀ (l : List β) (s : TermState), s.Steps G (l.foldl f s)
  | [], s => refl s
  | b :: l, s => (hf s b).trans (foldl f hf l (f s b))

/-- A property that every step keeps holds at the end of a path. -/
theorem keeps {P : TermState → Prop} (hstep : ∀ s s', Step G s s' → P s → P s') {s s' : TermState}
    (h : s.Steps G s') (hs : P s) : P s' := by
  induction h with
  | refl => exact hs
  | tail _ hst ih => exact hstep _ _ hst ih

end Steps

variable (s : TermState)
variable (params : List (List UInt8))

theorem Draws.steps {s s' : TermState} (h : s.Draws s') : s.Steps G s' := Steps.single (Step.draw h)

/-- A block operation that leaves the screens alone. -/
theorem steps_block {s s' : TermState} (h : BlockStep G s s'.blocks) (hg : s'.grid = s.grid)
    (ha : s'.altGrid = s.altGrid)
    (hm : s'.modes.contains .altScreen = s.modes.contains .altScreen) : s.Steps G s' :=
  Steps.single (Step.block h hg ha fun hf => by
    unfold AltFlag at hf ⊢; rw [hm, hf, ha])

/-- Steps that are not block operations leave the blocks alone. -/
theorem blocks_step {G : Guards} {s s' : TermState} (h : Step G s s') :
    s'.blocks = s.blocks ∨ BlockStep G s s'.blocks := by
  cases h with
  | draw h => exact Or.inl h.blocks
  | block h _ _ _ => exact Or.inr h
  | history _ _ hb _ => exact Or.inl hb
  | enterAlt _ _ _ hb _ => exact Or.inl hb
  | leaveAlt _ _ _ hb _ => exact Or.inl hb

/-! ## Scrolling output -/

theorem steps_evictBlocks : s.Steps G s.evictBlocks := by
  unfold evictBlocks
  dsimp only
  split
  · next h =>
    obtain ⟨b, hb, hstop⟩ := Option.any_eq_true_iff_get _ _ |>.mp h |> fun ⟨h₁, h₂⟩ =>
      (⟨_, Option.some_get h₁ |>.symm, h₂⟩ : ∃ b, s.blocks.blocks.head? = some b ∧
        (b.endLine.any fun stop => decide (stop < s.grid.oldestLineId)) = true)
    cases he : b.endLine with
    | none => simp [he] at hstop
    | some stop =>
      refine steps_block ?_ rfl rfl rfl
      exact BlockStep.evict hb he (by simpa [he] using hstop)
  · exact Steps.refl _

theorem steps_linefeed : s.Steps G s.linefeed := by
  have h : s.Steps G s.strandIfDiverged := (draws_strandIfDiverged s).steps
  unfold linefeed
  dsimp only
  refine Steps.draws ?_ (Draws.modifyCursor _ _ fun _ hw => ⟨hw.row, hw.col⟩)
  split
  · refine Steps.draws (Steps.trans (Steps.draws h (Draws.modifyGrid _ _ ?_))
      (steps_evictBlocks _)) (Draws.touchFull _)
    exact Grid.evolves_scrollUp _ _ _
  · split
    · next hrow =>
      exact (h.draws (Draws.modifyCursor _ _ fun _ hw => ⟨hrow, hw.col⟩)).draws (Draws.touch _)
    · exact h

theorem steps_wrapRow : s.Steps G s.wrapRow := by
  have h : s.Steps G (s.modifyGrid fun g => g.setWrapped s.activeGrid.cursor.row true) :=
    (Draws.modifyGrid s _ (Grid.evolves_setWrapped _ _ _)).steps
  unfold wrapRow
  exact (h.trans (steps_linefeed _)).draws
    (Draws.modifyCursor _ _ fun hs hw => ⟨hw.row, hs.cols_pos⟩)

theorem steps_writeChar (vt : Vt) (s : TermState) (ch : Char) : s.Steps G (s.writeChar vt ch) := by
  have h : s.Steps G s.strandIfDiverged := (draws_strandIfDiverged s).steps
  unfold writeChar
  dsimp only
  split
  · exact h.draws (draws_writeMark _ _)
  · have hwrap : s.Steps G
        (if (s.strandIfDiverged.activeGrid.cursor.pendingWrap &&
            s.strandIfDiverged.modes.contains .autoWrap) = true then
          s.strandIfDiverged.wrapRow.modifyCursor fun c => { c with pendingWrap := false }
        else s.strandIfDiverged) :=
      Steps.ite ((h.trans (steps_wrapRow _)).draws
        (Draws.modifyCursor _ _ fun _ hw => ⟨hw.row, hw.col⟩)) h
    exact Steps.ite
      (Steps.ite ((hwrap.trans (steps_wrapRow _)).draws (draws_putChar _ _ _)) hwrap)
      (hwrap.draws (draws_putChar _ _ _))

/-! ## Clearing -/

theorem steps_eraseScreenBlocks : s.Steps G s.eraseScreenBlocks := by
  unfold eraseScreenBlocks
  split
  · next ha =>
    have hnone : s.altGrid = none := by simpa using ha
    dsimp only
    split
    · next first h => exact steps_block (BlockStep.erase hnone h) rfl rfl rfl
    · exact Draws.steps (Draws.of_frame rfl rfl rfl rfl)
  · exact Steps.refl _

theorem steps_eraseHistory : s.Steps G s.eraseHistory := by
  have hcut : s.Steps G { s with grid := s.grid.clearHistory } :=
    Steps.single (Step.history rfl rfl rfl id)
  have hclear : ({ s with grid := s.grid.clearHistory } : TermState).Steps G
      { s with grid := s.grid.clearHistory, blocks := s.blocks.eraseScreen 0 } :=
    steps_block BlockStep.clear rfl rfl rfl
  exact (hcut.trans hclear).draws (Draws.pushEvent _ _)

theorem steps_eraseInDisplay (mode : Nat) : s.Steps G (s.eraseInDisplay mode) := by
  have h : s.Steps G s.strandIfDiverged := (draws_strandIfDiverged s).steps
  have hcancel (s : TermState) : s.Draws (s.modifyGrid Grid.cancelRestateDebt) :=
    Draws.modifyGrid s _ (Grid.evolves_cancelRestateDebt _)
  unfold eraseInDisplay
  dsimp only
  refine Steps.draws ?_ (Draws.touchFull _)
  split
  · exact Steps.ite ((h.draws (draws_eraseInRow _ _ _ _)).draws (draws_eraseRows _ _ _))
      (h.draws (draws_eraseInRow _ _ _ _))
  · refine Steps.draws ?_ (draws_eraseInRow _ _ _ _)
    split
    · exact h.draws (draws_eraseRows _ _ _)
    · exact h
  · exact ((h.draws (draws_eraseRows _ _ _)).trans (steps_eraseScreenBlocks _)).draws (hcancel _)
  · exact (((h.draws (draws_eraseRows _ _ _)).trans (steps_eraseScreenBlocks _)).draws
      (hcancel _)).trans (steps_eraseHistory _)
  · exact h

/-! ## Screen switching -/

theorem flag_syncKittyModes {s : TermState} (h : s.AltFlag) : s.syncKittyModes.touchFull.AltFlag :=
  ((draws_syncKittyModes s).trans (Draws.touchFull _)).flag h

/-- What is left of a state once its keyboard flags are brought level. -/
theorem screens_syncKittyModes :
    s.syncKittyModes.touchFull.grid = s.grid ∧ s.syncKittyModes.touchFull.altGrid = s.altGrid ∧
      s.syncKittyModes.touchFull.blocks = s.blocks := by
  unfold syncKittyModes
  dsimp only
  split <;> exact ⟨rfl, rfl, rfl⟩

/-- Setting or clearing the screen bit itself. -/
theorem contains_set_altScreen (m : Modes) :
    (m.union .altScreen).contains .altScreen = true ∧
      (m.remove .altScreen).contains .altScreen = false := by
  have hbit : Modes.altScreen.bits.getLsbD 7 = true := by decide
  rw [contains_altScreen, contains_altScreen]
  simp only [Modes.union, Modes.remove, BitVec.getLsbD_or, BitVec.getLsbD_and, BitVec.getLsbD_not,
    hbit]
  simp

theorem steps_setAltScreen (enable : Bool) : s.Steps G (s.setAltScreen enable) := by
  unfold setAltScreen
  split
  · exact Steps.refl _
  · next hne =>
    dsimp only
    apply Steps.single
    cases enable with
    | true =>
      have hnone : s.altGrid = none := by simpa using hne
      obtain ⟨hg, ha, hb⟩ := screens_syncKittyModes
        { s with altGrid := some s.freshAlt, modes := s.modes.union .altScreen }
      refine Step.enterAlt hnone hg ha hb (flag_syncKittyModes ?_)
      unfold AltFlag
      exact (contains_set_altScreen s.modes).1
    | false =>
      have hsome : s.altGrid.isSome := Option.isSome_iff_ne_none.mpr (by simpa using hne)
      obtain ⟨hg, ha, hb⟩ := screens_syncKittyModes
        { s with altGrid := none, modes := s.modes.remove .altScreen }
      refine Step.leaveAlt hsome hg ha hb (flag_syncKittyModes ?_)
      unfold AltFlag
      exact (contains_set_altScreen s.modes).2

theorem steps_setPrivateMode (enable : Bool) (mode : Nat) :
    s.Steps G (s.setPrivateMode enable mode) := by
  have hset (s : TermState) (m : Modes) (h : m.bits.getLsbD 7 = false) :
      s.Steps G (s.setModes m enable) := (Draws.setModes s m enable h).steps
  unfold setPrivateMode
  split
  · exact hset _ _ (by decide)
  · exact (hset s .origin (by decide)).draws (draws_goto _ _ _)
  · exact hset _ _ (by decide)
  · exact (draws_setShowCursor _ _).steps
  · exact hset _ _ (by decide)
  · exact hset _ _ (by decide)
  · exact hset _ _ (by decide)
  · exact hset _ _ (by decide)
  · exact hset _ _ (by decide)
  · exact hset _ _ (by decide)
  · exact steps_setAltScreen _ _
  · exact steps_setAltScreen _ _
  · split
    · exact (draws_saveCursor _).steps
    · exact (draws_restoreCursor _).steps
  · split
    · exact (draws_saveCursor s).steps.trans (steps_setAltScreen _ _)
    · exact (steps_setAltScreen s _).draws (draws_restoreCursor _)
  · exact hset _ _ (by decide)
  · exact (hset s .syncUpdate (by decide)).draws (Draws.pushEvent _ _)
  · exact hset _ _ (by decide)
  · exact Steps.refl _

theorem steps_setPrivateModes (params : Params) (enable : Bool) :
    s.Steps G (s.setPrivateModes params enable) :=
  Steps.draws (Steps.foldl _ (fun s mode => steps_setPrivateMode s enable mode) _ s) (Draws.touch _)

theorem steps_fullReset (hR : G.reset) : s.Steps G s.fullReset := by
  have hinit : Modes.initial.contains .altScreen = false := by decide
  -- Back on the primary screen, with the modes a terminal starts in.
  have hback : s.Steps G
      (({ s with template := Cell.blank, modes := Modes.initial } : TermState).kittyReset.setAltScreen
        false) := by
    generalize hs₀ : ({ s with template := Cell.blank, modes := Modes.initial } : TermState) = s₀
    have hg₀ : s₀.grid = s.grid := by rw [← hs₀]
    have ha₀ : s₀.altGrid = s.altGrid := by rw [← hs₀]
    have hb₀ : s₀.blocks = s.blocks := by rw [← hs₀]
    have hm₀ : s₀.modes = Modes.initial := by rw [← hs₀]
    obtain ⟨hgk, hak, hbk⟩ : s₀.kittyReset.grid = s.grid ∧ s₀.kittyReset.altGrid = s.altGrid ∧
        s₀.kittyReset.blocks = s.blocks := by
      rw [← hg₀, ← ha₀, ← hb₀]
      unfold kittyReset syncKittyModes
      dsimp only
      split <;> exact ⟨rfl, rfl, rfl⟩
    have hmk : s₀.kittyReset.modes.contains .altScreen = false := by
      unfold kittyReset syncKittyModes
      dsimp only
      split
      · exact (contains_withKittyFlags _ _).trans (by rw [hm₀]; exact hinit)
      · rw [hm₀]; exact hinit
    cases ha : s.altGrid with
    | none =>
      have : s₀.kittyReset.setAltScreen false = s₀.kittyReset := by
        unfold setAltScreen; rw [hak, ha]; rfl
      rw [this]
      refine Draws.steps ⟨?_, by rw [hak], fun _ => hgk, hbk, fun _ => ?_⟩
      · simp only [activeGrid, hgk, hak]; exact Grid.Evolves.refl _
      · unfold AltFlag; rw [hmk, hak, ha]; rfl
    | some alt =>
      have hset : s₀.kittyReset.setAltScreen false =
          ({ s₀.kittyReset with
              altGrid := none,
              modes := s₀.kittyReset.modes.remove .altScreen } : TermState).syncKittyModes.touchFull
            := by
        unfold setAltScreen; rw [hak, ha]; rfl
      rw [hset]
      obtain ⟨hg, ha', hb⟩ := screens_syncKittyModes
        { s₀.kittyReset with
          altGrid := none, modes := s₀.kittyReset.modes.remove .altScreen }
      refine Steps.single (Step.leaveAlt (by rw [ha]; rfl) (hg.trans hgk) ha'
        (hb.trans hbk) (flag_syncKittyModes ?_))
      unfold AltFlag
      exact (contains_set_altScreen _).2
  have hblank := hback.draws (Draws.modifyGrid _ (fun g => g.clearAll Cell.blank)
    (Grid.evolves_clearAll _ _))
  refine Steps.draws (hblank.trans ?_) (Draws.touchFull _)
  exact steps_block (BlockStep.reset hR) rfl rfl rfl

/-! ## Markers and OSC -/

theorem steps_oscMarker (kind : UInt8) (hG : kind = 0x43 → s.blockLine.isSome → G.output s) :
    s.Steps G (s.oscMarker params kind) := by
  unfold oscMarker
  split
  · unfold blockPromptStart
    split
    · exact Steps.refl _
    · next line h => exact steps_block (BlockStep.prompt h _) rfl rfl rfl
  · split
    · unfold blockPromptEnd
      split
      · exact Steps.refl _
      · exact Draws.steps (Draws.of_frame rfl rfl rfl rfl)
    · split
      · unfold blockOutputStart
        split
        · exact Steps.refl _
        · next line h =>
          refine steps_block (BlockStep.output (hG ‹_› (by rw [h]; rfl)) h ?_ _) rfl rfl rfl
          split
          · exact Or.inr rfl
          · exact Or.inl rfl
      · split
        · unfold blockFinish
          split
          · exact Steps.refl _
          · next line h =>
            exact steps_block (BlockStep.finish h _) rfl rfl rfl
        · exact Steps.refl _

theorem draws_setCwd (host : Option Str) (path : Str) : s.Draws (s.setCwd host path) := by
  unfold setCwd
  split
  · exact Draws.refl s
  · exact Draws.of_frame rfl rfl rfl rfl

theorem draws_setShellFact (key value : Str) : s.Draws (s.setShellFact key value) := by
  unfold setShellFact
  split
  · exact Draws.refl s
  · dsimp only
    split
    · split
      · exact Draws.of_frame rfl rfl rfl rfl
      · exact Draws.refl s
    · split
      · exact Draws.refl s
      · exact Draws.of_frame rfl rfl rfl rfl

theorem steps_oscVscode (hG : markerKind params = some 0x43 → s.blockLine.isSome → G.output s) :
    s.Steps G (s.oscVscode params) := by
  unfold oscVscode
  split
  · exact Steps.refl _
  · next kind hk =>
    split
    · split
      · exact Draws.steps (Draws.of_frame rfl rfl rfl rfl)
      · exact Steps.refl _
    · split
      · split
        · split
          · exact (draws_setCwd _ _ _).steps
          · split
            · exact (draws_setShellFact _ _ _).steps
            · exact Steps.refl _
        · exact Steps.refl _
      · exact steps_oscMarker _ _ _ fun h => hG (h ▸ hk)

theorem draws_oscCwd : s.Draws (s.oscCwd params) := by
  unfold oscCwd
  split
  · exact Draws.refl s
  · split
    · exact draws_setCwd _ _ _
    · split
      · exact draws_setCwd _ _ _
      · exact draws_setCwd _ _ _

theorem draws_oscProgress : s.Draws (s.oscProgress params) := by
  unfold oscProgress
  dsimp only
  split <;> exact Draws.of_frame rfl rfl rfl rfl

theorem draws_oscPalette : s.Draws (s.oscPalette params) := by
  induction s, params using oscPalette.induct with
  | case1 s index spec rest spec' s' ih =>
    unfold oscPalette
    refine Draws.trans ?_ ih
    dsimp only [s']
    split
    · exact Draws.refl s
    · split
      · exact Draws.pushEvent _ _
      · split
        · exact Draws.of_frame rfl rfl rfl rfl
        · exact Draws.refl s
  | case2 params s h =>
    unfold oscPalette
    split
    · next index spec rest => exact absurd rfl (h index spec rest)
    · exact Draws.refl _

theorem draws_oscDynamicColor (code : Nat) (params : List (List UInt8)) :
    s.Draws (s.oscDynamicColor code params) := by
  unfold oscDynamicColor
  dsimp only
  split
  · exact Draws.pushEvent _ _
  · split
    · exact Draws.refl s
    · exact Draws.of_frame rfl rfl rfl rfl

/-- Whether an operating-system command is a `C` marker, in either dialect. -/
def startsOutput (params : List (List UInt8)) : Bool :=
  let code := (oscText params 0).bind (parseUnsigned 65535)
  (code == some 133 || code == some 633) && markerKind params == some 0x43

theorem steps_oscDispatch (hG : startsOutput params = true → s.blockLine.isSome → G.output s) :
    s.Steps G (s.oscDispatch params) := by
  have htitle : s.Draws (s.oscTitle params) := by
    unfold oscTitle
    split
    · exact Draws.of_frame rfl rfl rfl rfl
    · exact Draws.refl s
  have hlink : s.Draws (s.oscHyperlink params) := by
    unfold oscHyperlink
    dsimp only
    split <;> exact Draws.of_frame rfl rfl rfl rfl
  unfold oscDispatch
  split
  · exact htitle.steps
  · exact htitle.steps
  · exact (draws_oscPalette _ _).steps
  · exact (draws_oscCwd _ _).steps
  · exact hlink.steps
  · split
    · exact (draws_oscProgress _ _).steps
    · exact (Draws.pushEvent _ _).steps
  · exact (draws_oscDynamicColor _ _ _).steps
  · exact (draws_oscDynamicColor _ _ _).steps
  · exact (draws_oscDynamicColor _ _ _).steps
  · exact Draws.steps (Draws.of_frame rfl rfl rfl rfl)
  · exact Draws.steps (Draws.of_frame rfl rfl rfl rfl)
  · exact Draws.steps (Draws.of_frame rfl rfl rfl rfl)
  · exact Draws.steps (Draws.of_frame rfl rfl rfl rfl)
  · next hcode =>
    unfold oscPrompt
    split
    · exact Steps.refl _
    · next kind hk =>
      exact steps_oscMarker _ _ _ fun h => hG (by simp [startsOutput, hcode, hk, h])
  · next hcode =>
    exact steps_oscVscode _ _ fun h => hG (by simp [startsOutput, hcode, h])
  · split
    · exact (Draws.pushEvent _ _).steps
    · exact Steps.refl _
  · exact Steps.refl _

/-! ## The dispatch -/

theorem steps_execute (byte : UInt8) : s.Steps G (s.execute byte) := by
  unfold execute
  split
  · exact ((Draws.pushEvent _ _).trans (Draws.pushEvent _ _)).steps
  · exact (draws_backspace _).steps
  · exact (draws_tab _ _).steps
  · exact (draws_carriageReturn _).steps
  · split
    · dsimp only
      split
      · exact (steps_linefeed s).draws (draws_carriageReturn _)
      · exact steps_linefeed s
    · exact Steps.refl _

theorem steps_escDispatch (intermediates : List UInt8) (byte : UInt8)
    (hR : byte.toNat = 0x63 → G.reset) : s.Steps G (s.escDispatch intermediates byte) := by
  unfold escDispatch
  dsimp only
  split
  · exact (draws_saveCursor _).steps
  · split
    · exact (draws_restoreCursor _).steps
    · exact (draws_decaln _).steps
    · exact Steps.refl _
  · exact steps_linefeed s
  · exact (steps_linefeed s).draws (draws_carriageReturn _)
  · exact (draws_reverseIndex _).steps
  · exact Draws.steps (Draws.of_frame rfl rfl rfl rfl)
  · next hbyte => exact steps_fullReset s (hR hbyte)
  · exact Steps.refl _

theorem steps_csiDispatch (params : Params) (intermediates : List UInt8) (ignore : Bool) (c : Char)
    : s.Steps G (s.csiDispatch params intermediates ignore c) := by
  have hedit (f : Grid → Grid) (hf : ∀ g : Grid, g.Evolves (f g)) : s.Draws (s.modifyGrid f) :=
    Draws.modifyGrid s f (hf _)
  unfold csiDispatch
  dsimp only
  split
  · exact Steps.refl _
  split
  · exact (draws_moveUp _ _).steps
  · exact (draws_moveDown _ _).steps
  · exact (draws_moveDown _ _).steps
  · exact (draws_moveRight _ _).steps
  · exact (draws_moveRight _ _).steps
  · exact (draws_moveLeft _ _).steps
  · exact ((draws_moveDown _ _).trans (draws_carriageReturn _)).steps
  · exact ((draws_moveUp _ _).trans (draws_carriageReturn _)).steps
  · exact (draws_gotoAbsolute _ _ _ Grid.Within.row).steps
  · exact (draws_gotoAbsolute _ _ _ Grid.Within.row).steps
  · exact (draws_goto _ _ _).steps
  · exact (draws_moveTo _ _ _).steps
  · exact (draws_moveTo _ _ _).steps
  · exact (draws_tab _ _).steps
  · exact (draws_backTab _ _).steps
  · exact steps_eraseInDisplay _ _
  · exact (draws_eraseInLine _ _).steps
  · exact (draws_eraseChars _ _).steps
  · exact ((hedit _ fun g => Grid.evolves_insertCells g _ _).trans (Draws.touch _)).steps
  · exact ((hedit _ fun g => Grid.evolves_deleteCells g _ _).trans (Draws.touch _)).steps
  · exact ((hedit _ fun g => Grid.evolves_insertLines g _ _).trans (Draws.touchFull _)).steps
  · exact ((hedit _ fun g => Grid.evolves_deleteLines g _ _).trans (Draws.touchFull _)).steps
  · exact ((hedit _ fun g => Grid.evolves_scrollUp g _ _).steps.trans (steps_evictBlocks _)).draws
      (Draws.touchFull _)
  · exact ((hedit _ fun g => Grid.evolves_scrollDown g _ _).trans (Draws.touchFull _)).steps
  · split
    · exact (hedit _ fun g => Grid.evolves_noteRestatementBegan g _ _ _).steps
    · exact Steps.refl _
  · split
    · exact steps_setPrivateModes _ _ _
    · exact (draws_setAnsiModes _ _ _).steps
  · split
    · exact steps_setPrivateModes _ _ _
    · exact (draws_setAnsiModes _ _ _).steps
  · split
    · exact Draws.steps (Draws.of_frame rfl rfl rfl rfl)
    · exact Steps.refl _
  · split
    · exact (draws_setCursorStyle _ _).steps
    · exact Steps.refl _
  · split
    · exact Steps.refl _
    · exact (draws_setScrollRegion _ _ _).steps
  · split
    · exact Draws.steps (Draws.of_frame rfl rfl rfl rfl)
    · exact Draws.steps (Draws.of_frame rfl rfl rfl rfl)
    · exact Steps.refl _
  · exact (Draws.pushEvent _ _).steps
  · split
    · exact (Draws.pushEvent _ _).steps
    · exact (Draws.pushEvent _ _).steps
    · exact Steps.refl _
  · exact (draws_saveCursor _).steps
  · exact (draws_keyboardDispatch _ _ _).steps
  · exact Steps.refl _

end TermState

/-- Whether an action is a `C` marker. -/
def Action.startsOutput : Action → Bool
  | .osc params _ => TermState.startsOutput params
  | _ => false

/-- Whether an action is RIS. -/
def Action.isReset : Action → Bool
  | .esc _ _ byte => byte.toNat == 0x63
  | _ => false

namespace TermState

/-- Every action of the parser is a path of steps. -/
theorem steps_perform (vt : Vt) (s : TermState) (a : Action)
    (hG : a.startsOutput = true → s.blockLine.isSome → G.output s)
    (hR : a.isReset = true → G.reset) : s.Steps G (s.perform vt a) := by
  cases a with
  | print ch => exact steps_writeChar vt s ch
  | execute byte => exact steps_execute s byte
  | csi params intermediates ignore c => exact steps_csiDispatch s params intermediates ignore c
  | esc intermediates ignore byte =>
    exact steps_escDispatch s intermediates byte fun h => hR (by simp [Action.isReset, h])
  | osc params bell => exact steps_oscDispatch s params hG

end TermState

/-- Feeding bytes is a path of steps. -/
theorem Terminal.steps_advance {vt : Vt} (t : Terminal vt) (bytes : List UInt8) :
    t.state.Steps TermState.Guards.any (t.advance bytes).state :=
  TermState.Steps.foldl _ (fun s a =>
    TermState.steps_perform vt s a (fun _ _ => trivial) fun _ => trivial) _ _

end Zesterm
