/-
Zesterm.Core.EffectTheorems — what one sequence does to the blocks of a
terminal.

Three markers and RIS write to the index: `A` opens a prompt, `C` begins
the newest block's output, `D` finishes it, RIS empties it. Any other
sequence may lose blocks, to eviction or to a clear, and does nothing else
to them (`thins_perform`). `blocks_effect` puts the five together.
-/
import Zesterm.Core.CommandTheorems

namespace Zesterm

/-- The marker a sequence is, in either dialect. -/
def Action.marker? : Action → Option UInt8
  | .osc params _ =>
    let code := (TermState.oscText params 0).bind (parseUnsigned 65535)
    if code = some 133 ∨ code = some 633 then TermState.markerKind params else none
  | _ => none

namespace TermState

/-! ## Losing blocks -/

/-- Some blocks went, and nothing else happened to any. -/
structure Thins (s s' : TermState) : Prop where
  sublist : s'.blocks.blocks.Sublist s.blocks.blocks
  nextId : s'.blocks.nextId = s.blocks.nextId

namespace Thins

variable {s s' s'' : TermState}

theorem of_eq (h : s'.blocks = s.blocks) : s.Thins s' := by
  constructor
  · rw [h]
  · rw [h]

theorem refl (s : TermState) : s.Thins s := of_eq rfl

theorem trans (h : s.Thins s') (h' : s'.Thins s'') : s.Thins s'' :=
  ⟨h'.sublist.trans h.sublist, h'.nextId.trans h.nextId⟩

theorem draws (h : s.Thins s') (h' : s'.Draws s'') : s.Thins s'' := h.trans (of_eq h'.blocks)

theorem ite {a b : TermState} {c : Prop} [Decidable c] (ha : s.Thins a) (hb : s.Thins b) :
    s.Thins (if c then a else b) := by
  split
  · exact ha
  · exact hb

theorem foldl {β : Type} (f : TermState → β → TermState) (hf : ∀ (s : TermState) b, s.Thins (f s b))
    (l : List β) (s : TermState) : s.Thins (l.foldl f s) := by
  induction l generalizing s with
  | nil => exact refl s
  | cons b l ih => exact (hf s b).trans (ih (f s b))

end Thins

theorem Draws.thins {s s' : TermState} (h : s.Draws s') : s.Thins s' := Thins.of_eq h.blocks

section Handlers

variable (s : TermState)

theorem thins_evictBlocks : s.Thins s.evictBlocks := by
  unfold evictBlocks
  dsimp only
  split
  · obtain ⟨hsub, hnext⟩ := s.blocks.evictBefore_sublist s.grid.oldestLineId
    exact ⟨hsub, hnext⟩
  · exact Thins.refl s

theorem thins_linefeed : s.Thins s.linefeed := by
  have h : s.Thins s.strandIfDiverged := (draws_strandIfDiverged s).thins
  unfold linefeed
  dsimp only
  refine Thins.trans ?_ (Thins.of_eq (blocks_modifyGrid _ _))
  split
  · exact ((h.trans (Thins.of_eq (blocks_modifyGrid _ _))).trans (thins_evictBlocks _)).draws
      (Draws.touchFull _)
  · split
    · exact (h.trans (Thins.of_eq (blocks_modifyGrid _ _))).draws (Draws.touch _)
    · exact h

theorem thins_wrapRow : s.Thins s.wrapRow := by
  unfold wrapRow
  dsimp only
  exact ((Thins.of_eq (blocks_modifyGrid _ _)).trans (thins_linefeed _)).trans
    (Thins.of_eq (blocks_modifyGrid _ _))

theorem thins_writeChar (vt : Vt) (ch : Char) : s.Thins (s.writeChar vt ch) := by
  have h : s.Thins s.strandIfDiverged := (draws_strandIfDiverged s).thins
  unfold writeChar
  dsimp only
  split
  · exact h.draws (draws_writeMark _ _)
  · have hwrap : s.Thins
        (if (s.strandIfDiverged.activeGrid.cursor.pendingWrap &&
            s.strandIfDiverged.modes.contains .autoWrap) = true then
          s.strandIfDiverged.wrapRow.modifyCursor fun c => { c with pendingWrap := false }
        else s.strandIfDiverged) :=
      Thins.ite ((h.trans (thins_wrapRow _)).trans (Thins.of_eq (blocks_modifyGrid _ _))) h
    exact Thins.ite
      (Thins.ite ((hwrap.trans (thins_wrapRow _)).draws (draws_putChar _ _ _)) hwrap)
      (hwrap.draws (draws_putChar _ _ _))

theorem thins_eraseScreenBlocks : s.Thins s.eraseScreenBlocks := by
  unfold eraseScreenBlocks
  split
  · dsimp only
    split
    · next first h =>
      obtain ⟨hsub, hnext⟩ := s.blocks.eraseScreen_sublist first
      exact ⟨hsub, hnext⟩
    · exact Thins.of_eq rfl
  · exact Thins.refl s

theorem thins_eraseHistory : s.Thins s.eraseHistory := by
  obtain ⟨hsub, hnext⟩ := s.blocks.eraseScreen_sublist 0
  exact ⟨hsub, hnext⟩

theorem thins_eraseInDisplay (mode : Nat) : s.Thins (s.eraseInDisplay mode) := by
  have h : s.Thins s.strandIfDiverged := (draws_strandIfDiverged s).thins
  have hcancel (s : TermState) : s.Thins (s.modifyGrid Grid.cancelRestateDebt) :=
    Thins.of_eq (blocks_modifyGrid _ _)
  unfold eraseInDisplay
  dsimp only
  refine Thins.draws ?_ (Draws.touchFull _)
  split
  · exact Thins.ite ((h.draws (draws_eraseInRow _ _ _ _)).draws (draws_eraseRows _ _ _))
      (h.draws (draws_eraseInRow _ _ _ _))
  · exact (Thins.ite (h.draws (draws_eraseRows _ _ _)) h).draws (draws_eraseInRow _ _ _ _)
  · exact ((h.draws (draws_eraseRows _ _ _)).trans (thins_eraseScreenBlocks _)).trans (hcancel _)
  · exact (((h.draws (draws_eraseRows _ _ _)).trans (thins_eraseScreenBlocks _)).trans
      (hcancel _)).trans (thins_eraseHistory _)
  · exact h

theorem blocks_switchScreen (enable : Bool) : (s.setAltScreen enable).blocks = s.blocks := by
  unfold setAltScreen
  split
  · rfl
  · dsimp only
    rw [(screens_syncKittyModes _).2.2]
    split <;> rfl

theorem blocks_setPrivateMode (enable : Bool) (mode : Nat) :
    (s.setPrivateMode enable mode).blocks = s.blocks := by
  unfold setPrivateMode
  split
  · rfl
  · exact (draws_goto _ _ _).blocks
  · rfl
  · exact (draws_setShowCursor _ _).blocks
  · rfl
  · rfl
  · rfl
  · rfl
  · rfl
  · rfl
  · exact blocks_switchScreen s _
  · exact blocks_switchScreen s _
  · split
    · exact (draws_saveCursor s).blocks
    · exact (draws_restoreCursor s).blocks
  · split
    · exact (blocks_switchScreen _ _).trans (draws_saveCursor s).blocks
    · exact (draws_restoreCursor _).blocks.trans (blocks_switchScreen s _)
  · rfl
  · rfl
  · rfl
  · rfl

theorem thins_setPrivateModes (params : Params) (enable : Bool) :
    s.Thins (s.setPrivateModes params enable) :=
  (Thins.foldl (fun s mode => s.setPrivateMode enable mode)
    (fun s mode => Thins.of_eq (blocks_setPrivateMode s enable mode)) _ s).draws (Draws.touch _)

theorem thins_execute (byte : UInt8) : s.Thins (s.execute byte) := by
  unfold execute
  split
  · exact Thins.of_eq rfl
  · exact (draws_backspace s).thins
  · exact (draws_tab s _).thins
  · exact (draws_carriageReturn s).thins
  · split
    · exact Thins.ite ((thins_linefeed s).draws (draws_carriageReturn _)) (thins_linefeed s)
    · exact Thins.refl s

theorem thins_escDispatch (intermediates : List UInt8) (byte : UInt8) (hR : byte.toNat ≠ 0x63) :
    s.Thins (s.escDispatch intermediates byte) := by
  unfold escDispatch
  dsimp only
  split
  · exact (draws_saveCursor s).thins
  · split
    · exact (draws_restoreCursor s).thins
    · exact (draws_decaln s).thins
    · exact Thins.refl s
  · exact thins_linefeed s
  · exact (thins_linefeed s).draws (draws_carriageReturn _)
  · exact (draws_reverseIndex s).thins
  · exact Thins.of_eq rfl
  · next hbyte => exact absurd hbyte hR
  · exact Thins.refl s

theorem thins_csiDispatch (params : Params) (intermediates : List UInt8) (ignore : Bool) (c : Char) :
    s.Thins (s.csiDispatch params intermediates ignore c) := by
  have hedit (f : Grid → Grid) : s.Thins (s.modifyGrid f) := Thins.of_eq (blocks_modifyGrid s f)
  unfold csiDispatch
  dsimp only
  split
  · exact Thins.refl s
  split
  · exact (draws_moveUp _ _).thins
  · exact (draws_moveDown _ _).thins
  · exact (draws_moveDown _ _).thins
  · exact (draws_moveRight _ _).thins
  · exact (draws_moveRight _ _).thins
  · exact (draws_moveLeft _ _).thins
  · exact ((draws_moveDown _ _).trans (draws_carriageReturn _)).thins
  · exact ((draws_moveUp _ _).trans (draws_carriageReturn _)).thins
  · exact (draws_gotoAbsolute _ _ _ Grid.Within.row).thins
  · exact (draws_gotoAbsolute _ _ _ Grid.Within.row).thins
  · exact (draws_goto _ _ _).thins
  · exact (draws_moveTo _ _ _).thins
  · exact (draws_moveTo _ _ _).thins
  · exact (draws_tab _ _).thins
  · exact (draws_backTab _ _).thins
  · exact thins_eraseInDisplay s _
  · exact (draws_eraseInLine _ _).thins
  · exact (draws_eraseChars _ _).thins
  · exact (hedit _).draws (Draws.touch _)
  · exact (hedit _).draws (Draws.touch _)
  · exact (hedit _).draws (Draws.touchFull _)
  · exact (hedit _).draws (Draws.touchFull _)
  · exact ((hedit _).trans (thins_evictBlocks _)).draws (Draws.touchFull _)
  · exact (hedit _).draws (Draws.touchFull _)
  · exact Thins.ite (hedit _) (Thins.refl s)
  · exact Thins.ite (thins_setPrivateModes s _ _) (draws_setAnsiModes _ _ _).thins
  · exact Thins.ite (thins_setPrivateModes s _ _) (draws_setAnsiModes _ _ _).thins
  · split
    · exact Thins.of_eq rfl
    · exact Thins.refl s
  · split
    · exact (draws_setCursorStyle _ _).thins
    · exact Thins.refl s
  · exact Thins.ite (Thins.refl s) (draws_setScrollRegion _ _ _).thins
  · split
    · exact Thins.of_eq rfl
    · exact Thins.of_eq rfl
    · exact Thins.refl s
  · exact (Draws.pushEvent _ _).thins
  · split
    · exact (Draws.pushEvent _ _).thins
    · exact (Draws.pushEvent _ _).thins
    · exact Thins.refl s
  · exact (draws_saveCursor s).thins
  · exact (draws_keyboardDispatch _ _ _).thins
  · exact Thins.refl s

/-! ## Markers -/

/-- What a sequence makes of the blocks it finds. -/
inductive BlockEffect (s : TermState) (a : Action) : BlockIndex → Prop where
  | thinned {x : BlockIndex} (hsub : x.blocks.Sublist s.blocks.blocks)
      (hnext : x.nextId = s.blocks.nextId) : BlockEffect s a x
  | prompt (ha : a.marker? = some 0x41) (line : LineId) (cwd : Str) :
      BlockEffect s a (s.blocks.beginPrompt line cwd)
  | output (ha : a.marker? = some 0x43) (hs : s.blockLine.isSome = true) (line : LineId)
      (command : Str) : BlockEffect s a (s.blocks.beginOutput line command s.nowMs s.inputAuthor)
  | finish (ha : a.marker? = some 0x44) (hs : s.blockLine.isSome = true) (line : LineId)
      (exitCode : Option Int) : BlockEffect s a (s.blocks.finish line exitCode s.nowMs)
  | reset (ha : a.isReset = true) : BlockEffect s a {}

variable {s} in
theorem Thins.effect {s' : TermState} (h : s.Thins s') (a : Action) : s.BlockEffect a s'.blocks :=
  .thinned h.sublist h.nextId

theorem effect_oscMarker {a : Action} (params : List (List UInt8)) (kind : UInt8)
    (ha : a.marker? = some kind) : s.BlockEffect a (s.oscMarker params kind).blocks := by
  have hstill : s.BlockEffect a s.blocks := (Thins.refl s).effect a
  unfold oscMarker
  split
  · next hk =>
    subst hk
    unfold blockPromptStart
    split
    · exact hstill
    · exact .prompt ha _ _
  · split
    · unfold blockPromptEnd
      split
      · exact hstill
      · exact hstill
    · split
      · next hk =>
        subst hk
        unfold blockOutputStart
        split
        · exact hstill
        · next line h => exact .output ha (by rw [h]; rfl) _ _
      · split
        · next hk =>
          subst hk
          unfold blockFinish
          split
          · exact hstill
          · next line h => exact .finish ha (by rw [h]; rfl) _ _
        · exact hstill

theorem effect_oscDispatch (params : List (List UInt8)) (bell : Bool) :
    s.BlockEffect (.osc params bell) (s.oscDispatch params).blocks := by
  have hdraws {s' : TermState} (h : s.Draws s') : s.BlockEffect (.osc params bell) s'.blocks :=
    h.thins.effect _
  have hsame {x : BlockIndex} (h : x = s.blocks) : s.BlockEffect (.osc params bell) x :=
    h ▸ (Thins.refl s).effect _
  have htitle : (s.oscTitle params).blocks = s.blocks := by
    unfold oscTitle
    split <;> rfl
  unfold oscDispatch
  split
  · exact hsame htitle
  · exact hsame htitle
  · exact hdraws (draws_oscPalette _ _)
  · exact hdraws (draws_oscCwd _ _)
  · refine hsame ?_
    unfold oscHyperlink
    dsimp only
    split <;> rfl
  · split
    · exact hdraws (draws_oscProgress _ _)
    · exact hsame rfl
  · exact hdraws (draws_oscDynamicColor _ _ _)
  · exact hdraws (draws_oscDynamicColor _ _ _)
  · exact hdraws (draws_oscDynamicColor _ _ _)
  · exact hsame rfl
  · exact hsame rfl
  · exact hsame rfl
  · exact hsame rfl
  · next hcode =>
    unfold oscPrompt
    split
    · exact hsame rfl
    · next kind hk => exact effect_oscMarker s _ _ (by simp [Action.marker?, hcode, hk])
  · next hcode =>
    unfold oscVscode
    split
    · exact hsame rfl
    · next kind hk =>
      split
      · split <;> exact hsame rfl
      · split
        · split
          · split
            · exact hdraws (draws_setCwd _ _ _)
            · split
              · exact hdraws (draws_setShellFact _ _ _)
              · exact hsame rfl
          · exact hsame rfl
        · exact effect_oscMarker s _ _ (by simp [Action.marker?, hcode, hk])
  · split
    · exact hsame rfl
    · exact hsame rfl
  · exact hsame rfl

/-- Every sequence does one of the five. -/
theorem blocks_effect (vt : Vt) (a : Action) : s.BlockEffect a (s.perform vt a).blocks := by
  cases a with
  | print ch => exact (thins_writeChar s vt ch).effect _
  | execute byte => exact (thins_execute s byte).effect _
  | csi params intermediates ignore c =>
    exact (thins_csiDispatch s params intermediates ignore c).effect _
  | esc intermediates ignore byte =>
    by_cases hR : byte.toNat = 0x63
    · have hreset : (Action.esc intermediates ignore byte).isReset = true := by
        simp [Action.isReset, hR]
      rw [blocks_perform_reset vt s _ hreset]
      exact .reset hreset
    · exact (thins_escDispatch s intermediates byte hR).effect _
  | osc params bell => exact effect_oscDispatch s params bell

end Handlers

end TermState

end Zesterm
