/-
Zesterm.Core.KittyTheorems — the keyboard flags follow the screen.

`Keyboard` is what a terminal says of the keyboard and no more: a stack of
flags for each screen, the screen displayed and the flags in force. Its
operations are the protocol's, a screen switch and a reset, and each ends by
copying the top of the displayed stack. `keyboard_perform` says that every
action of a terminal comes to such operations (`keyOps`), most to none, so
that the laws are proved of `Keyboard` and hold of every reachable terminal
(`kitty_run`).
-/
import Zesterm.Core.PerformTheorems
import Zesterm.Core.OscTheorems

namespace Zesterm

/-! ## The keyboard -/

structure Keyboard where
  main : List (BitVec 8) := []
  alt : List (BitVec 8) := []
  onAlt : Bool := false
  /-- The flags in force. -/
  flags : BitVec 8 := 0
  deriving DecidableEq

/-- What can be asked of a keyboard. -/
inductive KeyOp where
  | push (flags : BitVec 8)
  | pop (count : Nat)
  | set (flags : BitVec 8) (mode : Nat)
  | display (alt : Bool)
  | reset
  deriving DecidableEq

/-- A flag byte the terminal implements. -/
def Supported (flags : BitVec 8) : Prop := flags &&& Modes.kittySupported = flags

theorem supported_and (flags : BitVec 8) : Supported (flags &&& Modes.kittySupported) := by
  unfold Supported
  rw [BitVec.and_assoc, BitVec.and_self]

namespace Supported

variable {a b : BitVec 8}

theorem or (ha : Supported a) (hb : Supported b) : Supported (a ||| b) := by
  unfold Supported at *
  rw [← ha, ← hb]
  ext i hi
  simp
  tauto

theorem and (ha : Supported a) : Supported (a &&& b) := by
  unfold Supported at *
  rw [BitVec.and_assoc, BitVec.and_comm b, ← BitVec.and_assoc, ha]

end Supported

namespace Keyboard

variable {k : Keyboard}

/-- The stack of the screen displayed. -/
def stack (k : Keyboard) : List (BitVec 8) := if k.onAlt then k.alt else k.main

def setStack (k : Keyboard) (stack : List (BitVec 8)) : Keyboard :=
  if k.onAlt then { k with alt := stack } else { k with main := stack }

def top (k : Keyboard) : BitVec 8 := k.stack.getLast?.getD 0

/-- Copy the top of the displayed stack. -/
def sync (k : Keyboard) : Keyboard := { k with flags := k.top &&& Modes.kittySupported }

/-- The flags a `set` leaves. -/
def merged (k : Keyboard) (flags : BitVec 8) : Nat → BitVec 8
  | 2 => k.flags ||| flags
  | 3 => k.flags &&& ~~~ flags
  | _ => flags

def step (k : Keyboard) : KeyOp → Keyboard
  | .push flags =>
    let stack := if k.stack.length = kittyStackDepth then k.stack.drop 1 else k.stack
    (k.setStack (stack ++ [flags &&& Modes.kittySupported])).sync
  | .pop count => (k.setStack (k.stack.take (k.stack.length - count))).sync
  | .set flags mode =>
    (k.setStack (k.stack.dropLast ++ [k.merged (flags &&& Modes.kittySupported) mode])).sync
  | .display alt => if alt = k.onAlt then k else { k with onAlt := alt }.sync
  | .reset => { k with main := [], alt := [] }.sync

/-- A stack no deeper than allowed, of flags the terminal implements. -/
structure Kept (stack : List (BitVec 8)) : Prop where
  depth : stack.length ≤ kittyStackDepth
  supported : ∀ flags ∈ stack, Supported flags

/-- The flags in force are the top of the displayed stack, and both stacks
are kept. -/
structure Sound (k : Keyboard) : Prop where
  flags : k.flags = k.top
  main : Kept k.main
  alt : Kept k.alt

theorem Kept.nil : Kept [] := ⟨Nat.zero_le _, fun _ h => absurd h List.not_mem_nil⟩

theorem Kept.sublist {stack stack' : List (BitVec 8)} (h : Kept stack) (hsub : stack'.Sublist stack) :
    Kept stack' :=
  ⟨hsub.length_le.trans h.depth, fun flags hf => h.supported flags (hsub.subset hf)⟩

theorem Kept.snoc {stack : List (BitVec 8)} {flags : BitVec 8} (h : Kept stack)
    (hlt : stack.length < kittyStackDepth) (hflags : Supported flags) : Kept (stack ++ [flags]) := by
  refine ⟨by simpa using hlt, fun f hf => ?_⟩
  rcases List.mem_append.mp hf with hf | hf
  · exact h.supported f hf
  · rw [List.mem_singleton.mp hf]
    exact hflags

theorem Kept.top {stack : List (BitVec 8)} (h : Kept stack) :
    Supported ((stack.getLast?).getD 0) := by
  cases hlast : stack.getLast? with
  | none => rfl
  | some flags => exact h.supported flags (List.mem_of_getLast? hlast)

theorem Sound.stack (h : Sound k) : Kept k.stack := by
  unfold Keyboard.stack
  split
  · exact h.alt
  · exact h.main

/-- Every operation ends in a `sync`, which is sound where both stacks
are. -/
theorem sound_sync (hmain : Kept k.main) (halt : Kept k.alt) : Sound k.sync := by
  have htop : Supported k.top := by
    unfold Keyboard.top Keyboard.stack
    split
    · exact halt.top
    · exact hmain.top
  exact ⟨htop, hmain, halt⟩

theorem sound_setStack (h : Sound k) {stack : List (BitVec 8)} (hstack : Kept stack) :
    Sound (k.setStack stack).sync := by
  unfold setStack
  split
  · exact sound_sync h.main hstack
  · exact sound_sync hstack h.alt

theorem supported_merged (h : Sound k) (flags : BitVec 8) (mode : Nat) :
    Supported (k.merged (flags &&& Modes.kittySupported) mode) := by
  have hin : Supported k.flags := h.flags ▸ h.stack.top
  unfold merged
  split
  · exact hin.or (supported_and flags)
  · exact hin.and
  · exact supported_and flags

theorem sound_step (h : Sound k) (op : KeyOp) : Sound (k.step op) := by
  cases op with
  | push flags =>
    have hdepth := h.stack.depth
    unfold step
    dsimp only
    split
    · next hfull =>
      refine sound_setStack h ((h.stack.sublist (List.drop_sublist 1 _)).snoc ?_ (supported_and flags))
      rw [List.length_drop, hfull]
      decide
    · next hroom =>
      exact sound_setStack h (h.stack.snoc (Nat.lt_of_le_of_ne hdepth hroom) (supported_and flags))
  | pop count => exact sound_setStack h (h.stack.sublist (List.take_sublist _ _))
  | set flags mode =>
    refine sound_setStack h ((h.stack.sublist (List.dropLast_sublist _)).snoc ?_
      (supported_merged h flags mode))
    have hdepth := h.stack.depth
    have hpos : 0 < kittyStackDepth := by decide
    rw [List.length_dropLast]
    omega
  | display alt =>
    unfold step
    dsimp only
    split
    · exact h
    · exact sound_sync h.main h.alt
  | reset => exact sound_sync Kept.nil Kept.nil

theorem sound_steps (h : Sound k) (ops : List KeyOp) : Sound (ops.foldl step k) := by
  induction ops generalizing k with
  | nil => exact h
  | cons op ops ih => exact ih (sound_step h op)

/-- The screen that is not displayed keeps its stack. -/
def OtherKept (k k' : Keyboard) : Prop :=
  (k.onAlt = true → k'.main = k.main) ∧ (k.onAlt = false → k'.alt = k.alt)

theorem otherKept_setStack (k : Keyboard) (stack : List (BitVec 8)) :
    OtherKept k (k.setStack stack).sync := by
  unfold setStack sync
  constructor
  · intro hon
    rw [if_pos hon]
  · intro hoff
    rw [if_neg (by simp [hoff])]

/-- Only a reset touches the screen that is not displayed. -/
theorem otherKept_step (k : Keyboard) {op : KeyOp} (hop : op ≠ .reset) : OtherKept k (k.step op) := by
  cases op with
  | push | pop | set => exact otherKept_setStack k _
  | display alt =>
    unfold step
    dsimp only
    split
    · exact ⟨fun _ => rfl, fun _ => rfl⟩
    · exact ⟨fun _ => rfl, fun _ => rfl⟩
  | reset => exact absurd rfl hop

/-- Displaying one screen and the other changes neither stack. -/
theorem stacks_display (alts : List Bool) (k : Keyboard) :
    ((alts.map KeyOp.display).foldl step k).main = k.main ∧
      ((alts.map KeyOp.display).foldl step k).alt = k.alt := by
  induction alts generalizing k with
  | nil => exact ⟨rfl, rfl⟩
  | cons alt alts ih =>
    obtain ⟨hmain, halt⟩ := ih (k.step (.display alt))
    have hstep : (k.step (.display alt)).main = k.main ∧ (k.step (.display alt)).alt = k.alt := by
      unfold step
      dsimp only
      split <;> exact ⟨rfl, rfl⟩
    exact ⟨hmain.trans hstep.1, halt.trans hstep.2⟩

end Keyboard

/-! ## The keyboard of a terminal -/

namespace Modes

theorem getLsbD_kittyFlags (m : Modes) (i : Nat) :
    m.kittyFlags.getLsbD i = (m.bits.getLsbD (16 + i) && kittySupported.getLsbD i) := by
  unfold kittyFlags
  by_cases hi : i < 8
  · simp [kittyShift, hi]
  · simp [hi, BitVec.getLsbD_of_ge kittySupported i (by omega)]

/-- The keyboard flags are bits of their own. -/
theorem kittyFlags_set (m b : Modes) (on : Bool) (hb : b.kittyFlags = 0#8) :
    (m.set b on).kittyFlags = m.kittyFlags := by
  refine BitVec.eq_of_getLsbD_eq fun i _ => ?_
  have hbit : (b.bits.getLsbD (16 + i) && kittySupported.getLsbD i) = false := by
    rw [← getLsbD_kittyFlags, hb]
    exact BitVec.getLsbD_zero
  rw [getLsbD_kittyFlags, getLsbD_kittyFlags]
  cases hsup : kittySupported.getLsbD i with
  | false => simp
  | true =>
    have hoff : b.bits.getLsbD (16 + i) = false := by simpa [hsup] using hbit
    have hlt : 16 + i < 32 := by have := BitVec.lt_of_getLsbD hsup; omega
    cases on with
    | false =>
      show ((m.bits &&& ~~~ b.bits).getLsbD (16 + i) && true) = _
      rw [BitVec.getLsbD_and, BitVec.getLsbD_not, hoff]
      simp [hlt]
    | true =>
      show ((m.bits ||| b.bits).getLsbD (16 + i) && true) = _
      rw [BitVec.getLsbD_or, hoff, Bool.or_false]

/-- The flags read back as they are written, but for those the terminal
does not implement. -/
theorem kittyFlags_withKittyFlags (m : Modes) (flags : BitVec 8) :
    (m.withKittyFlags flags).kittyFlags = flags &&& kittySupported := by
  have hall : ∀ i : Fin 8, all.bits.getLsbD (16 + i) = kittySupported.getLsbD i := by decide
  refine BitVec.eq_of_getLsbD_eq fun i hi => ?_
  rw [getLsbD_kittyFlags, BitVec.getLsbD_and]
  have hin := hall ⟨i, hi⟩
  dsimp only at hin
  have hlt : 16 + i < 32 := by omega
  unfold withKittyFlags fromBitsTruncate
  simp only [BitVec.getLsbD_and, BitVec.getLsbD_or, BitVec.getLsbD_not, BitVec.getLsbD_shiftLeft,
    BitVec.getLsbD_setWidth, kittyShift, hin, hlt, decide_true, Nat.add_sub_cancel_left,
    Bool.true_and, show ¬16 + i < 16 by omega, decide_false, Bool.not_false,
    show i < 32 by omega]
  cases kittySupported.getLsbD i <;> simp

end Modes

namespace TermState

variable (s : TermState)

/-- What a terminal says of the keyboard. -/
def keyboard (s : TermState) : Keyboard :=
  { main := s.kittyStack
    alt := s.kittyStackAlt
    onAlt := s.altGrid.isSome
    flags := s.modes.kittyFlags }

/-- The keyboard is a matter of the screens. -/
theorem keyboard_of_screens {s s' : TermState} (h : s'.screens = s.screens) :
    s'.keyboard = s.keyboard :=
  congrArg (fun c : Screens =>
    (⟨c.kittyStack, c.kittyStackAlt, c.altGrid.isSome, c.modes.kittyFlags⟩ : Keyboard)) h

@[simp] theorem keyboard_modifyGrid (f : Grid → Grid) : (s.modifyGrid f).keyboard = s.keyboard := by
  unfold modifyGrid
  split
  · next alt halt => simp [keyboard, halt]
  · rfl

@[simp] theorem keyboard_modifyCursor (f : Cursor → Cursor) :
    (s.modifyCursor f).keyboard = s.keyboard := keyboard_modifyGrid s _

@[simp] theorem keyboard_touch : s.touch.keyboard = s.keyboard := rfl

@[simp] theorem keyboard_touchFull : s.touchFull.keyboard = s.keyboard := rfl

@[simp] theorem keyboard_pushEvent (e : TermEvent) :
    (s.pushEvent e).keyboard = s.keyboard := rfl

theorem keyboard_setModes (m : Modes) (on : Bool) (hm : m.kittyFlags = 0#8) :
    (s.setModes m on).keyboard = s.keyboard := by
  unfold keyboard setModes
  dsimp only
  rw [Modes.kittyFlags_set _ _ _ hm]

@[simp] theorem keyboard_syncKittyModes : s.syncKittyModes.keyboard = s.keyboard.sync := by
  have hflags := Modes.kittyFlags_withKittyFlags s.modes ((s.activeKittyStack.getLast?).getD 0)
  unfold syncKittyModes
  dsimp only
  split
  · rw [keyboard_touch]
    unfold keyboard
    dsimp only
    rw [hflags]
    rfl
  · next hsame =>
    rw [not_not.mp hsame] at hflags
    unfold keyboard
    rw [hflags]
    rfl

@[simp] theorem keyboard_setKittyStack (stack : List (BitVec 8)) :
    (s.setKittyStack stack).keyboard = s.keyboard.setStack stack := by
  unfold setKittyStack Keyboard.setStack keyboard
  cases s.altGrid <;> rfl

/-! ## Keyboard sequences -/

theorem keyboard_kittyPush (flags : BitVec 8) :
    (s.kittyPush flags).keyboard = s.keyboard.step (.push flags) := by
  unfold kittyPush
  dsimp only
  rw [keyboard_syncKittyModes, keyboard_setKittyStack]
  rfl

theorem keyboard_kittyPop (count : Nat) :
    (s.kittyPop count).keyboard = s.keyboard.step (.pop count) := by
  unfold kittyPop
  dsimp only
  rw [keyboard_syncKittyModes, keyboard_setKittyStack]
  rfl

theorem keyboard_kittySet (flags : BitVec 8) (mode : Nat) :
    (s.kittySet flags mode).keyboard = s.keyboard.step (.set flags mode) := by
  unfold kittySet
  dsimp only
  rw [keyboard_syncKittyModes, keyboard_setKittyStack]
  rfl

theorem keyboard_kittyReset : s.kittyReset.keyboard = s.keyboard.step .reset := by
  unfold kittyReset
  rw [keyboard_syncKittyModes]
  rfl

theorem keyboard_setAltScreen (enable : Bool) :
    (s.setAltScreen enable).keyboard = s.keyboard.step (.display enable) := by
  unfold setAltScreen
  split
  · next hsame => exact (if_pos hsame).symm
  · next hmoves =>
    dsimp only
    rw [keyboard_touchFull, keyboard_syncKittyModes]
    refine Eq.trans ?_ (if_neg hmoves).symm
    congr 1
    cases enable with
    | true =>
      rw [if_pos rfl]
      unfold keyboard
      congr 1
      exact Modes.kittyFlags_set s.modes .altScreen true (by decide)
    | false =>
      rw [if_neg Bool.false_ne_true]
      unfold keyboard
      congr 1
      exact Modes.kittyFlags_set s.modes .altScreen false (by decide)

/-! ## Everything else -/

section Frame

variable (s : TermState)

@[simp] theorem keyboard_evictBlocks : s.evictBlocks.keyboard = s.keyboard := by
  unfold evictBlocks
  dsimp only
  split <;> rfl

@[simp] theorem keyboard_settleRestate : s.settleRestate.keyboard = s.keyboard := by
  unfold settleRestate
  dsimp only
  split <;> simp

@[simp] theorem keyboard_strandIfDiverged : s.strandIfDiverged.keyboard = s.keyboard := by
  unfold strandIfDiverged
  dsimp only
  split
  · rfl
  · split <;> simp

@[simp] theorem keyboard_linefeed : s.linefeed.keyboard = s.keyboard := by
  unfold linefeed
  dsimp only
  rw [keyboard_modifyCursor]
  split
  · simp
  · split <;> simp

@[simp] theorem keyboard_wrapRow : s.wrapRow.keyboard = s.keyboard := by
  simp [wrapRow]

@[simp] theorem keyboard_writeMark (ch : Char) : (s.writeMark ch).keyboard = s.keyboard := by
  unfold writeMark
  dsimp only
  split <;> simp

@[simp] theorem keyboard_putChar (ch : Char) (width : Nat) :
    (s.putChar ch width).keyboard = s.keyboard := by
  unfold putChar
  dsimp only
  rw [keyboard_touch]
  split <;> split <;> split <;> simp

theorem keyboard_writeChar (vt : Vt) (ch : Char) : (s.writeChar vt ch).keyboard = s.keyboard := by
  unfold writeChar
  simp [apply_ite keyboard]

@[simp] theorem keyboard_carriageReturn : s.carriageReturn.keyboard = s.keyboard := by
  simp [carriageReturn]

@[simp] theorem keyboard_goto (row col : Nat) : (s.goto row col).keyboard = s.keyboard := by
  simp [goto]

@[simp] theorem keyboard_saveCursor : s.saveCursor.keyboard = s.keyboard := by
  unfold saveCursor
  dsimp only
  split <;> rfl

@[simp] theorem keyboard_restoreCursor : s.restoreCursor.keyboard = s.keyboard := by
  unfold restoreCursor
  dsimp only
  rw [keyboard_touch, keyboard_modifyCursor, keyboard_setModes _ _ _ (by decide)]
  rfl

@[simp] theorem keyboard_eraseInRow (row start stop : Nat) :
    (s.eraseInRow row start stop).keyboard = s.keyboard := by
  simp [eraseInRow]

@[simp] theorem keyboard_eraseRows (first last : Nat) :
    (s.eraseRows first last).keyboard = s.keyboard := by
  simp [eraseRows]

theorem keyboard_eraseScreenBlocks : s.eraseScreenBlocks.keyboard = s.keyboard := by
  unfold eraseScreenBlocks
  dsimp only
  split
  · split <;> rfl
  · rfl

theorem keyboard_eraseHistory : s.eraseHistory.keyboard = s.keyboard := rfl

theorem keyboard_eraseInDisplay (mode : Nat) : (s.eraseInDisplay mode).keyboard = s.keyboard := by
  unfold eraseInDisplay
  dsimp only
  rw [keyboard_touchFull]
  split
  · split <;> simp
  · split <;> simp
  · simp [keyboard_eraseScreenBlocks]
  · simp [keyboard_eraseScreenBlocks, keyboard_eraseHistory]
  · simp

theorem keyboard_eraseInLine (mode : Nat) : (s.eraseInLine mode).keyboard = s.keyboard := by
  unfold eraseInLine
  dsimp only
  rw [keyboard_touch]
  split <;> simp

theorem keyboard_reverseIndex : s.reverseIndex.keyboard = s.keyboard := by
  unfold reverseIndex
  dsimp only
  split
  · simp
  · split <;> simp

theorem keyboard_decaln : s.decaln.keyboard = s.keyboard := by
  unfold decaln
  dsimp only
  rw [keyboard_touchFull]
  generalize List.range s.activeGrid.rows = rows
  induction rows generalizing s with
  | nil => rfl
  | cons row rows ih => exact (ih _).trans (keyboard_modifyGrid s _)

theorem keyboard_setShowCursor (on : Bool) : (s.setShowCursor on).keyboard = s.keyboard := by
  unfold setShowCursor
  dsimp only
  split
  · rw [keyboard_settleRestate, keyboard_setModes _ _ _ (by decide)]
  · rw [keyboard_modifyGrid, keyboard_setModes _ _ _ (by decide)]

theorem keyboard_setAnsiModes (params : Params) (enable : Bool) :
    (s.setAnsiModes params enable).keyboard = s.keyboard := by
  unfold setAnsiModes
  rw [keyboard_touch]
  generalize firsts params = modes
  induction modes generalizing s with
  | nil => rfl
  | cons mode modes ih =>
    refine (ih _).trans ?_
    show (s.setAnsiMode enable mode).keyboard = s.keyboard
    unfold setAnsiMode
    split
    · exact keyboard_setModes s _ _ (by decide)
    · exact keyboard_setModes s _ _ (by decide)
    · rfl

theorem keyboard_setScrollRegion (top bottom : Nat) :
    (s.setScrollRegion top bottom).keyboard = s.keyboard := by
  simp [setScrollRegion]

theorem keyboard_moveTo (row col : Nat) : (s.moveTo row col).keyboard = s.keyboard := by
  unfold moveTo
  dsimp only
  split <;> simp

theorem keyboard_oscDispatch (params : List (List UInt8)) :
    (s.oscDispatch params).keyboard = s.keyboard :=
  keyboard_of_screens (screens_oscDispatch s params)

theorem keyboard_execute (byte : UInt8) : (s.execute byte).keyboard = s.keyboard := by
  unfold execute
  split
  · rfl
  · simp [backspace]
  · simp [tab]
  · simp
  · split
    · dsimp only
      split <;> simp
    · rfl

end Frame

/-! ## Every action -/

/-- What the `u` sequences ask. -/
def keyboardOps (params : Params) : Option Nat → List KeyOp
  | some 0x3e => [.push (BitVec.ofNat 8 (arg params 0 0))]
  | some 0x3c => [.pop (arg params 0 1)]
  | some 0x3d => [.set (BitVec.ofNat 8 (arg params 0 0)) (arg params 1 1)]
  | _ => []

/-- The screens a list of private modes displays in turn. -/
def displays (params : Params) (enable : Bool) : List Bool :=
  (firsts params).filterMap fun mode =>
    if mode = 47 ∨ mode = 1047 ∨ mode = 1049 then some enable else none

/-- What an action asks of the keyboard. -/
def keyOps : Action → List KeyOp
  | .csi params intermediates ignore c =>
    let inter := intermediates.head?.map UInt8.toNat
    if ignore then []
    else if c = 'u' then keyboardOps params inter
    else if c = 'h' ∧ inter = some 0x3f then (displays params true).map .display
    else if c = 'l' ∧ inter = some 0x3f then (displays params false).map .display
    else []
  | .esc _ _ byte => if byte.toNat = 0x63 then [.reset, .display false] else []
  | _ => []

section Actions

variable (s : TermState)

theorem keyboard_keyboardDispatch (params : Params) (inter : Option Nat) :
    (s.keyboardDispatch params inter).keyboard =
      (keyboardOps params inter).foldl Keyboard.step s.keyboard := by
  unfold keyboardDispatch keyboardOps
  split
  · rfl
  · exact keyboard_kittyPush s _
  · exact keyboard_kittyPop s _
  · exact keyboard_kittySet s _ _
  · next h₁ h₂ h₃ h₄ =>
    split
    · next h => exact absurd (Option.some.inj h) h₂
    · next h => exact absurd (Option.some.inj h) h₃
    · next h => exact absurd (Option.some.inj h) h₄
    · rfl
  · exact keyboard_restoreCursor s

theorem keyboard_setPrivateMode (enable : Bool) (mode : Nat) :
    (s.setPrivateMode enable mode).keyboard =
      if mode = 47 ∨ mode = 1047 ∨ mode = 1049 then s.keyboard.step (.display enable)
      else s.keyboard := by
  unfold setPrivateMode
  split
  · exact keyboard_setModes s _ _ (by decide)
  · rw [keyboard_goto, keyboard_setModes _ _ _ (by decide)]
    rfl
  · exact keyboard_setModes s _ _ (by decide)
  · exact keyboard_setShowCursor s _
  · exact keyboard_setModes s _ _ (by decide)
  · exact keyboard_setModes s _ _ (by decide)
  · exact keyboard_setModes s _ _ (by decide)
  · exact keyboard_setModes s _ _ (by decide)
  · exact keyboard_setModes s _ _ (by decide)
  · exact keyboard_setModes s _ _ (by decide)
  · exact keyboard_setAltScreen s _
  · exact keyboard_setAltScreen s _
  · cases enable <;> simp
  · cases enable with
    | true =>
      rw [if_pos rfl, keyboard_setAltScreen, keyboard_saveCursor]
      rfl
    | false =>
      rw [if_neg Bool.false_ne_true, keyboard_restoreCursor, keyboard_setAltScreen]
      rfl
  · exact keyboard_setModes s _ _ (by decide)
  · rw [keyboard_pushEvent]
    exact keyboard_setModes s _ _ (by decide)
  · exact keyboard_setModes s _ _ (by decide)
  · next h47 h1047 _ h1049 _ _ _ =>
    rw [if_neg (by tauto)]

theorem keyboard_setPrivateModes (params : Params) (enable : Bool) :
    (s.setPrivateModes params enable).keyboard =
      ((displays params enable).map .display).foldl Keyboard.step s.keyboard := by
  unfold setPrivateModes displays
  rw [keyboard_touch]
  generalize firsts params = modes
  induction modes generalizing s with
  | nil => rfl
  | cons mode modes ih =>
    rw [List.foldl_cons, ih, keyboard_setPrivateMode, List.filterMap_cons]
    split <;> rfl

theorem keyboard_fullReset :
    s.fullReset.keyboard = [.reset, .display false].foldl Keyboard.step s.keyboard := by
  have hreset : ({ s with template := Cell.blank, modes := Modes.initial } :
      TermState).keyboard.step .reset = s.keyboard.step .reset := rfl
  unfold fullReset
  dsimp only
  rw [keyboard_touchFull]
  refine (keyboard_modifyGrid _ _).trans ?_
  rw [keyboard_setAltScreen, keyboard_kittyReset, hreset]
  rfl

theorem keyboard_escDispatch (intermediates : List UInt8) (ignore : Bool) (byte : UInt8) :
    (s.escDispatch intermediates byte).keyboard =
      (keyOps (.esc intermediates ignore byte)).foldl Keyboard.step s.keyboard := by
  by_cases hreset : byte.toNat = 0x63
  · have hs : s.escDispatch intermediates byte = s.fullReset := by
      simp only [escDispatch, hreset]
    have hops : keyOps (.esc intermediates ignore byte) = [.reset, .display false] := if_pos hreset
    rw [hs, hops]
    exact keyboard_fullReset s
  · have hops : keyOps (.esc intermediates ignore byte) = [] := if_neg hreset
    rw [hops]
    unfold escDispatch
    dsimp only
    split
    · simp
    · split
      · simp
      · exact keyboard_decaln s
      · rfl
    · simp
    · simp
    · exact keyboard_reverseIndex s
    · rfl
    · next hbyte => exact absurd hbyte hreset
    · rfl

theorem keyboard_csiDispatch (params : Params) (intermediates : List UInt8) (ignore : Bool)
    (c : Char) : (s.csiDispatch params intermediates ignore c).keyboard =
      (keyOps (.csi params intermediates ignore c)).foldl Keyboard.step s.keyboard := by
  unfold csiDispatch keyOps
  dsimp only
  split
  · rfl
  split
  · simp [moveUp]
  · simp [moveDown]
  · simp [moveDown]
  · simp [moveRight]
  · simp [moveRight]
  · simp [moveLeft]
  · simp [moveDown]
  · simp [moveUp]
  · simp [gotoAbsolute]
  · simp [gotoAbsolute]
  · simp
  · exact keyboard_moveTo s _ _
  · exact keyboard_moveTo s _ _
  · simp [tab]
  · simp [backTab]
  · exact keyboard_eraseInDisplay s _
  · exact keyboard_eraseInLine s _
  · simp [eraseChars]
  · simp
  · simp
  · simp
  · simp
  · simp
  · simp
  · split <;> simp
  · split
    · next hprivate =>
      rw [if_neg (by decide), if_pos ⟨rfl, by simpa using hprivate⟩]
      exact keyboard_setPrivateModes s params true
    · next hpublic =>
      rw [if_neg (by decide), if_neg (by simpa using hpublic), if_neg (by simp)]
      exact keyboard_setAnsiModes s params true
  · split
    · next hprivate =>
      rw [if_neg (by decide), if_neg (by simp), if_pos ⟨rfl, by simpa using hprivate⟩]
      exact keyboard_setPrivateModes s params false
    · next hpublic =>
      rw [if_neg (by decide), if_neg (by simp), if_neg (by simpa using hpublic)]
      exact keyboard_setAnsiModes s params false
  · split <;> rfl
  · split <;> rfl
  · split
    · rfl
    · exact keyboard_setScrollRegion s _ _
  · split <;> rfl
  · rfl
  · split <;> rfl
  · simp
  · rw [if_pos rfl]
    exact keyboard_keyboardDispatch s params _
  · rw [if_neg (by assumption), if_neg fun h => absurd h.1 (by assumption),
      if_neg fun h => absurd h.1 (by assumption)]
    rfl

/-- Every action comes to keyboard operations. -/
theorem keyboard_perform (vt : Vt) (a : Action) :
    (s.perform vt a).keyboard = (keyOps a).foldl Keyboard.step s.keyboard := by
  cases a with
  | print ch => exact keyboard_writeChar s vt ch
  | execute byte => exact keyboard_execute s byte
  | csi params intermediates ignore c => exact keyboard_csiDispatch s params intermediates ignore c
  | esc intermediates ignore byte => exact keyboard_escDispatch s intermediates ignore byte
  | osc params bell => exact keyboard_oscDispatch s params

/-! ## Every run -/

/-- The flags in force are the top of the displayed stack, and both stacks
are kept. -/
def KeyboardSound (s : TermState) : Prop := s.keyboard.Sound

theorem keyboardSound_new (cols rows scrollback : Nat) : (new cols rows scrollback).KeyboardSound :=
  ⟨show Modes.initial.kittyFlags = 0 by decide, Keyboard.Kept.nil, Keyboard.Kept.nil⟩

theorem keyboardSound_perform (vt : Vt) {s : TermState} (h : s.KeyboardSound) (a : Action) :
    (s.perform vt a).KeyboardSound := by
  unfold KeyboardSound
  rw [keyboard_perform]
  exact Keyboard.sound_steps h (keyOps a)

theorem keyboardSound_run (vt : Vt) (actions : List Action) {s : TermState} (h : s.KeyboardSound) :
    (actions.foldl (perform vt) s).KeyboardSound := by
  induction actions generalizing s with
  | nil => exact h
  | cons a actions ih => exact ih (keyboardSound_perform vt h a)

/-- Any action but a full reset asks for one keyboard operation, or for
screens to be displayed. -/
theorem keyOps_cases {a : Action} (ha : a.isReset = false) :
    (∃ op, op ≠ .reset ∧ keyOps a = [op]) ∨ ∃ alts : List Bool, keyOps a = alts.map .display := by
  cases a with
  | csi params intermediates ignore c =>
    unfold keyOps keyboardOps
    dsimp only
    split
    · exact .inr ⟨[], rfl⟩
    · split
      · split
        · exact .inl ⟨_, by simp, rfl⟩
        · exact .inl ⟨_, by simp, rfl⟩
        · exact .inl ⟨_, by simp, rfl⟩
        · exact .inr ⟨[], rfl⟩
      · split
        · exact .inr ⟨_, rfl⟩
        · split
          · exact .inr ⟨_, rfl⟩
          · exact .inr ⟨[], rfl⟩
  | esc intermediates ignore byte =>
    have hbyte : byte.toNat ≠ 0x63 := by simpa [Action.isReset] using ha
    exact .inr ⟨[], if_neg hbyte⟩
  | print | execute | osc => exact .inr ⟨[], rfl⟩

/-- An action on one screen leaves the other screen's stack, unless it is a
full reset. -/
theorem otherKept_perform (vt : Vt) (s : TermState) {a : Action} (ha : a.isReset = false) :
    s.keyboard.OtherKept (s.perform vt a).keyboard := by
  rw [keyboard_perform]
  rcases keyOps_cases ha with ⟨op, hop, hops⟩ | ⟨alts, hops⟩
  · rw [hops]
    exact s.keyboard.otherKept_step hop
  · rw [hops]
    obtain ⟨hmain, halt⟩ := Keyboard.stacks_display alts s.keyboard
    exact ⟨fun _ => hmain, fun _ => halt⟩

end Actions

end TermState

namespace Terminal

theorem keyboardSound_advance {vt : Vt} {t : Terminal vt} (h : t.state.KeyboardSound)
    (bytes : List UInt8) : (t.advance bytes).state.KeyboardSound :=
  TermState.keyboardSound_run vt _ h

/-- **The flags follow the screen.** Whatever is fed to a terminal, in every
state on the way the flags in force are the top of the displayed screen's
stack, both stacks hold eight entries at most, each of flags the terminal
implements, and what comes next, unless it is a full reset, leaves the other
screen's stack as it is. -/
theorem kitty_run (vt : Vt) (cols rows scrollback : Nat) (chunks : List (List UInt8))
    (bytes : List UInt8) (i : Nat) :
    let t := chunks.foldl advance (Terminal.new vt cols rows scrollback)
    let actions := (vt.advance t.parser bytes).2
    let s := (actions.take i).foldl (TermState.perform vt) t.state
    s.KeyboardSound ∧ ∀ a, actions[i]? = some a → a.isReset = false →
      s.keyboard.OtherKept (s.perform vt a).keyboard := by
  have hstart : ∀ (chunks : List (List UInt8)) (t : Terminal vt), t.state.KeyboardSound →
      (chunks.foldl advance t).state.KeyboardSound := by
    intro chunks
    induction chunks with
    | nil => exact fun _ h => h
    | cons chunk chunks ih => exact fun t h => ih _ (keyboardSound_advance h chunk)
  have hnew := TermState.keyboardSound_new cols rows scrollback
  exact ⟨TermState.keyboardSound_run vt _ (hstart chunks _ hnew),
    fun a _ ha => TermState.otherKept_perform vt _ ha⟩

end Terminal

end Zesterm
