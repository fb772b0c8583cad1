/-
Zesterm.Input.KeyTheorems — the browser's encoder beside the desktop's.

A table of the web client is the desktop's over the DOM's names
(`switch_map`), so a named key takes the same branch on both sides, and a
single character none of the named ones. What is left is the one key that is
a name on one side and a character on the other: under the kitty protocol
Space differs where its modifiers or its event have to be said and nothing
but its character is sent. `encodeKey_iff` says exactly when, and
`encodePaste_iff` the same of pastes, whose line ends only the desktop
changes.
-/
import Zesterm.Input.Key
import Zesterm.Input.PasteTheorems
import Zesterm.Input.WebKey

namespace Zesterm.Input

open Web.Input (switch)

/-! ## One key, two names -/

/-- What the DOM calls the keys the encoders act on. -/
def domName : KeyName → String
  | .escape => "Escape" | .enter => "Enter" | .tab => "Tab" | .backspace => "Backspace"
  | .arrowUp => "ArrowUp" | .arrowDown => "ArrowDown"
  | .arrowRight => "ArrowRight" | .arrowLeft => "ArrowLeft"
  | .home => "Home" | .endKey => "End" | .insert => "Insert" | .delete => "Delete"
  | .pageUp => "PageUp" | .pageDown => "PageDown"
  | .f1 => "F1" | .f2 => "F2" | .f3 => "F3" | .f4 => "F4" | .f5 => "F5" | .f6 => "F6"
  | .f7 => "F7" | .f8 => "F8" | .f9 => "F9" | .f10 => "F10" | .f11 => "F11" | .f12 => "F12"
  | .shift => "Shift" | .control => "Control" | .alt => "Alt"
  | .capsLock => "CapsLock" | .numLock => "NumLock"

/-- A name no encoder acts on: not one character, and none of the above. -/
structure OtherName where
  name : Str
  long : name.length ≠ 1
  unknown : ∀ k, name ≠ (domName k).toList

/-- A logical key. Space is a name to the desktop and a character to the
DOM; any other character is a character to both. -/
inductive LogicalKey where
  | known (name : KeyName)
  | space
  | other (name : OtherName)
  | character (c : Char) (h : c ≠ ' ')
  | unidentified
  | dead

namespace LogicalKey

/-- As winit reports it. -/
def winit : LogicalKey → Key
  | .known name => .named (.known name)
  | .space => .named .space
  | .other name => .named (.other name.name)
  | .character c _ => .character [c]
  | .unidentified => .unidentified
  | .dead => .dead

/-- As the DOM reports it. -/
def dom : LogicalKey → Str
  | .known name => (domName name).toList
  | .space => [' ']
  | .other name => name.name
  | .character c _ => [c]
  | .unidentified => "Unidentified".toList
  | .dead => "Dead".toList

end LogicalKey

variable (k : KeyName)

def domMods (mods : ModifiersState) : Web.Input.Mods :=
  { shift := mods.shift, ctrl := mods.ctrl, alt := mods.alt, metaKey := mods.super }

def domEvent : EventType → Web.Input.EventType
  | .press => .press
  | .repeating => .repeating
  | .release => .release

def domLocation : KeyLocation → Nat
  | .standard => 0
  | .left => 1
  | .right => 2
  | .numpad => 3

/-- The DOM's event for a keystroke. -/
structure Describes (like : Web.Input.KeyLike) (key : LogicalKey) (location : KeyLocation)
    (event : EventType) : Prop where
  key : like.key = key.dom
  event : like.eventType = domEvent event
  location : like.location.getD 0 = domLocation location

/-! ## Tables -/

def keyNames : List KeyName :=
  [.escape, .enter, .tab, .backspace, .arrowUp, .arrowDown, .arrowRight, .arrowLeft, .home,
    .endKey, .insert, .delete, .pageUp, .pageDown, .f1, .f2, .f3, .f4, .f5, .f6, .f7, .f8, .f9,
    .f10, .f11, .f12, .shift, .control, .alt, .capsLock, .numLock]

theorem mem_keyNames : k ∈ keyNames := by
  cases k <;> decide

theorem domName_inj {k k' : KeyName} (h : domName k = domName k') : k = k' := by
  have hnodup : (keyNames.map domName).Nodup := by decide
  exact List.inj_on_of_nodup_map hnodup (mem_keyNames k) (mem_keyNames k') h

theorem length_domName : (domName k).toList.length ≠ 1 := by
  cases k <;> decide

/-- A table of the web client over the DOM's names, at one of them. -/
theorem switch_map {α : Type} (names : List KeyName) (f : KeyName → α) (k : KeyName) :
    switch (names.map fun k => (domName k, f k)) (domName k).toList =
      if k ∈ names then some (f k) else none := by
  induction names with
  | nil => rfl
  | cons k' names ih =>
    unfold switch at ih ⊢
    rw [List.map_cons, List.find?_cons]
    by_cases hk : k = k'
    · subst hk
      simp
    · have hne : ¬(domName k').toList = (domName k).toList := fun h =>
        hk (domName_inj (String.toList_inj.mp h)).symm
      rw [decide_eq_false hne]
      dsimp only
      rw [ih]
      simp [hk]

/-- A string that is none of the names. -/
def Foreign (s : Str) : Prop := ∀ k, s ≠ (domName k).toList

theorem foreign_character (c : Char) : Foreign [c] := by
  intro k h
  exact length_domName k (h ▸ rfl)

theorem foreign_literal {s : String} (h : s ∉ keyNames.map domName) : Foreign s.toList := by
  intro k heq
  exact h (List.mem_map.mpr ⟨k, mem_keyNames k, (String.toList_inj.mp heq).symm⟩)

/-- And at any other string. -/
theorem switch_foreign {α : Type} {arms : List (String × α)} (names : List KeyName)
    (hnames : arms.map Prod.fst = names.map domName) {s : Str} (h : Foreign s) :
    switch arms s = none := by
  unfold switch
  rw [Option.map_eq_none_iff, List.find?_eq_none]
  intro arm harm
  have hname : arm.1 ∈ names.map domName := hnames ▸ List.mem_map_of_mem harm
  obtain ⟨k, -, hk⟩ := List.mem_map.mp hname
  rw [← hk]
  simpa using (h k).symm

/-- A table of the web client that has the arms of one of the desktop's. -/
theorem switch_table {α : Type} {arms : List (String × α)} (table : KeyName → Option α)
    (names : List KeyName) (d : α)
    (harms : arms = names.map fun k => (domName k, (table k).getD d))
    (hnames : ∀ k, (table k).isSome = decide (k ∈ names)) (k : KeyName) :
    switch arms (domName k).toList = table k := by
  rw [harms, switch_map]
  have hk := hnames k
  split
  · next hmem =>
    rw [decide_eq_true hmem] at hk
    obtain ⟨a, ha⟩ := Option.isSome_iff_exists.mp hk
    rw [ha, Option.getD_some]
  · next hmem =>
    rw [decide_eq_false hmem, Option.isSome_eq_false_iff, Option.isNone_iff_eq_none] at hk
    exact hk.symm

theorem legacyByte_dom : Web.Input.legacyByte (domName k).toList = legacyByte (.known k) :=
  switch_table (fun k => legacyByte (.known k)) [.enter, .tab, .backspace] (0, []) rfl
    (fun k => by cases k <;> rfl) k

theorem csiLetter_dom : Web.Input.csiLetter (domName k).toList = csiLetter (.known k) :=
  switch_table (fun k => csiLetter (.known k))
    [.arrowUp, .arrowDown, .arrowRight, .arrowLeft, .home, .endKey] 'A' rfl
    (fun k => by cases k <;> rfl) k

theorem tildeNumber_dom : Web.Input.tildeNumber (domName k).toList = tildeNumber (.known k) :=
  switch_table (fun k => tildeNumber (.known k))
    [.insert, .delete, .pageUp, .pageDown, .f1, .f2, .f3, .f4, .f5, .f6, .f7, .f8, .f9, .f10, .f11,
      .f12] 0 rfl (fun k => by cases k <;> rfl) k

theorem modifierKeyNumber_dom (location : KeyLocation) :
    Web.Input.modifierKeyNumber (domName k).toList (domLocation location) =
      modifierKeyNumber (.known k) location := by
  have hright : (domLocation location = 2) = (location = .right) := by
    cases location <;> simp [domLocation]
  unfold Web.Input.modifierKeyNumber
  simp only [hright]
  exact switch_table (fun k => modifierKeyNumber (.known k) location)
    [.shift, .control, .alt, .capsLock, .numLock] 0 rfl (fun k => by cases k <;> rfl) k

/-! ## The forms of a sequence -/

section Forms

variable (mods : ModifiersState) (event : EventType) (eventTypes : Bool)

theorem finish_dom (bytes : List UInt8) (alt : Bool) :
    Web.Input.finish bytes alt = finish bytes alt := by
  cases bytes <;> rfl

theorem withMods_dom (cursor : Str) (final : Char) :
    Web.Input.withMods cursor final (domMods mods) = withMods (toUtf8 cursor) final mods := by
  unfold Web.Input.withMods withMods
  dsimp only
  rw [toUtf8, List.flatMap_append]
  rfl

theorem tilde_dom (n : Nat) : Web.Input.tilde n (domMods mods) = tilde n mods := rfl

theorem ss3OrTilde_dom (ss3 : Char) (n : Nat) :
    Web.Input.ss3OrTilde ss3 n (domMods mods) = ss3OrTilde ss3 n mods := rfl

theorem eventParam_dom : Web.Input.eventParam (domEvent event) = event.param := by
  cases event <;> rfl

theorem kittyParams_dom :
    Web.Input.kittyParams (domMods mods) (domEvent event) eventTypes =
      kittyParams mods event eventTypes := by
  unfold Web.Input.kittyParams kittyParams
  rw [eventParam_dom]
  rfl

theorem kittyU_dom (number : Nat) :
    Web.Input.kittyU number (domMods mods) (domEvent event) eventTypes =
      kittyU number mods event eventTypes := by
  unfold Web.Input.kittyU kittyU
  rw [kittyParams_dom]
  cases kittyParams mods event eventTypes <;> rfl

theorem kittyLetter_dom (final : Char) :
    Web.Input.kittyLetter final (domMods mods) (domEvent event) eventTypes =
      kittyLetter final mods event eventTypes := by
  unfold Web.Input.kittyLetter kittyLetter
  rw [kittyParams_dom]
  cases kittyParams mods event eventTypes <;> rfl

theorem kittyTilde_dom (n : Nat) :
    Web.Input.kittyTilde n (domMods mods) (domEvent event) eventTypes =
      kittyTilde n mods event eventTypes := by
  unfold Web.Input.kittyTilde kittyTilde
  rw [kittyParams_dom]
  cases kittyParams mods event eventTypes <;> rfl

end Forms

variable (modes : Modes)

/-! ## Text -/

/-- ASCII lowercase, on the character and on its code. -/
theorem ofNat_lower (c : Char) :
    (if 0x41 ≤ c.toNat ∧ c.toNat ≤ 0x5a then c.toNat + 0x20 else c.toNat) = c.toLower.toNat := by
  unfold Char.toLower
  by_cases hupper : c.val ≥ 'A'.val ∧ c.val ≤ 'Z'.val
  · have hcode : 0x41 ≤ c.toNat ∧ c.toNat ≤ 0x5a := hupper
    rw [dif_pos hupper, if_pos hcode]
    change c.toNat + 32 = (c.val + 32).toNat
    rw [UInt32.toNat_add]
    change c.toNat + 32 = (c.toNat + 32) % 2 ^ 32
    omega
  · have hcode : ¬(0x41 ≤ c.toNat ∧ c.toNat ≤ 0x5a) := hupper
    rw [dif_neg hupper, if_neg hcode]

theorem control_byte {n : Nat} (hlow : 0x61 ≤ n) (hhigh : n ≤ 0x7a) :
    UInt8.ofNat (n - 0x61 + 1) = UInt8.ofNat n - 97 + 1 := by
  interval_cases n <;> rfl

theorem encodeText_dom (text : Str) (ctrl alt : Bool) :
    Web.Input.encodeText text ctrl alt = encodeText text ctrl alt := by
  unfold Web.Input.encodeText encodeText
  cases ctrl with
  | false => exact finish_dom _ _
  | true =>
    cases text with
    | nil => rfl
    | cons c text =>
      simp only [List.head?_cons, if_true, ofNat_lower, Char.ofNat_toNat]
      generalize c.toLower = l
      by_cases hletter : 'a' ≤ l ∧ l ≤ 'z'
      · have hcode : 0x61 ≤ l.toNat ∧ l.toNat ≤ 0x7a := hletter
        rw [if_pos hletter, if_pos hcode]
        dsimp only
        rw [control_byte hcode.1 hcode.2, finish_dom]
      · have hcode : ¬(0x61 ≤ l.toNat ∧ l.toNat ≤ 0x7a) := hletter
        rw [if_neg hletter, if_neg hcode]
        by_cases hcontrol : l = '@' ∨ l = ' ' ∨ l = '[' ∨ l = '\\' ∨ l = ']' ∨ l = '^' ∨ l = '_' ∨
            l = '?'
        · rcases hcontrol with rfl | rfl | rfl | rfl | rfl | rfl | rfl | rfl <;>
            exact finish_dom _ _
        · simp only [not_or] at hcontrol
          obtain ⟨hat, hspace, hopen, hslash, hclose, hcaret, hunder, hquestion⟩ := hcontrol
          simp [finish_dom]

/-! ## The mode word -/

/-- A mode of one bit is set where the bit is. -/
theorem contains_bit {i : Nat} (h : BitVec.twoPow 32 i ≠ 0) :
    (modes.bits &&& BitVec.twoPow 32 i ≠ 0) = (modes.contains ⟨BitVec.twoPow 32 i⟩ = true) := by
  unfold Modes.contains
  dsimp only
  rw [BitVec.and_twoPow]
  split
  · rw [beq_self_eq_true]
    exact propext (iff_of_true h rfl)
  · have hne : (0#32 == BitVec.twoPow 32 i) = false := beq_false_of_ne (Ne.symm h)
    rw [hne]
    simp

theorem appCursor_dom :
    (modes.bits &&& Web.Input.appCursor ≠ 0) = (modes.contains Modes.appCursor = true) :=
  contains_bit modes (by decide)

theorem bracketedPaste_dom :
    (modes.bits &&& Web.Input.bracketedPaste ≠ 0) =
      (modes.contains Modes.bracketedPaste = true) :=
  contains_bit modes (by decide)

theorem kittyFlags_dom : Web.Input.kittyFlags modes.bits = modes.kittyFlags.setWidth 32 := by
  have hwide : Web.Input.kittySupported = Modes.kittySupported.setWidth 32 := by decide
  unfold Web.Input.kittyFlags Modes.kittyFlags
  rw [hwide]
  ext i hi
  by_cases hlow : i < 8
  · simp [hlow, Modes.kittyShift]
  · simp [BitVec.getLsbD_of_ge _ _ (not_lt.mp hlow)]

theorem setWidth_eq_zero (flags : BitVec 8) : flags.setWidth 32 = 0 ↔ flags = 0 := by
  rw [← BitVec.toNat_inj, ← BitVec.toNat_inj, BitVec.toNat_setWidth, Nat.mod_eq_of_lt]
  · rfl
  · exact lt_trans flags.isLt (by decide)

theorem kittyFlags_ne_zero : Web.Input.kittyFlags modes.bits ≠ 0 ↔ modes.kittyFlags ≠ 0 := by
  rw [kittyFlags_dom, Ne, setWidth_eq_zero]

/-- A flag tests the same in the wider word. -/
theorem flag_dom (flags flag : BitVec 8) :
    (flags.setWidth 32 &&& flag.setWidth 32 = 0) = (flags &&& flag = 0) := by
  rw [← BitVec.setWidth_and, setWidth_eq_zero]

theorem kittyFlag_dom (flag : BitVec 8) :
    (Web.Input.kittyFlags modes.bits &&& flag.setWidth 32 != 0) =
      (modes.kittyFlags &&& flag != 0) := by
  rw [kittyFlags_dom, bne, bne, Bool.beq_eq_decide_eq, Bool.beq_eq_decide_eq]
  simp only [flag_dom]

/-! ## The legacy scheme -/

/-- The names `encodeKey` acts on without kitty flags. -/
def legacyNames : List KeyName :=
  [.enter, .tab, .backspace, .escape, .arrowUp, .arrowDown, .arrowRight, .arrowLeft, .home, .endKey,
    .pageUp, .pageDown, .insert, .delete, .f1, .f2, .f3, .f4, .f5, .f6, .f7, .f8, .f9, .f10, .f11,
    .f12]

theorem legacyArms_dom (mods : ModifiersState) (modes : Modes) :
    Web.Input.legacyArms
        (if modes.bits &&& Web.Input.appCursor ≠ 0 then "\x1bO".toList else "\x1b[".toList)
        (domMods mods) =
      legacyNames.map fun k => (domName k, encodeLegacy (.named (.known k)) mods modes) := by
  have hcursor : toUtf8 (if modes.contains Modes.appCursor = true then "\x1bO".toList
      else "\x1b[".toList) =
        if modes.contains Modes.appCursor then toUtf8 ['\x1b', 'O'] else csi [] := by
    split <;> rfl
  simp only [appCursor_dom]
  unfold Web.Input.legacyArms
  simp only [finish_dom, withMods_dom, tilde_dom, ss3OrTilde_dom, hcursor]
  rfl

/-- What is not in the table is a modifier key. -/
theorem encodeLegacy_modifier {k : KeyName} (h : k ∉ legacyNames) (mods : ModifiersState)
    (modes : Modes) : encodeLegacy (.named (.known k)) mods modes = none := by
  have hk : k ∈ [KeyName.shift, .control, .alt, .capsLock, .numLock] := by
    revert h
    cases k <;> decide
  simp only [List.mem_cons, List.not_mem_nil, or_false] at hk
  rcases hk with rfl | rfl | rfl | rfl | rfl
  · rfl
  · rfl
  · rfl
  · rfl
  · rfl

/-! ## The kitty protocol, key by key -/

section Kitty

variable (lower : Char → Str) (location : KeyLocation) (mods : ModifiersState)
  (event : EventType) (modes : Modes)

theorem release_dom : (domEvent event = .release) = (event = .release) := by
  cases event <;> simp [domEvent]

/-- A key both sides know by name. -/
theorem encodeKitty_known (k : KeyName) :
    Web.Input.encodeKitty lower (domName k).toList (domLocation location) (domMods mods)
        (domEvent event) modes.bits =
      (KeyPress.mk (.named (.known k)) location mods event).encodeKitty lower
        modes.kittyFlags := by
  have hescape : ((domName k).toList = "Escape".toList) = (k = .escape) := by
    refine propext ⟨fun h => domName_inj (String.toList_inj.mp h), ?_⟩
    rintro rfl
    rfl
  have hnamed : (NamedKey.known k = .known .escape) = (k = .escape) := by simp
  have hshort : Web.Input.oneCodePoint (domName k).toList = none := by
    cases k <;> rfl
  unfold Web.Input.encodeKitty KeyPress.encodeKitty KeyPress.encodeKittyNamed
    Web.Input.encodeKittyText
  simp only [show (2 : BitVec 32) = (2 : BitVec 8).setWidth 32 from rfl,
    show (8 : BitVec 32) = (8 : BitVec 8).setWidth 32 from rfl, kittyFlag_dom, release_dom,
    hescape, hnamed, hshort, legacyByte_dom, csiLetter_dom, tildeNumber_dom, modifierKeyNumber_dom,
    kittyU_dom, kittyLetter_dom, kittyTilde_dom, eventParam_dom]
  generalize (modes.kittyFlags &&& 8 != 0) = reportAll
  rcases legacyByte (.known k) with _ | ⟨number, legacy⟩
  · rcases csiLetter (.known k) with _ | letter
    · rcases tildeNumber (.known k) with _ | n
      · cases reportAll with
        | false => rfl
        | true => cases modifierKeyNumber (.known k) location <;> rfl
      · rfl
    · rfl
  · rfl

/-- A string that is none of the names is taken for a character. -/
theorem webKitty_foreign {s : Str} (h : Foreign s) :
    Web.Input.encodeKitty lower s (domLocation location) (domMods mods) (domEvent event)
        modes.bits =
      if !(modes.kittyFlags &&& 2 != 0) && event = .release then none
      else Web.Input.encodeKittyText lower s (domMods mods) (domEvent event)
        (modes.kittyFlags &&& 8 != 0) (modes.kittyFlags &&& 2 != 0) := by
  have hescape : ¬s = "Escape".toList := h .escape
  have hlegacy : Web.Input.legacyByte s = none :=
    switch_foreign [.enter, .tab, .backspace] rfl h
  have hletter : Web.Input.csiLetter s = none :=
    switch_foreign [.arrowUp, .arrowDown, .arrowRight, .arrowLeft, .home, .endKey] rfl h
  have htilde : Web.Input.tildeNumber s = none :=
    switch_foreign [.insert, .delete, .pageUp, .pageDown, .f1, .f2, .f3, .f4, .f5, .f6, .f7, .f8,
      .f9, .f10, .f11, .f12] rfl h
  have hmodifier : Web.Input.modifierKeyNumber s (domLocation location) = none :=
    switch_foreign [.shift, .control, .alt, .capsLock, .numLock] rfl h
  unfold Web.Input.encodeKitty
  simp only [show (2 : BitVec 32) = (2 : BitVec 8).setWidth 32 from rfl,
    show (8 : BitVec 32) = (8 : BitVec 8).setWidth 32 from rfl, kittyFlag_dom, release_dom,
    if_neg hescape, hlegacy, hletter, htilde, hmodifier, ite_self]

theorem encodeKitty_character (c : Char) :
    Web.Input.encodeKitty lower [c] (domLocation location) (domMods mods) (domEvent event)
        modes.bits =
      (KeyPress.mk (.character [c]) location mods event).encodeKitty lower modes.kittyFlags := by
  have hnumber : ((lower (Char.ofNat c.toNat)).head?.map Char.toNat).getD c.toNat =
      ((lower c).head?.getD c).toNat := by
    rw [Char.ofNat_toNat]
    cases (lower c).head? <;> rfl
  have htext : encodeText [c] false false = some (toUtf8 [c]) := by
    have hne : toUtf8 [c] ≠ [] := by
      rw [toUtf8, List.flatMap_singleton]
      exact String.utf8EncodeChar_ne_nil
    simp [encodeText, finish, hne]
  rw [webKitty_foreign lower location mods event modes (foreign_character c)]
  unfold KeyPress.encodeKitty KeyPress.encodeKittyText Web.Input.encodeKittyText
  simp only [Web.Input.oneCodePoint, hnumber, htext, kittyU_dom, release_dom, Bool.or_assoc]
  rfl

/-- A name neither side acts on, or no name at all. -/
theorem encodeKitty_other {s : Str} (h : Foreign s) (hlong : s.length ≠ 1) :
    Web.Input.encodeKitty lower s (domLocation location) (domMods mods) (domEvent event)
        modes.bits = none := by
  have hcode : Web.Input.oneCodePoint s = none := by
    rcases s with _ | ⟨c, _ | ⟨d, s⟩⟩
    · rfl
    · exact absurd rfl hlong
    · rfl
  rw [webKitty_foreign lower location mods event modes h, Web.Input.encodeKittyText, hcode]
  exact ite_self _

end Kitty

/-! ## Space under the kitty protocol -/

/-- Space whose modifiers or event the desktop reports, where the browser
sends a character or nothing: Shift, a repeat or a release, and neither Ctrl,
Alt nor flag 8. -/
structure SpaceLost (mods : ModifiersState) (event : EventType) (modes : Modes) : Prop where
  super : mods.super = false
  ctrl : mods.ctrl = false
  alt : mods.alt = false
  kitty : modes.kittyFlags ≠ 0
  reportAll : modes.kittyFlags &&& 8 = 0
  sent : event = .release → modes.kittyFlags &&& 2 ≠ 0
  reported : mods.shift = true ∨ modes.kittyFlags &&& 2 ≠ 0 ∧ event ≠ .press

theorem param_press (event : EventType) : event.param ≠ 1 ↔ event ≠ .press := by
  cases event <;> decide

theorem modifierParam_plain {mods : ModifiersState} (hctrl : mods.ctrl = false)
    (halt : mods.alt = false) : modifierParam mods = 1 ↔ mods.shift = false := by
  unfold modifierParam
  rw [hctrl, halt]
  cases mods.shift <;> decide

theorem modifierParam_ne_one {mods : ModifiersState} (h : mods.ctrl || mods.alt) :
    modifierParam mods ≠ 1 := by
  unfold modifierParam
  cases hctrl : mods.ctrl with
  | true => cases mods.shift <;> cases mods.alt <;> decide
  | false =>
    rw [hctrl, Bool.false_or] at h
    rw [h]
    cases mods.shift <;> decide

/-- A sequence is no single byte. -/
theorem csi_ne_space (rest : Str) : csi rest ≠ [0x20] := by
  intro h
  have hhead : (csi rest).head? = some 0x1b := rfl
  rw [h] at hhead
  exact absurd hhead (by decide)

theorem kittyU_ne_space (number : Nat) (mods : ModifiersState) (event : EventType)
    (eventTypes : Bool) : kittyU number mods event eventTypes ≠ [0x20] := by
  unfold kittyU
  split
  · exact csi_ne_space _
  · exact csi_ne_space _

variable (lower : Char → Str) (location : KeyLocation) (mods : ModifiersState)
  (event : EventType) (modes : Modes)

/-- The browser's side: a character like any other. -/
theorem webKitty_space (hlower : lower ' ' = [' ']) :
    Web.Input.encodeKitty lower [' '] (domLocation location) (domMods mods) (domEvent event)
        modes.bits =
      if !(modes.kittyFlags &&& 2 != 0) && event = .release then none
      else if (modes.kittyFlags &&& 8 != 0) || (mods.ctrl || mods.alt) then
        some (kittyU 32 mods event (modes.kittyFlags &&& 2 != 0))
      else if event = .release then none
      else some [0x20] := by
  have hnumber : ((lower (Char.ofNat 32)).head?.map Char.toNat).getD 32 = 32 := by
    have hspace : Char.ofNat 32 = ' ' := rfl
    rw [hspace, hlower]
    rfl
  have hbyte : toUtf8 [' '] = [0x20] := rfl
  rw [webKitty_foreign lower location mods event modes (foreign_character ' ')]
  unfold Web.Input.encodeKittyText
  simp only [Web.Input.oneCodePoint, show ' '.toNat = 32 from rfl, hnumber, hbyte, kittyU_dom,
    release_dom, Bool.or_assoc]
  rfl

/-- The desktop's: a key with a name and a legacy byte. -/
theorem kitty_space :
    (KeyPress.mk (.named .space) location mods event).encodeKitty lower modes.kittyFlags =
      if !(modes.kittyFlags &&& 2 != 0) && event = .release then none
      else some (if (modes.kittyFlags &&& 8 != 0) ||
          !(modifierParam mods = 1 && !((modes.kittyFlags &&& 2 != 0) && event.param ≠ 1)) then
        kittyU 32 mods event (modes.kittyFlags &&& 2 != 0) else [0x20]) := by
  unfold KeyPress.encodeKitty KeyPress.encodeKittyNamed
  simp [legacyByte]

theorem encodeKitty_space_iff (hlower : lower ' ' = [' ']) (hsuper : mods.super = false)
    (hkitty : modes.kittyFlags ≠ 0) :
    Web.Input.encodeKitty lower [' '] (domLocation location) (domMods mods) (domEvent event)
        modes.bits =
      (KeyPress.mk (.named .space) location mods event).encodeKitty lower modes.kittyFlags ↔
    ¬SpaceLost mods event modes := by
  rw [webKitty_space lower location mods event modes hlower, kitty_space]
  by_cases hunsent : event = .release ∧ modes.kittyFlags &&& 2 = 0
  · obtain ⟨rfl, hflag⟩ := hunsent
    rw [hflag]
    exact iff_of_true rfl fun hlost => hlost.sent rfl hflag
  · have hsent : ¬(!(modes.kittyFlags &&& 2 != 0) && decide (event = .release)) = true := by
      simpa [and_comm] using hunsent
    rw [if_neg hsent, if_neg hsent]
    by_cases hall : (modes.kittyFlags &&& 8 != 0) = true
    · rw [hall]
      refine iff_of_true rfl fun hlost => ?_
      rw [hlost.reportAll] at hall
      exact absurd hall (by decide)
    · rw [Bool.not_eq_true] at hall
      rw [hall, Bool.false_or, Bool.false_or]
      by_cases hchord : (mods.ctrl || mods.alt) = true
      · -- A chord is never plain, so both name the key.
        have hparam := modifierParam_ne_one hchord
        rw [if_pos hchord, decide_eq_false hparam]
        refine iff_of_true rfl fun hlost => ?_
        rw [hlost.ctrl, hlost.alt] at hchord
        exact absurd hchord (by decide)
      · obtain ⟨hctrl, halt⟩ := Bool.or_eq_false_iff.mp (Bool.not_eq_true _ ▸ hchord)
        have hplain : (!(decide (modifierParam mods = 1) &&
            !((modes.kittyFlags &&& 2 != 0) && decide (event.param ≠ 1)))) = true ↔
              mods.shift = true ∨ modes.kittyFlags &&& 2 ≠ 0 ∧ event ≠ .press := by
          simp only [modifierParam_plain hctrl halt, param_press]
          cases mods.shift <;> simp [and_comm]
        rw [if_neg hchord]
        by_cases hreported : mods.shift = true ∨ modes.kittyFlags &&& 2 ≠ 0 ∧ event ≠ .press
        · rw [if_pos (hplain.mpr hreported)]
          refine iff_of_false (fun heq => ?_) (not_not_intro
            ⟨hsuper, hctrl, halt, hkitty, by simpa using hall, by tauto, hreported⟩)
          split at heq
          · exact absurd heq (by simp)
          · exact kittyU_ne_space _ _ _ _ (Option.some.inj heq).symm
        · -- Nothing to report: a press, or a repeat nobody asked to tell apart.
          have hevent : event ≠ .release := by
            rintro rfl
            exact hreported (.inr ⟨fun hflag => hunsent ⟨rfl, hflag⟩, by decide⟩)
          rw [if_neg (mt hplain.mp hreported), if_neg hevent]
          exact iff_of_true rfl fun hlost => hreported hlost.reported

/-! ## The two encoders -/

section Encoders

variable {lower : Char → Str} {like : Web.Input.KeyLike} {key : LogicalKey}
  {location : KeyLocation} {mods : ModifiersState} {event : EventType} {modes : Modes}

theorem keyup_iff (h : Describes like key location event) :
    like.type = some "keyup".toList ↔ event = .release := by
  rw [← release_dom event, ← h.event]
  unfold Web.Input.KeyLike.eventType
  split
  · next hup => exact iff_of_true hup rfl
  · next hup =>
    refine iff_of_false hup ?_
    split
    · decide
    · decide

/-- Without kitty flags no release is sent. -/
theorem encodeKey_keyup (h : Describes like key location event) (hkitty : modes.kittyFlags = 0)
    (hevent : event = .release) :
    Web.Input.encodeKey lower like (domMods mods) modes.bits = none := by
  have hflags : ¬Web.Input.kittyFlags modes.bits ≠ 0 := by
    rw [kittyFlags_ne_zero, not_not]
    exact hkitty
  unfold Web.Input.encodeKey
  rw [if_neg hflags, if_pos ((keyup_iff h).mpr hevent)]
  exact ite_self _

/-- Without kitty flags a press is sent the same. -/
theorem encodeKey_legacy (h : Describes like key location event) (hsuper : mods.super = false)
    (hkitty : modes.kittyFlags = 0) (hevent : event ≠ .release) :
    Web.Input.encodeKey lower like (domMods mods) modes.bits =
      encodeLegacy key.winit mods modes := by
  have hflags : ¬Web.Input.kittyFlags modes.bits ≠ 0 := by
    rw [kittyFlags_ne_zero, not_not]
    exact hkitty
  have hmeta : ¬(domMods mods).metaKey = true := by simp [domMods, hsuper]
  unfold Web.Input.encodeKey
  rw [if_neg hmeta, if_neg hflags, if_neg (mt (keyup_iff h).mp hevent), h.key]
  dsimp only
  rw [legacyArms_dom]
  have hforeign {s : Str} (hs : Foreign s) :
      switch (legacyNames.map fun k =>
        (domName k, encodeLegacy (.named (.known k)) mods modes)) s = none :=
    switch_foreign legacyNames (by rw [List.map_map, Function.comp_def]) hs
  cases key with
  | known k =>
    have hshort : ¬Web.Input.isOneCodePoint (domName k).toList = true := by
      simpa [Web.Input.isOneCodePoint] using length_domName k
    dsimp only [LogicalKey.dom]
    by_cases hk : k ∈ legacyNames
    · rw [switch_map, if_pos hk]
      rfl
    · rw [switch_map, if_neg hk]
      exact (if_neg hshort).trans (encodeLegacy_modifier hk mods modes).symm
  | space =>
    dsimp only [LogicalKey.dom]
    rw [hforeign (foreign_character ' ')]
    exact encodeText_dom [' '] mods.ctrl mods.alt
  | character c hc =>
    dsimp only [LogicalKey.dom]
    rw [hforeign (foreign_character c)]
    exact encodeText_dom [c] mods.ctrl mods.alt
  | other name =>
    have hlong : ¬Web.Input.isOneCodePoint name.name = true := by
      simpa [Web.Input.isOneCodePoint] using name.long
    dsimp only [LogicalKey.dom]
    rw [hforeign name.unknown]
    exact if_neg hlong
  | unidentified | dead =>
    dsimp only [LogicalKey.dom]
    rw [hforeign (foreign_literal (by decide))]
    rfl

/-- Under kitty flags. -/
theorem encodeKitty_iff (hlower : lower ' ' = [' ']) (hsuper : mods.super = false)
    (hkitty : modes.kittyFlags ≠ 0) :
    Web.Input.encodeKitty lower key.dom (domLocation location) (domMods mods) (domEvent event)
        modes.bits =
      (KeyPress.mk key.winit location mods event).encodeKitty lower modes.kittyFlags ↔
    ¬(key = .space ∧ SpaceLost mods event modes) := by
  have hnone {k : Key} (hk : k = .unidentified ∨ k = .dead ∨ ∃ n, k = .named (.other n)) :
      (KeyPress.mk k location mods event).encodeKitty lower modes.kittyFlags = none := by
    unfold KeyPress.encodeKitty
    rcases hk with rfl | rfl | ⟨n, rfl⟩
    · exact ite_self _
    · exact ite_self _
    · refine (if_congr Iff.rfl rfl ?_).trans (ite_self _)
      exact ite_self _
  cases key with
  | known k =>
    exact iff_of_true (encodeKitty_known lower location mods event modes k) (by simp)
  | space =>
    refine (encodeKitty_space_iff lower location mods event modes hlower hsuper hkitty).trans ?_
    simp
  | character c hc =>
    exact iff_of_true (encodeKitty_character lower location mods event modes c) (by simp)
  | other name =>
    refine iff_of_true ?_ (by simp)
    exact (encodeKitty_other lower location mods event modes name.unknown name.long).trans
      (hnone (.inr (.inr ⟨_, rfl⟩))).symm
  | unidentified =>
    refine iff_of_true ?_ (by simp)
    exact (encodeKitty_other lower location mods event modes (foreign_literal (by decide))
      (by decide)).trans (hnone (.inl rfl)).symm
  | dead =>
    refine iff_of_true ?_ (by simp)
    exact (encodeKitty_other lower location mods event modes (foreign_literal (by decide))
      (by decide)).trans (hnone (.inr (.inl rfl))).symm

/-- Both encoders say the same of a keystroke unless Space is lost. -/
theorem encodeKey_iff (hlower : lower ' ' = [' ']) (h : Describes like key location event) :
    Web.Input.encodeKey lower like (domMods mods) modes.bits =
      (KeyPress.mk key.winit location mods event).encode lower modes ↔
    ¬(key = .space ∧ SpaceLost mods event modes) := by
  by_cases hsuper : mods.super = true
  · refine iff_of_true ?_ fun hlost => ?_
    · rw [Web.Input.encodeKey, KeyPress.encode, if_pos hsuper]
      exact if_pos hsuper
    · exact absurd hsuper (by rw [hlost.2.super]; decide)
  · rw [Bool.not_eq_true] at hsuper
    by_cases hkitty : modes.kittyFlags = 0
    · have hlost : ¬(key = .space ∧ SpaceLost mods event modes) := fun hl => hl.2.kitty hkitty
      refine iff_of_true ?_ hlost
      by_cases hevent : event = .release
      · rw [encodeKey_keyup h hkitty hevent]
        simp [KeyPress.encode, hkitty, hevent]
      · rw [encodeKey_legacy h hsuper hkitty hevent]
        simp [KeyPress.encode, hsuper, hkitty, hevent]
    · have hmeta : ¬(domMods mods).metaKey = true := by simp [domMods, hsuper]
      have hdesktop : (KeyPress.mk key.winit location mods event).encode lower modes =
          (KeyPress.mk key.winit location mods event).encodeKitty lower modes.kittyFlags := by
        unfold KeyPress.encode
        dsimp only
        rw [hsuper, if_neg Bool.false_ne_true, if_pos hkitty]
      rw [hdesktop, Web.Input.encodeKey, if_neg hmeta,
        if_pos ((kittyFlags_ne_zero modes).mpr hkitty), h.key, h.event, h.location]
      exact encodeKitty_iff hlower hsuper hkitty

end Encoders

/-! ## Pastes -/

theorem newline_mem_toUtf8 (text : Str) : 0x0a ∈ toUtf8 text ↔ '\n' ∈ text := by
  have halone := alone_ascii (c := '\n') (by decide)
  rw [toUtf8, List.mem_flatMap]
  constructor
  · rintro ⟨c, hc, hbyte⟩
    exact halone.2 c hbyte ▸ hc
  · intro hc
    exact ⟨'\n', hc, by decide⟩

theorem replaceCrlf_of_notMem (text : Str) (h : '\n' ∉ text) : replaceCrlf text = text := by
  fun_induction replaceCrlf text with
  | case1 cs ih => exact absurd (by simp) h
  | case2 c cs _ ih => rw [ih fun hmem => h (List.mem_cons_of_mem c hmem)]
  | case3 => rfl

theorem normalized_of_notMem {text : Str} (h : '\n' ∉ text) :
    replaceLf (replaceCrlf text) = text := by
  rw [replaceCrlf_of_notMem text h, replaceLf]
  refine (List.map_congr_left fun c hc => if_neg ?_).trans (List.map_id text)
  rintro rfl
  exact h hc

theorem newline_notMem_replaceLf (text : Str) : '\n' ∉ replaceLf text := by
  intro h
  obtain ⟨c, -, hc⟩ := List.mem_map.mp h
  split at hc
  · exact absurd hc (by decide)
  · next hne => exact hne hc

/-- Both clients say the same of a paste unless it has a line feed: only the
desktop turns line ends into returns. -/
theorem encodePaste_iff {vt : Vt} (t : Terminal vt) (text : Str) :
    Web.Input.encodePaste text t.state.modes.bits = t.encodePaste text ↔ '\n' ∉ text := by
  have hbody : Web.Input.encodePaste text t.state.modes.bits = t.encodePaste text ↔
      toUtf8 text = toUtf8 (replaceLf (replaceCrlf text)) := by
    unfold Web.Input.encodePaste Terminal.encodePaste
    have hmode := bracketedPaste_dom t.state.modes
    by_cases hasked : t.state.modes.contains Modes.bracketedPaste = true
    · rw [if_pos hasked, if_neg (hmode.mpr hasked)]
      constructor
      · intro heq
        exact List.append_cancel_left (List.append_cancel_right heq)
      · intro heq
        rw [heq]
        rfl
    · rw [if_neg hasked, if_pos (not_not.mp (mt hmode.mp hasked))]
  rw [hbody]
  constructor
  · intro heq hmem
    rw [← newline_mem_toUtf8, heq, newline_mem_toUtf8] at hmem
    exact newline_notMem_replaceLf _ hmem
  · intro h
    rw [normalized_of_notMem h]

/-! ## The same bytes from both clients -/

section Same

variable {lower : Char → Str} {like : Web.Input.KeyLike} {key : LogicalKey}
  {location : KeyLocation} {event : EventType} {vt : Vt}

/-- The two clients send the same for every keystroke but a Space that is
lost, and for every paste without a line feed. -/
theorem sends_same_iff (hlower : lower ' ' = [' ']) (h : Describes like key location event)
    (mods : ModifiersState) (modes : Modes) (t : Terminal vt) (text : Str) :
    (Web.Input.encodeKey lower like (domMods mods) modes.bits =
        (KeyPress.mk key.winit location mods event).encode lower modes ↔
      ¬(key = .space ∧ SpaceLost mods event modes)) ∧
    (Web.Input.encodePaste text t.state.modes.bits = t.encodePaste text ↔ '\n' ∉ text) :=
  ⟨encodeKey_iff hlower h, encodePaste_iff t text⟩

def asciiLower (c : Char) : Str := [c.toLower]

def noMods : ModifiersState := { shift := false, ctrl := false, alt := false, super := false }

/-- A program that pushed flag 1, disambiguate. -/
def disambiguate : Modes := ⟨1#32 <<< Modes.kittyShift⟩

theorem sends_same_escape :
    Web.Input.encodeKey asciiLower { key := "Escape".toList } (domMods noMods) disambiguate.bits =
        (KeyPress.mk (.named (.known .escape)) .standard noMods .press).encode asciiLower
          disambiguate ∧
      Web.Input.encodePaste "ls".toList asked.state.modes.bits = asked.encodePaste "ls".toList := by
  have hlower : asciiLower ' ' = [' '] := rfl
  have hkey : Describes { key := "Escape".toList } (.known .escape) .standard .press :=
    ⟨rfl, rfl, rfl⟩
  have hsame := sends_same_iff hlower hkey noMods disambiguate asked "ls".toList
  exact ⟨hsame.1.mpr (by simp), hsame.2.mpr (by decide)⟩

/-- Shift and Space: a sequence from the desktop, a blank from the browser.
And a line feed pasted: a return from the desktop alone. -/
theorem shift_space_lost :
    Web.Input.encodeKey asciiLower { key := [' '] } (domMods { noMods with shift := true })
        disambiguate.bits = some [0x20] ∧
      (KeyPress.mk (.named .space) .standard { noMods with shift := true } .press).encode asciiLower
        disambiguate = some (csi "32;2u".toList) ∧
      Web.Input.encodePaste ['\n'] 0 = [0x0a] ∧
      (Terminal.new asciiVt 4 1 0).encodePaste ['\n'] = [0x0d] ∧
      ¬∀ (like : Web.Input.KeyLike) (key : LogicalKey) (location : KeyLocation)
          (event : EventType) (mods : ModifiersState) (modes : Modes),
        Describes like key location event →
          Web.Input.encodeKey asciiLower like (domMods mods) modes.bits =
            (KeyPress.mk key.winit location mods event).encode asciiLower modes := by
  refine ⟨by decide, by decide, by decide, by decide, ?_⟩
  intro hall
  have hsame := hall { key := [' '] } .space .standard .press { noMods with shift := true }
    disambiguate ⟨rfl, rfl, rfl⟩
  exact absurd hsame (by decide)

end Same

end Zesterm.Input
