/-
Zesterm.Input.Key — keystrokes as bytes: `zest-input`'s `key.rs`.

`KeyPress.encode` is the desktop's encoder. Without kitty flags it is the
legacy scheme, with them the kitty keyboard protocol. `none` is nothing to
send.

A key with a name the encoders do not act on is `NamedKey.other`. Lowercase
is the standard library's Unicode table, a parameter here: the characters a
character lowers to.
-/
import Zesterm.Core.Modes
import Zesterm.Core.Text

namespace Zesterm.Input

/-! ## Keys and modifiers -/

/-- The names the encoders act on. -/
inductive KeyName where
  | escape | enter | tab | backspace
  | arrowUp | arrowDown | arrowRight | arrowLeft | home | endKey
  | insert | delete | pageUp | pageDown
  | f1 | f2 | f3 | f4 | f5 | f6 | f7 | f8 | f9 | f10 | f11 | f12
  | shift | control | alt | capsLock | numLock
  deriving DecidableEq

/-- `winit::keyboard::NamedKey`. -/
inductive NamedKey where
  | known (name : KeyName)
  | space
  | other (name : Str)
  deriving DecidableEq

/-- `winit::keyboard::Key`. -/
inductive Key where
  | named (key : NamedKey)
  | character (text : Str)
  | unidentified
  | dead
  deriving DecidableEq

inductive KeyLocation where
  | standard | left | right | numpad
  deriving DecidableEq

/-- `winit::keyboard::ModifiersState`. -/
structure ModifiersState where
  shift : Bool
  ctrl : Bool
  alt : Bool
  super : Bool
  deriving DecidableEq

/-- Press, repeat or release. -/
inductive EventType where
  | press | repeating | release
  deriving DecidableEq

/-- The protocol's sub-parameter. -/
def EventType.param : EventType → Nat
  | .press => 1
  | .repeating => 2
  | .release => 3

/-- A keystroke, reduced to what the encoders need. -/
structure KeyPress where
  key : Key
  location : KeyLocation
  mods : ModifiersState
  event : EventType
  deriving DecidableEq

/-! ## The legacy scheme -/

/-- `CSI` and what follows, as bytes. -/
def csi (rest : Str) : List UInt8 := toUtf8 ('\x1b' :: '[' :: rest)

/-- The xterm modifier parameter: 1 + bitmask. -/
def modifierParam (mods : ModifiersState) : Nat :=
  let m := 0
  let m := if mods.shift then m ||| 1 else m
  let m := if mods.alt then m ||| 2 else m
  let m := if mods.ctrl then m ||| 4 else m
  m + 1

/-- Alt is sent as a leading ESC. -/
def finish (bytes : List UInt8) (alt : Bool) : Option (List UInt8) :=
  if bytes.isEmpty then none
  else if alt then some (0x1b :: bytes)
  else some bytes

/-- Printable text, with Ctrl and Alt applied. -/
def encodeText (text : Str) (ctrl alt : Bool) : Option (List UInt8) :=
  if ctrl then
    match text with
    | [] => none
    | ch :: _ =>
      let c := ch.toLower
      if 'a' ≤ c ∧ c ≤ 'z' then finish [UInt8.ofNat c.toNat - 97 + 1] alt
      else
        match c with
        | '@' | ' ' => finish [0x00] alt
        | '[' => finish [0x1b] alt
        | '\\' => finish [0x1c] alt
        | ']' => finish [0x1d] alt
        | '^' => finish [0x1e] alt
        | '_' | '?' => finish [0x1f] alt
        -- Not a control combination: the text goes through.
        | _ => finish (toUtf8 text) alt
  else finish (toUtf8 text) alt

/-- A cursor-style key. Modified it is always CSI: SS3 has no room for a
parameter. -/
def withMods (cursor : List UInt8) (final : Char) (mods : ModifiersState) : List UInt8 :=
  let param := modifierParam mods
  if param = 1 then cursor ++ toUtf8 [final]
  else csi ("1;".toList ++ showNat param ++ [final])

/-- A `CSI n ~` key. -/
def tilde (n : Nat) (mods : ModifiersState) : List UInt8 :=
  let param := modifierParam mods
  if param = 1 then csi (showNat n ++ ['~'])
  else csi (showNat n ++ [';'] ++ showNat param ++ ['~'])

/-- F1 to F4 are SS3 unmodified and `CSI n ~` when modified. -/
def ss3OrTilde (ss3 : Char) (n : Nat) (mods : ModifiersState) : List UInt8 :=
  if modifierParam mods = 1 then toUtf8 ['\x1b', 'O', ss3] else tilde n mods

/-- `encode_legacy`: a key press the way terminals did before CSI u. -/
def encodeLegacy (key : Key) (mods : ModifiersState) (modes : Modes) : Option (List UInt8) :=
  let cursor := if modes.contains Modes.appCursor then toUtf8 ['\x1b', 'O'] else csi []
  match key with
  | .named (.known name) =>
    match name with
    | .enter => finish [0x0d] mods.alt
    | .tab =>
      -- Back-tab has no room for Ctrl, so Ctrl makes it CSI u.
      if mods.ctrl then some (csi ("9;".toList ++ showNat (modifierParam mods) ++ ['u']))
      else finish (if mods.shift then csi ['Z'] else [0x09]) mods.alt
    | .backspace => finish [if mods.ctrl then 0x08 else 0x7f] mods.alt
    | .escape => finish [0x1b] mods.alt
    | .arrowUp => some (withMods cursor 'A' mods)
    | .arrowDown => some (withMods cursor 'B' mods)
    | .arrowRight => some (withMods cursor 'C' mods)
    | .arrowLeft => some (withMods cursor 'D' mods)
    | .home => some (withMods cursor 'H' mods)
    | .endKey => some (withMods cursor 'F' mods)
    | .pageUp => some (tilde 5 mods)
    | .pageDown => some (tilde 6 mods)
    | .insert => some (tilde 2 mods)
    | .delete => some (tilde 3 mods)
    | .f1 => some (ss3OrTilde 'P' 11 mods)
    | .f2 => some (ss3OrTilde 'Q' 12 mods)
    | .f3 => some (ss3OrTilde 'R' 13 mods)
    | .f4 => some (ss3OrTilde 'S' 14 mods)
    | .f5 => some (tilde 15 mods)
    | .f6 => some (tilde 17 mods)
    | .f7 => some (tilde 18 mods)
    | .f8 => some (tilde 19 mods)
    | .f9 => some (tilde 20 mods)
    | .f10 => some (tilde 21 mods)
    | .f11 => some (tilde 23 mods)
    | .f12 => some (tilde 24 mods)
    | .shift | .control | .alt | .capsLock | .numLock => none
  | .named .space => encodeText [' '] mods.ctrl mods.alt
  | .named (.other _) => none
  | .character text => encodeText text mods.ctrl mods.alt
  | .unidentified | .dead => none

/-! ## The kitty keyboard protocol -/

/-- The keys that have one legacy byte, with their protocol numbers. Escape
is handled before. -/
def legacyByte : NamedKey → Option (Nat × List UInt8)
  | .known .enter => some (13, [0x0d])
  | .known .tab => some (9, [0x09])
  | .known .backspace => some (127, [0x7f])
  | .space => some (32, [0x20])
  | _ => none

/-- The keys encoded as `CSI 1 ; mods letter`. -/
def csiLetter : NamedKey → Option Char
  | .known .arrowUp => some 'A'
  | .known .arrowDown => some 'B'
  | .known .arrowRight => some 'C'
  | .known .arrowLeft => some 'D'
  | .known .home => some 'H'
  | .known .endKey => some 'F'
  | _ => none

/-- The keys encoded as `CSI n ; mods ~`. -/
def tildeNumber : NamedKey → Option Nat
  | .known .insert => some 2
  | .known .delete => some 3
  | .known .pageUp => some 5
  | .known .pageDown => some 6
  | .known .f1 => some 11
  | .known .f2 => some 12
  | .known .f3 => some 13
  | .known .f4 => some 14
  | .known .f5 => some 15
  | .known .f6 => some 17
  | .known .f7 => some 18
  | .known .f8 => some 19
  | .known .f9 => some 20
  | .known .f10 => some 21
  | .known .f11 => some 23
  | .known .f12 => some 24
  | _ => none

/-- The protocol's numbers for the modifier keys themselves. -/
def modifierKeyNumber (named : NamedKey) (location : KeyLocation) : Option Nat :=
  let right := location = .right
  match named with
  | .known .shift => some (if right then 57447 else 57441)
  | .known .control => some (if right then 57448 else 57442)
  | .known .alt => some (if right then 57449 else 57443)
  | .known .capsLock => some 57358
  | .known .numLock => some 57360
  | _ => none

/-- The `mods:event` parameter; `none` when both are at their defaults. -/
def kittyParams (mods : ModifiersState) (event : EventType) (eventTypes : Bool) : Option Str :=
  let m := modifierParam mods
  let e := event.param
  if eventTypes && e ≠ 1 then some (showNat m ++ [':'] ++ showNat e)
  else if m ≠ 1 then some (showNat m)
  else none

/-- `CSI number ; mods:event u`. -/
def kittyU (number : Nat) (mods : ModifiersState) (event : EventType) (eventTypes : Bool) :
    List UInt8 :=
  match kittyParams mods event eventTypes with
  | some p => csi (showNat number ++ [';'] ++ p ++ ['u'])
  | none => csi (showNat number ++ ['u'])

/-- `CSI 1 ; mods:event letter`, collapsing to `CSI letter`. -/
def kittyLetter (final : Char) (mods : ModifiersState) (event : EventType) (eventTypes : Bool) :
    List UInt8 :=
  match kittyParams mods event eventTypes with
  | some p => csi ("1;".toList ++ p ++ [final])
  | none => csi [final]

/-- `CSI n ; mods:event ~`. -/
def kittyTilde (n : Nat) (mods : ModifiersState) (event : EventType) (eventTypes : Bool) :
    List UInt8 :=
  match kittyParams mods event eventTypes with
  | some p => csi (showNat n ++ [';'] ++ p ++ ['~'])
  | none => csi (showNat n ++ ['~'])

namespace KeyPress

def encodeKittyNamed (p : KeyPress) (named : NamedKey) (reportAll eventTypes : Bool) :
    Option (List UInt8) :=
  if named = .known .escape then some (kittyU 27 p.mods p.event eventTypes)
  else
    match legacyByte named with
    | some (number, legacy) =>
      let plain := modifierParam p.mods = 1 && !(eventTypes && p.event.param ≠ 1)
      some (if reportAll || !plain then kittyU number p.mods p.event eventTypes else legacy)
    | none =>
      match csiLetter named with
      | some letter => some (kittyLetter letter p.mods p.event eventTypes)
      | none =>
        match tildeNumber named with
        | some n => some (kittyTilde n p.mods p.event eventTypes)
        | none =>
          -- Only flag 8 asks for the modifier keys themselves.
          if reportAll then
            (modifierKeyNumber named p.location).map fun n => kittyU n p.mods p.event eventTypes
          else none

variable (lower : Char → Str)

def encodeKittyText (p : KeyPress) (text : Str) (reportAll eventTypes : Bool) :
    Option (List UInt8) :=
  match text with
  | [] => none
  | ch :: _ =>
    -- The protocol keys on the unshifted character.
    let number := ((lower ch).head?.getD ch).toNat
    let ambiguous := p.mods.ctrl || p.mods.alt
    if reportAll || ambiguous then some (kittyU number p.mods p.event eventTypes)
    else if p.event = .release then none
    else encodeText text false false

/-- `encode_kitty`: under the flags the program pushed. -/
def encodeKitty (p : KeyPress) (flags : BitVec 8) : Option (List UInt8) :=
  let eventTypes := flags &&& 2 != 0
  let reportAll := flags &&& 8 != 0
  if !eventTypes && p.event = .release then none
  else
    match p.key with
    | .named named => p.encodeKittyNamed named reportAll eventTypes
    | .character text => p.encodeKittyText lower text reportAll eventTypes
    | .unidentified | .dead => none

/-- `encode`: a chord with Super is the desktop's. -/
def encode (p : KeyPress) (modes : Modes) : Option (List UInt8) :=
  if p.mods.super then none
  else
    let flags := modes.kittyFlags
    if flags ≠ 0 then p.encodeKitty lower flags
    else if p.event = .release then none
    else encodeLegacy p.key p.mods modes

end KeyPress

end Zesterm.Input
