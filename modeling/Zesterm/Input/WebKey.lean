/-
Zesterm.Input.WebKey — keystrokes and pastes as bytes in the web client:
`key.ts`, `kitty.ts` and `paste.ts` of its `input` package.

The DOM gives every key as a string, a name or one character; a `switch` over
such strings is a table of arms here. `null` is `none`. The mode word is the
number that came over the wire, and lowercase the same Unicode table as the
desktop's.
-/
import Zesterm.Core.Text

namespace Zesterm.Web.Input

/-- The arm of a `switch` over strings. -/
def switch {α : Type} (arms : List (String × α)) (s : Str) : Option α :=
  (arms.find? fun arm => arm.1.toList = s).map Prod.snd

/-! ## Events and modifiers -/

structure Mods where
  shift : Bool
  ctrl : Bool
  alt : Bool
  metaKey : Bool
  deriving DecidableEq

/-- What is read of a `KeyboardEvent`. -/
structure KeyLike where
  key : Str
  type : Option Str := none
  repeated : Option Bool := none
  location : Option Nat := none
  deriving DecidableEq

inductive EventType where
  | press | repeating | release
  deriving DecidableEq

def KeyLike.eventType (key : KeyLike) : EventType :=
  if key.type = some "keyup".toList then .release
  else if key.repeated = some true then .repeating
  else .press

def eventParam : EventType → Nat
  | .press => 1
  | .repeating => 2
  | .release => 3

/-! ## The mode word -/

def appCursor : BitVec 32 := 1#32 <<< 2

def bracketedPaste : BitVec 32 := 1#32 <<< 8

def kittySupported : BitVec 32 := 1#32 ||| 2#32 ||| 8#32

/-- The kitty flags in force, as the protocol numbers them. -/
def kittyFlags (modes : BitVec 32) : BitVec 32 := modes >>> 16 &&& kittySupported

/-! ## `key.ts` -/

/-- The xterm modifier parameter: 1 + bitmask. -/
def modifierParam (mods : Mods) : Nat :=
  let m := 0
  let m := if mods.shift then m ||| 1 else m
  let m := if mods.alt then m ||| 2 else m
  let m := if mods.ctrl then m ||| 4 else m
  m + 1

/-- Alt is sent as a leading ESC. -/
def finish (bytes : List UInt8) (alt : Bool) : Option (List UInt8) :=
  if bytes.length = 0 then none
  else if alt then some (0x1b :: bytes)
  else some bytes

/-- A cursor-style key, with a modifier parameter when one applies. -/
def withMods (cursor : Str) (final : Char) (mods : Mods) : List UInt8 :=
  let param := modifierParam mods
  if param = 1 then toUtf8 (cursor ++ [final])
  else toUtf8 ("\x1b[1;".toList ++ showNat param ++ [final])

/-- A `CSI n ~` key. -/
def tilde (n : Nat) (mods : Mods) : List UInt8 :=
  let param := modifierParam mods
  if param = 1 then toUtf8 ("\x1b[".toList ++ showNat n ++ ['~'])
  else toUtf8 ("\x1b[".toList ++ showNat n ++ [';'] ++ showNat param ++ ['~'])

/-- F1 to F4 are SS3 unmodified and `CSI n ~` when modified. -/
def ss3OrTilde (ss3 : Char) (n : Nat) (mods : Mods) : List UInt8 :=
  if modifierParam mods = 1 then toUtf8 ("\x1bO".toList ++ [ss3]) else tilde n mods

/-- Printable text, with Ctrl and Alt applied. -/
def encodeText (text : Str) (ctrl alt : Bool) : Option (List UInt8) :=
  if ctrl then
    match text.head? with
    | none => none
    | some ch =>
      let first := ch.toNat
      let lower := if 0x41 ≤ first ∧ first ≤ 0x5a then first + 0x20 else first
      let code : Option Nat :=
        if 0x61 ≤ lower ∧ lower ≤ 0x7a then some (lower - 0x61 + 1)
        else
          match Char.ofNat lower with
          | '@' | ' ' => some 0x00
          | '[' => some 0x1b
          | '\\' => some 0x1c
          | ']' => some 0x1d
          | '^' => some 0x1e
          | '_' | '?' => some 0x1f
          | _ => none
      match code with
      | some code => finish [UInt8.ofNat code] alt
      | none => finish (toUtf8 text) alt
  else finish (toUtf8 text) alt

/-- The arms of `encodeKey`'s `switch`. -/
def legacyArms (cursor : Str) (mods : Mods) : List (String × Option (List UInt8)) :=
  [("Enter", finish [0x0d] mods.alt),
    ("Tab",
      if mods.ctrl then some (toUtf8 ("\x1b[9;".toList ++ showNat (modifierParam mods) ++ ['u']))
      else finish (if mods.shift then toUtf8 "\x1b[Z".toList else [0x09]) mods.alt),
    ("Backspace", finish [if mods.ctrl then 0x08 else 0x7f] mods.alt),
    ("Escape", finish [0x1b] mods.alt),
    ("ArrowUp", some (withMods cursor 'A' mods)),
    ("ArrowDown", some (withMods cursor 'B' mods)),
    ("ArrowRight", some (withMods cursor 'C' mods)),
    ("ArrowLeft", some (withMods cursor 'D' mods)),
    ("Home", some (withMods cursor 'H' mods)),
    ("End", some (withMods cursor 'F' mods)),
    ("PageUp", some (tilde 5 mods)),
    ("PageDown", some (tilde 6 mods)),
    ("Insert", some (tilde 2 mods)),
    ("Delete", some (tilde 3 mods)),
    ("F1", some (ss3OrTilde 'P' 11 mods)),
    ("F2", some (ss3OrTilde 'Q' 12 mods)),
    ("F3", some (ss3OrTilde 'R' 13 mods)),
    ("F4", some (ss3OrTilde 'S' 14 mods)),
    ("F5", some (tilde 15 mods)),
    ("F6", some (tilde 17 mods)),
    ("F7", some (tilde 18 mods)),
    ("F8", some (tilde 19 mods)),
    ("F9", some (tilde 20 mods)),
    ("F10", some (tilde 21 mods)),
    ("F11", some (tilde 23 mods)),
    ("F12", some (tilde 24 mods))]

def isOneCodePoint (s : Str) : Bool := s.length == 1

/-! ## `kitty.ts` -/

/-- The keys that have one legacy byte, with their protocol numbers. Escape
is handled before, and Space is a character here. -/
def legacyByte : Str → Option (Nat × List UInt8) :=
  switch [("Enter", (13, [0x0d])), ("Tab", (9, [0x09])), ("Backspace", (127, [0x7f]))]

/-- The keys encoded as `CSI 1 ; mods letter`. -/
def csiLetter : Str → Option Char :=
  switch [("ArrowUp", 'A'), ("ArrowDown", 'B'), ("ArrowRight", 'C'), ("ArrowLeft", 'D'),
    ("Home", 'H'), ("End", 'F')]

/-- The keys encoded as `CSI n ; mods ~`. -/
def tildeNumber : Str → Option Nat :=
  switch [("Insert", 2), ("Delete", 3), ("PageUp", 5), ("PageDown", 6), ("F1", 11), ("F2", 12),
    ("F3", 13), ("F4", 14), ("F5", 15), ("F6", 17), ("F7", 18), ("F8", 19), ("F9", 20),
    ("F10", 21), ("F11", 23), ("F12", 24)]

/-- The protocol's numbers for the modifier keys themselves. -/
def modifierKeyNumber (keyName : Str) (location : Nat) : Option Nat :=
  let right := location = 2
  switch [("Shift", if right then 57447 else 57441), ("Control", if right then 57448 else 57442),
    ("Alt", if right then 57449 else 57443), ("CapsLock", 57358), ("NumLock", 57360)] keyName

/-- The `mods:event` parameter; `none` when both are at their defaults. -/
def kittyParams (mods : Mods) (event : EventType) (eventTypes : Bool) : Option Str :=
  let m := modifierParam mods
  let e := eventParam event
  if eventTypes && e ≠ 1 then some (showNat m ++ [':'] ++ showNat e)
  else if m ≠ 1 then some (showNat m)
  else none

/-- `CSI number ; mods:event u`. -/
def kittyU (number : Nat) (mods : Mods) (event : EventType) (eventTypes : Bool) : List UInt8 :=
  match kittyParams mods event eventTypes with
  | none => toUtf8 ("\x1b[".toList ++ showNat number ++ ['u'])
  | some p => toUtf8 ("\x1b[".toList ++ showNat number ++ [';'] ++ p ++ ['u'])

/-- `CSI 1 ; mods:event letter`, collapsing to `CSI letter`. -/
def kittyLetter (final : Char) (mods : Mods) (event : EventType) (eventTypes : Bool) :
    List UInt8 :=
  match kittyParams mods event eventTypes with
  | none => toUtf8 ("\x1b[".toList ++ [final])
  | some p => toUtf8 ("\x1b[1;".toList ++ p ++ [final])

/-- `CSI n ; mods:event ~`. -/
def kittyTilde (n : Nat) (mods : Mods) (event : EventType) (eventTypes : Bool) : List UInt8 :=
  match kittyParams mods event eventTypes with
  | none => toUtf8 ("\x1b[".toList ++ showNat n ++ ['~'])
  | some p => toUtf8 ("\x1b[".toList ++ showNat n ++ [';'] ++ p ++ ['~'])

/-- The code point of a printable key; `none` for a named one. -/
def oneCodePoint : Str → Option Nat
  | [c] => some c.toNat
  | _ => none

section Encoders

variable (lower : Char → Str)

/-- `encodeKitty`, from the printable keys on. -/
def encodeKittyText (keyName : Str) (mods : Mods) (event : EventType)
    (reportAll eventTypes : Bool) : Option (List UInt8) :=
  match oneCodePoint keyName with
  | none => none
  | some cp =>
    let number := ((lower (Char.ofNat cp)).head?.map Char.toNat).getD cp
    if reportAll || mods.ctrl || mods.alt then some (kittyU number mods event eventTypes)
    else if event = .release then none
    else some (toUtf8 keyName)

def encodeKitty (keyName : Str) (location : Nat) (mods : Mods) (event : EventType)
    (modes : BitVec 32) : Option (List UInt8) :=
  let flags := kittyFlags modes
  let eventTypes := flags &&& 2 != 0
  let reportAll := flags &&& 8 != 0
  if !eventTypes && event = .release then none
  else if keyName = "Escape".toList then some (kittyU 27 mods event eventTypes)
  else
    match legacyByte keyName with
    | some (number, bytes) =>
      let plain := modifierParam mods = 1 && !(eventTypes && eventParam event ≠ 1)
      some (if reportAll || !plain then kittyU number mods event eventTypes else bytes)
    | none =>
      match csiLetter keyName with
      | some letter => some (kittyLetter letter mods event eventTypes)
      | none =>
        match tildeNumber keyName with
        | some n => some (kittyTilde n mods event eventTypes)
        | none =>
          match if reportAll then modifierKeyNumber keyName location else none with
          | some n => some (kittyU n mods event eventTypes)
          | none => encodeKittyText lower keyName mods event reportAll eventTypes

/-- `encodeKey`: a chord with Meta is the desktop's. -/
def encodeKey (key : KeyLike) (mods : Mods) (modes : BitVec 32) : Option (List UInt8) :=
  if mods.metaKey then none
  else if kittyFlags modes ≠ 0 then
    encodeKitty lower key.key (key.location.getD 0) mods key.eventType modes
  else if key.type = some "keyup".toList then none
  else
    let cursor := if modes &&& appCursor ≠ 0 then "\x1bO".toList else "\x1b[".toList
    match switch (legacyArms cursor mods) key.key with
    | some bytes => bytes
    | none => if isOneCodePoint key.key then encodeText key.key mods.ctrl mods.alt else none

end Encoders

/-! ## `paste.ts` -/

def pasteOpen : List UInt8 := toUtf8 "\x1b[200~".toList

def pasteClose : List UInt8 := toUtf8 "\x1b[201~".toList

/-- Paste as bytes, wrapped when the program asked for it. -/
def encodePaste (text : Str) (modes : BitVec 32) : List UInt8 :=
  let body := toUtf8 text
  if modes &&& bracketedPaste = 0 then body else pasteOpen ++ body ++ pasteClose

end Zesterm.Web.Input
