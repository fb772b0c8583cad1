/-
Zesterm.Mcp.Keys — a key by its name: `Chord::from_str` of `zest-mcp`'s
`keys.rs`.

A chord is split at every `+`. The last part names the base, and the parts
ahead of it the modifiers.
-/
import Zesterm.Mcp.Addr

namespace Zesterm.Mcp.Keys

/-- The terminal modifier set. -/
structure Mods where
  ctrl : Bool := false
  alt : Bool := false
  shift : Bool := false
  deriving DecidableEq

/-- A key with a name rather than a character. -/
inductive Named where
  | enter
  | esc
  | tab
  | backspace
  | delete
  | insert
  | space
  | up
  | down
  | left
  | right
  | home
  | endKey
  | pageUp
  | pageDown
  | f (n : Nat)
  deriving DecidableEq

/-- Every base this table accepts, by its name. -/
def names : List (Str × Named) :=
  [("enter".toList, .enter), ("esc".toList, .esc), ("tab".toList, .tab),
    ("backspace".toList, .backspace), ("delete".toList, .delete), ("insert".toList, .insert),
    ("space".toList, .space), ("up".toList, .up), ("down".toList, .down), ("left".toList, .left),
    ("right".toList, .right), ("home".toList, .home), ("end".toList, .endKey),
    ("pageup".toList, .pageUp), ("pagedown".toList, .pageDown),
    -- aliases
    ("escape".toList, .esc), ("return".toList, .enter), ("del".toList, .delete),
    ("ins".toList, .insert), ("pgup".toList, .pageUp), ("pgdn".toList, .pageDown),
    ("pgdown".toList, .pageDown)]

/-- What a chord is applied to. -/
inductive Base where
  | named (key : Named)
  | char (c : Char)
  deriving DecidableEq

/-- A parsed key: a base, and the modifiers held with it. -/
structure Chord where
  base : Base
  mods : Mods
  deriving DecidableEq

/-- Why a key name was refused. -/
inductive KeyError where
  | empty
  | unknown (name : Str)
  | desktop (spelled : Str)
  | bareCharacter (spelled : Str)
  | shiftedCharacter (spelled : Str)
  deriving DecidableEq

def ctrlNames : List Str := ["ctrl".toList, "control".toList]

def altNames : List Str := ["alt".toList, "option".toList, "opt".toList]

def shiftNames : List Str := ["shift".toList]

def desktopNames : List Str :=
  ["cmd".toList, "command".toList, "super".toList, "win".toList, "meta".toList]

/-- The parts ahead of the last, each a modifier that is held; and the last. -/
def readParts (spelled : Str) (mods : Mods) : List Str → Except KeyError (Mods × Str)
  | [] => .ok (mods, [])
  | [part] => .ok (mods, part)
  | part :: parts =>
    if part ∈ ctrlNames then readParts spelled { mods with ctrl := true } parts
    else if part ∈ altNames then readParts spelled { mods with alt := true } parts
    else if part ∈ shiftNames then readParts spelled { mods with shift := true } parts
    else if part ∈ desktopNames then .error (.desktop spelled)
    else .error (.unknown spelled)

/-- `_`, `-` and blanks are ignored inside a base name. -/
def squash (token : Str) : Str := token.filter fun c => !(c == '_' || c == '-' || c == ' ')

/-- The number behind an `f`. -/
def functionNumber (squashed : Str) : Option Nat :=
  (stripPrefix ['f'] squashed).bind (parseUnsigned 255)

def parseBase (token spelled : Str) (mods : Mods) : Except KeyError Base :=
  match names.find? fun n => n.1 = squash token with
  | some n => .ok (.named n.2)
  | none =>
    match functionNumber (squash token) with
    | some n => if 1 ≤ n ∧ n ≤ 12 then .ok (.named (.f n)) else .error (.unknown spelled)
    | none =>
      match trim token with
      | [c] =>
        if mods.shift then .error (.shiftedCharacter spelled)
        else if !mods.ctrl && !mods.alt then .error (.bareCharacter spelled)
        else .ok (.char c)
      | _ => .error (.unknown spelled)

/-- `Chord::from_str`. -/
def fromStr (s : Str) : Except KeyError Chord :=
  let spelled := trim s
  if spelled.isEmpty then .error .empty
  else
    let lowered := toAsciiLowercase spelled
    match readParts spelled {} (lowered.splitOn '+') with
    | .error e => .error e
    | .ok (mods, part) =>
      -- a trailing `+` means the base is `+`
      let token := if part.isEmpty && lowered.getLast? == some '+' then ['+'] else part
      match parseBase token spelled mods with
      | .error e => .error e
      | .ok base => .ok { base, mods }

end Zesterm.Mcp.Keys
