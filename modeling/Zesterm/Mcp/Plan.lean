/-
Zesterm.Mcp.Plan — what `zest-mcp`'s `input` tool writes to a session
(`Plan` in `tools.rs`, `Replica::encode_paste` in `session.rs`).

A call names text to type, text to paste and keys to press; each part is a
write of its own. A paste is encoded by the terminal of the replica the tool
holds, the same way a window's is. The key names and their encoder are a
parameter.
-/
import Zesterm.Core.Perform

namespace Zesterm.Mcp

/-- The keys a call can name: their bytes under the session's modes, and
whether the modes matter. -/
structure Keys (Chord : Type) where
  encode : Chord → Modes → List UInt8
  needsModes : Chord → Bool

/-- What one call types. -/
structure Plan (Chord : Type) where
  text : Option Str
  paste : Option Str
  keys : List Chord

namespace Plan

variable {Chord : Type} {vt : Vt}

/-- Whether encoding this needs the session's modes. -/
def needsModes (keys : Keys Chord) (p : Plan Chord) : Bool :=
  p.paste.isSome || p.keys.any keys.needsModes

/-- Every write the call makes, in order. -/
def writes (keys : Keys Chord) (p : Plan Chord) (modes : Modes)
    (encodePaste : Str → List UInt8) : List (List UInt8) :=
  (p.text.map toUtf8).toList ++ (p.paste.map encodePaste).toList ++
    p.keys.map fun c => keys.encode c modes

/-- `input`: what is sent to the session. Its replica is asked only where the
modes matter. -/
def input (keys : Keys Chord) (p : Plan Chord) (replica : Terminal vt) : List (List UInt8) :=
  if p.needsModes keys then p.writes keys replica.state.modes replica.encodePaste
  else p.writes keys Modes.empty toUtf8

end Plan

end Zesterm.Mcp
