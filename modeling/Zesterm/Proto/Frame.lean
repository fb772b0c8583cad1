/-
Zesterm.Proto.Frame — putting messages on a byte stream.

A frame is a `u32` length, little end first, then that many bytes. What a
body says is another matter: framing carries bytes. A length past `maxFrame`
is refused before anything behind it is looked at.
-/
import Zesterm.Lib.Chunked

namespace Zesterm

open Chunked (Call)

/-- `MAX_FRAME`: the largest body accepted. -/
def maxFrame : Nat := 8 * 1024 * 1024

inductive FrameError where
  | tooLarge (len : Nat)
  deriving DecidableEq

/-- `u32::to_le_bytes`. -/
def u32ToLeBytes (n : Nat) : List UInt8 :=
  [.ofNat n, .ofNat (n / 2 ^ 8), .ofNat (n / 2 ^ 16), .ofNat (n / 2 ^ 24)]

/-- `u32::from_le_bytes`, of the bytes given. -/
def u32FromLeBytes : List UInt8 → Nat
  | [] => 0
  | b :: bytes => b.toNat + 2 ^ 8 * u32FromLeBytes bytes

/-- Put the length in front of a body. -/
def frameBytes (body : List UInt8) : Except FrameError (List UInt8) :=
  if body.length > maxFrame then .error (.tooLarge body.length)
  else .ok (u32ToLeBytes (min body.length (2 ^ 32 - 1)) ++ body)

/-- Pulls whole frames out of a byte stream. -/
structure FrameReader where
  buf : List UInt8 := []
  deriving DecidableEq

namespace FrameReader

/-- Add bytes as they arrive. -/
def feed (r : FrameReader) (bytes : List UInt8) : FrameReader := { buf := r.buf ++ bytes }

/-- The length the next frame says it has. -/
def declared (r : FrameReader) : Nat := u32FromLeBytes (r.buf.take 4)

/-- Take the next complete body, if one has arrived. -/
def nextFrame (r : FrameReader) : Except FrameError (Option (List UInt8)) × FrameReader :=
  if r.buf.length < 4 then (.ok none, r)
  else
    let len := r.declared
    if len > maxFrame then (.error (.tooLarge len), r)
    else if r.buf.length < 4 + len then (.ok none, r)
    else (.ok (some ((r.buf.drop 4).take len)), { buf := r.buf.drop (4 + len) })

/-- Bytes held awaiting a complete frame. -/
def pending (r : FrameReader) : Nat := r.buf.length

/-- What is asked of a reader in the course of a connection: `feed`, or
`next_frame` and its answer. -/
def step (r : FrameReader) :
    Call UInt8 → FrameReader × Option (Except FrameError (Option (List UInt8)))
  | .feed bytes => (r.feed bytes, none)
  | .next => (r.nextFrame.2, some r.nextFrame.1)

/-- What a reader answers over a run. -/
def answers (r : FrameReader) (calls : List (Call UInt8)) :
    List (Except FrameError (Option (List UInt8))) :=
  ((Trace.run step r calls).2.map Trace.Entry.reply).reduceOption

/-- The bodies among the answers. -/
def returned (r : FrameReader) (calls : List (Call UInt8)) : List (List UInt8) :=
  (r.answers calls).filterMap fun a => a.toOption.join

def after (r : FrameReader) (calls : List (Call UInt8)) : FrameReader :=
  (Trace.run step r calls).1

end FrameReader

end Zesterm
