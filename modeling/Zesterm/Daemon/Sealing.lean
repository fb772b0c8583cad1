/-
Zesterm.Daemon.Sealing — what one end of a connection says and the other end
hears: sealed, framed and carried by the socket.

The sender is `zest-mcp`'s `seal`, the receiver the reading thread of
`serve` with the loop of `on_bytes`; the bodies between them are what a
message encodes to. `delivers` joins the three layers: whatever frames carry
the sender's bytes, between whatever pings, and however the stream is cut, the
receiver hands on the bodies that fit a record, in order.
-/
import Zesterm.Proto.FrameTheorems
import Zesterm.Mesh.SecureTheorems
import Zesterm.Daemon.WebSocketTheorems

namespace Zesterm.Sealing

open Chunked (Puller)
open FrameReader (puller)

/-! ## The two ends -/

/-- `seal`: the body sealed and framed, or nothing where it cannot be. -/
def sealFrame (c : Suite) (d : Direction) (body : List UInt8) : Direction × Option (List UInt8) :=
  let (d, r) := d.sealWith c body
  (d, r.toOption.bind fun record => (frameBytes record).toOption)

/-- What is written for the bodies, one after the other. -/
def sendAll (c : Suite) : Direction → List (List UInt8) → List UInt8
  | _, [] => []
  | d, body :: bodies =>
    let (d, framed) := sealFrame c d body
    framed.getD [] ++ sendAll c d bodies

/-- What ends a connection. -/
inductive LinkError where
  | framing (e : FrameError)
  | unopened (e : MeshError)
  deriving DecidableEq

structure Receiver where
  reader : FrameReader := {}
  channel : Direction

namespace Receiver

/-- The loop of `on_bytes`: the bodies handed on, and what ended it. -/
def drain (c : Suite) : Nat → Receiver → Receiver × List (List UInt8) × Option LinkError
  | 0, r => (r, [], none)
  | passes + 1, r =>
    match r.reader.nextFrame with
    | (.error e, _) => (r, [], some (.framing e))
    | (.ok none, _) => (r, [], none)
    | (.ok (some record), reader) =>
      match r.channel.openWith c record with
      | (channel, .error e) => (⟨reader, channel⟩, [], some (.unopened e))
      | (channel, .ok body) =>
        let (r, bodies, error) := drain c passes ⟨reader, channel⟩
        (r, body :: bodies, error)

/-- A pass takes the four bytes of a length at least. -/
def onBytes (c : Suite) (r : Receiver) (bytes : List UInt8) :
    Receiver × List (List UInt8) × Option LinkError :=
  let reader := r.reader.feed bytes
  drain c (reader.pending + 1) { r with reader }

end Receiver

/-- The buffer of the reading thread. -/
def readLen : Nat := 64 * 1024

/-- The reading thread, of so many reads: what it hands on, and the error it
ends with where it does. -/
def receive (c : Suite) (nonce : Nat → Ws.Key) :
    Nat → Ws.WsReader → Receiver → List (List UInt8) × Option LinkError
  | 0, _, _ => ([], none)
  | reads + 1, src, r =>
    match src.read nonce readLen with
    | (_, .error _) | (_, .ok []) => ([], none)
    | (src, .ok bytes) =>
      match r.onBytes c bytes with
      | (_, bodies, some e) => (bodies, some e)
      | (r, bodies, none) =>
        let (more, error) := receive c nonce reads src r
        (bodies ++ more, error)

/-! ## One record -/

/-- What ChaCha20-Poly1305 is relied on for: a record is its plaintext and a
tag, and opens under the key and nonce it was sealed under. -/
def Aead (c : Suite) : Prop :=
  ∀ key nonce body, body.length ≤ maxPlaintext →
    ∃ record, c.encrypt key nonce [] body = some record ∧
      record.length = body.length + tagLen ∧ c.decrypt key nonce [] record = some body

variable {c : Suite}

theorem advance_ok (key : Vector UInt8 32) {n : Nat} (hn : n + 1 < rekeyAfter * (maxEpoch + 1)) :
    (slot c key n).advance c = (slot c key (n + 1), .ok ()) := by
  refine Prod.ext (advance_slot c key n) ?_
  unfold Direction.advance slot
  dsimp only
  rw [rekeyAfter_eq, maxEpoch] at *
  split
  · rfl
  · rw [if_pos (by omega)]

/-- Records that open one after the other. -/
inductive Opens (c : Suite) : Direction → List (List UInt8) → List (List UInt8) → Prop where
  | nil (d : Direction) : Opens c d [] []
  | cons {d d' : Direction} {record body : List UInt8} {records bodies : List (List UInt8)}
      (h : d.openWith c record = (d', .ok body)) (more : Opens c d' records bodies) :
      Opens c d (record :: records) (body :: bodies)

/-- What is sent is the frames of records that open as the bodies. -/
theorem sendAll_opens (haead : Aead c) (key : Vector UInt8 32) (bodies : List (List UInt8)) :
    ∀ {n : Nat}, n + bodies.length < rekeyAfter * (maxEpoch + 1) →
      ∃ records, sendAll c (slot c key n) bodies = FrameReader.wire records ∧
        (∀ record ∈ records, record.length ≤ maxFrame) ∧
        Opens c (slot c key n) records (bodies.filter fun body => body.length ≤ maxPlaintext) := by
  induction bodies with
  | nil => exact fun _ => ⟨[], rfl, nofun, .nil _⟩
  | cons body bodies ih =>
    intro n hn
    rw [List.length_cons] at hn
    by_cases hfits : body.length ≤ maxPlaintext
    · obtain ⟨record, hseal, hlen, hopen⟩ := haead (slot c key n).key (slot c key n).nonce body hfits
      obtain ⟨records, hwire, hmax, hopens⟩ := ih (n := n + 1) (by omega)
      have hadv := advance_ok (c := c) key (n := n) (by omega)
      have hrecord : record.length ≤ maxFrame := by
        rw [maxPlaintext] at hfits
        have : tagLen ≤ maxFrame := by decide
        omega
      have hsealed : (slot c key n).sealWith c body = (slot c key (n + 1), .ok record) := by
        rw [Direction.sealWith, if_neg (by omega), hseal]
        dsimp only
        rw [hadv]
        rfl
      have hopened : (slot c key n).openWith c record = (slot c key (n + 1), .ok body) := by
        rw [Direction.openWith, hopen]
        dsimp only
        rw [hadv]
        rfl
      refine ⟨record :: records, ?_, List.forall_mem_cons.mpr ⟨hrecord, hmax⟩, ?_⟩
      · rw [FrameReader.wire_cons, ← hwire, sendAll, sealFrame, hsealed]
        dsimp only [Except.toOption, Option.bind]
        rw [frameBytes_eq hrecord]
        rfl
      · rw [List.filter_cons_of_pos (by simpa using hfits)]
        exact .cons hopened hopens
    · obtain ⟨records, hwire, hmax, hopens⟩ := ih (n := n) (by omega)
      refine ⟨records, ?_, hmax, ?_⟩
      · rw [← hwire, sendAll, sealFrame, Direction.sealWith, if_pos (by omega)]
        rfl
      · rwa [List.filter_cons_of_neg (by simpa using hfits)]

/-! ## The loop and the thread -/

/-- A receiver that is still to hand on `bodies`, with `future` of the stream
yet to come. -/
def Owes (c : Suite) (r : Receiver) (future : List UInt8) (bodies : List (List UInt8)) : Prop :=
  ∃ records, puller.Holds (r.reader.buf ++ future) records [] ∧ Opens c r.channel records bodies

theorem nextFrame_of_some {r : FrameReader} {record rest : List UInt8}
    (h : puller.next r.buf = .ok (some (record, rest))) :
    r.nextFrame = (.ok (some record), .mk rest) ∧ rest.length < r.pending := by
  rw [FrameReader.puller_next] at h
  by_cases hshort : r.buf.length < 4
  · simp [FrameReader.pull_short hshort] at h
  · rw [FrameReader.pull_long (by omega)] at h
    split_ifs at h with hmax hpart
    · simp at h
    · simp only [Except.ok.injEq, Option.some.injEq, Prod.mk.injEq] at h
      obtain ⟨rfl, rfl⟩ := h
      refine ⟨by simp [FrameReader.nextFrame, hshort, hmax, hpart], ?_⟩
      rw [List.length_drop, FrameReader.pending]
      omega

theorem nextFrame_of_none {r : FrameReader} (h : puller.next r.buf = .ok none) :
    r.nextFrame = (.ok none, r) := by
  rw [FrameReader.puller_next, FrameReader.pull] at h
  rcases r.nextFrame_cases with ⟨e, heq⟩ | heq | ⟨record, r', heq⟩
  · simp [heq] at h
  · exact heq
  · simp [heq] at h

/-- The loop ends for want of bytes, and has handed on the first of what was
owed. -/
theorem drain_owes (passes : Nat) : ∀ {r : Receiver} {future : List UInt8}
    {bodies : List (List UInt8)}, Owes c r future bodies → r.reader.pending < passes →
    ∃ r' out rest, r.drain c passes = (r', out, none) ∧ bodies = out ++ rest ∧
      Owes c r' future rest ∧ puller.next r'.reader.buf = .ok none := by
  induction passes with
  | zero => exact fun _ hpasses => absurd hpasses (Nat.not_lt_zero _)
  | succ passes ih =>
    rintro r future bodies ⟨records, hholds, hopens⟩ hpasses
    rcases hholds.front with hnone | ⟨record, records', buf, hnext, rfl, hmore⟩
    · refine ⟨r, [], bodies, ?_, rfl, ⟨records, hholds, hopens⟩, hnone⟩
      rw [Receiver.drain, nextFrame_of_none hnone]
    · cases hopens with
      | @cons _ channel _ body _ bodies' hopen hrest =>
        obtain ⟨hframe, hshort⟩ := nextFrame_of_some hnext
        obtain ⟨r', out, rest, hdrain, rfl, howes, hstop⟩ :=
          ih (r := ⟨.mk buf, channel⟩) ⟨records', hmore, hrest⟩
            (Nat.lt_of_lt_of_le hshort (Nat.lt_succ_iff.mp hpasses))
        refine ⟨r', body :: out, rest, ?_, rfl, howes, hstop⟩
        rw [Receiver.drain, hframe]
        dsimp only
        rw [hopen]
        dsimp only
        rw [hdrain]

/-- A thread whose socket still holds `bytes` hands on the first of what is
owed, and all of it where it reads as often as there are bytes. -/
theorem receive_owes (nonce : Nat → Ws.Key) (total : List UInt8) (reads : Nat) :
    ∀ {src : Ws.WsReader} {r : Receiver} {bytes : List UInt8} {bodies : List (List UInt8)},
      Ws.WsReader.Holds nonce total src bytes → Owes c r bytes bodies →
      puller.next r.reader.buf = .ok none →
      (receive c nonce reads src r).2 = none ∧ (receive c nonce reads src r).1 <+: bodies ∧
        (bytes.length ≤ reads → (receive c nonce reads src r).1 = bodies) := by
  -- With the stream at its end nothing is owed.
  have hend {r : Receiver} {bodies : List (List UInt8)} (howes : Owes c r [] bodies)
      (hstop : puller.next r.reader.buf = .ok none) : bodies = [] := by
    obtain ⟨records, hholds, hopens⟩ := howes
    rw [List.append_nil] at hholds
    rcases hholds.next with ⟨-, rfl, -⟩ | ⟨_, _, _, hnext, -, -⟩
    · cases hopens
      rfl
    · simp [hstop] at hnext
  induction reads with
  | zero =>
    intro src r bytes bodies _ howes hstop
    refine ⟨rfl, List.nil_prefix, fun hlen => ?_⟩
    obtain rfl := List.length_eq_zero_iff.mp (Nat.le_zero.mp hlen)
    exact (hend howes hstop).symm
  | succ reads ih =>
    intro src r bytes bodies hsrc howes hstop
    have hdrains := Ws.WsReader.drains nonce total
    by_cases hbytes : bytes = []
    · subst hbytes
      obtain rfl := hend howes hstop
      obtain ⟨src', answer, hread, hanswer, -, -⟩ :=
        hdrains.last (n := readLen) hsrc (by decide)
      have hnone : receive c nonce (reads + 1) src r = ([], none) := by
        rw [receive, hread]
        rcases hanswer with rfl | ⟨e, rfl⟩ <;> rfl
      rw [hnone]
      exact ⟨rfl, List.nil_prefix, fun _ => rfl⟩
    · obtain ⟨src', piece, rest, hread, hne, -, rfl, hsrc'⟩ :=
        hdrains.piece (n := readLen) hsrc hbytes (by decide)
      obtain ⟨records, hholds, hopens⟩ := howes
      have hfed : Owes c { r with reader := r.reader.feed piece } rest bodies :=
        ⟨records, by rwa [FrameReader.feed, List.append_assoc], hopens⟩
      obtain ⟨r', out, left, hdrain, rfl, howes', hstop'⟩ := drain_owes _ hfed (Nat.lt_succ_self _)
      obtain ⟨hno, hprefix, hall⟩ := ih hsrc' howes' hstop'
      have hrun : receive c nonce (reads + 1) src r =
          (out ++ (receive c nonce reads src' r').1, none) := by
        cases piece with
        | nil => exact absurd rfl hne
        | cons b piece =>
          rw [receive, hread]
          dsimp only
          rw [Receiver.onBytes, hdrain]
          dsimp only
          rw [hno]
      rw [hrun]
      refine ⟨rfl, (List.prefix_append_right_inj out).mpr hprefix, fun hlen => ?_⟩
      have := List.length_pos_iff.mpr hne
      rw [List.length_append] at hlen
      rw [hall (by omega)]

/-- The bodies one end seals and frames are what the other end hands on: the
first of them after any reads, all that fit a record after as many reads as
the sender wrote bytes, and no error; whatever frames carry them, with
whatever between, and however the socket cuts the stream. -/
theorem delivers (c : Suite) (haead : Aead c) (key : Vector UInt8 32) (nonce : Nat → Ws.Key)
    (role : Ws.Role) (bodies : List (List UInt8))
    (hfew : bodies.length < rekeyAfter * (maxEpoch + 1)) (leftover : List UInt8)
    (chunks : List (List UInt8)) (hchunks : ∀ chunk ∈ chunks, chunk ≠ []) (frames : List Ws.Frame)
    (hlegal : Ws.Legal role false frames) (htext : Ws.NoText frames)
    (hcarried : Ws.payloads frames = sendAll c (.new key) bodies)
    (hcut : leftover ++ chunks.flatten = Ws.wire frames) (reads : Nat) :
    let heard := receive c nonce reads ⟨.new chunks role leftover⟩ { channel := .new key }
    let sent := bodies.filter fun body => body.length ≤ maxPlaintext
    heard.2 = none ∧ heard.1 <+: sent ∧
      ((sendAll c (.new key) bodies).length ≤ reads → heard.1 = sent) := by
  obtain ⟨records, hwire, hmax, hopens⟩ := sendAll_opens haead key bodies (n := 0) (by omega)
  rw [slot_zero] at hwire hopens
  have hsrc : Ws.WsReader.Holds nonce (Ws.answers nonce role 0 frames) ⟨.new chunks role leftover⟩
      (sendAll c (.new key) bodies) :=
    ⟨[], frames, Ws.reading_new nonce hchunks hlegal hcut, htext, hcarried.symm⟩
  refine receive_owes nonce _ reads hsrc ⟨records, ?_, hopens⟩ rfl
  rw [hwire]
  exact FrameReader.holds_wire records hmax

/-- A suite whose tag is sixteen zeros. -/
def taggedSuite : Suite where
  dhPublic k := k
  diffieHellman k _ := k
  wasContributory _ := true
  hkdf _ k _ := k
  hkdfFromPrk k _ := k
  encrypt _ _ _ body := some (body ++ List.replicate tagLen 0)
  decrypt _ _ _ record := some (record.take (record.length - tagLen))
  sha256 _ := Vector.replicate 32 0

/-- Two sealed frames cut inside the first, with a ping at the cut. -/
def halves : List Ws.Frame :=
  [{ kind := .binary, fin := false, form := .seven, key := some #v[4, 3, 2, 1],
     payload := [18, 0, 0, 0, 1] },
    { kind := .ping, fin := true, form := .seven, key := some #v[8, 7, 6, 5], payload := [7] },
    { kind := .continuation, fin := true, form := .seven, key := some #v[6, 7, 8, 9],
      payload := 2 :: List.replicate 16 0 ++ [17, 0, 0, 0, 3] ++ List.replicate 16 0 }]

theorem delivers_halves :
    (receive taggedSuite (fun _ => Ws.noMask) 43
      ⟨.new [(Ws.wire halves).drop 1] .server ((Ws.wire halves).take 1)⟩
      { channel := .new (Vector.replicate 32 0) }).1 = [[1, 2], [3]] := by
  have haead : Aead taggedSuite := fun _ _ body _ =>
    ⟨_, rfl, List.length_append, by simp [taggedSuite, tagLen]⟩
  refine (delivers taggedSuite haead (Vector.replicate 32 0) (fun _ => Ws.noMask) .server [[1, 2], [3]]
    (by decide) _ _ (by decide) halves ?_ ?_ (by decide) (by decide) 43).2.2 (by decide)
  · simp [Ws.Legal, halves, Ws.Frame.Fits, Ws.Form.Fits, Ws.Frame.MaskedFor, Ws.maxControlPayload]
  · simp [Ws.NoText, halves]

end Zesterm.Sealing
