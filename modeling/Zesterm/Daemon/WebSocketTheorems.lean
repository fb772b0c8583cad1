/-
Zesterm.Daemon.WebSocketTheorems — the WebSocket is a byte pipe.

What a peer sends is a list of frames (`Frame`), and the source reads a
header off it whatever form its length has (`parseHeader_header`). A source
is `Reading` some bytes of the frame at hand and the frames behind it: every
turn of the loop that waits for a data frame takes one frame off that list,
and what its answers will add to what was written stays the same.

`bytePipe` says what the byte reader hands out over any list of reads, and
what the answers to the pings are; `writtenFrames` that a list of calls of
`writeFrame` is such a list of frames; `next_message` that the message
reader gives a written payload back as one message.
-/
import Zesterm.Lib.Draining
import Zesterm.Daemon.WebSocket
import Mathlib.Data.List.GetD

namespace Zesterm.Ws

open Coding (bigEndian length_bigEndian)

variable (key : Key)

/-! ## Bytes -/

theorem xorMask_nil (offset : Nat) : xorMask key offset [] = [] := rfl

@[simp] theorem length_xorMask (offset : Nat) (bytes : List UInt8) :
    (xorMask key offset bytes).length = bytes.length := by
  simp [xorMask]

theorem xorMask_append (offset : Nat) (a b : List UInt8) :
    xorMask key offset (a ++ b) = xorMask key offset a ++ xorMask key (offset + a.length) b := by
  simp [xorMask, List.zipIdx_append]

theorem xorMask_cons (offset : Nat) (b : UInt8) (bytes : List UInt8) :
    xorMask key offset (b :: bytes) = (b ^^^ key[offset % 4]) :: xorMask key (offset + 1) bytes := by
  simp [xorMask, List.zipIdx_cons]

/-- Only the offset's place in the mask matters. -/
theorem xorMask_mod (bytes : List UInt8) :
    ∀ {a b : Nat}, a % 4 = b % 4 → xorMask key a bytes = xorMask key b bytes := by
  induction bytes with
  | nil => intro a b _; rfl
  | cons x bytes ih =>
    intro a b hab
    rw [xorMask_cons, xorMask_cons, ih (by omega : (a + 1) % 4 = (b + 1) % 4)]
    simp only [hab]

/-- Unmasking what was masked. -/
theorem xorMask_xorMask (bytes : List UInt8) :
    ∀ offset, xorMask key offset (xorMask key offset bytes) = bytes := by
  induction bytes with
  | nil => intro offset; rfl
  | cons b bytes ih =>
    intro offset
    rw [xorMask_cons, xorMask_cons, ih, UInt8.xor_assoc, UInt8.xor_self, UInt8.xor_zero]

/-- The mask of an unmasked frame. -/
def noMask : Key := Vector.replicate 4 0

theorem xorMask_noMask (bytes : List UInt8) : ∀ offset, xorMask noMask offset bytes = bytes := by
  induction bytes with
  | nil => intro offset; rfl
  | cons b bytes ih =>
    intro offset
    have hzero : ∀ i : Fin 4, noMask[i.val] = 0 := by decide
    rw [xorMask_cons, ih, hzero ⟨offset % 4, Nat.mod_lt _ (by decide)⟩, UInt8.xor_zero]

theorem fromBigEndian_append (a : List UInt8) (b : UInt8) :
    fromBigEndian (a ++ [b]) = fromBigEndian a * 256 + b.toNat := by
  simp [fromBigEndian, List.foldl_append]

theorem fromBigEndian_bigEndian : ∀ {k n : Nat}, n < 256 ^ k → fromBigEndian (bigEndian k n) = n
  | 0, n, h => by
    rw [pow_zero] at h
    obtain rfl : n = 0 := by omega
    rfl
  | k + 1, n, h => by
    rw [bigEndian, fromBigEndian_append,
      fromBigEndian_bigEndian (Nat.div_lt_of_lt_mul (by rw [pow_succ, Nat.mul_comm] at h; exact h))]
    have hmod : (UInt8.ofNat n).toNat = n % 256 := by simp
    omega

/-! ## Frames -/

/-- What a frame is for. -/
inductive Kind where
  | continuation
  | text
  | binary
  | close
  | ping
  | pong
  deriving DecidableEq

def Kind.opcode : Kind → UInt8
  | .continuation => opContinuation
  | .text => opText
  | .binary => opBinary
  | .close => opClose
  | .ping => opPing
  | .pong => opPong

/-- How a frame gives its length. -/
inductive Form where
  | seven
  | sixteen
  | sixtyFour
  deriving DecidableEq

/-- The lengths that can be given so. -/
def Form.Fits : Form → Nat → Prop
  | .seven, n => n < 126
  | .sixteen, n => n < 256 ^ 2
  | .sixtyFour, n => n < 256 ^ 8

/-- The seven bits of the second byte. -/
def Form.len7 : Form → Nat → UInt8
  | .seven, n => UInt8.ofNat n
  | .sixteen, _ => 126
  | .sixtyFour, _ => 127

/-- The bytes of the length behind it. -/
def Form.extra : Form → Nat → List UInt8
  | .seven, _ => []
  | .sixteen, n => bigEndian 2 n
  | .sixtyFour, n => bigEndian 8 n

/-- A frame as a peer sends it. -/
structure Frame where
  kind : Kind
  fin : Bool
  form : Form
  key : Option Key
  payload : List UInt8
  deriving DecidableEq

namespace Frame

variable {f : Frame}

def firstByte (f : Frame) : UInt8 := (if f.fin then finBit else 0) ||| f.kind.opcode

def secondByte (f : Frame) : UInt8 :=
  (if f.key.isSome then maskedBit else 0) ||| f.form.len7 f.payload.length

def keyBytes (f : Frame) : List UInt8 := f.key.elim [] Vector.toList

def header (f : Frame) : List UInt8 :=
  f.firstByte :: f.secondByte :: (f.form.extra f.payload.length ++ f.keyBytes)

/-- The mask, that of zeros if there is none. -/
def mask (f : Frame) : Key := f.key.getD noMask

/-- The payload as it stands on the wire. -/
def body (f : Frame) : List UInt8 := xorMask f.mask 0 f.payload

def bytes (f : Frame) : List UInt8 := f.header ++ f.body

/-- Its length can be given in its form. -/
def Fits (f : Frame) : Prop := f.form.Fits f.payload.length

/-- A peer masks what it sends to a server and nothing else. -/
def MaskedFor (f : Frame) (role : Role) : Prop := f.key.isSome = true ↔ role = .server

theorem body_of_none (h : f.key = none) : f.body = f.payload := by
  rw [body, mask, h]
  exact xorMask_noMask f.payload 0

@[simp] theorem length_body (f : Frame) : f.body.length = f.payload.length := length_xorMask _ _ _

/-! ### Reading a header -/

theorem opcode_bits (fin : Bool) (kind : Kind) :
    ((if fin = true then finBit else 0) ||| kind.opcode) &&& rsvBits = 0 ∧
      ((if fin = true then finBit else 0) ||| kind.opcode) &&& 0x0f = kind.opcode ∧
      (((if fin = true then finBit else 0) ||| kind.opcode) &&& finBit ≠ 0 ↔ fin = true) := by
  cases kind <;> cases fin <;> decide

theorem firstByte_bits (f : Frame) :
    f.firstByte &&& rsvBits = 0 ∧ f.firstByte &&& 0x0f = f.kind.opcode ∧
      (f.firstByte &&& finBit ≠ 0 ↔ f.fin = true) :=
  opcode_bits f.fin f.kind

theorem len7_bits (masked : Bool) (n : Fin 128) :
    ((if masked = true then maskedBit else 0) ||| UInt8.ofNat n.val) &&& 0x7f = UInt8.ofNat n.val ∧
      (((if masked = true then maskedBit else 0) ||| UInt8.ofNat n.val) &&& maskedBit ≠ 0 ↔
        masked = true) := by
  revert masked n
  decide

theorem secondByte_bits (hfits : f.Fits) :
    f.secondByte &&& 0x7f = f.form.len7 f.payload.length ∧
      (f.secondByte &&& maskedBit ≠ 0 ↔ f.key.isSome = true) := by
  obtain ⟨kind, fin, form, key, payload⟩ := f
  cases form with
  | seven =>
    exact len7_bits key.isSome ⟨payload.length, lt_trans (b := 126) hfits (by decide)⟩
  | sixteen => exact len7_bits key.isSome 126
  | sixtyFour => exact len7_bits key.isSome 127

theorem len7_eq (hfits : f.Fits) :
    (f.form.len7 f.payload.length = 126 ↔ f.form = .sixteen) ∧
      (f.form.len7 f.payload.length = 127 ↔ f.form = .sixtyFour) := by
  obtain ⟨kind, fin, form, key, payload⟩ := f
  cases form with
  | seven =>
    have hlt : payload.length < 126 := hfits
    have hne : ∀ m, m < 256 → m ≠ payload.length → UInt8.ofNat payload.length ≠ UInt8.ofNat m := by
      intro m hm hneq heq
      have := congrArg UInt8.toNat heq
      simp only [UInt8.toNat_ofNat'] at this
      omega
    have h126 := hne 126 (by decide) (by omega)
    have h127 := hne 127 (by decide) (by omega)
    simp only [Form.len7, reduceCtorEq, iff_false]
    exact ⟨h126, h127⟩
  | sixteen | sixtyFour => simp [Form.len7]

theorem length_keyBytes (f : Frame) : f.keyBytes.length = if f.key.isSome = true then 4 else 0 := by
  unfold keyBytes
  cases f.key with
  | none => rfl
  | some key => simp

theorem length_extra (form : Form) (n : Nat) :
    (form.extra n).length = if form = .sixteen then 2 else if form = .sixtyFour then 8 else 0 := by
  cases form with
  | seven => rfl
  | sixteen => exact length_bigEndian 2 n
  | sixtyFour => exact length_bigEndian 8 n

theorem headerLen_secondByte (hfits : f.Fits) : headerLen f.secondByte = f.header.length := by
  obtain ⟨hlen7, hmasked⟩ := secondByte_bits hfits
  obtain ⟨h126, h127⟩ := len7_eq hfits
  unfold headerLen
  simp only [hlen7, h126, h127, hmasked, header, List.length_cons, List.length_append,
    length_keyBytes, length_extra]
  omega

theorem four_le_length_header {key : Key} (hkey : f.key = some key) :
    f.header.length = 2 + (f.form.extra f.payload.length).length + 4 := by
  simp only [header, List.length_cons, List.length_append, length_keyBytes, hkey, Option.isSome_some,
    if_true]
  omega

/-- A frame's header as it is read. -/
def asRead (f : Frame) : Header :=
  { opcode := f.kind.opcode, fin := f.fin, len := f.payload.length, key := f.mask,
    size := f.header.length }

/-- The header a frame is written with is the header that is read. -/
theorem parseHeader_header {role : Role} (hfits : f.Fits) (hmasked : f.MaskedFor role)
    (more : List UInt8) : parseHeader role (f.header ++ more) = .ok f.asRead := by
  obtain ⟨hrsv, hop, hfin⟩ := f.firstByte_bits
  obtain ⟨hlen7, hbit⟩ := secondByte_bits hfits
  obtain ⟨h126, h127⟩ := len7_eq hfits
  have hfirst : (f.header ++ more).getD 0 0 = f.firstByte := rfl
  have hsecond : (f.header ++ more).getD 1 0 = f.secondByte := rfl
  have hrole : ¬(role = .server ∧ decide (f.secondByte &&& maskedBit ≠ 0) = false) := by
    rintro ⟨hserver, hclear⟩
    exact of_decide_eq_false hclear (hbit.mpr (hmasked.mpr hserver))
  have hrole' : ¬(role = .client ∧ decide (f.secondByte &&& maskedBit ≠ 0) = true) := by
    rintro ⟨rfl, hset⟩
    exact absurd (hmasked.mp (hbit.mp (of_decide_eq_true hset))) (by decide)
  have hdrop : (f.header ++ more).drop 2 =
      f.form.extra f.payload.length ++ (f.keyBytes ++ more) := by
    simp [header]
  have hlen : (if f.form = .sixteen then fromBigEndian (((f.header ++ more).drop 2).take 2)
      else if f.form = .sixtyFour then fromBigEndian (((f.header ++ more).drop 2).take 8)
      else (f.form.len7 f.payload.length).toNat) = f.payload.length := by
    rw [hdrop]
    unfold Fits at hfits
    cases hform : f.form with
    | seven =>
      rw [hform] at hfits
      have hlt : f.payload.length < 126 := hfits
      simp only [reduceCtorEq, if_false, Form.len7, UInt8.toNat_ofNat']
      omega
    | sixteen =>
      rw [hform] at hfits
      rw [if_pos rfl, Form.extra, List.take_append_of_le_length (by simp),
        List.take_of_length_le (by simp)]
      exact fromBigEndian_bigEndian hfits
    | sixtyFour =>
      rw [hform] at hfits
      rw [if_neg (by decide), if_pos rfl, Form.extra, List.take_append_of_le_length (by simp),
        List.take_of_length_le (by simp)]
      exact fromBigEndian_bigEndian hfits
  have hkey : (if f.key.isSome = true then
      (#v[(f.header ++ more).getD (f.header.length - 4) 0,
        (f.header ++ more).getD (f.header.length - 3) 0,
        (f.header ++ more).getD (f.header.length - 2) 0,
        (f.header ++ more).getD (f.header.length - 1) 0] : Key)
      else #v[0, 0, 0, 0]) = f.mask := by
    cases hkey : f.key with
    | none => simp [mask, hkey, noMask, Array.replicate_succ]
    | some key =>
      -- The key is the end of the header.
      have hsize := four_le_length_header hkey
      have hend : f.header ++ more = (f.firstByte :: f.secondByte ::
          f.form.extra f.payload.length) ++ (key.toList ++ more) := by
        simp [header, keyBytes, hkey]
      have hat : ∀ i : Nat, i < 4 →
          (f.header ++ more).getD (f.header.length - 4 + i) 0 = key.toList.getD i 0 := by
        intro i hi
        rw [hend, List.getD_append_right _ _ _ _ (by simp only [List.length_cons]; omega),
          List.getD_append _ _ _ _ (by simp only [List.length_cons, Vector.length_toList]; omega)]
        congr 1
        simp only [List.length_cons]
        omega
      rw [Option.isSome_some, if_pos rfl, mask, hkey, Option.getD_some]
      have h3 : f.header.length - 3 = f.header.length - 4 + 1 := by omega
      have h2 : f.header.length - 2 = f.header.length - 4 + 2 := by omega
      have h1 : f.header.length - 1 = f.header.length - 4 + 3 := by omega
      have h0 := hat 0 (by decide)
      rw [Nat.add_zero] at h0
      rw [h3, h2, h1, h0, hat 1 (by decide), hat 2 (by decide), hat 3 (by decide)]
      ext i hi
      interval_cases i <;> simp [Vector.getElem_toList]
  unfold parseHeader asRead
  simp only [hfirst, hsecond, headerLen_secondByte hfits]
  rw [if_neg (not_not_intro hrsv), if_neg hrole, if_neg hrole']
  simp only [hop, hlen7, h126, h127, hfin, hbit, hlen, hkey, Bool.decide_eq_true]

end Frame

/-! ## Waiting for bytes -/

namespace FrameSource

/-- The reads of the socket return something. -/
def Live (s : FrameSource) : Prop := ∀ chunk ∈ s.stream, chunk ≠ []

/-- Bytes may have arrived and been taken; nothing else has happened. -/
structure Reaches (s s' : FrameSource) (ahead : List UInt8) : Prop where
  same : { s' with buf := s.buf, pos := s.pos, stream := s.stream } = s
  ahead : s'.ahead = ahead
  live : s'.Live

/-- Bytes may have arrived. -/
abbrev Waited (s s' : FrameSource) : Prop := Reaches s s' s.ahead

namespace Reaches

variable {s s' s'' : FrameSource} {a b : List UInt8}

theorem refl (h : s.Live) : Waited s s := ⟨rfl, rfl, h⟩

theorem role (h : Reaches s s' a) : s'.role = s.role := (congrArg FrameSource.role h.same :)

theorem written (h : Reaches s s' a) : s'.written = s.written :=
  (congrArg FrameSource.written h.same :)

theorem drawn (h : Reaches s s' a) : s'.drawn = s.drawn := (congrArg FrameSource.drawn h.same :)

theorem remaining (h : Reaches s s' a) : s'.remaining = s.remaining :=
  (congrArg FrameSource.remaining h.same :)

theorem mask (h : Reaches s s' a) : s'.mask = s.mask := (congrArg FrameSource.mask h.same :)

theorem maskAt (h : Reaches s s' a) : s'.maskAt = s.maskAt := (congrArg FrameSource.maskAt h.same :)

theorem inMessage (h : Reaches s s' a) : s'.inMessage = s.inMessage :=
  (congrArg FrameSource.inMessage h.same :)

theorem closed (h : Reaches s s' a) : s'.closed = s.closed := (congrArg FrameSource.closed h.same :)

theorem trans (h : Reaches s s' a) (h' : Reaches s' s'' b) : Reaches s s'' b where
  same := by
    have hs := h.same
    rw [← h'.same] at hs
    exact hs
  ahead := h'.ahead
  live := h'.live

/-- Bytes that have arrived are taken. -/
theorem take (h : Reaches s s' (a ++ b)) (hfront : a.length ≤ s'.front.length) :
    (∃ more, s'.front = a ++ more) ∧ Reaches s { s' with pos := s'.pos + a.length } b := by
  have hahead := h.ahead
  rw [FrameSource.ahead] at hahead
  have hsplit : ∃ more, s'.front = a ++ more ∧ more ++ s'.stream.flatten = b := by
    rcases List.append_eq_append_iff.mp hahead with ⟨m, hknown, hrest⟩ | ⟨m, hfrontEq, hrest⟩
    · have hlen := congrArg List.length hknown
      rw [List.length_append] at hlen
      obtain rfl : m = [] := List.eq_nil_of_length_eq_zero (by omega)
      rw [List.append_nil] at hknown
      exact ⟨[], by rw [hknown, List.append_nil], by rw [List.nil_append]; exact hrest⟩
    · exact ⟨m, hfrontEq, hrest.symm⟩
  obtain ⟨more, hmore, hb⟩ := hsplit
  refine ⟨⟨more, hmore⟩, h.same, ?_, h.live⟩
  rw [front] at hmore
  simp only [FrameSource.ahead, front]
  rw [← List.drop_drop, hmore, List.drop_left, hb]

end Reaches

variable {s : FrameSource}

theorem available_eq (s : FrameSource) : s.available = s.front.length := by
  rw [available, front, List.length_drop]

theorem refill_chunk {chunk : List UInt8} {stream : List (List UInt8)}
    (h : s.stream = chunk :: stream) (hchunk : chunk ≠ []) :
    refill.run s = .ok () { s with buf := s.front ++ chunk, pos := 0, stream } := by
  obtain ⟨b, chunk, rfl⟩ := List.exists_cons_of_ne_nil hchunk
  simp only [refill, EStateM.run_bind, EStateM.run_get]
  rcases Nat.eq_zero_or_pos s.pos with hpos | hpos
  · simp [hpos, h, front]
  · simp [hpos, h, front]

theorem refill_nil (h : s.stream = []) :
    refill.run s = .error eof { s with buf := s.front, pos := 0 } := by
  simp only [refill, EStateM.run_bind, EStateM.run_get]
  obtain ⟨role, stream, written, drawn, buf, pos, remaining, mask, maskAt, inMessage, closed⟩ := s
  obtain rfl : stream = [] := h
  rcases Nat.eq_zero_or_pos pos with rfl | hpos
  · simp [front]
  · simp [hpos, front]

/-- A refill brings the next read's bytes. -/
theorem refill_run (hlive : s.Live) (hlong : s.front.length < s.ahead.length) :
    ∃ s', refill.run s = .ok () s' ∧ Waited s s' ∧ s'.stream.length < s.stream.length ∧
      s.front.length < s'.front.length := by
  cases hstream : s.stream with
  | nil => simp [ahead, hstream] at hlong
  | cons chunk stream =>
    have hchunk : chunk ≠ [] := hlive chunk (by simp [hstream])
    refine ⟨_, refill_chunk hstream hchunk, ⟨?_, ?_, fun c hc => ?_⟩, by simp, ?_⟩
    · rfl
    · simp [ahead, front, hstream]
    · exact hlive c (by rw [hstream]; exact List.mem_cons_of_mem _ hc)
    · have := List.length_pos_iff.mpr hchunk
      simp [front]
      omega

theorem needWithin_run (n : Nat) : ∀ (passes : Nat) {s : FrameSource}, s.Live → n ≤ s.ahead.length →
    s.stream.length < passes →
    ∃ s', (needWithin n passes).run s = .ok () s' ∧ Waited s s' ∧ n ≤ s'.front.length
  | 0, s, _, _, hpasses => absurd hpasses (Nat.not_lt_zero _)
  | passes + 1, s, hlive, hlong, hpasses => by
    simp only [needWithin, EStateM.run_bind, EStateM.run_get, available_eq]
    by_cases hn : s.front.length < n
    · obtain ⟨s', hrefill, hwaited, hstream, -⟩ := refill_run hlive (by omega)
      obtain ⟨s'', hrest, hwaited', hfront⟩ :=
        needWithin_run n passes hwaited.live (by rw [hwaited.ahead]; exact hlong) (by omega)
      refine ⟨s'', ?_, hwaited.trans (hwaited.ahead ▸ hwaited'), hfront⟩
      rw [if_pos hn, EStateM.run_bind, hrefill]
      exact hrest
    · exact ⟨s, by rw [if_neg hn]; rfl, Reaches.refl hlive, by omega⟩

theorem needWithin_eof (n : Nat) : ∀ (passes : Nat) {s : FrameSource}, s.Live → s.ahead.length < n →
    s.stream.length < passes →
    ∃ s', (needWithin n passes).run s = .error eof s' ∧ Waited s s'
  | 0, s, _, _, hpasses => absurd hpasses (Nat.not_lt_zero _)
  | passes + 1, s, hlive, hshort, hpasses => by
    have hfront : s.front.length ≤ s.ahead.length := by
      rw [ahead, List.length_append]
      omega
    simp only [needWithin, EStateM.run_bind, EStateM.run_get, available_eq]
    rw [if_pos (by omega), EStateM.run_bind]
    cases hstream : s.stream with
    | nil =>
      refine ⟨{ s with buf := s.front, pos := 0 }, by rw [refill_nil hstream], rfl, ?_, hlive⟩
      simp [ahead, front, hstream]
    | cons chunk stream =>
      have hlong : s.front.length < s.ahead.length := by
        have := List.length_pos_iff.mpr (hlive chunk (by simp [hstream]))
        simp [ahead, hstream]
        omega
      obtain ⟨s', hrefill, hwaited, hless, -⟩ := refill_run hlive hlong
      obtain ⟨s'', hrest, hwaited'⟩ :=
        needWithin_eof n passes hwaited.live (by rw [hwaited.ahead]; exact hshort) (by omega)
      refine ⟨s'', ?_, hwaited.trans (hwaited.ahead ▸ hwaited')⟩
      rw [hrefill]
      exact hrest

/-- Bytes that are on their way arrive. -/
theorem need_run {n : Nat} (hlive : s.Live) (hlong : n ≤ s.ahead.length) :
    ∃ s', (need n).run s = .ok () s' ∧ Waited s s' ∧ n ≤ s'.front.length := by
  simp only [need, EStateM.run_bind, EStateM.run_get]
  exact needWithin_run n _ hlive hlong (Nat.lt_succ_self _)

theorem need_eof {n : Nat} (hlive : s.Live) (hshort : s.ahead.length < n) :
    ∃ s', (need n).run s = .error eof s' ∧ Waited s s' := by
  simp only [need, EStateM.run_bind, EStateM.run_get]
  exact needWithin_eof n _ hlive hshort (Nat.lt_succ_self _)

end FrameSource

/-! ## What a peer sends -/

namespace Frame

/-- A frame that carries some of a message. -/
def IsData (f : Frame) : Prop := f.kind = .continuation ∨ f.kind = .text ∨ f.kind = .binary

/-- A frame that is read past: a ping or a pong. -/
def IsIdle (f : Frame) : Prop := f.kind = .ping ∨ f.kind = .pong

instance (f : Frame) : Decidable f.IsData := inferInstanceAs (Decidable (_ ∨ _))

instance (f : Frame) : Decidable f.IsIdle := inferInstanceAs (Decidable (_ ∨ _))

/-- What a frame adds to the byte stream. -/
def given (f : Frame) : List UInt8 := if f.IsData then f.payload else []

/-- The header of a data frame as it is reported. -/
def dataFrame (f : Frame) : DataFrame :=
  { opcode := f.kind.opcode, fin := f.fin, len := f.payload.length }

/-- What the turn that reads a frame comes to. -/
def turn (f : Frame) : FrameSource.Turn :=
  if f.IsData then .data f.dataFrame else if f.IsIdle then .again else .closed

theorem given_of_isIdle {f : Frame} (h : f.IsIdle) : f.given = [] := by
  unfold given
  rw [if_neg]
  rcases h with h | h <;> simp [IsData, h]

end Frame

/-- What the frames add to the byte stream. -/
def payloads (frames : List Frame) : List UInt8 := frames.flatMap Frame.given

/-- The frames on the wire. -/
def wire (frames : List Frame) : List UInt8 := frames.flatMap Frame.bytes

/-- What may follow, of what a peer sends to a role: whether a message is
under way decides which data frame may come, control frames are whole and
short and come anywhere, and nothing follows a close. -/
def Legal (role : Role) : Bool → List Frame → Prop
  | _, [] => True
  | inMessage, f :: rest =>
    f.Fits ∧ f.MaskedFor role ∧
      match f.kind with
      | .continuation => inMessage = true ∧ Legal role (!f.fin) rest
      | .text | .binary => inMessage = false ∧ Legal role (!f.fin) rest
      | .ping | .pong =>
        f.fin = true ∧ f.payload.length ≤ maxControlPayload ∧ Legal role inMessage rest
      | .close => f.fin = true ∧ f.payload.length ≤ maxControlPayload ∧ rest = []

/-- The mask a side puts on the frame it sends next. -/
def replyMask (nonce : Nat → Key) : Role → Nat → Option Key
  | .server, _ => none
  | .client, drawn => some (nonce drawn)

/-- How many masks are drawn once it has. -/
def drawnAfter : Role → Nat → Nat
  | .server, drawn => drawn
  | .client, drawn => drawn + 1

/-- Frames written one after the other, by a side that has drawn so many
masks. -/
def writeAll (nonce : Nat → Key) (role : Role) : Nat → List (Kind × List UInt8) → List UInt8
  | _, [] => []
  | drawn, call :: rest =>
    writeFrame call.1.opcode call.2 (replyMask nonce role drawn) ++
      writeAll nonce role (drawnAfter role drawn) rest

/-- The answer to a frame: to a ping a pong with its payload, to a close its
echo. -/
def Frame.reply (f : Frame) : Option (Kind × List UInt8) :=
  match f.kind with
  | .ping => some (.pong, f.payload)
  | .close => some (.close, f.payload)
  | _ => none

/-- What is written on reading the frames. -/
def answers (nonce : Nat → Key) (role : Role) (drawn : Nat) (frames : List Frame) : List UInt8 :=
  writeAll nonce role drawn (frames.filterMap Frame.reply)

theorem answers_of_none {nonce : Nat → Key} {role : Role} {drawn : Nat} {f : Frame}
    {rest : List Frame} (h : f.reply = none) :
    answers nonce role drawn (f :: rest) = answers nonce role drawn rest := by
  rw [answers, List.filterMap_cons_none h, answers]

theorem answers_of_some {nonce : Nat → Key} {role : Role} {drawn : Nat} {f : Frame}
    {rest : List Frame} {kind : Kind} {payload : List UInt8} (h : f.reply = some (kind, payload)) :
    answers nonce role drawn (f :: rest) =
      writeFrame kind.opcode payload (replyMask nonce role drawn) ++
        answers nonce role (drawnAfter role drawn) rest := by
  rw [answers, List.filterMap_cons_some h, writeAll, answers]

theorem payloads_cons (f : Frame) (frames : List Frame) :
    payloads (f :: frames) = f.given ++ payloads frames := List.flatMap_cons

theorem wire_cons (f : Frame) (frames : List Frame) :
    wire (f :: frames) = f.header ++ (f.body ++ wire frames) := by
  rw [wire, List.flatMap_cons, Frame.bytes, List.append_assoc, wire]

/-- A frame is at least two bytes. -/
theorem length_le_wire (frames : List Frame) : frames.length ≤ (wire frames).length := by
  induction frames with
  | nil => exact Nat.le_refl 0
  | cons f frames ih =>
    rw [wire_cons, List.length_append, List.length_append, List.length_cons, Frame.header,
      List.length_cons]
    omega

namespace FrameSource

variable {nonce : Nat → Key}

theorem reply_run (opcode : UInt8) (payload : List UInt8) (s : FrameSource) :
    (reply nonce opcode payload).run s =
      .ok ()
        { s with
          written := s.written ++ writeFrame opcode payload (replyMask nonce s.role s.drawn)
          drawn := drawnAfter s.role s.drawn } := by
  obtain ⟨role⟩ := s
  cases role <;> rfl

/-! ## Turns -/

variable (nonce) in
/-- The header of a frame is read off what is ahead. -/
theorem turn_header {s : FrameSource} {f : Frame} {rest : List UInt8} (hlive : s.Live)
    (hopen : s.closed = false) (hfits : f.Fits) (hmasked : f.MaskedFor s.role)
    (hahead : s.ahead = f.header ++ rest) :
    ∃ s', Reaches s s' rest ∧ (turn nonce).run s = (dispatch nonce f.asRead).run s' := by
  have hheader : 2 ≤ f.header.length := by simp [Frame.header]
  have hlong : f.header.length ≤ s.ahead.length := by
    rw [hahead, List.length_append]
    omega
  obtain ⟨s₁, hneed₁, hwait₁, hfront₁⟩ := need_run hlive (Nat.le_trans hheader hlong)
  have hsecond : s₁.front.getD 1 0 = f.secondByte := by
    have hahead₁ : s₁.ahead = f.header ++ rest := hwait₁.ahead.trans hahead
    have hget := congrArg (fun l => l.getD 1 0) hahead₁
    rw [ahead, List.getD_append _ _ _ _ hfront₁] at hget
    exact hget
  have hsize : headerLen (s₁.front.getD 1 0) = f.header.length := by
    rw [hsecond, Frame.headerLen_secondByte hfits]
  obtain ⟨s₂, hneed₂, hwait₂, hfront₂⟩ := need_run (n := f.header.length) hwait₁.live
    (by rw [hwait₁.ahead]; exact hlong)
  have hreach : Reaches s s₂ (f.header ++ rest) := by
    have htrans := hwait₁.trans hwait₂
    rw [hwait₁.ahead, hahead] at htrans
    exact htrans
  obtain ⟨⟨more, hmore⟩, htaken⟩ := hreach.take hfront₂
  refine ⟨_, htaken, ?_⟩
  have hparse : parseHeader s₂.role s₂.front = .ok f.asRead := by
    rw [hmore, hreach.role]
    exact Frame.parseHeader_header hfits hmasked more
  simp only [turn, EStateM.run_bind, EStateM.run_get, hopen, Bool.false_eq_true, if_false, hneed₁,
    hsize, hneed₂, hparse, EStateM.run_set]
  rfl

/-- A data frame begins. -/
theorem dispatch_data {s : FrameSource} {h : Header}
    (hkind : (h.opcode = opBinary ∨ h.opcode = opText) ∧ s.inMessage = false ∨
      h.opcode = opContinuation ∧ s.inMessage = true) :
    (dispatch nonce h).run s =
      .ok (.data { opcode := h.opcode, fin := h.fin, len := h.len })
        { s with inMessage := !h.fin, remaining := h.len, mask := h.key, maskAt := 0 } := by
  simp only [dispatch, EStateM.run_bind, EStateM.run_get]
  rcases hkind with ⟨hop, hin⟩ | ⟨hop, hin⟩
  · rw [if_pos hop, if_neg (by simp [hin])]
    rfl
  · rw [if_neg (by rw [hop]; decide), if_pos hop, if_neg (by simp [hin])]
    rfl

variable (nonce) in
/-- A control frame is taken whole. -/
theorem control_payload {s : FrameSource} {f : Frame} {rest : List UInt8}
    (hlive : s.Live) (hfin : f.fin = true) (hlen : f.payload.length ≤ maxControlPayload)
    (hahead : s.ahead = f.body ++ rest) :
    ∃ s', Reaches s s' rest ∧
      (control nonce f.asRead).run s =
        (if f.kind.opcode = opPing then do
          reply nonce opPong f.payload
          pure Turn.again
        else if f.kind.opcode = opPong then pure Turn.again
        else do
          reply nonce opClose f.payload
          modify fun s => { s with closed := true }
          pure Turn.closed : Io FrameSource Turn).run s' := by
  have hlong : f.payload.length ≤ s.ahead.length := by
    rw [hahead, List.length_append, Frame.length_body]
    omega
  obtain ⟨s₁, hneed, hwait, hfront⟩ := need_run hlive hlong
  have hreach : Reaches s s₁ (f.body ++ rest) := ⟨hwait.same, hwait.ahead.trans hahead, hwait.live⟩
  obtain ⟨⟨more, hmore⟩, htaken⟩ := hreach.take (by rw [Frame.length_body]; exact hfront)
  refine ⟨_, htaken, ?_⟩
  have hpayload : xorMask f.mask 0 (s₁.front.take f.payload.length) = f.payload := by
    rw [hmore, List.take_append_of_le_length (by rw [Frame.length_body]),
      List.take_of_length_le (by rw [Frame.length_body]), Frame.body, xorMask_xorMask]
  rw [control, if_neg (by simp [Frame.asRead, hfin]),
    if_neg (show ¬f.asRead.len > maxControlPayload from Nat.not_lt.mpr hlen)]
  simp only [Frame.asRead, EStateM.run_bind, EStateM.run_get, hneed, hpayload, EStateM.run_set,
    Frame.length_body]

theorem dispatch_control {s : FrameSource} {h : Header}
    (hop : h.opcode = opClose ∨ h.opcode = opPing ∨ h.opcode = opPong) :
    (dispatch nonce h).run s = (control nonce h).run s := by
  simp only [dispatch, EStateM.run_bind, EStateM.run_get]
  rw [if_neg (by rcases hop with hop | hop | hop <;> rw [hop] <;> decide),
    if_neg (by rcases hop with hop | hop | hop <;> rw [hop] <;> decide), if_pos hop]

/-- A source in the middle of a frame of which `cur` is still owed, with the
frames `frames` behind it. What was written and what the answers will add
come to `total`. -/
structure Reading (nonce : Nat → Key) (total : List UInt8) (s : FrameSource) (cur : List UInt8)
    (frames : List Frame) : Prop where
  live : s.Live
  remaining : s.remaining = cur.length
  written : s.written ++ answers nonce s.role s.drawn frames = total
  ahead : s.closed = false → s.ahead = xorMask s.mask s.maskAt cur ++ wire frames
  legal : s.closed = false → Legal s.role s.inMessage frames
  closed : s.closed = true → cur = [] ∧ frames = []

variable {total : List UInt8}
variable {s : FrameSource} {cur : List UInt8} {f : Frame} {rest frames : List Frame}

/-- A closed source stays closed. -/
theorem turn_closed (h : s.closed = true) : (turn nonce).run s = .ok .closed s := by
  simp [turn, h]

/-- Nothing is ahead: the peer went away. -/
theorem turn_nil (h : Reading nonce total s [] []) (hopen : s.closed = false) :
    ∃ s', Reading nonce total s' [] [] ∧ (turn nonce).run s = .error eof s' := by
  have hempty : s.ahead = [] := h.ahead hopen
  obtain ⟨s', hneed, hwait⟩ := need_eof (n := 2) h.live (by rw [hempty]; decide)
  refine ⟨s', ⟨hwait.live, ?_, ?_, fun _ => ?_, fun _ => trivial, fun _ => ⟨rfl, rfl⟩⟩, ?_⟩
  · rw [hwait.remaining, h.remaining]
  · rw [hwait.written]
    exact h.written
  · rw [hwait.ahead, hempty]
    rfl
  · simp only [turn, EStateM.run_bind, EStateM.run_get, hopen, Bool.false_eq_true, if_false, hneed]

theorem Reading.open_of_cons (h : Reading nonce total s cur (f :: rest)) : s.closed = false := by
  cases hc : s.closed with
  | false => rfl
  | true => exact absurd (h.closed hc).2 (by simp)

/-- A data frame begins: its payload is owed. -/
theorem Reading.begins {s₁ : FrameSource} (h : Reading nonce total s [] (f :: rest))
    (hdata : f.IsData) (hreach : Reaches s s₁ (f.body ++ wire rest))
    (hlegal : Legal s.role (!f.fin) rest) :
    Reading nonce total
      { s₁ with inMessage := !f.fin, remaining := f.payload.length, mask := f.mask, maskAt := 0 }
      f.given rest where
  live := hreach.live
  remaining := by rw [Frame.given, if_pos hdata]
  written := by
    have hwritten := h.written
    have hreply : f.reply = none := by
      rcases hdata with hk | hk | hk <;> simp [Frame.reply, hk]
    rw [← hreach.written, ← hreach.role, ← hreach.drawn, answers_of_none hreply] at hwritten
    exact hwritten
  ahead _ := by
    rw [Frame.given, if_pos hdata]
    exact hreach.ahead
  legal _ := by
    rw [hreach.role]
    exact hlegal
  closed hc := absurd ((hreach.closed.trans h.open_of_cons).symm.trans hc) (by decide)

/-- A control frame has been read past and perhaps answered. -/
theorem Reading.passes {s₂ : FrameSource} (h : Reading nonce total s [] (f :: rest))
    (hreach : Reaches s s₂ (wire rest)) (hlegal : Legal s.role s.inMessage rest)
    (written : List UInt8) (drawn : Nat)
    (hwritten : written ++ answers nonce s.role drawn rest = total) :
    Reading nonce total { s₂ with written, drawn } [] rest where
  live := hreach.live
  remaining := hreach.remaining.trans h.remaining
  written := by
    rw [hreach.role]
    exact hwritten
  ahead _ := hreach.ahead
  legal _ := by
    rw [hreach.role, hreach.inMessage]
    exact hlegal
  closed hc := absurd ((hreach.closed.trans h.open_of_cons).symm.trans hc) (by decide)

/-- The turn that meets a control frame. -/
theorem turn_control (h : Reading nonce total s [] (f :: rest)) (hdata : ¬f.IsData)
    (hfin : f.fin = true) (hlen : f.payload.length ≤ maxControlPayload) :
    ∃ s', Reaches s s' (wire rest) ∧ (turn nonce).run s =
      (if f.kind.opcode = opPing then do
        reply nonce opPong f.payload
        pure Turn.again
      else if f.kind.opcode = opPong then pure Turn.again
      else do
        reply nonce opClose f.payload
        modify fun s => { s with closed := true }
        pure Turn.closed : Io FrameSource Turn).run s' := by
  have hopen := h.open_of_cons
  obtain ⟨hfits, hmasked, -⟩ := h.legal hopen
  have hahead : s.ahead = f.header ++ (f.body ++ wire rest) := by
    rw [h.ahead hopen, xorMask_nil, List.nil_append, wire_cons]
  obtain ⟨s₁, hreach, hturn⟩ := turn_header nonce h.live hopen hfits hmasked hahead
  obtain ⟨s₂, hreach₂, hrun⟩ := control_payload nonce hreach.live hfin hlen hreach.ahead
  refine ⟨s₂, hreach.trans hreach₂, hturn.trans ((dispatch_control ?_).trans hrun)⟩
  cases hk : f.kind <;> simp_all [Frame.IsData, Frame.asRead, Kind.opcode]

/-- The turn that meets a data frame. -/
theorem turn_data (h : Reading nonce total s [] (f :: rest)) (hdata : f.IsData)
    (hkind : f.kind ≠ .continuation ∧ s.inMessage = false ∨
      f.kind = .continuation ∧ s.inMessage = true) (hlegal : Legal s.role (!f.fin) rest) :
    ∃ s', Reading nonce total s' f.given rest ∧ (turn nonce).run s = .ok f.turn s' := by
  have hopen := h.open_of_cons
  obtain ⟨hfits, hmasked, -⟩ := h.legal hopen
  have hahead : s.ahead = f.header ++ (f.body ++ wire rest) := by
    rw [h.ahead hopen, xorMask_nil, List.nil_append, wire_cons]
  obtain ⟨s₁, hreach, hturn⟩ := turn_header nonce h.live hopen hfits hmasked hahead
  refine ⟨_, h.begins hdata hreach hlegal, hturn.trans ((dispatch_data ?_).trans ?_)⟩
  · rw [hreach.inMessage]
    rcases hkind with ⟨hne, hin⟩ | ⟨hk, hin⟩
    · refine .inl ⟨?_, hin⟩
      rcases hdata with hk | hk | hk
      · exact absurd hk hne
      · exact .inr (by simp [Frame.asRead, hk, Kind.opcode])
      · exact .inl (by simp [Frame.asRead, hk, Kind.opcode])
    · exact .inr ⟨by simp [Frame.asRead, hk, Kind.opcode], hin⟩
  · rw [Frame.turn, if_pos hdata]
    rfl

/-- One frame is taken. -/
theorem turn_cons (h : Reading nonce total s [] (f :: rest)) :
    ∃ s', Reading nonce total s' f.given rest ∧ (turn nonce).run s = .ok f.turn s' := by
  have hlegal := h.legal h.open_of_cons
  have hwritten := h.written
  simp only [Legal] at hlegal
  obtain ⟨-, -, hkind⟩ := hlegal
  cases hk : f.kind with
  | continuation =>
    rw [hk] at hkind
    exact turn_data h (.inl hk) (.inr ⟨hk, hkind.1⟩) hkind.2
  | text =>
    rw [hk] at hkind
    exact turn_data h (.inr (.inl hk)) (.inl ⟨by simp [hk], hkind.1⟩) hkind.2
  | binary =>
    rw [hk] at hkind
    exact turn_data h (.inr (.inr hk)) (.inl ⟨by simp [hk], hkind.1⟩) hkind.2
  | ping =>
    rw [hk] at hkind
    obtain ⟨hfin, hlen, hlegal⟩ := hkind
    have hidle : f.IsIdle := .inl hk
    have hdata : ¬f.IsData := by simp [Frame.IsData, hk]
    obtain ⟨s₂, hreach, hrun⟩ := turn_control h hdata hfin hlen
    rw [if_pos (by rw [hk]; rfl), EStateM.run_bind, reply_run] at hrun
    have hreply : f.reply = some (.pong, f.payload) := by simp [Frame.reply, hk]
    rw [answers_of_some hreply] at hwritten
    have hpasses := h.passes hreach hlegal
      (s₂.written ++ writeFrame opPong f.payload (replyMask nonce s₂.role s₂.drawn))
      (drawnAfter s₂.role s₂.drawn)
      (by rw [hreach.written, hreach.role, hreach.drawn, List.append_assoc]; exact hwritten)
    rw [← Frame.given_of_isIdle hidle] at hpasses
    refine ⟨_, hpasses, hrun.trans ?_⟩
    rw [Frame.turn, if_neg hdata, if_pos hidle]
    rfl
  | pong =>
    rw [hk] at hkind
    obtain ⟨hfin, hlen, hlegal⟩ := hkind
    have hidle : f.IsIdle := .inr hk
    have hdata : ¬f.IsData := by simp [Frame.IsData, hk]
    obtain ⟨s₂, hreach, hrun⟩ := turn_control h hdata hfin hlen
    rw [if_neg (by rw [hk]; decide), if_pos (by rw [hk]; rfl)] at hrun
    rw [answers_of_none (by simp [Frame.reply, hk])] at hwritten
    have hpasses := h.passes hreach hlegal s₂.written s₂.drawn
      (by rw [hreach.written, hreach.drawn]; exact hwritten)
    rw [← Frame.given_of_isIdle hidle] at hpasses
    refine ⟨_, hpasses, hrun.trans ?_⟩
    rw [Frame.turn, if_neg hdata, if_pos hidle]
    rfl
  | close =>
    rw [hk] at hkind
    obtain ⟨hfin, hlen, rfl⟩ := hkind
    have hdata : ¬f.IsData := by simp [Frame.IsData, hk]
    have hidle : ¬f.IsIdle := by simp [Frame.IsIdle, hk]
    obtain ⟨s₂, hreach, hrun⟩ := turn_control h hdata hfin hlen
    rw [if_neg (by rw [hk]; decide), if_neg (by rw [hk]; decide), EStateM.run_bind, reply_run] at hrun
    have hreply : f.reply = some (.close, f.payload) := by simp [Frame.reply, hk]
    rw [answers_of_some hreply] at hwritten
    refine ⟨{ s₂ with
        written := s₂.written ++ writeFrame opClose f.payload (replyMask nonce s₂.role s₂.drawn)
        drawn := drawnAfter s₂.role s₂.drawn
        closed := true }, ⟨hreach.live, ?_, ?_, nofun, nofun, fun _ => ⟨?_, rfl⟩⟩, hrun.trans ?_⟩
    · rw [Frame.given, if_neg hdata]
      exact hreach.remaining.trans h.remaining
    · dsimp only
      rw [hreach.written, hreach.role, hreach.drawn, List.append_assoc]
      exact hwritten
    · rw [Frame.given, if_neg hdata]
    · rw [Frame.turn, if_neg hdata, if_neg hidle]
      rfl

/-! ## Payloads -/

/-- Whatever comes next finds some of the payload there, once a refill was
made if there was none. -/
theorem payload_arrives (hlive : s.Live) (hahead : s.ahead ≠ []) :
    ∃ s', Waited s s' ∧ 0 < s'.front.length ∧ ∀ {α : Type} (next : Io FrameSource α),
      (if s.available = 0 then do refill; next else next : Io FrameSource α).run s =
        next.run s' := by
  rw [available_eq]
  by_cases hfront : s.front.length = 0
  · have hlong := List.length_pos_iff.mpr hahead
    obtain ⟨s', hrun, hwait, -, hgrown⟩ := refill_run hlive (by omega)
    refine ⟨s', hwait, by omega, fun next => ?_⟩
    rw [if_pos hfront, EStateM.run_bind, hrun]
  · exact ⟨s, .refl hlive, by omega, fun next => by rw [if_neg hfront]⟩

theorem Reading.open_of_ne (h : Reading nonce total s cur frames) (hcur : cur ≠ []) :
    s.closed = false := by
  cases hc : s.closed with
  | false => rfl
  | true => exact absurd (h.closed hc).1 hcur

/-- A read of the payload at hand returns some of it. -/
theorem readPayload_run {size : Nat} (h : Reading nonce total s cur frames) (hcur : cur ≠ [])
    (hsize : 0 < size) :
    ∃ s' b cur', (readPayload size).run s = .ok b s' ∧ cur = b ++ cur' ∧ b ≠ [] ∧ b.length ≤ size ∧
      Reading nonce total s' cur' frames := by
  have hopen := h.open_of_ne hcur
  have hpos := List.length_pos_iff.mpr hcur
  have hne : s.ahead ≠ [] := by
    rw [h.ahead hopen]
    intro hempty
    have hnone := congrArg List.length (List.append_eq_nil_iff.mp hempty).1
    rw [length_xorMask, List.length_nil] at hnone
    omega
  obtain ⟨s₁, hwait, hfront, hrun⟩ := payload_arrives h.live hne
  have hmin : min (min s₁.remaining s₁.available) size =
      min (min cur.length s₁.front.length) size := by
    rw [hwait.remaining, h.remaining, available_eq]
  obtain ⟨n, hn⟩ : ∃ n, n = min (min cur.length s₁.front.length) size := ⟨_, rfl⟩
  have hlen : (cur.take n).length = n := by
    rw [List.length_take]
    omega
  have hahead : s.ahead = xorMask s.mask s.maskAt (cur.take n) ++
      (xorMask s.mask ((s.maskAt + n) % 4) (cur.drop n) ++ wire frames) := by
    rw [h.ahead hopen, ← List.append_assoc]
    congr 1
    conv_lhs => rw [← List.take_append_drop n cur, xorMask_append, hlen]
    rw [xorMask_mod (a := s.maskAt + n) s.mask (cur.drop n) (Nat.mod_mod _ 4).symm]
  have hreach : Reaches s s₁ (xorMask s.mask s.maskAt (cur.take n) ++
      (xorMask s.mask ((s.maskAt + n) % 4) (cur.drop n) ++ wire frames)) :=
    ⟨hwait.same, hwait.ahead.trans hahead, hwait.live⟩
  obtain ⟨⟨more, hmore⟩, htaken⟩ := hreach.take (by rw [length_xorMask, hlen]; omega)
  have hbytes : xorMask s₁.mask s₁.maskAt (s₁.front.take n) = cur.take n := by
    rw [hmore, List.take_append_of_le_length (by rw [length_xorMask, hlen]),
      List.take_of_length_le (by rw [length_xorMask, hlen]), hwait.mask, hwait.maskAt, xorMask_xorMask]
  rw [length_xorMask, hlen] at htaken
  refine ⟨{ s₁ with
      pos := s₁.pos + n
      maskAt := (s₁.maskAt + n) % 4
      remaining := s₁.remaining - n }, cur.take n, cur.drop n, ?_,
    (List.take_append_drop n cur).symm, ?_, by rw [hlen]; omega, ?_⟩
  · have hgo : ¬(s.remaining = 0 ∨ size = 0) := by
      rw [h.remaining]
      omega
    rw [readPayload, EStateM.run_bind, EStateM.run_get]
    dsimp only
    rw [if_neg hgo]
    refine (hrun _).trans ?_
    simp only [EStateM.run_bind, EStateM.run_get, EStateM.run_set, hmin, ← hn, hbytes,
      EStateM.run_pure]
  · intro hempty
    rw [hempty] at hlen
    simp only [List.length_nil] at hlen
    omega
  · refine ⟨htaken.live, ?_, ?_, fun _ => ?_, fun _ => ?_, fun hc => ?_⟩
    · dsimp only
      rw [hwait.remaining, h.remaining, List.length_drop]
    · exact htaken.written ▸ htaken.role ▸ htaken.drawn ▸ h.written
    · dsimp only
      rw [hwait.mask, hwait.maskAt]
      exact htaken.ahead
    · dsimp only
      rw [hwait.role, hwait.inMessage]
      exact h.legal hopen
    · exact absurd ((hwait.closed.trans hopen).symm.trans hc) (by decide)

/-! ## The next data frame -/

/-- What waiting for a data frame comes to: the stream ends, the peer has
closed, or a data frame begins behind pings and pongs. -/
inductive Found (nonce : Nat → Key) (total : List UInt8) :
    List Frame → EStateM.Result IoError FrameSource (Option DataFrame) → Prop where
  | ended {frames : List Frame} {s : FrameSource} (hnone : ∀ f ∈ frames, ¬f.IsData)
      (hreading : Reading nonce total s [] []) : Found nonce total frames (.error eof s)
  | closed {frames : List Frame} {s : FrameSource} (hnone : ∀ f ∈ frames, ¬f.IsData)
      (hreading : Reading nonce total s [] []) : Found nonce total frames (.ok none s)
  | data {skipped rest : List Frame} {f : Frame} {s : FrameSource}
      (hskipped : ∀ g ∈ skipped, g.IsIdle) (hdata : f.IsData)
      (hreading : Reading nonce total s f.payload rest) :
      Found nonce total (skipped ++ f :: rest) (.ok (some f.dataFrame) s)

theorem Found.cons {r : EStateM.Result IoError FrameSource (Option DataFrame)} (hidle : f.IsIdle)
    (h : Found nonce total frames r) : Found nonce total (f :: frames) r := by
  have hdata : ¬f.IsData := by rcases hidle with hk | hk <;> simp [Frame.IsData, hk]
  cases h with
  | ended hnone hreading => exact .ended (List.forall_mem_cons.mpr ⟨hdata, hnone⟩) hreading
  | closed hnone hreading => exact .closed (List.forall_mem_cons.mpr ⟨hdata, hnone⟩) hreading
  | @data skipped rest g s hskipped hdata hreading =>
    show Found nonce total ((f :: skipped) ++ g :: rest) _
    exact .data (List.forall_mem_cons.mpr ⟨hidle, hskipped⟩) hdata hreading

theorem nextWithin_found :
    ∀ {passes : Nat} {s : FrameSource}, Reading nonce total s [] frames → frames.length < passes →
      Found nonce total frames ((nextWithin nonce passes).run s) := by
  induction frames with
  | nil =>
    intro passes s h hpasses
    obtain ⟨passes, rfl⟩ := Nat.exists_eq_succ_of_ne_zero (Nat.ne_of_gt hpasses)
    rw [nextWithin, EStateM.run_bind]
    cases hc : s.closed with
    | true =>
      rw [turn_closed hc]
      exact .closed (by simp) h
    | false =>
      obtain ⟨s', h', hrun⟩ := turn_nil h hc
      rw [hrun]
      exact .ended (by simp) h'
  | cons f rest ih =>
    intro passes s h hpasses
    obtain ⟨passes, rfl⟩ := Nat.exists_eq_succ_of_ne_zero (Nat.ne_of_gt (Nat.zero_lt_of_lt hpasses))
    obtain ⟨s', h', hrun⟩ := turn_cons h
    rw [nextWithin, EStateM.run_bind, hrun]
    by_cases hdata : f.IsData
    · rw [Frame.given, if_pos hdata] at h'
      rw [Frame.turn, if_pos hdata]
      show Found nonce total ([] ++ f :: rest) _
      exact .data (by simp) hdata h'
    · rw [Frame.given, if_neg hdata] at h'
      by_cases hidle : f.IsIdle
      · rw [Frame.turn, if_neg hdata, if_pos hidle]
        exact (ih h' (by rw [List.length_cons] at hpasses; omega)).cons hidle
      · rw [Frame.turn, if_neg hdata, if_neg hidle]
        -- A close is the last frame.
        have hlegal := h.legal h.open_of_cons
        simp only [Legal] at hlegal
        obtain ⟨-, -, hkind⟩ := hlegal
        have hlast : rest = [] := by
          cases hk : f.kind <;> simp_all [Frame.IsData, Frame.IsIdle]
        subst hlast
        exact .closed (by simpa using hdata) h'

theorem length_le_ahead (h : Reading nonce total s cur frames) :
    frames.length ≤ s.ahead.length := by
  cases hc : s.closed with
  | true => rw [(h.closed hc).2]; exact Nat.zero_le _
  | false =>
    rw [h.ahead hc, List.length_append]
    have := length_le_wire frames
    omega

/-- Waiting for a data frame never runs into the bound on its turns. -/
theorem nextDataFrame_found (h : Reading nonce total s [] frames) :
    Found nonce total frames ((nextDataFrame nonce).run s) := by
  simp only [nextDataFrame, EStateM.run_bind, EStateM.run_get]
  exact nextWithin_found h (Nat.lt_succ_of_le (length_le_ahead h))

end FrameSource

/-! ## The byte reader -/

theorem payloads_append (a b : List Frame) : payloads (a ++ b) = payloads a ++ payloads b :=
  List.flatMap_append

/-- Frames that carry nothing of a message. -/
theorem payloads_of_not_isData {frames : List Frame} (h : ∀ f ∈ frames, ¬f.IsData) :
    payloads frames = [] := by
  rw [payloads, List.flatMap_eq_nil_iff]
  exact fun f hf => if_neg (h f hf)

theorem payloads_idle {frames : List Frame} (h : ∀ f ∈ frames, f.IsIdle) : payloads frames = [] := by
  rw [payloads, List.flatMap_eq_nil_iff]
  exact fun f hf => Frame.given_of_isIdle (h f hf)

theorem payloads_found {skipped rest : List Frame} {f : Frame} (hskipped : ∀ g ∈ skipped, g.IsIdle)
    (hdata : f.IsData) : payloads (skipped ++ f :: rest) = f.payload ++ payloads rest := by
  rw [payloads_append, payloads_idle hskipped, List.nil_append, payloads_cons, Frame.given,
    if_pos hdata]

/-- No frame is of text. -/
def NoText (frames : List Frame) : Prop := ∀ f ∈ frames, f.kind ≠ .text

namespace WsReader

variable {nonce : Nat → Key} {total : List UInt8}

/-- A reader that still has some bytes to hand out. -/
def Holds (nonce : Nat → Key) (total : List UInt8) (r : WsReader) (bytes : List UInt8) : Prop :=
  ∃ cur frames, FrameSource.Reading nonce total r.src cur frames ∧ NoText frames ∧
    bytes = cur ++ payloads frames

/-- What one read comes to: a piece, while there is one to be had. -/
inductive Reads (nonce : Nat → Key) (total : List UInt8) (size : Nat) (bytes : List UInt8) :
    EStateM.Result IoError FrameSource (List UInt8) → Prop where
  | piece {s : FrameSource} {b rest : List UInt8} (hsplit : bytes = b ++ rest) (hne : b ≠ [])
      (hlen : b.length ≤ size) (hholds : Holds nonce total ⟨s⟩ rest) :
      Reads nonce total size bytes (.ok b s)
  | closed {s : FrameSource} (hempty : bytes = []) (hdone : s.written = total)
      (hholds : Holds nonce total ⟨s⟩ []) : Reads nonce total size bytes (.ok [] s)
  | ended {s : FrameSource} (hempty : bytes = []) (hdone : s.written = total)
      (hholds : Holds nonce total ⟨s⟩ []) : Reads nonce total size bytes (.error FrameSource.eof s)

theorem holds_nil {s : FrameSource} (h : FrameSource.Reading nonce total s [] []) :
    s.written = total ∧ Holds nonce total ⟨s⟩ [] := by
  refine ⟨?_, [], [], h, fun f hf => absurd hf (by simp), rfl⟩
  have hwritten := h.written
  rw [answers, List.filterMap_nil, writeAll, List.append_nil] at hwritten
  exact hwritten

theorem readWithin_reads {size : Nat} (hsize : 0 < size) :
    ∀ {passes : Nat} {s : FrameSource} {cur : List UInt8} {frames : List Frame},
      FrameSource.Reading nonce total s cur frames → NoText frames → frames.length < passes →
      Reads nonce total size (cur ++ payloads frames) ((readWithin nonce size passes).run s)
  | 0, s, cur, frames, _, _, hpasses => absurd hpasses (Nat.not_lt_zero _)
  | passes + 1, s, cur, frames, h, htext, hpasses => by
    rw [readWithin, EStateM.run_bind, EStateM.run_get]
    dsimp only
    by_cases hcur : cur = []
    · subst hcur
      rw [if_pos (show s.remaining = 0 from h.remaining), EStateM.run_bind, List.nil_append]
      have hfound := FrameSource.nextDataFrame_found h
      revert hfound
      generalize (FrameSource.nextDataFrame nonce).run s = result
      intro hfound
      cases hfound with
      | ended hnone hreading =>
        obtain ⟨hdone, hholds⟩ := holds_nil hreading
        exact .ended (payloads_of_not_isData hnone) hdone hholds
      | closed hnone hreading =>
        obtain ⟨hdone, hholds⟩ := holds_nil hreading
        exact .closed (payloads_of_not_isData hnone) hdone hholds
      | @data skipped rest f s' hskipped hdata hreading =>
        have hne : f.dataFrame.opcode ≠ opText := by
          have hkind := htext f (by simp)
          rcases hdata with hk | hk | hk
          · simp [Frame.dataFrame, hk, Kind.opcode, opContinuation, opText]
          · exact absurd hk hkind
          · simp [Frame.dataFrame, hk, Kind.opcode, opBinary, opText]
        dsimp only
        rw [if_neg hne, payloads_found hskipped hdata]
        refine readWithin_reads hsize hreading (fun g hg => htext g (by simp [hg])) ?_
        rw [List.length_append, List.length_cons] at hpasses
        omega
    · have hpos := List.length_pos_iff.mpr hcur
      obtain ⟨s', b, cur', hrun, rfl, hb, hlen, hreading⟩ := FrameSource.readPayload_run h hcur hsize
      rw [if_neg (by rw [h.remaining]; omega), hrun]
      exact .piece (List.append_assoc _ _ _) hb hlen ⟨cur', frames, hreading, htext, rfl⟩

/-- The byte reader hands out the payloads. -/
theorem drains (nonce : Nat → Key) (total : List UInt8) :
    Draining.Drains (read nonce) (Holds nonce total) fun r => r.src.written = total where
  idle {r p} h := ⟨r, rfl, h, id⟩
  piece {r p n} h hp hn := by
    obtain ⟨cur, frames, hreading, htext, rfl⟩ := h
    have hreads := readWithin_reads hn hreading htext
      (Nat.lt_succ_of_le (FrameSource.length_le_ahead hreading))
    rw [read, if_neg (Nat.ne_of_gt hn)]
    revert hreads
    generalize (readWithin nonce n (r.src.ahead.length + 1)).run r.src = result
    intro hreads
    cases hreads with
    | piece hsplit hne hlen hholds => exact ⟨_, _, _, rfl, hne, hlen, hsplit, hholds⟩
    | closed hempty => exact absurd hempty hp
    | ended hempty => exact absurd hempty hp
  last {r n} h hn := by
    obtain ⟨cur, frames, hreading, htext, hempty⟩ := h
    have hreads := readWithin_reads hn hreading htext
      (Nat.lt_succ_of_le (FrameSource.length_le_ahead hreading))
    rw [← hempty] at hreads
    rw [read, if_neg (Nat.ne_of_gt hn)]
    revert hreads
    generalize (readWithin nonce n (r.src.ahead.length + 1)).run r.src = result
    intro hreads
    cases hreads with
    | piece hsplit hne => exact absurd (List.append_eq_nil_iff.mp hsplit.symm).1 hne
    | closed _ hdone hholds => exact ⟨_, _, rfl, .inl rfl, hholds, hdone⟩
    | ended _ hdone hholds => exact ⟨_, _, rfl, .inr ⟨_, rfl⟩, hholds, hdone⟩

end WsReader

variable {calls : List (Kind × List UInt8)}

/-! ## Frames that are written -/

/-- The form `writeFrame` gives a length. -/
def formOf (len : Nat) : Form :=
  if len < 126 then .seven else if len < 2 ^ 16 then .sixteen else .sixtyFour

theorem fits_formOf {len : Nat} (h : len < 2 ^ 64) : (formOf len).Fits len := by
  unfold formOf
  split
  · assumption
  · split
    · assumption
    · exact h

/-- A frame as `writeFrame` writes it. -/
def writtenFrame (kind : Kind) (payload : List UInt8) (mask : Option Key) : Frame :=
  { kind, fin := true, form := formOf payload.length, key := mask, payload }

theorem writeFrame_eq_bytes (kind : Kind) (payload : List UInt8) (mask : Option Key) :
    writeFrame kind.opcode payload mask = (writtenFrame kind payload mask).bytes := by
  have hheader : ∀ tail : List UInt8, (writtenFrame kind payload mask).header ++ tail =
      (if payload.length < 126 then
        [finBit ||| kind.opcode, (if mask.isSome then maskedBit else 0) ||| UInt8.ofNat payload.length]
      else if payload.length < 2 ^ 16 then
        [finBit ||| kind.opcode, (if mask.isSome then maskedBit else 0) ||| 126] ++
          bigEndian 2 payload.length
      else [finBit ||| kind.opcode, (if mask.isSome then maskedBit else 0) ||| 127] ++
        bigEndian 8 payload.length) ++ ((writtenFrame kind payload mask).keyBytes ++ tail) := by
    intro tail
    simp only [Frame.header, Frame.firstByte, Frame.secondByte, writtenFrame, formOf, if_true]
    by_cases hshort : payload.length < 126
    · simp only [hshort, if_true]
      rfl
    · by_cases hlong : payload.length < 2 ^ 16
      · simp only [hshort, hlong, if_true, if_false, List.cons_append, List.append_assoc]
        rfl
      · simp only [hshort, hlong, if_false, List.cons_append, List.append_assoc]
        rfl
  rw [Frame.bytes, hheader]
  cases mask with
  | none =>
    rw [Frame.body_of_none rfl]
    rfl
  | some key => exact List.append_assoc _ _ _

/-- The other end. -/
def Role.peer : Role → Role
  | .server => .client
  | .client => .server

/-- The frames of a list of calls, by a side that has drawn so many masks. -/
def sentFrames (nonce : Nat → Key) (role : Role) : Nat → List (Kind × List UInt8) → List Frame
  | _, [] => []
  | drawn, call :: rest =>
    writtenFrame call.1 call.2 (replyMask nonce role drawn) ::
      sentFrames nonce role (drawnAfter role drawn) rest

/-- A call that sends a message, or a ping or a pong. -/
def Sends (call : Kind × List UInt8) : Prop :=
  (call.1 = .binary ∨ call.1 = .text) ∧ call.2.length < 2 ^ 64 ∨
    (call.1 = .ping ∨ call.1 = .pong) ∧ call.2.length ≤ maxControlPayload

/-- The messages among the calls. -/
def sentMessages (calls : List (Kind × List UInt8)) : List (Kind × List UInt8) :=
  calls.filter fun call => call.1 = .binary ∨ call.1 = .text

theorem wire_sentFrames (nonce : Nat → Key) (role : Role) (calls : List (Kind × List UInt8)) :
    ∀ drawn, wire (sentFrames nonce role drawn calls) = writeAll nonce role drawn calls := by
  induction calls with
  | nil => exact fun _ => rfl
  | cons call rest ih =>
    intro drawn
    rw [sentFrames, wire, List.flatMap_cons, ← wire, ih, writeAll, writeFrame_eq_bytes]

theorem legal_sentFrames (nonce : Nat → Key) (role : Role) (hsends : ∀ call ∈ calls, Sends call) :
    ∀ drawn, Legal role false (sentFrames nonce role.peer drawn calls) := by
  induction calls with
  | nil => exact fun _ => trivial
  | cons call rest ih =>
    intro drawn
    have hrest := ih (fun c hc => hsends c (List.mem_cons_of_mem _ hc)) (drawnAfter role.peer drawn)
    have hmasked : (writtenFrame call.1 call.2 (replyMask nonce role.peer drawn)).MaskedFor role := by
      cases role <;> simp [Frame.MaskedFor, writtenFrame, Role.peer, replyMask]
    rw [sentFrames, Legal]
    rcases hsends call (List.mem_cons_self ..) with ⟨hkind, hlen⟩ | ⟨hkind, hlen⟩
    · refine ⟨fits_formOf hlen, hmasked, ?_⟩
      rcases hkind with hkind | hkind <;> simp [writtenFrame, hkind, hrest]
    · refine ⟨fits_formOf (lt_of_le_of_lt hlen (by decide)), hmasked, ?_⟩
      rcases hkind with hkind | hkind <;> simp [writtenFrame, hkind, hrest, hlen]

theorem payloads_sentFrames {nonce : Nat → Key} {role : Role} (hsends : ∀ call ∈ calls, Sends call)
    :
    ∀ drawn, payloads (sentFrames nonce role drawn calls) =
      (sentMessages calls).flatMap Prod.snd := by
  induction calls with
  | nil => exact fun _ => rfl
  | cons call rest ih =>
    intro drawn
    have hrest := ih (fun c hc => hsends c (List.mem_cons_of_mem _ hc)) (drawnAfter role drawn)
    rw [sentFrames, payloads_cons, hrest]
    rcases hsends call (List.mem_cons_self ..) with ⟨hkind, -⟩ | ⟨hkind, -⟩
    · rcases hkind with hkind | hkind <;>
        simp [Frame.given, Frame.IsData, writtenFrame, sentMessages, hkind]
    · rcases hkind with hkind | hkind <;>
        simp [Frame.given, Frame.IsData, writtenFrame, sentMessages, hkind]

theorem noText_sentFrames {nonce : Nat → Key} {role : Role} (htext : ∀ call ∈ calls, call.1 ≠ .text)
    :
    ∀ drawn, NoText (sentFrames nonce role drawn calls) := by
  induction calls with
  | nil => exact fun _ f hf => absurd hf (by simp [sentFrames])
  | cons call rest ih =>
    intro drawn f hf
    rcases List.mem_cons.mp hf with rfl | hf
    · exact htext call (List.mem_cons_self ..)
    · exact ih (fun c hc => htext c (List.mem_cons_of_mem _ hc)) _ f hf

/-! ## The message reader -/

namespace WsMessageReader

variable {nonce : Nat → Key} {total : List UInt8}

open FrameSource (Reading)

/-- What a message of a kind is handed out as. -/
def delivered (call : Kind × List UInt8) : Except IoError (Option WsMessage) :=
  if call.1 = .text then
    match String.fromUTF8? ⟨call.2.toArray⟩ with
    | some s => .ok (some (.text s.toList))
    | none => .error (protocolError "a text message that was not UTF-8")
  else .ok (some (.binary call.2))

theorem onSource_run {α : Type} {x : Io FrameSource α} {r : WsMessageReader} {a : α}
    {src : FrameSource} (h : x.run r.src = .ok a src) :
    (onSource x).run r = .ok a { r with src } := by
  show onSource x r = _
  rw [onSource, h]

theorem drain_run : ∀ (passes : Nat) {r : WsMessageReader} {cur : List UInt8} {frames : List Frame},
    Reading nonce total r.src cur frames → cur.length ≤ passes →
    ∃ src, Reading nonce total src [] frames ∧
      (drain passes).run r = .ok () { r with src, held := r.held ++ cur }
  | 0, r, cur, frames, h, hpasses => by
    obtain rfl : cur = [] := List.eq_nil_of_length_eq_zero (Nat.le_zero.mp hpasses)
    exact ⟨r.src, h, by rw [List.append_nil]; rfl⟩
  | passes + 1, r, cur, frames, h, hpasses => by
    rw [drain, EStateM.run_bind, EStateM.run_get]
    dsimp only
    by_cases hcur : cur = []
    · subst hcur
      rw [if_pos (show r.src.remaining = 0 from h.remaining)]
      exact ⟨r.src, h, by rw [List.append_nil]; rfl⟩
    · have hpos := List.length_pos_iff.mpr hcur
      obtain ⟨s', b, cur', hrun, rfl, hb, -, hreading⟩ :=
        FrameSource.readPayload_run h hcur (show 0 < 4096 by decide)
      have hblen := List.length_pos_iff.mpr hb
      rw [List.length_append] at hpasses
      obtain ⟨src, hsrc, hdrain⟩ := drain_run passes
        (show Reading nonce total { r with src := s', held := r.held ++ b }.src cur' frames from hreading)
        (by omega)
      refine ⟨src, hsrc, ?_⟩
      rw [if_neg (by rw [h.remaining]; omega), EStateM.run_bind, onSource_run hrun]
      rw [← List.append_assoc]
      exact hdrain

/-- A frame that is a message, a ping or a pong. -/
def Whole (f : Frame) : Prop :=
  f.fin = true ∧ (f.kind = .binary ∨ f.kind = .text ∨ f.kind = .ping ∨ f.kind = .pong)

/-- The messages among such frames. -/
def messages (frames : List Frame) : List (Kind × List UInt8) :=
  (frames.filter fun f => f.IsData).map fun f => (f.kind, f.payload)

theorem messages_found {skipped rest : List Frame} {f : Frame} (hskipped : ∀ g ∈ skipped, g.IsIdle)
    (hdata : f.IsData) : messages (skipped ++ f :: rest) = (f.kind, f.payload) :: messages rest := by
  have hnone : skipped.filter (fun f => decide f.IsData) = [] := by
    rw [List.filter_eq_nil_iff]
    intro g hg
    rcases hskipped g hg with hk | hk <;> simp [Frame.IsData, hk]
  rw [messages, List.filter_append, hnone, List.nil_append,
    List.filter_cons_of_pos (by simpa using hdata), List.map_cons, messages]

theorem messages_of_not_isData {frames : List Frame} (h : ∀ f ∈ frames, ¬f.IsData) :
    messages frames = [] := by
  rw [messages, List.map_eq_nil_iff, List.filter_eq_nil_iff]
  simpa using h

/-- An answer as the end of a computation. -/
def ended {α : Type} (r : WsMessageReader) :
    Except IoError α → EStateM.Result IoError WsMessageReader α
  | .ok a => .ok a r
  | .error e => .error e r

theorem complete_run (r : WsMessageReader) {kind : Kind} (hkind : r.kind = kind.opcode)
    (hmessage : kind = .binary ∨ kind = .text) :
    (some <$> complete).run r = ended { r with held := [] } (delivered (kind, r.held)) := by
  have hcomplete : (some <$> complete).run r = (complete >>= fun m => pure (some m)).run r := rfl
  rw [hcomplete, EStateM.run_bind, complete, EStateM.run_bind, EStateM.run_get]
  dsimp only
  rw [EStateM.run_bind, EStateM.run_set]
  dsimp only
  rcases hmessage with rfl | rfl
  · have hne : r.kind ≠ opText := by
      rw [hkind]
      decide
    rw [if_neg hne]
    rfl
  · have heq : r.kind = opText := hkind
    rw [if_pos heq]
    simp only [delivered, if_true]
    cases String.fromUTF8? ⟨r.held.toArray⟩ <;> rfl

/-- A message that is not too long is handed out whole. -/
theorem next_message {r : WsMessageReader} {frames : List Frame} {message : Kind × List UInt8}
    {later : List (Kind × List UInt8)} (h : Reading nonce total r.src [] frames)
    (hwhole : ∀ f ∈ frames, Whole f) (hnext : messages frames = message :: later)
    (hlen : message.2.length ≤ maxControlMessage) :
    ∃ r' rest, Reading nonce total r'.src [] rest ∧ (∀ f ∈ rest, Whole f) ∧
      messages rest = later ∧ r.next nonce = (r', delivered message) := by
  have hfound := FrameSource.nextDataFrame_found h
  generalize hrun : (FrameSource.nextDataFrame nonce).run r.src = result at hfound
  cases hfound with
  | ended hnone => rw [messages_of_not_isData hnone] at hnext; cases hnext
  | closed hnone => rw [messages_of_not_isData hnone] at hnext; cases hnext
  | @data skipped rest f src hskipped hdata hreading =>
    rw [messages_found hskipped hdata] at hnext
    obtain ⟨rfl, rfl⟩ := List.cons.inj hnext
    have hwf := hwhole f (by simp)
    have hkind : f.kind = .binary ∨ f.kind = .text := by
      rcases hwf.2 with hk | hk | hk | hk
      · exact .inl hk
      · exact .inr hk
      · simp [Frame.IsData, hk] at hdata
      · simp [Frame.IsData, hk] at hdata
    have hadmit : (admitFrame f.dataFrame).run { r with src } =
        .ok () { r with src, kind := f.kind.opcode, held := [] } := by
      have hne : f.dataFrame.opcode ≠ opContinuation := by
        rcases hkind with hk | hk <;>
          simp [Frame.dataFrame, hk, Kind.opcode, opBinary, opText, opContinuation]
      rw [admitFrame, EStateM.run_bind, EStateM.run_get]
      dsimp only
      rw [if_neg hne, if_neg (show ¬f.dataFrame.len > maxControlMessage from Nat.not_lt.mpr hlen)]
      rfl
    obtain ⟨src', hsrc, hdrain⟩ := drain_run src.remaining
      (show Reading nonce total { r with src, kind := f.kind.opcode, held := [] }.src f.payload rest
        from hreading) (by rw [hreading.remaining])
    have hcomplete := complete_run
      { r with src := src', kind := f.kind.opcode, held := [] ++ f.payload } rfl hkind
    refine ⟨{ src := src', kind := f.kind.opcode, held := [] }, rest, hsrc,
      fun g hg => hwhole g (by simp [hg]), rfl, ?_⟩
    rw [next, nextWithin, EStateM.run_bind, onSource_run hrun]
    dsimp only
    rw [EStateM.run_bind, hadmit]
    dsimp only
    rw [EStateM.run_bind, EStateM.run_get]
    dsimp only
    rw [EStateM.run_bind, hdrain]
    dsimp only
    rw [if_neg (by simp [Frame.dataFrame, hwf.1]), hcomplete, List.nil_append]
    cases delivered (f.kind, f.payload) <;> rfl

/-- A list of calls of `next`. -/
def nexts (nonce : Nat → Key) :
    Nat → WsMessageReader → WsMessageReader × List (Except IoError (Option WsMessage))
  | 0, r => (r, [])
  | n + 1, r =>
    let after := nexts nonce n (r.next nonce).1
    (after.1, (r.next nonce).2 :: after.2)

/-- Each message comes back as one. -/
theorem nexts_messages : ∀ {later : List (Kind × List UInt8)} {r : WsMessageReader}
    {frames : List Frame}, Reading nonce total r.src [] frames → (∀ f ∈ frames, Whole f) →
    messages frames = later → (∀ m ∈ later, m.2.length ≤ maxControlMessage) →
    (nexts nonce later.length r).2 = later.map delivered
  | [], _, _, _, _, _, _ => rfl
  | message :: later, r, frames, h, hwhole, hnext, hlen => by
    obtain ⟨r', rest, h', hwhole', hlater, hrun⟩ :=
      next_message h hwhole hnext (hlen message (List.mem_cons_self ..))
    rw [List.length_cons, nexts, hrun, List.map_cons]
    exact congrArg _
      (nexts_messages h' hwhole' hlater fun m hm => hlen m (List.mem_cons_of_mem _ hm))

theorem whole_sentFrames (nonce : Nat → Key) (role : Role) {calls : List (Kind × List UInt8)}
    (hsends : ∀ call ∈ calls, Sends call) :
    ∀ drawn, (∀ f ∈ sentFrames nonce role drawn calls, Whole f) ∧
      messages (sentFrames nonce role drawn calls) = sentMessages calls := by
  induction calls with
  | nil => exact fun _ => ⟨by simp [sentFrames], rfl⟩
  | cons call rest ih =>
    intro drawn
    obtain ⟨hwhole, hmessages⟩ :=
      ih (fun c hc => hsends c (List.mem_cons_of_mem _ hc)) (drawnAfter role drawn)
    rw [sentFrames]
    constructor
    · refine List.forall_mem_cons.mpr ⟨⟨rfl, ?_⟩, hwhole⟩
      rcases hsends call (List.mem_cons_self ..) with ⟨hk | hk, -⟩ | ⟨hk | hk, -⟩ <;>
        simp [writtenFrame, hk]
    · have hcons : ∀ f : Frame, messages (f :: sentFrames nonce role (drawnAfter role drawn) rest) =
          (if f.IsData then [(f.kind, f.payload)] else []) ++ sentMessages rest := by
        intro f
        rw [← hmessages, messages, List.filter_cons]
        split <;> simp_all [messages]
      rw [hcons]
      obtain ⟨kind, payload⟩ := call
      rcases hsends (kind, payload) (List.mem_cons_self ..) with ⟨hk | hk, -⟩ | ⟨hk | hk, -⟩ <;>
        obtain rfl : kind = _ := hk <;> simp [writtenFrame, Frame.IsData, sentMessages]

end WsMessageReader

/-! ## A connection -/

/-- A source that has just been upgraded, before any frame. -/
theorem reading_new (nonce : Nat → Key) {role : Role} {leftover : List UInt8}
    {chunks : List (List UInt8)} {frames : List Frame} (hchunks : ∀ chunk ∈ chunks, chunk ≠ [])
    (hlegal : Legal role false frames) (hcut : leftover ++ chunks.flatten = wire frames) :
    FrameSource.Reading nonce (answers nonce role 0 frames) (.new chunks role leftover) [] frames where
  live := hchunks
  remaining := rfl
  written := rfl
  ahead _ := hcut
  legal _ := hlegal
  closed hc := Bool.noConfusion hc

/-- The reads of a connection: the bytes they hand out, and the reader they
leave. -/
def received (nonce : Nat → Key) (role : Role) (leftover : List UInt8) (chunks : List (List UInt8))
    (sizes : List Nat) : WsReader × List UInt8 :=
  Draining.drained (WsReader.read nonce) ⟨.new chunks role leftover⟩ sizes

/-- What is handed out is what was sent and what is written what answers
it: some of it after any reads, all of it once there are more reads than
bytes. -/
def Pipes (nonce : Nat → Key) (role : Role) (leftover : List UInt8) (chunks : List (List UInt8))
    (sizes : List Nat) (bytes : List UInt8) (replies : List (Kind × List UInt8)) : Prop :=
  let result := received nonce role leftover chunks sizes
  result.2 <+: bytes ∧ result.1.src.written <+: writeAll nonce role 0 replies ∧
    (bytes.length < (sizes.filter (0 < ·)).length →
      result.2 = bytes ∧ result.1.src.written = writeAll nonce role 0 replies)

theorem pipes_of_legal {nonce : Nat → Key} {role : Role} {leftover : List UInt8}
    {chunks : List (List UInt8)} {frames : List Frame} (sizes : List Nat)
    (hchunks : ∀ chunk ∈ chunks, chunk ≠ []) (hlegal : Legal role false frames)
    (htext : NoText frames) (hcut : leftover ++ chunks.flatten = wire frames) :
    Pipes nonce role leftover chunks sizes (payloads frames) (frames.filterMap Frame.reply) := by
  have hreading := reading_new nonce hchunks hlegal hcut
  have hholds : WsReader.Holds nonce (answers nonce role 0 frames) ⟨.new chunks role leftover⟩
      (payloads frames) := ⟨[], frames, hreading, htext, rfl⟩
  have hdrains := WsReader.drains nonce (answers nonce role 0 frames)
  obtain ⟨rest, hahead, cur, left, hafter, -⟩ := Draining.drained_prefix hdrains sizes hholds
  refine ⟨⟨rest, hahead.symm⟩, ?_, fun hlong => Draining.drained_all hdrains sizes hholds hlong⟩
  exact ⟨_, hafter.written⟩

/-- The WebSocket is a byte pipe. Whatever frames a peer sends to a role,
however its data is cut into them and the stream into what the upgrade left
over and what the reads of the socket return, the byte reader hands out the
payloads in order and answers each ping once; and what the other role writes
comes back, as a stream of bytes and, where no message is too long for the
message reader, as the same messages. -/
theorem bytePipe (nonce nonce' : Nat → Key) (role : Role) (leftover : List UInt8)
    (chunks : List (List UInt8)) (sizes : List Nat) (hchunks : ∀ chunk ∈ chunks, chunk ≠ []) :
    (∀ frames, Legal role false frames → NoText frames →
      leftover ++ chunks.flatten = wire frames →
      Pipes nonce role leftover chunks sizes (payloads frames) (frames.filterMap Frame.reply)) ∧
    ∀ calls, (∀ call ∈ calls, Sends call) →
      leftover ++ chunks.flatten = writeAll nonce' role.peer 0 calls →
      ((∀ call ∈ calls, call.1 ≠ .text) →
        Pipes nonce role leftover chunks sizes ((sentMessages calls).flatMap Prod.snd)
          ((sentFrames nonce' role.peer 0 calls).filterMap Frame.reply)) ∧
      ((∀ call ∈ sentMessages calls, call.2.length ≤ maxControlMessage) →
        (WsMessageReader.nexts nonce (sentMessages calls).length
          { src := .new chunks role leftover }).2 =
            (sentMessages calls).map WsMessageReader.delivered) := by
  refine ⟨fun frames hlegal htext hcut => pipes_of_legal sizes hchunks hlegal htext hcut,
    fun calls hsends hcut => ?_⟩
  have hlegal := legal_sentFrames nonce' role hsends 0
  rw [← wire_sentFrames] at hcut
  refine ⟨fun htext => ?_, fun hlen => ?_⟩
  · rw [← payloads_sentFrames hsends 0]
    exact pipes_of_legal sizes hchunks hlegal (noText_sentFrames htext 0) hcut
  · obtain ⟨hwhole, hmessages⟩ :=
      WsMessageReader.whole_sentFrames nonce' role.peer hsends 0
    exact WsMessageReader.nexts_messages (reading_new nonce hchunks hlegal hcut) hwhole
      hmessages hlen

/-- A message in two masked frames with a ping between them. -/
def splitMessage : List Frame :=
  [{ kind := .binary, fin := false, form := .seven, key := some #v[1, 2, 3, 4], payload := [10, 20] },
    { kind := .ping, fin := true, form := .seven, key := some #v[5, 6, 7, 8], payload := [7] },
    { kind := .continuation, fin := true, form := .sixteen, key := some #v[9, 8, 7, 6],
      payload := [30] }]

/-- Cut inside its first header, into reads of two bytes at most. -/
theorem bytePipe_splitMessage :
    (∀ chunk ∈ [(wire splitMessage).drop 1], chunk ≠ []) ∧
      Pipes (fun _ => noMask) .server ((wire splitMessage).take 1) [(wire splitMessage).drop 1]
        [2, 2, 2, 2] [10, 20, 30] [(.pong, [7])] := by
  have hchunks : ∀ chunk ∈ [(wire splitMessage).drop 1], chunk ≠ [] := by decide
  refine ⟨hchunks, (bytePipe (fun _ => noMask) (fun _ => noMask) .server _ _ _ hchunks).1 splitMessage
    ?_ ?_ ?_⟩
  · simp [Legal, splitMessage, Frame.Fits, Form.Fits, Frame.MaskedFor, maxControlPayload]
  · simp [NoText, splitMessage]
  · decide

end Zesterm.Ws
