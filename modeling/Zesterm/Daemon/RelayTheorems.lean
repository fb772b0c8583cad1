/-
Zesterm.Daemon.RelayTheorems — what a relay can make of a control link.

Whatever texts come, `park` dials only ids of 32 lowercase hexadecimal
digits and answers every challenge that is in its place with a hello for
that very nonce. One line of its log slices an id before the id is checked:
a link stands as long as that line is not logged, or the ids it is asked to
open end a character at the eighth byte (`link_stands`). One that does not
takes the thread down (`split_id_panics`).
-/
import Zesterm.Daemon.Relay
import Zesterm.Lib.Trace
import Zesterm.Mesh.HexTheorems

namespace Zesterm.RelayLeg

/-! ## Slices -/

/-- The first `n` bytes of a text end with a character. -/
def EndsCharAt (text : Str) (n : Nat) : Prop := ∃ lead rest, text = lead ++ rest ∧ utf8Len lead = n

theorem utf8Len_cons (c : Char) (s : Str) : utf8Len (c :: s) = c.utf8Size + utf8Len s := by
  rw [utf8Len, List.map_cons, List.sum_cons, utf8Len]

theorem isSome_sliceTo {text : Str} {n : Nat} : (sliceTo n text).isSome = true ↔ EndsCharAt text n := by
  induction text generalizing n with
  | nil =>
    cases n with
    | zero => exact iff_of_true rfl ⟨[], [], rfl, rfl⟩
    | succ n =>
      refine iff_of_false (by simp [sliceTo]) ?_
      rintro ⟨lead, rest, heq, hlen⟩
      obtain ⟨rfl, -⟩ := List.append_eq_nil_iff.1 heq.symm
      exact absurd hlen (by simp [utf8Len])
  | cons c cs ih =>
    cases n with
    | zero => exact iff_of_true rfl ⟨[], c :: cs, rfl, rfl⟩
    | succ n =>
      rw [sliceTo]
      split
      · next hle =>
        rw [Option.isSome_map, ih]
        constructor
        · rintro ⟨lead, rest, rfl, hlen⟩
          refine ⟨c :: lead, rest, rfl, ?_⟩
          rw [utf8Len_cons]
          omega
        · rintro ⟨lead, rest, heq, hlen⟩
          cases lead with
          | nil => exact absurd hlen (by simp [utf8Len])
          | cons d lead =>
            obtain ⟨rfl, rfl⟩ := List.cons.inj heq
            rw [utf8Len_cons] at hlen
            exact ⟨lead, rest, rfl, by omega⟩
      · refine iff_of_false (by simp) ?_
        rintro ⟨lead, rest, heq, hlen⟩
        cases lead with
        | nil => exact absurd hlen (by simp [utf8Len])
        | cons d lead =>
          obtain ⟨rfl, -⟩ := List.cons.inj heq
          rw [utf8Len_cons] at hlen
          omega

/-! ## Pipe ids -/

def LowerHex (c : Char) : Prop := ('0' ≤ c ∧ c ≤ '9') ∨ ('a' ≤ c ∧ c ≤ 'f')

/-- An id the relay could have issued. -/
def IsPipeId (id : Str) : Prop := id.length = 32 ∧ ∀ c ∈ id, LowerHex c

/-- A character all of whose bytes are digits is one of them. -/
theorem lowerHex_of_bytes {c : Char}
    (h : (String.utf8EncodeChar c).all (fun b =>
      (48 ≤ b.toNat && b.toNat ≤ 57) || (97 ≤ b.toNat && b.toNat ≤ 102)) = true) :
    LowerHex c ∧ c.utf8Size = 1 := by
  have hbyte : ∀ b ∈ String.utf8EncodeChar c,
      (48 ≤ b.toNat ∧ b.toNat ≤ 57) ∨ (97 ≤ b.toNat ∧ b.toNat ≤ 102) := by
    intro b hb
    have := List.all_eq_true.1 h b hb
    simpa only [Bool.or_eq_true, Bool.and_eq_true, decide_eq_true_eq] using this
  have hmax := code_lt c
  have hnat : ∀ n < 256, (UInt8.ofNat n).toNat = n := fun n hn => (byte_eq hn).1 rfl
  by_cases hone : c.toNat < 0x80
  · rw [encode_one hone] at hbyte
    have hc := hbyte _ (List.mem_singleton_self _)
    rw [hnat _ (by omega)] at hc
    refine ⟨?_, Char.utf8Size_eq_one_iff.mpr (Nat.le_of_lt_succ hone)⟩
    exact hc.imp (fun h => ⟨h.1, h.2⟩) fun h => ⟨h.1, h.2⟩
  · exfalso
    by_cases htwo : c.toNat < 0x800
    · rw [encode_two (by omega) htwo] at hbyte
      have hc := hbyte _ List.mem_cons_self
      rw [hnat _ (by omega)] at hc
      omega
    · by_cases hthree : c.toNat < 0x10000
      · rw [encode_three (by omega) hthree] at hbyte
        have hc := hbyte _ List.mem_cons_self
        rw [hnat _ (by omega)] at hc
        omega
      · rw [encode_four (by omega)] at hbyte
        have hc := hbyte _ List.mem_cons_self
        rw [hnat _ (by omega)] at hc
        omega

theorem isPipeId_of_wellFormed {id : Str} (h : pipeIdIsWellFormed id = true) : IsPipeId id := by
  rw [pipeIdIsWellFormed, Bool.and_eq_true, decide_eq_true_eq] at h
  obtain ⟨hlen, hall⟩ := h
  have hchars : ∀ c ∈ id, LowerHex c ∧ c.utf8Size = 1 := by
    intro c hc
    refine lowerHex_of_bytes (List.all_eq_true.2 fun b hb => ?_)
    exact List.all_eq_true.1 hall b (List.mem_flatMap.2 ⟨c, hc, hb⟩)
  refine ⟨?_, fun c hc => (hchars c hc).1⟩
  have hsum : ∀ s : Str, (∀ c ∈ s, c.utf8Size = 1) → utf8Len s = s.length := by
    intro s hs
    induction s with
    | nil => rfl
    | cons c s ih =>
      rw [utf8Len_cons, hs c List.mem_cons_self, ih fun d hd => hs d (List.mem_cons_of_mem _ hd),
        List.length_cons, Nat.add_comm]
  rw [← hsum id fun c hc => (hchars c hc).2, hlen]
  rfl

/-! ## Nonces -/

/-- A digit that is a capital letter is none to the relay. -/
theorem pairValue_lower (a b : Char) :
    (if ([a, b].any fun c => 'A' ≤ c ∧ c ≤ 'Z') = true then none
      else parseRadix 16 255 [a, b]) = HexId.pairValue HexId.lowerDigit a b := by
  rw [HexId.parseRadix_two, HexId.pairValue, HexId.pairValue, HexId.lowerDigit, HexId.lowerDigit]
  by_cases ha : 'A' ≤ a ∧ a ≤ 'Z'
  · have hplus : a ≠ '+' := by
      rintro rfl
      exact absurd ha.1 (by decide)
    rw [if_pos (by simp [ha]), if_neg hplus, if_pos ha]
    rfl
  by_cases hb : 'A' ≤ b ∧ b ≤ 'Z'
  · rw [if_pos (by simp [hb]), if_pos hb]
    split
    · rfl
    · cases digitValue 16 a <;> rfl
  · rw [if_neg (by simpa using ⟨by simpa using ha, by simpa using hb⟩), if_neg ha, if_neg hb]
    rfl

theorem encode_ascii {c : Char} (h : c.toNat < 0x80) :
    String.utf8EncodeChar c = [UInt8.ofNat c.toNat] ∧ c.utf8Size = 1 :=
  ⟨encode_one h, Char.utf8Size_eq_one_iff.mpr (Nat.le_of_lt_succ h)⟩

/-- Two bytes are a text, and the text a number. -/
theorem pairs_eq (a b : UInt8) (rest : List UInt8) :
    unhex.pairs (a :: b :: rest) = (fromUtf8 [a, b]).bind fun s =>
      (if (s.any fun c => 'A' ≤ c ∧ c ≤ 'Z') = true then none else parseRadix 16 255 s).bind
        fun byte => (unhex.pairs rest).bind fun bytes => some (UInt8.ofNat byte :: bytes) := by
  rw [unhex.pairs]
  cases fromUtf8 [a, b] with
  | none => rfl
  | some s =>
    simp only [Option.bind_eq_bind, Option.bind_some]
    by_cases hupper : (s.any fun c => 'A' ≤ c ∧ c ≤ 'Z') = true
    · rw [if_pos hupper, if_pos hupper]
    · rw [if_neg hupper, if_neg hupper]

/-- Two digits are read as the byte they spell. -/
theorem pairs_cons {a b : Char} (ha : a.toNat < 0x80) (hb : b.toNat < 0x80) (rest : List UInt8) :
    unhex.pairs (UInt8.ofNat a.toNat :: UInt8.ofNat b.toNat :: rest) =
      (HexId.pairValue HexId.lowerDigit a b).bind fun byte =>
        (unhex.pairs rest).bind fun bytes => some (UInt8.ofNat byte :: bytes) := by
  have hread : fromUtf8 [UInt8.ofNat a.toNat, UInt8.ofNat b.toNat] = some [a, b] := by
    rw [fromUtf8_ascii ha, fromUtf8_ascii hb]
    rfl
  rw [pairs_eq, hread, Option.bind_some, pairValue_lower]

/-- The texts that spell bytes by pairs are read as those bytes. -/
theorem unhex_of_readPairs {text : Str} : ∀ {bytes : List UInt8},
    HexId.readPairs HexId.lowerDigit text = some bytes →
      unhex.pairs (toUtf8 text) = some bytes ∧ utf8Len text % 2 = 0 := by
  induction text using HexId.readPairs.induct with
  | case1 =>
    intro bytes h
    exact ⟨h, rfl⟩
  | case2 a =>
    intro bytes h
    cases h
  | case3 a b rest ih =>
    intro bytes h
    have hascii := HexId.Paired.ascii HexId.digits_lower
      ((HexId.isSome_readPairs HexId.digits_lower _).mp (Option.isSome_of_eq_some h))
    obtain ⟨hcodea, hsizea⟩ := encode_ascii (hascii a List.mem_cons_self)
    obtain ⟨hcodeb, hsizeb⟩ := encode_ascii (hascii b (List.mem_cons_of_mem a List.mem_cons_self))
    rw [HexId.readPairs] at h
    obtain ⟨byte, hbyte, h⟩ := Option.bind_eq_some_iff.mp h
    obtain ⟨tail, htail, h⟩ := Option.bind_eq_some_iff.mp h
    obtain ⟨hpairs, heven⟩ := ih htail
    constructor
    · rw [toUtf8_cons, toUtf8_cons, hcodea, hcodeb, List.singleton_append, List.singleton_append,
        pairs_cons (hascii a List.mem_cons_self)
          (hascii b (List.mem_cons_of_mem a List.mem_cons_self)), hbyte, hpairs]
      exact h
    · rw [utf8Len_cons, utf8Len_cons, hsizea, hsizeb]
      omega

theorem length_encode_pos (c : Char) : 0 < (String.utf8EncodeChar c).length := by
  rw [String.length_utf8EncodeChar]
  exact c.utf8Size_pos

/-- Two bytes that are a number are two digits. -/
theorem pair_of_number {a b : UInt8} {s : Str} {n : Nat} (hs : fromUtf8 [a, b] = some s)
    (hn : parseRadix 16 255 s = some n) :
    ∃ x y : Char, s = [x, y] ∧ String.utf8EncodeChar x ++ String.utf8EncodeChar y = [a, b] := by
  have hraw := toUtf8_of_fromUtf8 _ _ hs
  match s with
  | [] => cases hraw
  | [x] =>
    exfalso
    rw [toUtf8_cons, toUtf8_nil, List.append_nil] at hraw
    have hdigit : ∃ v, digitValue 16 x = some v := by
      by_cases hx : x = '+'
      · subst hx
        cases hraw
      · cases hv : digitValue 16 x with
        | some v => exact ⟨v, rfl⟩
        | none => simp [parseRadix, parseDigits, hx, hv] at hn
    obtain ⟨v, hv⟩ := hdigit
    rw [encode_one (digit_ascii hv).1] at hraw
    cases hraw
  | [x, y] => exact ⟨x, y, rfl, by simpa using hraw⟩
  | x :: y :: z :: rest =>
    exfalso
    have hlen := congrArg List.length hraw
    simp only [toUtf8_cons, List.length_append, List.length_cons, List.length_nil] at hlen
    have := length_encode_pos x
    have := length_encode_pos y
    have := length_encode_pos z
    omega

/-- What is read spells bytes by pairs. -/
theorem readPairs_of_pairs (raw : List UInt8) : ∀ {bytes : List UInt8}, raw.length % 2 = 0 →
    unhex.pairs raw = some bytes →
    ∃ text, toUtf8 text = raw ∧ HexId.readPairs HexId.lowerDigit text = some bytes := by
  induction raw using unhex.pairs.induct with
  | case1 a b rest ih =>
    intro bytes heven h
    rw [pairs_eq] at h
    obtain ⟨s, hs, hrest⟩ := Option.bind_eq_some_iff.mp h
    obtain ⟨byte, hbyte, hrest⟩ := Option.bind_eq_some_iff.mp hrest
    obtain ⟨tail, htail, hbytes⟩ := Option.bind_eq_some_iff.mp hrest
    have hnumber : parseRadix 16 255 s = some byte := by
      split at hbyte
      · cases hbyte
      · exact hbyte
    obtain ⟨x, y, rfl, hcode⟩ := pair_of_number hs hnumber
    rw [pairValue_lower] at hbyte
    simp only [List.length_cons] at heven
    obtain ⟨text, rfl, hread⟩ := ih (by omega) htail
    refine ⟨x :: y :: text, ?_, ?_⟩
    · rw [toUtf8_cons, toUtf8_cons, ← List.append_assoc, hcode]
      rfl
    · rw [HexId.readPairs, hbyte, hread]
      exact hbytes
  | case2 raw hshort =>
    intro bytes heven h
    rcases raw with _ | ⟨a, _ | ⟨b, rest⟩⟩
    · exact ⟨[], rfl, h⟩
    · cases heven
    · exact absurd rfl (hshort a b rest)

theorem length_toUtf8 (text : Str) : (toUtf8 text).length = utf8Len text := by
  induction text with
  | nil => rfl
  | cons c text ih =>
    rw [toUtf8_cons, List.length_append, ih, utf8Len_cons, String.length_utf8EncodeChar]

/-- `unhex` reads pairs of lowercase digits. -/
theorem unhex_eq (text : Str) : unhex text = HexId.readPairs HexId.lowerDigit text := by
  refine Option.ext fun bytes => ⟨fun h => ?_, fun h => ?_⟩
  · rw [unhex] at h
    split at h
    · cases h
    · next heven =>
      obtain ⟨text', hraw, hread⟩ := readPairs_of_pairs _
        (by rw [length_toUtf8]; exact not_not.mp heven) h
      have hsame := congrArg fromUtf8 hraw
      rw [fromUtf8_toUtf8, fromUtf8_toUtf8] at hsame
      rw [← Option.some.inj hsame, hread]
  · obtain ⟨hpairs, heven⟩ := unhex_of_readPairs h
    rw [unhex, if_neg (not_not_intro heven), hpairs]

/-- A nonce is read from its hex. -/
theorem parseNonce_hexEncode (n : Nonce) : parseNonce (hexEncode n.bytes.toList) = .ok n := by
  have hread : unhex (hexEncode n.bytes.toList) = some n.bytes.toList := by
    rw [unhex_eq, HexId.readPairs_hexEncode HexId.digits_lower]
  have hlength : n.bytes.toList.length = 32 := Vector.length_toList
  rw [parseNonce, hread]
  dsimp only
  rw [dif_pos hlength]
  exact congrArg (fun v => Except.ok (Nonce.mk v)) (Vector.toArray_inj.mp Array.toArray_toList)

/-! ## One turn -/

section Park

variable (ed : Ed25519) (json : Json) (r : Relay) (level : Level)

/-- A turn in which a text is read as a message. -/
def Reads (t : Turn) (m : Down) : Prop :=
  ∃ text, t.incoming = .text text ∧ text ≠ keepaliveResponse ∧ json.read text = .ok m

/-- A message whose line of log can be made. -/
def Loggable : Down → Prop
  | .open v pipe _ =>
    v = controlVersion → level.debugs = true → EndsCharAt pipe (min (utf8Len pipe) 8)
  | _ => True

/-- A challenge in its place gets the hello for its nonce; one on a link made
ready ends the link. -/
def AnswersChallenge (l : Link) (t : Turn) : Prop :=
  ∀ (n : Nonce) relayKey,
    Reads json t (.challenge controlVersion (hexEncode n.bytes.toList) relayKey) →
      (l.writer = true →
        (l.turn ed json r level t).sent = l.sent ++ [json.write (hello ed r.identity r.label n)]) ∧
      (l.writer = false →
        (l.turn ed json r level t).ended = some (.returned (.error (invalidData
          "the relay challenged a link it had already made ready".toList))))

variable {ed json r level}
variable {l : Link} {t : Turn}

theorem turn_of_reads {m : Down} (hup : l.ended = none) (h : Reads json t m) :
    l.turn ed json r level t = l.handle ed json r level t m := by
  obtain ⟨text, hin, hne, hread⟩ := h
  rw [Link.turn, hup, hin]
  dsimp only
  rw [if_neg hne, hread]

theorem answersChallenge (hup : l.ended = none) (t : Turn) :
    AnswersChallenge ed json r level l t := by
  intro n relayKey hreads
  have hversion : checkVersion controlVersion = .ok () := if_pos rfl
  have hhello : helloFor ed json r.identity r.label (hexEncode n.bytes.toList) =
      .ok (json.write (hello ed r.identity r.label n)) := by
    rw [helloFor, parseNonce_hexEncode]
    rfl
  rw [turn_of_reads hup hreads, Link.handle, hversion, hhello]
  constructor
  · intro hw
    dsimp only
    rw [if_neg (by rw [hw]; simp)]
    cases t.unsent <;> rfl
  · intro hw
    dsimp only
    rw [if_pos (by rw [hw]; simp)]
    rfl

theorem mem_spawnPipe {slot : Bool} {pipe : Str} {p : PipeLeg} (h : p ∈ spawnPipe r slot pipe) :
    IsPipeId pipe ∧ p = servePipe r.origin (hexEncode r.identity.id.bytes.toList) pipe := by
  rw [spawnPipe] at h
  split at h
  · exact absurd h List.not_mem_nil
  · next hform =>
    split at h
    · exact absurd h List.not_mem_nil
    · exact ⟨isPipeId_of_wellFormed (not_not.1 hform), List.mem_singleton.1 h⟩

/-- What a turn starts a pipe for is an id the relay could have issued. -/
theorem pipes_handle {m : Down} {p : PipeLeg} (h : p ∈ (l.handle ed json r level t m).pipes) :
    p ∈ l.pipes ∨
      ∃ pipe, IsPipeId pipe ∧ p = servePipe r.origin (hexEncode r.identity.id.bytes.toList) pipe := by
  cases m with
  | challenge v nonce relayKey =>
    rw [Link.handle] at h
    split at h
    · exact .inl h
    · split at h
      · exact .inl h
      · split at h
        · exact .inl h
        · dsimp only at h
          split at h <;> exact .inl h
  | ready v =>
    rw [Link.handle] at h
    split at h <;> exact .inl h
  | «open» v pipe exp =>
    rw [Link.handle] at h
    split at h
    · exact .inl h
    · split at h
      · exact .inl h
      · split at h
        · exact .inl h
        · exact (List.mem_append.1 h).imp_right fun hp => ⟨pipe, mem_spawnPipe hp⟩
  | error | unknown => exact .inl h

theorem pipes_turn {p : PipeLeg} (h : p ∈ (l.turn ed json r level t).pipes) :
    p ∈ l.pipes ∨
      ∃ pipe, IsPipeId pipe ∧ p = servePipe r.origin (hexEncode r.identity.id.bytes.toList) pipe := by
  rw [Link.turn] at h
  split at h
  · exact .inl h
  · split at h
    · exact .inl h
    · exact .inl h
    · exact .inl h
    · split at h
      · exact .inl h
      · split at h
        · exact .inl h
        · exact pipes_handle h

/-- One message takes the thread down: an id whose line of log cannot be
made. -/
theorem handle_panics {m : Down} (hup : l.ended = none) :
    (l.handle ed json r level t m).ended = some .panicked ↔ ¬ Loggable level m := by
  have hstop : ∀ (l : Link) (why : Except IoError Unit), (l.stop why).ended ≠ some .panicked :=
    fun l why h => absurd (Option.some.inj h) (by simp)
  have hstay : l.ended ≠ some .panicked := by rw [hup]; simp
  cases m with
  | challenge v nonce relayKey =>
    refine iff_of_false ?_ (by simp [Loggable])
    rw [Link.handle]
    split
    · exact hstop _ _
    · split
      · exact hstop _ _
      · split
        · exact hstop _ _
        · dsimp only
          split
          · exact hstop _ _
          · exact hstay
  | ready v =>
    refine iff_of_false ?_ (by simp [Loggable])
    rw [Link.handle]
    split
    · exact hstop _ _
    · exact hstay
  | «open» v pipe exp =>
    by_cases hversion : v = controlVersion
    · have hchecked : checkVersion v = .ok () := if_pos hversion
      rw [Link.handle, hchecked]
      dsimp only
      by_cases hbad : level.debugs = true ∧ sliceTo (min (utf8Len pipe) 8) pipe = none
      · rw [if_pos hbad]
        refine iff_of_true rfl fun hlog => ?_
        have hsome := isSome_sliceTo.2 (hlog hversion hbad.1)
        rw [hbad.2] at hsome
        cases hsome
      · rw [if_neg hbad]
        have hlog : Loggable level (.open v pipe exp) := fun _ hdebug =>
          isSome_sliceTo.1 (Option.isSome_iff_ne_none.2 fun hnone => hbad ⟨hdebug, hnone⟩)
        refine iff_of_false ?_ (not_not_intro hlog)
        split
        · exact hstop _ _
        · exact hstay
    · refine iff_of_false ?_ (not_not_intro fun hv => absurd hv hversion)
      rw [Link.handle, checkVersion, if_neg hversion]
      exact hstop _ _
  | error code => exact iff_of_false (hstop _ _) (by simp [Loggable])
  | unknown => exact iff_of_false hstay (by simp [Loggable])

/-- A text that cannot be read leaves the link be, or ends it. -/
theorem turn_unread (hup : l.ended = none) (h : ∀ m, ¬ Reads json t m) :
    l.turn ed json r level t = l ∨ ∃ why, l.turn ed json r level t = l.stop why := by
  rw [Link.turn, hup]
  cases hin : t.incoming with
  | failed | closed | binary => exact .inr ⟨_, rfl⟩
  | text text =>
    by_cases hkeep : text = keepaliveResponse
    · exact .inl (if_pos hkeep)
    · cases hread : json.read text with
      | error e =>
        refine .inr ⟨.error (invalidData
          ("the relay sent something this build cannot read: ".toList ++ e)), ?_⟩
        dsimp only
        rw [if_neg hkeep, hread]
      | ok m => exact absurd ⟨text, hin, hkeep, hread⟩ (h m)

theorem turn_panics : (l.turn ed json r level t).ended = some .panicked ↔
    l.ended = some .panicked ∨
      (l.ended = none ∧ ∃ m, Reads json t m ∧ ¬ Loggable level m) := by
  cases hup : l.ended with
  | some e => rw [Link.turn, hup]; simp [hup]
  | none =>
    by_cases hreads : ∃ m, Reads json t m
    · obtain ⟨m, hm⟩ := hreads
      rw [turn_of_reads hup hm, handle_panics hup]
      constructor
      · exact fun hbad => .inr ⟨rfl, m, hm, hbad⟩
      · rintro (h | ⟨-, m', hm', hbad⟩)
        · exact absurd h (by simp)
        · obtain ⟨text, hin, -, hread⟩ := hm
          obtain ⟨text', hin', -, hread'⟩ := hm'
          obtain rfl := Incoming.text.inj (hin.symm.trans hin')
          obtain rfl := Except.ok.inj (hread.symm.trans hread')
          exact hbad
    · refine iff_of_false (fun h => ?_) (by
        rintro (h | ⟨-, m, hm, -⟩)
        · exact absurd h (by simp)
        · exact hreads ⟨m, hm⟩)
      have hunread : l.turn ed json r level t = l ∨ ∃ why, l.turn ed json r level t = l.stop why :=
        turn_unread hup (not_exists.mp hreads)
      rcases hunread with heq | ⟨why, heq⟩
      · rw [heq, hup] at h
        cases h
      · rw [heq] at h
        exact absurd (Option.some.inj h) (by simp)

end Park

/-! ## A link -/

section Run

variable (ed : Ed25519) (json : Json) (r : Relay) (level : Level)

/-- A link that has been kept: its thread stands, it dialled only what the
relay could have issued, and it answered every challenge. -/
structure Kept (h : List (Trace.Entry Link Turn Unit)) (l : Link) : Prop where
  stands : l.ended ≠ some .panicked
  pipes : ∀ p ∈ l.pipes,
    ∃ pipe, IsPipeId pipe ∧ p = servePipe r.origin (hexEncode r.identity.id.bytes.toList) pipe
  answers : ∀ e ∈ h, e.state.ended = none → AnswersChallenge ed json r level e.state e.call

/-- No text that reaches a link still up is an open whose line of log cannot
be made. -/
def EvenlySplit (h : List (Trace.Entry Link Turn Unit)) : Prop :=
  ∀ e ∈ h, e.state.ended = none → ∀ m, Reads json e.call m → Loggable level m

theorem pipes_run (turns : List Turn) :
    ∀ p ∈ (Trace.run (Link.step ed json r level) {} turns).1.pipes, ∃ pipe, IsPipeId pipe ∧
      p = servePipe r.origin (hexEncode r.identity.id.bytes.toList) pipe :=
  Trace.run_invariant
    (I := fun (l : Link) _ => ∀ p ∈ l.pipes, ∃ pipe, IsPipeId pipe ∧
      p = servePipe r.origin (hexEncode r.identity.id.bytes.toList) pipe)
    (fun _ hp => absurd hp List.not_mem_nil)
    (fun _ _ _ ih _ hp => (pipes_turn hp).elim (ih _) id) turns

theorem stands_run (turns : List Turn) :
    (Trace.run (Link.step ed json r level) {} turns).1.ended ≠ some .panicked ↔
      EvenlySplit json level (Trace.run (Link.step ed json r level) {} turns).2 :=
  Trace.run_invariant
    (I := fun (l : Link) h => l.ended ≠ some .panicked ↔ EvenlySplit json level h)
    (iff_of_true (by simp) fun e he => absurd he List.not_mem_nil)
    (fun l h t ih => by
      have hstep : (Link.step ed json r level l t).1 = l.turn ed json r level t := rfl
      rw [hstep, ne_eq, turn_panics, not_or, ← ne_eq, ih, EvenlySplit, EvenlySplit,
        List.forall_mem_append, List.forall_mem_singleton]
      refine and_congr_right fun _ => ?_
      simp only [not_and, not_exists, not_not]) turns

/-- A link is kept exactly as long as every open that reaches it can be
logged. -/
theorem link_stands (turns : List Turn) :
    Kept ed json r level (Trace.run (Link.step ed json r level) {} turns).2
        (Trace.run (Link.step ed json r level) {} turns).1 ↔
      EvenlySplit json level (Trace.run (Link.step ed json r level) {} turns).2 := by
  constructor
  · exact fun h => (stands_run ed json r level turns).1 h.stands
  · exact fun h => ⟨(stands_run ed json r level turns).2 h, pipes_run ed json r level turns,
      fun e _ hup => answersChallenge hup e.call⟩

end Run

/-- An id of seven letters and one that takes two bytes. -/
def splitId : Str := "aaaaaaaé".toList

def splitText : Str := "\x7b\"t\":\"open\",\"v\":1,\"pipe\":\"aaaaaaaé\"\x7d".toList

/-- A reader of that text. -/
def readsSplit : Json where
  read text := if text = splitText then .ok (.open 1 splitId none) else .error "expected value".toList
  write _ := []

/-- A machine with a key of zeros; nothing is signed here. -/
def blankRelay : Relay :=
  { origin := ⟨"relay".toList, 443, true⟩
    identity := ⟨Vector.replicate 32 0, ⟨Vector.replicate 32 0⟩⟩
    label := [] }

def blankKeys : Ed25519 where
  verifyingKey _ := Vector.replicate 32 0
  sign _ _ := Vector.replicate 64 0
  isPoint _ := true
  isWeak _ := false
  verifyStrict _ _ _ := true

/-- One open with such an id, while the line is logged. -/
theorem split_id_panics :
    ¬ Kept blankKeys readsSplit blankRelay .debug
      (Trace.run (Link.step blankKeys readsSplit blankRelay .debug) {}
        [{ incoming := .text splitText }]).2
      (Trace.run (Link.step blankKeys readsSplit blankRelay .debug) {}
        [{ incoming := .text splitText }]).1 :=
  fun h => h.stands (by decide)

end Zesterm.RelayLeg
