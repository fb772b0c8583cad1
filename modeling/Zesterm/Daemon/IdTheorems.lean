/-
Zesterm.Daemon.IdTheorems — hexadecimal identities, as three hand-written
decoders read them: `decode_host_id` of a discovery record, `parse_id` of the
attestation feed and `unhex` of the relay's control link.

Each is a reader of pairs (`Mesh.HexTheorems`), so a pair may be a sign and a
digit. `Signed` are the texts in which such a pair stands; `lawful_exactly` says
that a reader is strict about exactly the other texts, and
`ids_read_strictly` says it of the three.
-/
import Zesterm.Daemon.RelayTheorems
import Zesterm.Mesh.Roster

namespace Zesterm.HexId

open RelayLeg

/-- `parse_id`: the id of a device in the attestation feed. As in
`decodeHostId`, a character of more than one byte is no hex digit. -/
def parseId (text : Str) : Option (Vector UInt8 32) :=
  if utf8Len text ≠ 64 then none
  else do
    let bytes ← hexPairs text
    if h : bytes.length = 32 then some ⟨bytes.toArray, h⟩ else none

/-! ## Readers -/

/-- A decoder, its encoder, and the texts that are to be read: so many digits
of a kind. -/
structure Reader (I : Type) where
  decode : Str → Option I
  encode : I → Str
  digit : Char → Prop
  length : Nat → Prop

/-- A hex digit of either case. -/
def AnyHex (c : Char) : Prop := LowerHex c ∨ ('A' ≤ c ∧ c ≤ 'F')

def hostIds : Reader HostId :=
  ⟨decodeHostId, fun id => hexEncode id.bytes.toList, AnyHex, (· = 64)⟩

def feedIds : Reader (Vector UInt8 32) :=
  ⟨parseId, fun id => hexEncode id.toList, AnyHex, (· = 64)⟩

def relayBytes : Reader (List UInt8) := ⟨unhex, hexEncode, LowerHex, (· % 2 = 0)⟩

namespace Reader

variable {I : Type} (R : Reader I)

/-- The right number of digits, and nothing else. -/
def Digital (text : Str) : Prop := R.length text.length ∧ ∀ c ∈ text, R.digit c

/-- A text is accepted if it is digital and only then, and what it is read as
is written as the text in lower case. -/
structure Strict (text : Str) : Prop where
  accepts : (R.decode text).isSome = true ↔ R.Digital text
  lower : ∀ id, R.decode text = some id → R.encode id = text.map Char.toLower

/-- Strict about both texts, which name one machine only if they differ in
case at most; and what is written is read back. -/
structure Lawful (text other : Str) : Prop where
  first : R.Strict text
  second : R.Strict other
  names : ∀ id, R.decode text = some id → R.decode other = some id →
    text.map Char.toLower = other.map Char.toLower
  back : ∀ id, R.decode (R.encode id) = some id

/-- The right number of characters, in pairs of a digit and a digit or of a
sign and a digit, with a sign among them. -/
def Signed (text : Str) : Prop := R.length text.length ∧ Paired R.digit text ∧ '+' ∈ text

/-- What a reader of pairs does. -/
structure Reads : Prop where
  isSome : ∀ text, (R.decode text).isSome = true ↔ R.length text.length ∧ Paired R.digit text
  even : ∀ n, R.length n → n % 2 = 0
  plus : ¬ R.digit '+'
  lower : ∀ text id, R.decode text = some id → (∀ c ∈ text, R.digit c) →
    R.encode id = text.map Char.toLower
  back : ∀ id, R.decode (R.encode id) = some id

variable {R}

theorem Reads.strict_iff (h : R.Reads) (text : Str) : R.Strict text ↔ ¬ R.Signed text := by
  constructor
  · rintro hstrict ⟨hlen, hpaired, hplus⟩
    have hdigital := hstrict.accepts.mp ((h.isSome text).mpr ⟨hlen, hpaired⟩)
    exact h.plus (hdigital.2 '+' hplus)
  · intro hsigned
    have hall : R.length text.length → Paired R.digit text → ∀ c ∈ text, R.digit c :=
      fun hlen hpaired => hpaired.all fun hplus => hsigned ⟨hlen, hpaired, hplus⟩
    refine ⟨(h.isSome text).trans ⟨fun ⟨hlen, hpaired⟩ => ⟨hlen, hall hlen hpaired⟩, ?_⟩, ?_⟩
    · exact fun ⟨hlen, hdigits⟩ => ⟨hlen, paired_of_all hdigits (h.even _ hlen)⟩
    · intro id hid
      obtain ⟨hlen, hpaired⟩ := (h.isSome text).mp (Option.isSome_of_eq_some hid)
      exact h.lower text id hid (hall hlen hpaired)

theorem Reads.lawful_exactly (h : R.Reads) (text other : Str) :
    R.Lawful text other ↔ ¬ R.Signed text ∧ ¬ R.Signed other := by
  rw [← h.strict_iff, ← h.strict_iff]
  refine ⟨fun hlawful => ⟨hlawful.first, hlawful.second⟩, fun ⟨htext, hother⟩ => ?_⟩
  refine ⟨htext, hother, fun id hid hid' => ?_, h.back⟩
  rw [← htext.lower id hid, ← hother.lower id hid']

end Reader

/-! ## The digits -/

instance : DecidablePred LowerHex := fun _ => inferInstanceAs (Decidable (_ ∨ _))

instance : DecidablePred AnyHex := fun _ => inferInstanceAs (Decidable (_ ∨ _))

theorem hex_ascii : ∀ k < 128,
    ((anyDigit (Char.ofNat k)).isSome = true ↔ AnyHex (Char.ofNat k)) ∧
      ((lowerDigit (Char.ofNat k)).isSome = true ↔ LowerHex (Char.ofNat k)) := by
  decide

theorem AnyHex.ascii {c : Char} (h : AnyHex c) : c.toNat < 128 := by
  have hle : ∀ d : Char, c ≤ d → c.toNat ≤ d.toNat := fun _ hd => hd
  rcases h with (⟨-, h⟩ | ⟨-, h⟩) | ⟨-, h⟩
  · exact Nat.lt_of_le_of_lt (hle _ h) (by decide)
  · exact Nat.lt_of_le_of_lt (hle _ h) (by decide)
  · exact Nat.lt_of_le_of_lt (hle _ h) (by decide)

theorem digits_anyHex : Digits anyDigit AnyHex := by
  refine digits_any.congr fun c => ?_
  by_cases hascii : c.toNat < 128
  · have hc := (hex_ascii c.toNat hascii).1
    rwa [Char.ofNat_toNat] at hc
  · refine iff_of_false (fun hsome => ?_) fun hhex => hascii hhex.ascii
    obtain ⟨n, hn⟩ := Option.isSome_iff_exists.mp hsome
    exact hascii (anyDigit_value hn).2.2.1

theorem digits_lowerHex : Digits lowerDigit LowerHex := by
  refine digits_lower.congr fun c => ?_
  by_cases hascii : c.toNat < 128
  · have hc := (hex_ascii c.toNat hascii).2
    rwa [Char.ofNat_toNat] at hc
  · refine iff_of_false (fun hsome => ?_) fun hhex => hascii (AnyHex.ascii (.inl hhex))
    obtain ⟨n, hn⟩ := Option.isSome_iff_exists.mp hsome
    exact hascii (anyDigit_value (lowerDigit_value hn)).2.2.1

/-! ## The three readers -/

theorem digitOf_eq (c : Char) : digitOf 16 c = anyDigit c := by
  have hnum : ('0' ≤ c ∧ c ≤ '9') ↔ (48 ≤ c.toNat ∧ c.toNat ≤ 57) := Iff.rfl
  have hlower : ('a' ≤ c ∧ c ≤ 'f') ↔ (97 ≤ c.toNat ∧ c.toNat ≤ 102) := Iff.rfl
  have hupper : ('A' ≤ c ∧ c ≤ 'F') ↔ (65 ≤ c.toNat ∧ c.toNat ≤ 70) := Iff.rfl
  have hzero : '0'.toNat = 48 := rfl
  have ha : 'a'.toNat = 97 := rfl
  have hA : 'A'.toNat = 65 := rfl
  unfold digitOf anyDigit digitValue
  simp only [hnum, hlower, hupper, hzero, ha, hA]
  split_ifs <;> simp <;> omega

theorem fromStrRadix_two (a b : Char) : fromStrRadix 16 256 [a, b] = pairValue anyDigit a b := by
  have hfold : ∀ (acc : Nat) (text : Str),
      text.foldlM (fun n c => (digitOf 16 c).map (n * 16 + ·)) acc =
        text.foldlM (fun n c => (digitValue 16 c).map (n * 16 + ·)) acc := by
    intro acc text
    congr 1
    funext n c
    rw [digitOf_eq, anyDigit]
  rw [← parseRadix_two]
  by_cases ha : a = '+'
  · subst ha
    simp [fromStrRadix, parseRadix, parseDigits, hfold, Nat.lt_succ_iff]
  · simp [fromStrRadix, parseRadix, parseDigits, hfold, Nat.lt_succ_iff, ha]

theorem hexPairs_eq (text : Str) : hexPairs text = readPairs anyDigit text := by
  induction text using readPairs.induct with
  | case1 => rfl
  | case2 a => rfl
  | case3 a b rest ih =>
    rw [hexPairs, readPairs, fromStrRadix_two, ih]
    rfl

theorem utf8Len_ascii {text : Str} (h : ∀ c ∈ text, c.toNat < 128) : utf8Len text = text.length := by
  induction text with
  | nil => rfl
  | cons c text ih =>
    rw [utf8Len_cons, (encode_ascii (h c List.mem_cons_self)).2,
      ih fun d hd => h d (List.mem_cons_of_mem c hd), List.length_cons, Nat.add_comm]

theorem parseId_eq_some {text : Str} {id : Vector UInt8 32} :
    parseId text = some id ↔ text.length = 64 ∧ readPairs anyDigit text = some id.toList := by
  rw [parseId, hexPairs_eq]
  cases hread : readPairs anyDigit text with
  | none => simp
  | some bytes =>
    have hlen := length_readPairs hread
    have hascii := utf8Len_ascii (Paired.ascii digits_any
      ((isSome_readPairs digits_any _).mp (Option.isSome_of_eq_some hread)))
    rw [hascii]
    by_cases h64 : text.length = 64
    · have h32 : bytes.length = 32 := by omega
      rw [if_neg (not_not_intro h64), Option.bind_eq_bind, Option.bind_some, dif_pos h32]
      constructor
      · rintro h
        obtain rfl := Option.some.inj h
        exact ⟨h64, rfl⟩
      · rintro ⟨-, h⟩
        obtain rfl := Option.some.inj h
        exact congrArg some (Vector.toArray_inj.mp Array.toArray_toList)
    · rw [if_pos h64]
      exact iff_of_false nofun fun h => h64 h.1

theorem decodeHostId_eq (text : Str) : decodeHostId text = (parseId text).map HostId.mk := by
  unfold decodeHostId parseId utf8Len
  split
  · rfl
  · cases hexPairs text with
    | none => rfl
    | some bytes =>
      simp only [Option.bind_eq_bind, Option.bind_some]
      split <;> rfl

theorem not_anyHex_plus : ¬ AnyHex '+' := by decide

theorem reads_feedIds : feedIds.Reads where
  isSome text := by
    have hpairs := isSome_readPairs digits_anyHex text
    constructor
    · intro h
      obtain ⟨id, hid⟩ := Option.isSome_iff_exists.mp h
      obtain ⟨hlen, hread⟩ := parseId_eq_some.mp hid
      exact ⟨hlen, hpairs.mp (Option.isSome_of_eq_some hread)⟩
    · rintro ⟨hlen, hpaired⟩
      obtain ⟨bytes, hread⟩ := Option.isSome_iff_exists.mp (hpairs.mpr hpaired)
      have h64 : text.length = 64 := hlen
      have h32 : bytes.length = 32 := by
        have := length_readPairs hread
        omega
      have hid : parseId text = some ⟨bytes.toArray, h32⟩ := parseId_eq_some.mpr ⟨h64, hread⟩
      exact Option.isSome_of_eq_some hid
  even := by
    rintro n rfl
    rfl
  plus := not_anyHex_plus
  lower text id h hall := hexEncode_readPairs digits_anyHex hall (parseId_eq_some.mp h).2
  back id := by
    refine parseId_eq_some.mpr ⟨?_, readPairs_hexEncode digits_anyHex _⟩
    show (hexEncode id.toList).length = 64
    rw [length_readPairs (readPairs_hexEncode digits_anyHex _), Vector.length_toList]

theorem reads_hostIds : hostIds.Reads where
  isSome text := by
    show (decodeHostId text).isSome = true ↔ _
    rw [decodeHostId_eq, Option.isSome_map]
    exact reads_feedIds.isSome text
  even := reads_feedIds.even
  plus := not_anyHex_plus
  lower text id h hall := by
    change decodeHostId text = some id at h
    rw [decodeHostId_eq] at h
    obtain ⟨bytes, hid, rfl⟩ := Option.map_eq_some_iff.mp h
    exact reads_feedIds.lower text bytes hid hall
  back id := by
    show decodeHostId _ = some id
    rw [decodeHostId_eq]
    exact congrArg (Option.map HostId.mk) (reads_feedIds.back id.bytes)

theorem reads_relayBytes : relayBytes.Reads where
  isSome text := by
    show (unhex text).isSome = true ↔ text.length % 2 = 0 ∧ _
    rw [unhex_eq, isSome_readPairs digits_lowerHex]
    refine ⟨fun h => ⟨?_, h⟩, And.right⟩
    obtain ⟨bytes, hread⟩ := Option.isSome_iff_exists.mp ((isSome_readPairs digits_lowerHex _).mpr h)
    rw [length_readPairs hread, Nat.mul_mod_right]
  even _ h := h
  plus := fun h => not_anyHex_plus (.inl h)
  lower text bytes h hall := by
    change unhex text = some bytes at h
    rw [unhex_eq] at h
    exact hexEncode_readPairs digits_lowerHex hall h
  back bytes := by
    show unhex (hexEncode bytes) = some bytes
    rw [unhex_eq, readPairs_hexEncode digits_lowerHex]

/-- Each reader is strict about two texts if and only if no pair of theirs is
a sign and a digit. -/
theorem ids_read_strictly (text other : Str) :
    (hostIds.Lawful text other ↔ ¬ hostIds.Signed text ∧ ¬ hostIds.Signed other) ∧
      (feedIds.Lawful text other ↔ ¬ feedIds.Signed text ∧ ¬ feedIds.Signed other) ∧
      (relayBytes.Lawful text other ↔ ¬ relayBytes.Signed text ∧ ¬ relayBytes.Signed other) :=
  ⟨reads_hostIds.lawful_exactly text other, reads_feedIds.lawful_exactly text other,
    reads_relayBytes.lawful_exactly text other⟩

/-- A sign, and 63 digits. -/
def signed : Str := '+' :: 'a' :: List.replicate 62 '0'

/-- All three read a sign where a digit stands. -/
theorem signs_read : ¬ hostIds.Lawful signed signed ∧ ¬ feedIds.Lawful signed signed ∧
    ¬ relayBytes.Lawful ['+', 'a'] ['0', 'a'] := by
  refine ⟨fun h => ?_, fun h => ?_, fun h => ?_⟩
  · have hdigital := h.first.accepts.mp rfl
    exact not_anyHex_plus (hdigital.2 '+' List.mem_cons_self)
  · have hdigital := h.first.accepts.mp rfl
    exact not_anyHex_plus (hdigital.2 '+' List.mem_cons_self)
  · have hsame := h.names [0x0a] rfl rfl
    exact absurd hsame (by decide)

end Zesterm.HexId
