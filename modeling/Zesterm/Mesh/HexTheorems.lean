/-
Zesterm.Mesh.HexTheorems — hex read two characters at a time.

The hand-written decoders cut a text into pairs and give each to the standard
library's `from_str_radix`, which takes one leading `+`: a pair may be a sign
and a digit. `readPairs` is what they have in common, over the digits each of
them takes; `Paired` are the texts it reads.
-/
import Zesterm.Core.SliceTheorems
import Zesterm.Mesh.Identity

namespace Zesterm.HexId

/-! ## Pairs -/

/-- What `from_str_radix` makes of two characters. -/
def pairValue (digit : Char → Option Nat) (a b : Char) : Option Nat :=
  if a = '+' then digit b
  else do
    let high ← digit a
    let low ← digit b
    return high * 16 + low

/-- A byte for each two characters. -/
def readPairs (digit : Char → Option Nat) : Str → Option (List UInt8)
  | [] => some []
  | [_] => none
  | a :: b :: rest => do
    let byte ← pairValue digit a b
    let bytes ← readPairs digit rest
    return UInt8.ofNat byte :: bytes

/-- A hex digit of either case. -/
def anyDigit (c : Char) : Option Nat := digitValue 16 c

/-- A hex digit that is no capital letter. -/
def lowerDigit (c : Char) : Option Nat := if 'A' ≤ c ∧ c ≤ 'Z' then none else digitValue 16 c

/-- The texts of pairs of a digit, or a sign, and a digit. -/
def Paired (digit : Char → Prop) : Str → Prop
  | [] => True
  | [_] => False
  | a :: b :: rest => (digit a ∨ a = '+') ∧ digit b ∧ Paired digit rest

/-! ## Digits -/

/-- The digits of a reader, and the characters it takes for one. -/
structure Digits (digit : Char → Option Nat) (hex : Char → Prop) : Prop where
  isSome : ∀ c, (digit c).isSome = true ↔ hex c
  value : ∀ {c n}, digit c = some n →
    n < 16 ∧ Nat.digitChar n = c.toLower ∧ c.toNat < 128 ∧ c ≠ '+'
  written : ∀ n < 16, digit (Nat.digitChar n) = some n

theorem ascii_digits : ∀ k < 128, ∀ n ∈ digitValue 16 (Char.ofNat k),
    Nat.digitChar n = (Char.ofNat k).toLower := by
  decide

theorem anyDigit_value {c : Char} {n : Nat} (h : anyDigit c = some n) :
    n < 16 ∧ Nat.digitChar n = c.toLower ∧ c.toNat < 128 ∧ c ≠ '+' := by
  obtain ⟨hascii, hplus⟩ := digit_ascii h
  have hc := ascii_digits c.toNat hascii n
  rw [Char.ofNat_toNat] at hc
  exact ⟨digitValue_lt h, hc h, hascii, hplus⟩

theorem digits_any : Digits anyDigit fun c => (anyDigit c).isSome = true where
  isSome _ := Iff.rfl
  value := anyDigit_value
  written := by decide

theorem lowerDigit_value {c : Char} {n : Nat} (h : lowerDigit c = some n) : anyDigit c = some n := by
  unfold lowerDigit at h
  split at h
  · cases h
  · exact h

theorem digits_lower : Digits lowerDigit fun c => (lowerDigit c).isSome = true where
  isSome _ := Iff.rfl
  value h := anyDigit_value (lowerDigit_value h)
  written := by decide

theorem Digits.congr {digit : Char → Option Nat} {hex hex' : Char → Prop} (h : Digits digit hex)
    (hsame : ∀ c, hex c ↔ hex' c) : Digits digit hex' :=
  ⟨fun c => (h.isSome c).trans (hsame c), h.value, h.written⟩

/-- `from_str_radix` of two characters. -/
theorem parseRadix_two (a b : Char) : parseRadix 16 255 [a, b] = pairValue anyDigit a b := by
  unfold pairValue
  split
  · next ha =>
    subst ha
    have hone : parseRadix 16 255 ['+', b] =
        ((digitValue 16 b).map (0 * 16 + ·)).filter (· ≤ 255) := by
      simp [parseRadix, parseDigits]
    rw [hone, anyDigit]
    cases hb : digitValue 16 b with
    | none => rfl
    | some n =>
      have := digitValue_lt hb
      rw [Option.map_some, Option.filter_some, if_pos (by simp; omega), Nat.zero_mul, Nat.zero_add]
  · next ha =>
    cases hva : digitValue 16 a with
    | none => simp [parseRadix, parseDigits, anyDigit, ha, hva]
    | some v =>
      cases hvb : digitValue 16 b with
      | none => simp [parseRadix, parseDigits, anyDigit, ha, hva, hvb]
      | some w =>
        rw [parseRadix_pair hva hvb, anyDigit, anyDigit, hva, hvb]
        rfl

/-! ## Reading by pairs -/

/-- Without a sign there are digits only. -/
theorem Paired.all {hex : Char → Prop} {t : Str} (ht : Paired hex t) (hplus : '+' ∉ t) : ∀ c ∈ t, hex c := by
  induction t using readPairs.induct with
  | case1 => exact nofun
  | case2 a => exact ht.elim
  | case3 a b rest ih =>
    obtain ⟨ha, hb, hrest⟩ := ht
    obtain ⟨hane, hplus⟩ := not_or.mp (mt List.mem_cons.mpr hplus)
    intro c hc
    rcases List.mem_cons.mp hc with rfl | hc
    · exact ha.resolve_right fun heq => hane heq.symm
    rcases List.mem_cons.mp hc with rfl | hc
    · exact hb
    · exact ih hrest (fun hmem => hplus (List.mem_cons_of_mem b hmem)) c hc

theorem paired_of_all {hex : Char → Prop} {t : Str} (hall : ∀ c ∈ t, hex c) (heven : t.length % 2 = 0) :
    Paired hex t := by
  induction t using readPairs.induct with
  | case1 => exact trivial
  | case2 a => cases heven
  | case3 a b rest ih =>
    refine ⟨.inl (hall a List.mem_cons_self),
      hall b (List.mem_cons_of_mem a List.mem_cons_self), ih (fun c hc => ?_) ?_⟩
    · exact hall c (List.mem_cons_of_mem a (List.mem_cons_of_mem b hc))
    · simpa only [List.length_cons, Nat.add_assoc, Nat.add_mod_right] using heven

theorem length_readPairs {digit : Char → Option Nat} {t : Str} : ∀ {bytes : List UInt8}, readPairs digit t = some bytes →
    t.length = 2 * bytes.length := by
  induction t using readPairs.induct with
  | case1 =>
    intro bytes hread
    obtain rfl := Option.some.inj hread
    rfl
  | case2 a => exact nofun
  | case3 a b rest ih =>
    intro bytes hread
    rw [readPairs] at hread
    obtain ⟨n, -, hread⟩ := Option.bind_eq_some_iff.mp hread
    obtain ⟨bytes, hrest, hread⟩ := Option.bind_eq_some_iff.mp hread
    obtain rfl := Option.some.inj hread
    rw [List.length_cons, List.length_cons, ih hrest, List.length_cons]
    omega

section Pairs

variable {digit : Char → Option Nat} {hex : Char → Prop} (h : Digits digit hex)
include h

theorem isSome_pairValue (a b : Char) :
    (pairValue digit a b).isSome = true ↔ (hex a ∨ a = '+') ∧ hex b := by
  unfold pairValue
  split
  · next ha =>
    rw [h.isSome]
    exact ⟨fun hb => ⟨.inr ha, hb⟩, And.right⟩
  · next ha =>
    rw [← h.isSome, ← h.isSome]
    cases hva : digit a with
    | none => simp [ha]
    | some v => cases digit b <;> simp

theorem isSome_readPairs (t : Str) : (readPairs digit t).isSome = true ↔ Paired hex t := by
  induction t using readPairs.induct with
  | case1 => exact iff_of_true rfl trivial
  | case2 a => exact iff_of_false (by simp [readPairs]) id
  | case3 a b rest ih =>
    rw [readPairs, Paired, ← and_assoc, ← isSome_pairValue h, ← ih]
    cases pairValue digit a b with
    | none => simp
    | some n => cases readPairs digit rest <;> simp

theorem hex_value {c : Char} (hc : hex c) : c.toNat < 128 ∧ c ≠ '+' := by
  obtain ⟨n, hn⟩ := Option.isSome_iff_exists.mp ((h.isSome c).mpr hc)
  exact (h.value hn).2.2

theorem Paired.ascii {t : Str} (ht : Paired hex t) : ∀ c ∈ t, c.toNat < 128 := by
  induction t using readPairs.induct with
  | case1 => exact nofun
  | case2 a => exact ht.elim
  | case3 a b rest ih =>
    obtain ⟨ha, hb, hrest⟩ := ht
    intro c hc
    rcases List.mem_cons.mp hc with rfl | hc
    · rcases ha with ha | rfl
      · exact (hex_value h ha).1
      · decide
    rcases List.mem_cons.mp hc with rfl | hc
    · exact (hex_value h hb).1
    · exact ih hrest c hc

/-- What was read from digits is written as their lower case. -/
theorem hexEncode_readPairs {t : Str} (hall : ∀ c ∈ t, hex c) :
    ∀ {bytes : List UInt8}, readPairs digit t = some bytes → hexEncode bytes = t.map Char.toLower := by
  induction t using readPairs.induct with
  | case1 =>
    intro bytes hread
    obtain rfl := Option.some.inj hread
    rfl
  | case2 a => exact nofun
  | case3 a b rest ih =>
    intro bytes hread
    rw [readPairs] at hread
    obtain ⟨n, hn, hread⟩ := Option.bind_eq_some_iff.mp hread
    obtain ⟨bytes, hrest, hread⟩ := Option.bind_eq_some_iff.mp hread
    obtain rfl := Option.some.inj hread
    rw [pairValue, if_neg (hex_value h (hall a List.mem_cons_self)).2] at hn
    obtain ⟨v, hv, hn⟩ := Option.bind_eq_some_iff.mp hn
    obtain ⟨w, hw, hn⟩ := Option.bind_eq_some_iff.mp hn
    obtain rfl := Option.some.inj hn
    obtain ⟨hvlt, hvchar, -⟩ := h.value hv
    obtain ⟨hwlt, hwchar, -⟩ := h.value hw
    have hbyte : (UInt8.ofNat (v * 16 + w)).toNat = v * 16 + w := by
      rw [UInt8.toNat_ofNat']
      omega
    have hcons : hexEncode (UInt8.ofNat (v * 16 + w) :: bytes) =
        Nat.digitChar ((UInt8.ofNat (v * 16 + w)).toNat / 16) ::
          Nat.digitChar ((UInt8.ofNat (v * 16 + w)).toNat % 16) :: hexEncode bytes := rfl
    have hhigh : (v * 16 + w) / 16 = v := by omega
    have hlow : (v * 16 + w) % 16 = w := by omega
    have htail := ih (fun c hc => hall c (List.mem_cons_of_mem a (List.mem_cons_of_mem b hc))) hrest
    rw [hcons, hbyte, hhigh, hlow, hvchar, hwchar, htail]
    rfl

/-- What is written as hex is read back. -/
theorem readPairs_hexEncode : ∀ bytes : List UInt8, readPairs digit (hexEncode bytes) = some bytes
  | [] => rfl
  | b :: bytes => by
    have hb := b.toNat_lt
    have hhigh := h.written (b.toNat / 16) (by omega)
    have hlow := h.written (b.toNat % 16) (by omega)
    rw [hexEncode_cons, readPairs, pairValue, if_neg (h.value hhigh).2.2.2, hhigh, hlow,
      readPairs_hexEncode bytes]
    simp only [Option.pure_def, Option.bind_eq_bind, Option.bind_some, Nat.div_add_mod',
      UInt8.ofNat_toNat]

end Pairs

end Zesterm.HexId
