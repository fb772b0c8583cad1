/-
Zesterm.Core.Utf8Theorems — `fromUtf8` reads exactly what `toUtf8` writes.

Both go character by character, so a text and its bytes are taken apart
together: a lead byte says which of the four forms a character has, and the
form gives the code point back (`fromUtf8_eq_some`).
-/
import Mathlib.Data.Char
import Zesterm.Core.Text

namespace Zesterm

theorem continuation_eq_some {b : UInt8} {n : Nat} :
    continuation b = some n ↔ n < 64 ∧ b.toNat = n + 0x80 := by
  unfold continuation
  split
  · next h =>
    rw [Option.some.injEq]
    omega
  · next h =>
    refine iff_of_false (by simp) ?_
    omega

/-- A code point is the character's. -/
theorem ofNat_code {n : Nat} (h : n.isValidChar) : (Char.ofNat n).toNat = n := by
  rw [Char.ofNat, dif_pos h]
  rfl

theorem code_lt (c : Char) : c.toNat < 0x110000 := by
  have h := c.valid
  simp only [UInt32.isValidChar, Nat.isValidChar] at h
  change c.val.toNat < 0x110000
  omega

theorem scalar_eq_some {low n : Nat} {c : Char} : scalar low n = some c ↔ low ≤ n ∧ c.toNat = n := by
  unfold scalar
  split
  · next h =>
    rw [Option.some.injEq]
    constructor
    · rintro rfl
      exact ⟨h.1, ofNat_code h.2⟩
    · rintro ⟨-, rfl⟩
      exact Char.ofNat_toNat c
  · next h =>
    refine iff_of_false (by simp) ?_
    rintro ⟨hlow, rfl⟩
    exact h ⟨hlow, c.valid⟩

/-! ## The four forms of a character -/

/-- A byte is its number. -/
theorem byte_eq {a : UInt8} {n : Nat} (h : n < 256) : UInt8.ofNat n = a ↔ a.toNat = n := by
  rw [← UInt8.toNat_inj, UInt8.toNat_ofNat', Nat.mod_eq_of_lt h]
  exact eq_comm

section Forms

variable {c : Char}

theorem encode_one (h : c.toNat < 0x80) :
    String.utf8EncodeChar c = [UInt8.ofNat c.toNat] := by
  unfold String.utf8EncodeChar
  exact if_pos (Nat.le_of_lt_succ h)

theorem encode_two (h : 0x80 ≤ c.toNat) (h' : c.toNat < 0x800) :
    String.utf8EncodeChar c =
      [UInt8.ofNat (c.toNat / 64 + 0xC0), UInt8.ofNat (c.toNat % 64 + 0x80)] := by
  have hlead : c.toNat / 64 % 0x20 = c.toNat / 64 := Nat.mod_eq_of_lt (by omega)
  unfold String.utf8EncodeChar
  dsimp only
  change (if c.toNat ≤ 0x7f then _ else if c.toNat ≤ 0x7ff then [UInt8.ofNat (c.toNat / 64 % 0x20 + 0xc0),
    UInt8.ofNat (c.toNat % 0x40 + 0x80)] else _) = _
  rw [if_neg (by omega), if_pos (by omega), hlead]

theorem encode_three (h : 0x800 ≤ c.toNat) (h' : c.toNat < 0x10000) :
    String.utf8EncodeChar c =
      [UInt8.ofNat (c.toNat / 4096 + 0xE0), UInt8.ofNat (c.toNat / 64 % 64 + 0x80),
        UInt8.ofNat (c.toNat % 64 + 0x80)] := by
  have hlead : c.toNat / 4096 % 0x10 = c.toNat / 4096 := Nat.mod_eq_of_lt (by omega)
  unfold String.utf8EncodeChar
  dsimp only
  change (if c.toNat ≤ 0x7f then _ else if c.toNat ≤ 0x7ff then _ else if c.toNat ≤ 0xffff then
    [UInt8.ofNat (c.toNat / 4096 % 0x10 + 0xe0), UInt8.ofNat (c.toNat / 64 % 0x40 + 0x80),
      UInt8.ofNat (c.toNat % 0x40 + 0x80)] else _) = _
  rw [if_neg (by omega), if_neg (by omega), if_pos (by omega), hlead]

theorem encode_four (h : 0x10000 ≤ c.toNat) :
    String.utf8EncodeChar c =
      [UInt8.ofNat (c.toNat / 262144 + 0xF0), UInt8.ofNat (c.toNat / 4096 % 64 + 0x80),
        UInt8.ofNat (c.toNat / 64 % 64 + 0x80), UInt8.ofNat (c.toNat % 64 + 0x80)] := by
  have hmax : c.toNat < 0x110000 := code_lt c
  have hlead : c.toNat / 262144 % 0x08 = c.toNat / 262144 := Nat.mod_eq_of_lt (by omega)
  unfold String.utf8EncodeChar
  dsimp only
  change (if c.toNat ≤ 0x7f then _ else if c.toNat ≤ 0x7ff then _ else if c.toNat ≤ 0xffff then _ else
    [UInt8.ofNat (c.toNat / 262144 % 0x08 + 0xf0), UInt8.ofNat (c.toNat / 4096 % 0x40 + 0x80),
      UInt8.ofNat (c.toNat / 64 % 0x40 + 0x80), UInt8.ofNat (c.toNat % 0x40 + 0x80)]) = _
  rw [if_neg (by omega), if_neg (by omega), if_neg (by omega), hlead]

end Forms

@[simp] theorem toUtf8_nil : toUtf8 [] = [] := rfl

@[simp] theorem toUtf8_cons (c : Char) (s : Str) :
    toUtf8 (c :: s) = String.utf8EncodeChar c ++ toUtf8 s := rfl

/-! ## What is read is what was written -/

theorem toUtf8_of_fromUtf8 (bytes : List UInt8) :
    ∀ text : Str, fromUtf8 bytes = some text → toUtf8 text = bytes := by
  fun_induction fromUtf8 bytes with
  | case1 =>
    intro text h
    obtain rfl := Option.some.inj h
    rfl
  | case2 a rest ha ih =>
    intro text h
    obtain ⟨text, hrest, rfl⟩ := Option.map_eq_some_iff.mp h
    have hcode : (Char.ofNat a.toNat).toNat = a.toNat := ofNat_code (.inl (by omega))
    rw [toUtf8_cons, encode_one (by omega), hcode, UInt8.ofNat_toNat, ih text hrest]
    rfl
  | case4 a ha b rest hform ih =>
    intro text h
    simp only [Option.bind_eq_bind, Option.bind_eq_some_iff, continuation_eq_some, scalar_eq_some,
      Option.map_eq_some_iff] at h
    obtain ⟨n, ⟨hn, hb⟩, c, ⟨hlow, hc⟩, text, hrest, rfl⟩ := h
    have hlead : UInt8.ofNat (c.toNat / 64 + 0xC0) = a := (byte_eq (by omega)).mpr (by omega)
    have hnext : UInt8.ofNat (c.toNat % 64 + 0x80) = b := (byte_eq (by omega)).mpr (by omega)
    rw [toUtf8_cons, encode_two (by omega) (by omega), hlead, hnext, ih text hrest]
    rfl
  | case6 a ha b hform c rest hform' ih =>
    intro text h
    simp only [Option.bind_eq_bind, Option.bind_eq_some_iff, continuation_eq_some, scalar_eq_some,
      Option.map_eq_some_iff] at h
    obtain ⟨n, ⟨hn, hb⟩, m, ⟨hm, hc⟩, ch, ⟨hlow, hch⟩, text, hrest, rfl⟩ := h
    have hlead : UInt8.ofNat (ch.toNat / 4096 + 0xE0) = a := (byte_eq (by omega)).mpr (by omega)
    have hnext : UInt8.ofNat (ch.toNat / 64 % 64 + 0x80) = b := (byte_eq (by omega)).mpr (by omega)
    have hlast : UInt8.ofNat (ch.toNat % 64 + 0x80) = c := (byte_eq (by omega)).mpr (by omega)
    rw [toUtf8_cons, encode_three (by omega) (by omega), hlead, hnext, hlast, ih text hrest]
    rfl
  | case8 a ha b hform c hform' d rest hform'' ih =>
    intro text h
    simp only [Option.bind_eq_bind, Option.bind_eq_some_iff, continuation_eq_some, scalar_eq_some,
      Option.map_eq_some_iff] at h
    obtain ⟨n, ⟨hn, hb⟩, m, ⟨hm, hc⟩, k, ⟨hk, hd⟩, ch, ⟨hlow, hch⟩, text, hrest, rfl⟩ := h
    have hlead : UInt8.ofNat (ch.toNat / 262144 + 0xF0) = a := (byte_eq (by omega)).mpr (by omega)
    have hnext : UInt8.ofNat (ch.toNat / 4096 % 64 + 0x80) = b := (byte_eq (by omega)).mpr (by omega)
    have hthird : UInt8.ofNat (ch.toNat / 64 % 64 + 0x80) = c := (byte_eq (by omega)).mpr (by omega)
    have hlast : UInt8.ofNat (ch.toNat % 64 + 0x80) = d := (byte_eq (by omega)).mpr (by omega)
    rw [toUtf8_cons, encode_four (by omega), hlead, hnext, hthird, hlast, ih text hrest]
    rfl
  | _ => simp

/-! ## What is written is read back -/

/-- A continuation byte gives its bits. -/
theorem continuation_byte {n : Nat} (h : n < 64) : continuation (UInt8.ofNat (n + 0x80)) = some n :=
  continuation_eq_some.mpr ⟨h, (byte_eq (by omega)).mp rfl⟩

theorem scalar_code {low : Nat} {c : Char} (h : low ≤ c.toNat) : scalar low c.toNat = some c :=
  scalar_eq_some.mpr ⟨h, rfl⟩

theorem fromUtf8_encode (c : Char) (bytes : List UInt8) :
    fromUtf8 (String.utf8EncodeChar c ++ bytes) = (fromUtf8 bytes).map (c :: ·) := by
  have hlead : ∀ {n : Nat}, n < 256 → (UInt8.ofNat n).toNat = n := fun h => (byte_eq h).mp rfl
  have hmax := code_lt c
  by_cases hone : c.toNat < 0x80
  · rw [encode_one hone, List.singleton_append, fromUtf8.eq_def]
    dsimp only
    rw [hlead (by omega), if_pos hone, Char.ofNat_toNat]
  by_cases htwo : c.toNat < 0x800
  · have hcode : (c.toNat / 64 + 0xC0 - 0xC0) * 64 + c.toNat % 64 = c.toNat := by omega
    rw [encode_two (by omega) htwo]
    rw [List.cons_append, fromUtf8.eq_def]
    simp only [List.cons_append, List.nil_append]
    rw [hlead (by omega), if_neg (by omega), if_pos (by omega),
      continuation_byte (by omega)]
    simp only [Option.bind_eq_bind, Option.bind_some, hcode, scalar_code (Nat.le_of_not_lt hone)]
  by_cases hthree : c.toNat < 0x10000
  · have hcode : ((c.toNat / 4096 + 0xE0 - 0xE0) * 64 + c.toNat / 64 % 64) * 64 + c.toNat % 64 =
        c.toNat := by omega
    rw [encode_three (by omega) hthree]
    rw [List.cons_append, fromUtf8.eq_def]
    simp only [List.cons_append, List.nil_append]
    rw [hlead (by omega), if_neg (by omega), if_neg (by omega), if_pos (by omega),
      continuation_byte (by omega), continuation_byte (by omega)]
    simp only [Option.bind_eq_bind, Option.bind_some, hcode, scalar_code (Nat.le_of_not_lt htwo)]
  · have hcode : (((c.toNat / 262144 + 0xF0 - 0xF0) * 64 + c.toNat / 4096 % 64) * 64 +
        c.toNat / 64 % 64) * 64 + c.toNat % 64 = c.toNat := by omega
    rw [encode_four (by omega)]
    rw [List.cons_append, fromUtf8.eq_def]
    simp only [List.cons_append, List.nil_append]
    rw [hlead (by omega), if_neg (by omega), if_neg (by omega), if_neg (by omega),
      if_pos (by omega), continuation_byte (by omega), continuation_byte (by omega),
      continuation_byte (by omega)]
    simp only [Option.bind_eq_bind, Option.bind_some, hcode, scalar_code (Nat.le_of_not_lt hthree)]

@[simp] theorem fromUtf8_toUtf8 (text : Str) : fromUtf8 (toUtf8 text) = some text := by
  induction text with
  | nil => rfl
  | cons c text ih => rw [toUtf8_cons, fromUtf8_encode, ih, Option.map_some]

/-- Bytes are read as the text they are the bytes of. -/
theorem fromUtf8_eq_some {bytes : List UInt8} {text : Str} :
    fromUtf8 bytes = some text ↔ toUtf8 text = bytes := by
  constructor
  · exact toUtf8_of_fromUtf8 bytes text
  · rintro rfl
    exact fromUtf8_toUtf8 text

end Zesterm
