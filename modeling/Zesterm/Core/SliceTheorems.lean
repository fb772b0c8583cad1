/-
Zesterm.Core.SliceTheorems — the slices of the text helpers in `perform.rs`.

A Rust string is sliced by byte offset, and an offset past the end or inside
a character panics. The helpers of `Text` compute on characters; here
`parse_color_spec`, `percent_decode` and the cutting of an OSC 7 URL are
written once more with the source's offsets, and `none` where it would
panic. The URL is cut where `find` found a character and percent escapes
are cut from bytes, so those two always return. The `#` forms of a colour
are cut at fixed offsets after a test of the length in bytes alone, which
is safe where a character is one byte.
-/
import Zesterm.Core.Perform
import Zesterm.Core.Utf8Theorems

namespace Zesterm

variable {bytes : List UInt8} {c : Char}

/-! ## Slices -/

/-- A text cut at byte offset `n`. -/
def splitAtByte : (n : Nat) → Str → Option (Str × Str)
  | 0, s => some ([], s)
  | _ + 1, [] => none
  | n + 1, c :: cs =>
    if c.utf8Size ≤ n + 1 then
      (splitAtByte (n + 1 - c.utf8Size) cs).map fun p => (c :: p.1, p.2)
    else none

/-- `&s[..n]`. -/
def sliceTo (s : Str) (n : Nat) : Option Str := (splitAtByte n s).map Prod.fst

/-- `&s[n..]`. -/
def sliceFrom (s : Str) (n : Nat) : Option Str := (splitAtByte n s).map Prod.snd

/-- `&s[i..j]`. -/
def slice (s : Str) (i j : Nat) : Option Str :=
  if i ≤ j then (sliceFrom s i).bind fun rest => sliceTo rest (j - i) else none

/-- `&bytes[i..j]`. -/
def sliceBytes (bytes : List UInt8) (i j : Nat) : Option (List UInt8) :=
  if i ≤ j ∧ j ≤ bytes.length then some ((bytes.drop i).take (j - i)) else none

/-- `s.find(sep)`: a byte offset. -/
def findByte (sep : Char) : Str → Option Nat
  | [] => none
  | c :: cs => if c = sep then some 0 else (findByte sep cs).map (c.utf8Size + ·)

theorem splitAtByte_cons (c : Char) (cs : Str) (n : Nat) :
    splitAtByte (c.utf8Size + n) (c :: cs) =
      (splitAtByte n cs).map fun p => (c :: p.1, p.2) := by
  have hpos := c.utf8Size_pos
  obtain ⟨m, hm⟩ : ∃ m, c.utf8Size + n = m + 1 := ⟨c.utf8Size + n - 1, by omega⟩
  rw [hm, splitAtByte, if_pos (by omega), ← hm, Nat.add_sub_cancel_left]

/-- The length of a text is an offset of any text it begins. -/
theorem splitAtByte_append (front back : Str) :
    splitAtByte (utf8Len front) (front ++ back) = some (front, back) := by
  induction front with
  | nil =>
    cases back <;> rfl
  | cons c front ih =>
    have hlen : utf8Len (c :: front) = c.utf8Size + utf8Len front := rfl
    rw [hlen, List.cons_append, splitAtByte_cons, ih]
    rfl

theorem findByte_eq_none {sep : Char} {s : Str} : findByte sep s = none ↔ sep ∉ s := by
  induction s with
  | nil => simp [findByte]
  | cons c cs ih =>
    rw [findByte]
    by_cases hc : c = sep
    · rw [if_pos hc]
      simp [hc]
    · rw [if_neg hc, Option.map_eq_none_iff, ih]
      simp [Ne.symm hc]

/-- What is found is where the first separator stands. -/
theorem findByte_eq_some {sep : Char} {s : Str} {n : Nat} (h : findByte sep s = some n) :
    n = utf8Len (s.takeWhile (· != sep)) := by
  induction s generalizing n with
  | nil => cases h
  | cons c cs ih =>
    rw [findByte] at h
    by_cases hc : c = sep
    · rw [if_pos hc] at h
      obtain rfl := Option.some.inj h
      rw [List.takeWhile_cons_of_neg (by simp [hc])]
      rfl
    · rw [if_neg hc, Option.map_eq_some_iff] at h
      obtain ⟨m, hm, rfl⟩ := h
      rw [List.takeWhile_cons_of_pos (by simp [hc]), ih hm]
      rfl

/-! ## Percent escapes -/

/-- The escape at byte `i`, if it is one. -/
def escapeAt (bytes : List UInt8) (i : Nat) : Option (Option Nat) := do
  let b ← bytes[i]?
  if b = 0x25 ∧ i + 2 < bytes.length then
    let hex ← sliceBytes bytes (i + 1) (i + 3)
    some ((fromUtf8 hex).bind (parseRadix 16 255))
  else some none

/-- The loop of `percent_decode`. -/
def percentLoop (bytes : List UInt8) (i : Nat) (out : List UInt8) : Option (List UInt8) :=
  if _h : i < bytes.length then
    match escapeAt bytes i, bytes[i]? with
    | some (some v), _ => percentLoop bytes (i + 3) (out ++ [UInt8.ofNat v])
    | some none, some b => percentLoop bytes (i + 1) (out ++ [b])
    | _, _ => none
  else some out
termination_by bytes.length - i

/-- `percent_decode`, with the range checks of its slices. -/
def percentDecodeChecked (s : Str) : Option Str :=
  (percentLoop (toUtf8 s) 0 []).map fun out => (fromUtf8 out).getD s

/-- The escape a text of bytes begins with. -/
def leadingEscape : List UInt8 → Option Nat
  | a :: b :: c :: _ => if a = 0x25 then (fromUtf8 [b, c]).bind (parseRadix 16 255) else none
  | _ => none

theorem percentBytes_cons (a : UInt8) (rest : List UInt8) :
    percentBytes (a :: rest) =
      match leadingEscape (a :: rest) with
      | some v => UInt8.ofNat v :: percentBytes (rest.drop 2)
      | none => a :: percentBytes rest := by
  match rest with
  | [] => rfl
  | [b] => rfl
  | b :: c :: tail =>
    rw [percentBytes, leadingEscape]
    rfl

theorem escapeAt_eq {i : Nat} (h : i < bytes.length) :
    escapeAt bytes i = some (leadingEscape (bytes.drop i)) := by
  unfold escapeAt
  rw [List.getElem?_eq_getElem h, Option.bind_eq_bind, Option.bind_some]
  have hlen : (bytes.drop i).length = bytes.length - i := List.length_drop
  have hhead : (bytes.drop i)[0]? = some bytes[i] := by
    rw [List.getElem?_drop, Nat.add_zero, List.getElem?_eq_getElem h]
  have hslice : sliceBytes bytes (i + 1) (i + 3) =
      if i + 3 ≤ bytes.length then some (((bytes.drop i).drop 1).take 2) else none := by
    rw [sliceBytes, List.drop_drop, show i + 3 - (i + 1) = 2 by omega]
    simp only [show i + 1 ≤ i + 3 by omega, true_and]
  rw [hslice]
  cases hrest : bytes.drop i with
  | nil =>
    rw [hrest] at hhead
    cases hhead
  | cons a rest =>
    rw [hrest] at hhead hlen
    obtain rfl := Option.some.inj hhead
    rw [List.length_cons] at hlen
    match rest with
    | [] =>
      rw [if_neg (by simp only [List.length_nil] at hlen; omega)]
      rfl
    | [b] =>
      rw [if_neg (by simp only [List.length_cons, List.length_nil] at hlen; omega)]
      rfl
    | b :: c :: tail =>
      simp only [List.length_cons] at hlen
      rw [if_pos (by omega : i + 3 ≤ bytes.length), leadingEscape]
      by_cases ha : bytes[i] = 0x25
      · rw [if_pos ⟨ha, by omega⟩, if_pos ha]
        rfl
      · rw [if_neg (fun h => ha h.1), if_neg ha]

/-- The loop never leaves the bytes, and decodes what is left of them. -/
theorem percentLoop_eq (bytes : List UInt8) (i : Nat) (out : List UInt8) :
    percentLoop bytes i out = some (out ++ percentBytes (bytes.drop i)) := by
  induction hn : bytes.length - i using Nat.strongRecOn generalizing i out with
  | ind n ih =>
    rw [percentLoop]
    by_cases h : i < bytes.length
    · rw [dif_pos h, escapeAt_eq h, List.getElem?_eq_getElem h, List.drop_eq_getElem_cons h,
        percentBytes_cons]
      cases leadingEscape (bytes[i] :: bytes.drop (i + 1)) with
      | none =>
        dsimp only
        rw [ih (bytes.length - (i + 1)) (by omega) (i + 1) _ rfl, List.append_assoc]
        rfl
      | some v =>
        dsimp only
        rw [ih (bytes.length - (i + 3)) (by omega) (i + 3) _ rfl, List.append_assoc, List.drop_drop]
        rfl
    · rw [dif_neg h, List.drop_eq_nil_of_le (Nat.le_of_not_lt h)]
      simp [percentBytes]

theorem percentDecodeChecked_eq (s : Str) : percentDecodeChecked s = some (percentDecode s) := by
  rw [percentDecodeChecked, percentLoop_eq]
  rfl

/-! ## What an encoder writes -/

/-- `text` writes `bytes` with percent escapes: any character but `%` may
stand for its own bytes, and any byte may be written as `%` and two hex
digits of either case. -/
inductive PercentEncodes : (text : Str) → (bytes : List UInt8) → Prop
  | nil : PercentEncodes [] []
  | plain {c : Char} {text : Str} {bytes : List UInt8} :
    c ≠ '%' → PercentEncodes text bytes →
    PercentEncodes (c :: text) (String.utf8EncodeChar c ++ bytes)
  | escape {hi lo : Char} {v w : Nat} {text : Str} {bytes : List UInt8} :
    digitValue 16 hi = some v → digitValue 16 lo = some w → PercentEncodes text bytes →
    PercentEncodes ('%' :: hi :: lo :: text) (UInt8.ofNat (v * 16 + w) :: bytes)

theorem digitValue_lt {radix v : Nat} (h : digitValue radix c = some v) : v < radix := by
  have hfilter : ∀ n : Nat, (if n < radix then some n else none) = some v → v < radix := by
    intro n hn
    split at hn
    · next hlt =>
      obtain rfl := Option.some.inj hn
      exact hlt
    · cases hn
  exact hfilter _ h

theorem digit_ascii {v : Nat} (h : digitValue 16 c = some v) : c.toNat < 0x80 ∧ c ≠ '+' := by
  refine ⟨?_, ?_⟩
  · unfold digitValue at h
    dsimp only at h
    by_contra hge
    rw [if_neg (show ¬ (48 ≤ c.toNat ∧ c.toNat ≤ 57) by omega),
      if_neg (show ¬ (97 ≤ c.toNat ∧ c.toNat ≤ 122) by omega),
      if_neg (show ¬ (65 ≤ c.toNat ∧ c.toNat ≤ 90) by omega), if_neg (Nat.lt_irrefl _)] at h
    cases h
  · rintro rfl
    rw [show digitValue 16 '+' = none by decide] at h
    cases h

/-- Two hex digits are one byte. -/
theorem parseRadix_pair {hi lo : Char} {v w : Nat} (hv : digitValue 16 hi = some v)
    (hw : digitValue 16 lo = some w) : parseRadix 16 255 [hi, lo] = some (v * 16 + w) := by
  have hvlt := digitValue_lt hv
  have hwlt := digitValue_lt hw
  have hplus := (digit_ascii hv).2
  have hdigits : parseDigits 16 [hi, lo] = some (v * 16 + w) := by
    simp [parseDigits, hv, hw]
  unfold parseRadix
  split
  · next heq => exact absurd (List.cons.inj heq).1 hplus
  · rw [if_neg (by simp), hdigits, Option.filter_some, if_pos (by simp; omega)]

theorem fromUtf8_ascii (h : c.toNat < 0x80) :
    fromUtf8 (UInt8.ofNat c.toNat :: bytes) = (fromUtf8 bytes).map (c :: ·) := by
  have henc := fromUtf8_encode c bytes
  rw [encode_one h] at henc
  exact henc

/-- Only `%` has the byte of `%`. -/
theorem percent_notMem (hc : c ≠ '%') : ∀ b ∈ String.utf8EncodeChar c, b ≠ 0x25 := by
  have hbyte : ∀ n, n < 256 → n ≠ 37 → UInt8.ofNat n ≠ 0x25 := by
    intro n hn hne h
    exact hne ((byte_eq hn).mp h).symm
  have hmax : c.toNat < 0x110000 := code_lt c
  have hcode : c.toNat ≠ 37 := by
    intro heq
    exact hc (by rw [← Char.ofNat_toNat c, heq])
  by_cases h₁ : c.toNat < 0x80
  · rw [encode_one h₁, List.forall_mem_singleton]
    exact hbyte _ (by omega) hcode
  by_cases h₂ : c.toNat < 0x800
  · rw [encode_two (by omega) h₂]
    simp only [List.forall_mem_cons]
    exact ⟨hbyte _ (by omega) (by omega), hbyte _ (by omega) (by omega), nofun⟩
  by_cases h₃ : c.toNat < 0x10000
  · rw [encode_three (by omega) h₃]
    simp only [List.forall_mem_cons]
    exact ⟨hbyte _ (by omega) (by omega), hbyte _ (by omega) (by omega),
      hbyte _ (by omega) (by omega), nofun⟩
  · rw [encode_four (by omega)]
    simp only [List.forall_mem_cons]
    exact ⟨hbyte _ (by omega) (by omega), hbyte _ (by omega) (by omega),
      hbyte _ (by omega) (by omega), hbyte _ (by omega) (by omega), nofun⟩

theorem percentBytes_plain (hc : c ≠ '%') (bytes : List UInt8) :
    percentBytes (String.utf8EncodeChar c ++ bytes) = String.utf8EncodeChar c ++ percentBytes bytes := by
  have hnone := percent_notMem hc
  generalize String.utf8EncodeChar c = front at hnone
  induction front with
  | nil => rfl
  | cons b front ih =>
    rw [List.forall_mem_cons] at hnone
    have hleading : leadingEscape (b :: (front ++ bytes)) = none := by
      unfold leadingEscape
      split
      · next heq =>
        obtain ⟨rfl, -⟩ := List.cons.inj heq
        rw [if_neg hnone.1]
      · rfl
    rw [List.cons_append, percentBytes_cons, hleading, ih hnone.2]
    rfl

/-- Decoding undoes the escapes, byte for byte. -/
theorem percentBytes_of_encodes {text : Str} (h : PercentEncodes text bytes) :
    percentBytes (toUtf8 text) = bytes := by
  induction h with
  | nil => rfl
  | @plain c text bytes hc _ ih => rw [toUtf8_cons, percentBytes_plain hc, ih]
  | @escape hi lo v w text bytes hv hw _ ih =>
    obtain ⟨hhi, -⟩ := digit_ascii hv
    obtain ⟨hlo, -⟩ := digit_ascii hw
    have hpair : fromUtf8 [UInt8.ofNat hi.toNat, UInt8.ofNat lo.toNat] = some [hi, lo] := by
      rw [fromUtf8_ascii hhi, fromUtf8_ascii hlo]
      rfl
    have hleading : leadingEscape (0x25 :: UInt8.ofNat hi.toNat :: UInt8.ofNat lo.toNat ::
        toUtf8 text) = some (v * 16 + w) := by
      rw [leadingEscape, if_pos rfl, hpair, Option.bind_some, parseRadix_pair hv hw]
    rw [toUtf8_cons, toUtf8_cons, toUtf8_cons, encode_one hhi, encode_one hlo,
      encode_one (by decide)]
    simp only [List.cons_append, List.nil_append]
    rw [show UInt8.ofNat '%'.toNat = 0x25 from rfl, percentBytes_cons, hleading]
    simp only [List.drop_succ_cons, List.drop_zero, ih]

/-! ## The helpers, with their panics -/

/-- The host and the path of an OSC 7 URL, cut where `find` found the first
slash. -/
def cwdParts (url : Str) : Option (Option Str × Str) :=
  match stripPrefix ['f', 'i', 'l', 'e', ':', '/', '/'] url with
  | none => some (none, url)
  | some rest =>
    match findByte '/' rest with
    | none => some (none, rest)
    | some slash =>
      (sliceTo rest slash).bind fun authority => (sliceFrom rest slash).map fun path =>
        (if authority.isEmpty then none else some authority, path)

/-- `osc_cwd`. -/
def oscCwdChecked (s : TermState) (params : List (List UInt8)) : Option TermState :=
  match TermState.oscText params 1 with
  | none => some s
  | some url =>
    (cwdParts url).bind fun p => (percentDecodeChecked p.2).map fun path => s.setCwd p.1 path

/-- The numbers at the places `cuts` of a text, in turn: the first that is no
number is the end of it. -/
def hexAt (hex : Str) : (cuts : List (Nat × Nat)) → Option (Option (List UInt8))
  | [] => some (some [])
  | (i, j) :: cuts =>
    (slice hex i j).bind fun text =>
      match parseRadix 16 255 text with
      | none => some none
      | some v => (hexAt hex cuts).map fun rest => rest.map (UInt8.ofNat v :: ·)

/-- `parse_color_spec`. -/
def parseColorSpecChecked (spec : Str) : Option (Option Rgb) :=
  match stripPrefix ['r', 'g', 'b', ':'] spec with
  | some _ => some (parseColorSpec spec)
  | none =>
    match stripPrefix ['#'] spec with
    | none => some none
    | some hex =>
      match utf8Len hex with
      | 3 => (hexAt hex [(0, 1), (1, 2), (2, 3)]).map fun parts => parts.bind fun parts =>
          match parts with
          | [r, g, b] => some ⟨r * 17, g * 17, b * 17⟩
          | _ => none
      | 6 => (hexAt hex [(0, 2), (2, 4), (4, 6)]).map fun parts => parts.bind fun parts =>
          match parts with
          | [r, g, b] => some ⟨r, g, b⟩
          | _ => none
      | _ => some none

/-- A `#` form of a length in bytes that is cut up, with a character of
several bytes in it. -/
def Torn (spec : Str) : Prop :=
  ∃ hex, stripPrefix ['#'] spec = some hex ∧ (utf8Len hex = 3 ∨ utf8Len hex = 6) ∧
    ∃ c ∈ hex, 0x80 ≤ c.toNat

theorem oscCwdChecked_eq (s : TermState) (params : List (List UInt8)) :
    oscCwdChecked s params = some (s.oscCwd params) := by
  unfold oscCwdChecked TermState.oscCwd
  cases TermState.oscText params 1 with
  | none => rfl
  | some url =>
    dsimp only
    unfold cwdParts
    cases stripPrefix ['f', 'i', 'l', 'e', ':', '/', '/'] url with
    | none => rw [Option.bind_some, percentDecodeChecked_eq]; rfl
    | some rest =>
      dsimp only
      cases hfind : findByte '/' rest with
      | none =>
        have hmem := findByte_eq_none.mp hfind
        rw [if_neg (by simpa using hmem), Option.bind_some, percentDecodeChecked_eq]
        rfl
      | some slash =>
        have hmem : '/' ∈ rest := by
          by_contra hmem
          rw [findByte_eq_none.mpr hmem] at hfind
          cases hfind
        have hcut : splitAtByte slash rest =
            some (rest.takeWhile (· != '/'), rest.dropWhile (· != '/')) := by
          have happend := splitAtByte_append (rest.takeWhile (· != '/')) (rest.dropWhile (· != '/'))
          rw [List.takeWhile_append_dropWhile] at happend
          rw [findByte_eq_some hfind, happend]
        rw [if_pos (by simpa using hmem)]
        simp only [sliceTo, sliceFrom, hcut, Option.map_some, Option.bind_some,
          percentDecodeChecked_eq]

theorem utf8Len_cons (c : Char) (s : Str) : utf8Len (c :: s) = c.utf8Size + utf8Len s := rfl

/-- Text of one-byte characters is cut between any two of them. -/
theorem hexAt_three {a b : Char} (ha : a.utf8Size = 1) (hb : b.utf8Size = 1) (hc : c.utf8Size = 1) :
    slice [a, b, c] 0 1 = some [a] ∧ slice [a, b, c] 1 2 = some [b] ∧
      slice [a, b, c] 2 3 = some [c] := by
  simp [slice, sliceFrom, sliceTo, splitAtByte, ha, hb, hc]

theorem hexAt_six {a b d e f : Char} (ha : a.utf8Size = 1) (hb : b.utf8Size = 1)
    (hc : c.utf8Size = 1) (hd : d.utf8Size = 1) (he : e.utf8Size = 1) (hf : f.utf8Size = 1) :
    slice [a, b, c, d, e, f] 0 2 = some [a, b] ∧ slice [a, b, c, d, e, f] 2 4 = some [c, d] ∧
      slice [a, b, c, d, e, f] 4 6 = some [e, f] := by
  simp [slice, sliceFrom, sliceTo, splitAtByte, ha, hb, hc, hd, he, hf]

theorem parseColorSpecChecked_eq {spec : Str} (h : ¬ Torn spec) :
    parseColorSpecChecked spec = some (parseColorSpec spec) := by
  unfold parseColorSpecChecked
  cases hrgb : stripPrefix ['r', 'g', 'b', ':'] spec with
  | some rest => rfl
  | none =>
    dsimp only
    unfold parseColorSpec
    rw [hrgb]
    cases hhex : stripPrefix ['#'] spec with
    | none => rfl
    | some hex =>
      dsimp only [Option.bind_eq_bind, Option.bind_some]
      have hone : utf8Len hex = 3 ∨ utf8Len hex = 6 → ∀ c ∈ hex, c.utf8Size = 1 := by
        intro hlen c hc
        by_contra hsize
        refine h ⟨hex, hhex, hlen, c, hc, ?_⟩
        by_contra hlt
        exact hsize (Char.utf8Size_eq_one_iff.mpr (Nat.le_of_lt_succ (Nat.lt_of_not_le hlt)))
      have hlength : (∀ c ∈ hex, c.utf8Size = 1) → utf8Len hex = hex.length := by
        intro hall
        rw [utf8Len, List.map_congr_left hall]
        simp
      split
      · next hthree =>
        have hall := hone (.inl hthree)
        have hlen := hlength hall
        rw [hthree] at hlen
        obtain ⟨a, b, c, rfl⟩ := List.length_eq_three.mp hlen.symm
        simp only [List.forall_mem_cons] at hall
        obtain ⟨hr, hg, hb⟩ := hexAt_three hall.1 hall.2.1 hall.2.2.1
        simp only [hexAt, hr, hg, hb, Option.bind_some, hthree]
        cases parseRadix 16 255 [a] <;> cases parseRadix 16 255 [b] <;>
          cases parseRadix 16 255 [c] <;> rfl
      · next hsix =>
        have hall := hone (.inr hsix)
        have hlen := hlength hall
        rw [hsix] at hlen
        match hex, hlen, hall, hsix with
        | [a, b, c, d, e, f], _, hall, hsix =>
          simp only [List.forall_mem_cons] at hall
          obtain ⟨hr, hg, hb⟩ := hexAt_six hall.1 hall.2.1 hall.2.2.1 hall.2.2.2.1
            hall.2.2.2.2.1 hall.2.2.2.2.2.1
          simp only [hexAt, hr, hg, hb, Option.bind_some, hsix]
          cases parseRadix 16 255 [a, b] <;> cases parseRadix 16 255 [c, d] <;>
            cases parseRadix 16 255 [e, f] <;> rfl
      · next hthree hsix =>
        split
        · next heq => exact absurd heq hthree
        · next heq => exact absurd heq hsix
        · rfl

/-- A two-byte character under the cut between the first two digits. -/
example : parseColorSpecChecked ['#', 'é', '1'] = none := by decide

/-- Every helper returns on every text, a torn colour apart, and gives what it
computes on characters; an escaped byte string comes back as it was if it is
a text, and as it arrived if it is not. -/
theorem helpers_return :
    (∀ spec : Str, ¬ Torn spec → parseColorSpecChecked spec = some (parseColorSpec spec)) ∧
    (∀ (s : TermState) (params : List (List UInt8)),
      oscCwdChecked s params = some (s.oscCwd params)) ∧
    (∀ text : Str, percentDecodeChecked text = some (percentDecode text)) ∧
    ∀ (text : Str) (bytes : List UInt8), PercentEncodes text bytes →
      ∃ decoded, percentDecodeChecked text = some decoded ∧
        (fromUtf8 bytes ≠ none → toUtf8 decoded = bytes) ∧
        (fromUtf8 bytes = none → decoded = text) := by
  refine ⟨fun spec h => parseColorSpecChecked_eq h, oscCwdChecked_eq, percentDecodeChecked_eq, ?_⟩
  intro text bytes h
  refine ⟨percentDecode text, percentDecodeChecked_eq text, ?_, ?_⟩
  all_goals
    unfold percentDecode
    rw [percentBytes_of_encodes h]
    intro hbytes
  · obtain ⟨t, ht⟩ := Option.ne_none_iff_exists'.mp hbytes
    rw [ht, Option.getD_some]
    exact fromUtf8_eq_some.mp ht
  · rw [hbytes]
    rfl

/-- The byte 255 is no text, and its escape is left as it arrived. -/
theorem escape_left : PercentEncodes ['%', 'F', 'F'] [0xFF] ∧
    percentDecodeChecked ['%', 'F', 'F'] = some ['%', 'F', 'F'] ∧
    ¬ ∀ (text : Str) (bytes : List UInt8), PercentEncodes text bytes →
      ∃ decoded, percentDecodeChecked text = some decoded ∧ toUtf8 decoded = bytes := by
  have hencodes : PercentEncodes ['%', 'F', 'F'] [0xFF] :=
    .escape (v := 15) (w := 15) (by decide) (by decide) .nil
  have hdecoded : percentDecodeChecked ['%', 'F', 'F'] = some ['%', 'F', 'F'] := by
    rw [percentDecodeChecked_eq]
    decide
  refine ⟨hencodes, hdecoded, fun hall => ?_⟩
  obtain ⟨decoded, hsome, hbytes⟩ := hall _ _ hencodes
  rw [hdecoded] at hsome
  obtain rfl := Option.some.inj hsome
  exact absurd hbytes (by decide)

end Zesterm
