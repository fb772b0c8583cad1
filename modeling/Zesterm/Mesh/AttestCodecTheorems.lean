/-
Zesterm.Mesh.AttestCodecTheorems — the blobs the daemon accepts.

A part of a blob is a list of sextets, one character each, and the decoder
takes it if no bit is left over (`base64urlDecode_eq_some`). A message is
read field by field, each by the reader of what the encoder writes, so it is
accepted exactly if it is the message of a statement of this version
(`parseMessage_eq_some`). Together: a blob is accepted exactly if it spells
a statement and a signature canonically (`decodeAttestation_eq_some`).
-/
import Zesterm.Core.Utf8Theorems
import Zesterm.Mesh.AttestCodec
import Zesterm.Mesh.PreimageTheorems

namespace Zesterm

open Coding Sextets

/-! ## Characters -/

/-- The character of a sextet, as its one byte. -/
def alphabetByte (v : Nat) : UInt8 := UInt8.ofNat (alphabetChar v).toNat

/-- What is not a sextet is written as the first. -/
theorem alphabetChar_of_le {v : Nat} (h : 64 ≤ v) : alphabetChar v = 'A' := by
  rw [alphabetChar, List.getD_eq_getElem?_getD, List.getElem?_eq_none (by exact h)]
  rfl

theorem alphabet_chars : alphabet =
  ['A', 'B', 'C', 'D', 'E', 'F', 'G', 'H', 'I', 'J', 'K', 'L', 'M', 'N', 'O', 'P', 'Q', 'R', 'S',
    'T', 'U', 'V', 'W', 'X', 'Y', 'Z', 'a', 'b', 'c', 'd', 'e', 'f', 'g', 'h', 'i', 'j', 'k',
    'l', 'm', 'n', 'o', 'p', 'q', 'r', 's', 't', 'u', 'v', 'w', 'x', 'y', 'z', '0', '1', '2',
    '3', '4', '5', '6', '7', '8', '9', '-', '_'] := by
  decide

/-- The alphabet, character by character: ASCII, read back as the sextet it
writes, and no dot. -/
theorem alphabet_table : ∀ v < 64, (alphabetChar v).toNat < 128 ∧
    sextet (alphabetByte v) = some v ∧ alphabetChar v ≠ '.' := by
  simp only [alphabetByte, alphabetChar, alphabet_chars]
  decide

theorem alphabetChar_ascii (v : Nat) : (alphabetChar v).toNat < 128 := by
  by_cases h : v < 64
  · exact (alphabet_table v h).1
  · rw [alphabetChar_of_le (Nat.le_of_not_lt h)]
    decide

theorem toUtf8_alphabet (vs : List Nat) :
    toUtf8 (vs.map alphabetChar) = vs.map alphabetByte := by
  induction vs with
  | nil => rfl
  | cons v vs ih =>
    rw [List.map_cons, toUtf8_cons, encode_one (alphabetChar_ascii v), ih, List.map_cons]
    rfl

theorem sextet_alphabetByte (v : Nat) (h : v < 64) : sextet (alphabetByte v) = some v :=
  (alphabet_table v h).2.1

/-- What stands for a sextet: which byte that is. -/
theorem sextet_cases {b : UInt8} {v : Nat} (h : sextet b = some v) :
    (v < 26 ∧ b.toNat = v + 65) ∨ (26 ≤ v ∧ v < 52 ∧ b.toNat = v + 71) ∨
      (52 ≤ v ∧ v < 62 ∧ b.toNat = v - 4) ∨ (v = 62 ∧ b.toNat = 45) ∨ v = 63 ∧ b.toNat = 95 := by
  unfold sextet at h
  dsimp only at h
  split_ifs at h
  all_goals
    obtain rfl := Option.some.inj h
    omega

theorem sextet_eq_some {b : UInt8} {v : Nat} :
    sextet b = some v ↔ v < 64 ∧ b = alphabetByte v := by
  constructor
  · intro h
    have hb := sextet_cases h
    have hv : v < 64 := by omega
    have hchar := sextet_cases (sextet_alphabetByte v hv)
    exact ⟨hv, UInt8.toNat_inj.mp (by omega)⟩
  · rintro ⟨h, rfl⟩
    exact sextet_alphabetByte v h

/-- The alphabet has every character once. -/
theorem alphabetChar_injective {v w : Nat} (hv : v < 64) (hw : w < 64)
    (h : alphabetChar v = alphabetChar w) : v = w := by
  have hbyte : alphabetByte v = alphabetByte w := by rw [alphabetByte, h, alphabetByte]
  have heq := sextet_alphabetByte v hv
  rw [hbyte, sextet_alphabetByte w hw] at heq
  exact (Option.some.inj heq).symm

theorem map_alphabetChar_injective : ∀ {vs ws : List Nat}, (∀ v ∈ vs, v < 64) →
    (∀ w ∈ ws, w < 64) → vs.map alphabetChar = ws.map alphabetChar → vs = ws
  | [], [], _, _, _ => rfl
  | [], w :: ws, _, _, h => by simp at h
  | v :: vs, [], _, _, h => by simp at h
  | v :: vs, w :: ws, hv, hw, h => by
    rw [List.forall_mem_cons] at hv hw
    simp only [List.map_cons, List.cons.injEq] at h
    rw [alphabetChar_injective hv.1 hw.1 h.1, map_alphabetChar_injective hv.2 hw.2 h.2]

theorem dot_notMem_alphabet (vs : List Nat) : '.' ∉ vs.map alphabetChar := by
  rw [List.mem_map]
  rintro ⟨v, -, hv⟩
  by_cases h : v < 64
  · exact (alphabet_table v h).2.2 hv
  · rw [alphabetChar_of_le (Nat.le_of_not_lt h)] at hv
    exact absurd hv (by decide)

/-! ## Parts -/

theorem push_zero (acc v : Nat) (out : List UInt8) :
    Bits.push ⟨acc, 0, out⟩ v = ⟨acc * 64 % 2 ^ 32 + v, 6, out⟩ := rfl

theorem push_six (acc v : Nat) (out : List UInt8) :
    Bits.push ⟨acc, 6, out⟩ v =
      ⟨acc * 64 % 2 ^ 32 + v, 4, out ++ [UInt8.ofNat ((acc * 64 % 2 ^ 32 + v) / 16)]⟩ := rfl

theorem push_four (acc v : Nat) (out : List UInt8) :
    Bits.push ⟨acc, 4, out⟩ v =
      ⟨acc * 64 % 2 ^ 32 + v, 2, out ++ [UInt8.ofNat ((acc * 64 % 2 ^ 32 + v) / 4)]⟩ := rfl

theorem push_two (acc v : Nat) (out : List UInt8) :
    Bits.push ⟨acc, 2, out⟩ v =
      ⟨acc * 64 % 2 ^ 32 + v, 0, out ++ [UInt8.ofNat (acc * 64 % 2 ^ 32 + v)]⟩ := by
  rw [Bits.push, if_pos (by simp)]
  simp

/-- A byte is a number's last. -/
theorem ofNat_congr {m n : Nat} (h : m % 256 = n % 256) : UInt8.ofNat m = UInt8.ofNat n := by
  rw [← UInt8.toNat_inj, UInt8.toNat_ofNat', UInt8.toNat_ofNat']
  exact h

section Bytes

variable (acc a b : Nat)

theorem first_byte :
    UInt8.ofNat (((acc * 64 % 2 ^ 32 + a) * 64 % 2 ^ 32 + b) / 16) =
      UInt8.ofNat (a * 4 + b / 16) :=
  ofNat_congr (by omega)

theorem second_byte :
    UInt8.ofNat (((acc * 64 % 2 ^ 32 + a) * 64 % 2 ^ 32 + b) / 4) =
      UInt8.ofNat (a % 16 * 16 + b / 4) :=
  ofNat_congr (by omega)

theorem third_byte :
    UInt8.ofNat ((acc * 64 % 2 ^ 32 + a) * 64 % 2 ^ 32 + b) = UInt8.ofNat (a % 4 * 64 + b) :=
  ofNat_congr (by omega)

end Bytes

variable {text : Str} {bytes message : List UInt8} {a : Attestation} {sig : Signature}
  {d : DecodedAttestation}

/-- The loop collects the bytes, and its last bits are the ones left over. -/
theorem foldl_push (vs : List Nat) : (∀ v ∈ vs, v < 64) → ∀ bytes spare,
    join vs = some (bytes, spare) → ∀ acc out s, vs.foldl Bits.push ⟨acc, 0, out⟩ = s →
    s.out = out ++ bytes ∧ (s.bits > 0 ∧ s.acc % 2 ^ s.bits ≠ 0 ↔ spare ≠ 0) := by
  fun_induction join vs with
  | case1 =>
    rintro - bytes spare h acc out s rfl
    simp only [Option.some.injEq, Prod.mk.injEq] at h
    obtain ⟨rfl, rfl⟩ := h
    simp
  | case2 => simp
  | case3 a b =>
    rintro hlt bytes spare h acc out s rfl
    simp only [List.forall_mem_cons] at hlt
    simp only [Option.some.injEq, Prod.mk.injEq] at h
    obtain ⟨rfl, rfl⟩ := h
    simp only [List.foldl_cons, List.foldl_nil, push_zero, push_six]
    rw [first_byte]
    exact ⟨rfl, by omega⟩
  | case4 a b c =>
    rintro hlt bytes spare h acc out s rfl
    simp only [List.forall_mem_cons] at hlt
    simp only [Option.some.injEq, Prod.mk.injEq] at h
    obtain ⟨rfl, rfl⟩ := h
    simp only [List.foldl_cons, List.foldl_nil, push_zero, push_six, push_four]
    rw [first_byte, second_byte]
    exact ⟨by simp, by omega⟩
  | case5 a b c d vs ih =>
    rintro hlt bytes spare h acc out s rfl
    simp only [List.forall_mem_cons] at hlt
    simp only [Option.bind_eq_bind, Option.bind_eq_some_iff, Option.pure_def, Option.some.injEq,
      Prod.mk.injEq] at h
    obtain ⟨tail, hjoin, rfl, rfl⟩ := h
    simp only [List.foldl_cons, push_zero, push_six, push_four, push_two]
    rw [first_byte, second_byte,
      third_byte]
    obtain ⟨hout, hspare⟩ := ih hlt.2.2.2.2 _ _ hjoin _ _ _ rfl
    exact ⟨hout.trans (by simp), hspare⟩

/-- Every character is a sextet, or the loop stops. -/
theorem foldlM_push : ∀ (bytes : List UInt8) (s s' : Bits),
    bytes.foldlM (fun (s : Bits) b => (sextet b).map s.push) s = some s' ↔
      ∃ vs : List Nat, (∀ v ∈ vs, v < 64) ∧ bytes = vs.map alphabetByte ∧ s' = vs.foldl Bits.push s
  | [], s, s' => by
    constructor
    · intro h
      exact ⟨[], by simp, rfl, (Option.some.inj h).symm⟩
    · rintro ⟨vs, -, hvs, rfl⟩
      obtain rfl := List.map_eq_nil_iff.mp hvs.symm
      rfl
  | b :: bytes, s, s' => by
    rw [List.foldlM_cons, Option.bind_eq_bind, Option.bind_eq_some_iff]
    simp only [Option.map_eq_some_iff, sextet_eq_some, foldlM_push bytes]
    constructor
    · rintro ⟨-, ⟨v, ⟨hv, rfl⟩, rfl⟩, vs, hvs, rfl, rfl⟩
      exact ⟨v :: vs, List.forall_mem_cons.mpr ⟨hv, hvs⟩, rfl, rfl⟩
    · rintro ⟨vs, hvs, heq, rfl⟩
      obtain ⟨v, ws, rfl, rfl, rfl⟩ := List.map_eq_cons_iff.mp heq.symm
      rw [List.forall_mem_cons] at hvs
      exact ⟨_, ⟨v, ⟨hvs.1, rfl⟩, rfl⟩, ws, hvs.2, rfl, rfl⟩

/-- `text` writes `bytes`, with `spare` in the bits left over. -/
def Spelt (text : Str) (bytes : List UInt8) (spare : Nat) : Prop :=
  ∃ vs : List Nat, (∀ v ∈ vs, v < 64) ∧ text = vs.map alphabetChar ∧ Spells vs bytes spare

theorem Spelt.unique {bytes' : List UInt8} {spare spare' : Nat} (h : Spelt text bytes spare)
    (h' : Spelt text bytes' spare') : bytes = bytes' ∧ spare = spare' := by
  obtain ⟨vs, hlt, rfl, hspells⟩ := h
  obtain ⟨ws, hlt', heq, hspells'⟩ := h'
  obtain rfl := map_alphabetChar_injective hlt hlt' heq
  exact hspells.unique hspells' hlt

theorem Spelt.dot_notMem {spare : Nat} (h : Spelt text bytes spare) : '.' ∉ text := by
  obtain ⟨vs, -, rfl, -⟩ := h
  exact dot_notMem_alphabet vs

/-- A part is accepted if it writes bytes and leaves no bit over. -/
theorem base64urlDecode_eq_some : base64urlDecode text = some bytes ↔ Spelt text bytes 0 := by
  unfold base64urlDecode
  dsimp only
  constructor
  · intro h
    split at h
    · cases h
    · next hlen =>
      rw [Option.bind_eq_bind, Option.bind_eq_some_iff] at h
      obtain ⟨s, hfold, hs⟩ := h
      obtain ⟨vs, hlt, htext, hs'⟩ := (foldlM_push _ _ _).mp hfold
      rw [htext, List.length_map, ← join_eq_none, Option.eq_none_iff_forall_ne_some] at hlen
      push Not at hlen
      obtain ⟨p, hjoin⟩ := hlen
      obtain ⟨hout, hspare⟩ := foldl_push vs hlt p.1 p.2 hjoin 0 [] s hs'.symm
      split at hs
      · cases hs
      · next hcanonical =>
        obtain rfl := Option.some.inj hs
        rw [hspare, not_not] at hcanonical
        refine ⟨vs, hlt, toUtf8_injective (by rw [htext, toUtf8_alphabet]), ?_⟩
        rw [← join_eq_some hlt, hjoin, hout, ← hcanonical]
        rfl
  · rintro ⟨vs, hlt, rfl, hspells⟩
    have hjoin := (join_eq_some hlt).mpr hspells
    obtain ⟨hout, hspare⟩ := foldl_push vs hlt bytes 0 hjoin 0 [] _ rfl
    have hlen : ¬ (toUtf8 (vs.map alphabetChar)).length % 4 = 1 := by
      rw [toUtf8_alphabet, List.length_map, ← join_eq_none, hjoin]
      simp
    rw [if_neg hlen, Option.bind_eq_bind, Option.bind_eq_some_iff]
    refine ⟨_, (foldlM_push _ _ _).mpr ⟨vs, hlt, toUtf8_alphabet vs, rfl⟩, ?_⟩
    rw [if_neg (fun h => hspare.mp h rfl), hout]
    rfl

theorem encodeChunk_one (a : UInt8) : encodeChunk [a] = (split [a]).map alphabetChar := by
  have ha := a.toNat_lt
  have hfirst : (a.toNat * 2 ^ 16 + 0 * 2 ^ 8 + 0) / 2 ^ 18 % 64 = a.toNat / 4 := by omega
  have hlast : (a.toNat * 2 ^ 16 + 0 * 2 ^ 8 + 0) / 2 ^ 12 % 64 = a.toNat % 4 * 16 := by omega
  rw [split, ← hfirst, ← hlast]
  rfl

theorem encodeChunk_two (a b : UInt8) : encodeChunk [a, b] = (split [a, b]).map alphabetChar := by
  have ha := a.toNat_lt
  have hb := b.toNat_lt
  have hfirst : (a.toNat * 2 ^ 16 + b.toNat * 2 ^ 8 + 0) / 2 ^ 18 % 64 = a.toNat / 4 := by omega
  have hnext : (a.toNat * 2 ^ 16 + b.toNat * 2 ^ 8 + 0) / 2 ^ 12 % 64 =
      a.toNat % 4 * 16 + b.toNat / 16 := by omega
  have hlast : (a.toNat * 2 ^ 16 + b.toNat * 2 ^ 8 + 0) / 2 ^ 6 % 64 = b.toNat % 16 * 4 := by omega
  rw [split, ← hfirst, ← hnext, ← hlast]
  rfl

theorem encodeChunk_three (a b c : UInt8) : encodeChunk [a, b, c] =
    [a.toNat / 4, a.toNat % 4 * 16 + b.toNat / 16, b.toNat % 16 * 4 + c.toNat / 64,
      c.toNat % 64].map alphabetChar := by
  have ha := a.toNat_lt
  have hb := b.toNat_lt
  have hc := c.toNat_lt
  have hfirst : (a.toNat * 2 ^ 16 + b.toNat * 2 ^ 8 + c.toNat) / 2 ^ 18 % 64 = a.toNat / 4 := by
    omega
  have hnext : (a.toNat * 2 ^ 16 + b.toNat * 2 ^ 8 + c.toNat) / 2 ^ 12 % 64 =
      a.toNat % 4 * 16 + b.toNat / 16 := by omega
  have hthird : (a.toNat * 2 ^ 16 + b.toNat * 2 ^ 8 + c.toNat) / 2 ^ 6 % 64 =
      b.toNat % 16 * 4 + c.toNat / 64 := by omega
  have hlast : (a.toNat * 2 ^ 16 + b.toNat * 2 ^ 8 + c.toNat) % 64 = c.toNat % 64 := by omega
  rw [← hfirst, ← hnext, ← hthird, ← hlast]
  rfl

/-- The encoder writes the sextets of the bytes. -/
theorem base64urlEncode_eq (bytes : List UInt8) :
    base64urlEncode bytes = (split bytes).map alphabetChar := by
  fun_induction base64urlEncode bytes with
  | case1 => rfl
  | case2 a => exact encodeChunk_one a
  | case3 a b => exact encodeChunk_two a b
  | case4 a b c rest ih => rw [encodeChunk_three, ih, ← List.map_append, split]; rfl

/-! ## Messages -/

theorem attestationMessage_ok :
    attestationMessage a = .ok message ↔
      (toUtf8 a.account).length < 65536 ∧ (toUtf8 a.label).length < 65536 ∧
        message = attestDomain ++ (bigEndian 2 a.v.toNat ++
          ((bigEndian 2 (toUtf8 a.account).length ++ toUtf8 a.account) ++ (a.device.bytes.toList ++
          ((bigEndian 2 (toUtf8 a.label).length ++ toUtf8 a.label) ++ (a.approver.bytes.toList ++
          (bigEndian 8 a.iat.toNat ++ bigEndian 8 a.exp.toNat)))))) := by
  constructor
  · intro h
    obtain ⟨haccount, hlabel, hmessage⟩ := attestationMessage_eq_ok h
    exact ⟨haccount, hlabel, by simpa only [List.append_assoc] using hmessage⟩
  · rintro ⟨haccount, hlabel, rfl⟩
    unfold attestationMessage
    dsimp only
    rw [if_neg (not_not.mpr haccount), if_neg (not_not.mpr hlabel)]
    simp only [List.append_assoc]

theorem reads_u16 : Reads Cursor.u16 (fun _ => True) fun v => bigEndian 2 v.toNat := by
  refine (reads_number 2).narrow (fun n hn v => ?_) fun v _ => v.toNat_lt
  rw [Option.some.injEq]
  constructor
  · rintro rfl
    exact ⟨trivial, (UInt16.toNat_ofNat_of_lt' hn).symm⟩
  · rintro ⟨-, rfl⟩
    exact UInt16.ofNat_toNat

theorem reads_u64 : Reads Cursor.u64 (fun _ => True) fun v => bigEndian 8 v.toNat := by
  refine (reads_number 8).narrow (fun n hn v => ?_) fun v _ => v.toNat_lt
  rw [Option.some.injEq]
  constructor
  · rintro rfl
    exact ⟨trivial, (UInt64.toNat_ofNat_of_lt' hn).symm⟩
  · rintro ⟨-, rfl⟩
    exact UInt64.ofNat_toNat

theorem toVector_eq_some {n : Nat} {v : Vector UInt8 n} (hlen : bytes.length = n) :
    (⟨bytes.toArray, hlen⟩ : Vector UInt8 n) = v ↔ bytes = v.toList := by
  constructor
  · rintro rfl
    rfl
  · rintro rfl
    rfl

theorem reads_key : Reads Cursor.key (fun _ => True) fun v => v.toList := by
  refine (reads_take 32).narrow (fun bytes hlen v => ?_) fun v _ => by simp
  rw [dif_pos hlen, Option.some.injEq, toVector_eq_some hlen]
  exact (true_and _).symm ▸ Iff.rfl

theorem reads_string : Reads Cursor.string (fun s => (toUtf8 s).length < 65536) fun s =>
    bigEndian 2 (toUtf8 s).length ++ toUtf8 s := by
  have hbytes (n : Nat) : Reads (narrow (take n) fromUtf8) (fun s => (toUtf8 s).length = n) toUtf8 :=
    (reads_take n).narrow
      (fun bytes hlen s => by
        rw [fromUtf8_eq_some]
        constructor
        · rintro rfl
          exact ⟨hlen, rfl⟩
        · rintro ⟨-, rfl⟩
          rfl)
      fun _ h => h
  intro input s rest
  rw [Cursor.string, reads_u16.bind_eq_some]
  constructor
  · rintro ⟨len, mid, -, rfl, hrest⟩
    obtain ⟨hlen, rfl⟩ := (hbytes _ _ _ _).mp hrest
    have hlt : (toUtf8 s).length < 65536 := hlen ▸ len.toNat_lt
    refine ⟨hlt, ?_⟩
    dsimp only
    rw [hlen, List.append_assoc]
  · rintro ⟨hlen, rfl⟩
    have hnat : (UInt16.ofNat (toUtf8 s).length).toNat = (toUtf8 s).length :=
      UInt16.toNat_ofNat_of_lt' hlen
    exact ⟨UInt16.ofNat (toUtf8 s).length, toUtf8 s ++ rest, trivial,
      by rw [hnat, List.append_assoc], (hbytes _ _ _ _).mpr ⟨hnat.symm, rfl⟩⟩

theorem reads_version : Reads (narrow Cursor.u16 fun v => if v ≠ attestationVersion then none
    else some v) (fun v => v = attestationVersion) fun v => bigEndian 2 v.toNat :=
  reads_u16.only _ trivial

/-- The fields are read from the message of a statement of this version. -/
theorem cursor_attestation {input rest : List UInt8} :
    Cursor.attestation input = some (a, rest) ↔
      a.v = attestationVersion ∧ ∃ message, attestationMessage a = .ok message ∧
        input = message ++ rest := by
  simp only [Cursor.attestation, (reads_expect attestDomain).bind_eq_some,
    reads_version.bind_eq_some, reads_string.bind_eq_some, reads_key.bind_eq_some,
    reads_u64.bind_eq_some, pure_eq_some, attestationMessage_ok]
  constructor
  · rintro ⟨-, _, -, rfl, v, _, hv, rfl, account, _, haccount, rfl, device, _, -, rfl, label, _,
      hlabel, rfl, approver, _, -, rfl, iat, _, -, rfl, exp, _, -, rfl, rfl, rfl⟩
    exact ⟨hv, _, ⟨haccount, hlabel, rfl⟩, by simp only [List.append_assoc]⟩
  · rintro ⟨hv, _, ⟨haccount, hlabel, rfl⟩, rfl⟩
    exact ⟨(), _, trivial, List.append_assoc .., _, _, hv, List.append_assoc .., _, _, haccount,
      List.append_assoc .., _, _, trivial, List.append_assoc .., _, _, hlabel,
      List.append_assoc .., _, _, trivial, List.append_assoc .., _, _, trivial,
      List.append_assoc .., _, _, trivial, rfl, rfl, rfl⟩

/-- A message is accepted if it is the message of a statement of this
version. -/
theorem parseMessage_eq_some :
    parseMessage message = some a ↔
      a.v = attestationVersion ∧ attestationMessage a = .ok message := by
  unfold parseMessage
  rw [Option.bind_eq_bind, Option.bind_eq_some_iff]
  constructor
  · rintro ⟨p, hp, h⟩
    obtain ⟨a', rest⟩ := p
    obtain ⟨hv, message, hmessage, rfl⟩ := cursor_attestation.mp hp
    dsimp only at h
    split at h
    · cases h
    · next hrest =>
      obtain rfl := Option.some.inj h
      rw [not_not.mp hrest, List.append_nil]
      exact ⟨hv, hmessage⟩
  · rintro ⟨hv, hmessage⟩
    refine ⟨(a, []), cursor_attestation.mpr ⟨hv, message, hmessage, by simp⟩, ?_⟩
    rfl

/-! ## Blobs -/

/-- A list splits in two at the one separator it has. -/
theorem splitOn_eq_pair {sep : Char} {before after : Str} :
    text.splitOn sep = [before, after] ↔
      text = before ++ sep :: after ∧ sep ∉ before ∧ sep ∉ after := by
  constructor
  · intro h
    have htext : text = before ++ sep :: after := by
      rw [← text.intercalate_splitOn sep, h]
      simp
    have hfirst : sep ∉ before := by
      intro hmem
      obtain ⟨s, t, rfl⟩ := List.append_of_mem hmem
      rw [htext, List.append_assoc, List.cons_append, List.splitOn_append_cons_self,
        List.splitOn_append_cons_self] at h
      have hlen := congrArg List.length h
      have := List.length_pos_iff.mpr (List.splitOn_ne_nil sep s)
      have := List.length_pos_iff.mpr (List.splitOn_ne_nil sep t)
      have := List.length_pos_iff.mpr (List.splitOn_ne_nil sep after)
      simp only [List.length_append, List.length_cons, List.length_nil] at hlen
      omega
    refine ⟨htext, hfirst, fun hmem => ?_⟩
    obtain ⟨s, t, rfl⟩ := List.append_of_mem hmem
    rw [htext, List.splitOn_append_cons_self, List.splitOn_append_cons_self] at h
    have hlen := congrArg List.length h
    have := List.length_pos_iff.mpr (List.splitOn_ne_nil sep before)
    have := List.length_pos_iff.mpr (List.splitOn_ne_nil sep s)
    have := List.length_pos_iff.mpr (List.splitOn_ne_nil sep t)
    simp only [List.length_append, List.length_cons, List.length_nil] at hlen
    omega
  · rintro ⟨rfl, hbefore, hafter⟩
    rw [List.splitOn_append_cons_self, List.splitOn_eq_singleton hbefore,
      List.splitOn_eq_singleton hafter]
    rfl

/-- Every character is one byte. -/
def Ascii (text : Str) : Prop := ∀ c ∈ text, c.toNat < 128

theorem Ascii.utf8Len (h : Ascii text) : utf8Len text = text.length := by
  induction text with
  | nil => rfl
  | cons c text ih =>
    obtain ⟨hc, htext⟩ := List.forall_mem_cons.mp h
    have hone : c.utf8Size = 1 := Char.utf8Size_eq_one_iff.mpr (Nat.le_of_lt_succ hc)
    have ih := ih htext
    rw [Zesterm.utf8Len] at ih ⊢
    rw [List.map_cons, List.sum_cons, hone, ih, List.length_cons]
    omega

theorem Spelt.ascii {spare : Nat} (h : Spelt text bytes spare) : Ascii text := by
  obtain ⟨vs, -, rfl, -⟩ := h
  intro c hc
  obtain ⟨v, -, rfl⟩ := List.mem_map.mp hc
  exact alphabetChar_ascii v

/-- `text` spells a statement and a signature: its two parts write the
message and the signature, with `i` and `j` in the bits left over. -/
def Spelled (text : Str) (a : Attestation) (sig : Signature) (i j : Nat) : Prop :=
  ∃ message signature bytes, text = message ++ '.' :: signature ∧
    text.length ≤ maxAttestationChars ∧ a.v = attestationVersion ∧
    attestationMessage a = .ok bytes ∧ Spelt message bytes i ∧ Spelt signature sig.bytes.toList j

/-- The two parts of a blob. -/
theorem dotted_inj {m s m' s' : Str} (hm : '.' ∉ m) (hs : '.' ∉ s) (hm' : '.' ∉ m')
    (hs' : '.' ∉ s') (h : m ++ '.' :: s = m' ++ '.' :: s') : m = m' ∧ s = s' := by
  have hsplit := splitOn_eq_pair.mpr ⟨rfl, hm, hs⟩
  rw [splitOn_eq_pair.mpr ⟨h, hm', hs'⟩] at hsplit
  simp only [List.cons.injEq, and_true] at hsplit
  exact ⟨hsplit.1.symm, hsplit.2.symm⟩

theorem Signature.eq_of_bytes {sig' : Signature} (h : sig.bytes.toList = sig'.bytes.toList) :
    sig = sig' := by
  cases sig
  cases sig'
  exact congrArg Signature.mk (Vector.toList_inj.mp h)

/-- A text spells one statement and one signature, in one way. -/
theorem Spelled.unique {a' : Attestation} {sig' : Signature} {i j i' j' : Nat}
    (h : Spelled text a sig i j) (h' : Spelled text a' sig' i' j') :
    a = a' ∧ sig = sig' ∧ i = i' ∧ j = j' := by
  obtain ⟨message, signature, bytes, rfl, -, -, ha, hmessage, hsignature⟩ := h
  obtain ⟨message', signature', bytes', htext, -, -, ha', hmessage', hsignature'⟩ := h'
  obtain ⟨rfl, rfl⟩ := dotted_inj hmessage.dot_notMem hsignature.dot_notMem hmessage'.dot_notMem
    hsignature'.dot_notMem htext
  obtain ⟨rfl, rfl⟩ := hmessage.unique hmessage'
  obtain ⟨hsig, rfl⟩ := hsignature.unique hsignature'
  exact ⟨attestationMessage_injective ha ha', Signature.eq_of_bytes hsig, rfl, rfl⟩

theorem fromSlice_eq_some : Signature.fromSlice bytes = some sig ↔ bytes = sig.bytes.toList := by
  unfold Signature.fromSlice
  split
  · next hlen =>
    rw [Option.some.injEq]
    constructor
    · rintro rfl
      rfl
    · exact fun h => Signature.eq_of_bytes h
  · next hlen =>
    refine iff_of_false (by simp) ?_
    rintro rfl
    exact hlen (by simp)

theorem dotted_ascii {message signature : Str} {bytes' : List UInt8} {i j : Nat}
    (hmessage : Spelt message bytes i) (hsignature : Spelt signature bytes' j) :
    Ascii (message ++ '.' :: signature) := by
  intro c hc
  rcases List.mem_append.mp hc with hc | hc
  · exact hmessage.ascii c hc
  · rcases List.mem_cons.mp hc with rfl | hc
    · decide
    · exact hsignature.ascii c hc

/-- The daemon accepts a blob if it spells a statement and a signature and
leaves no bit over. -/
theorem decodeAttestation_eq_some :
    decodeAttestation text = some d ↔
      Spelled text d.fields d.signature 0 0 ∧ attestationMessage d.fields = .ok d.message := by
  unfold decodeAttestation
  constructor
  · intro h
    split at h
    · cases h
    · next hlen =>
      rw [not_or, not_lt] at hlen
      split at h
      · next message signature hsplit =>
        simp only [Option.bind_eq_bind, Option.bind_eq_some_iff, Option.pure_def, Option.some.injEq,
          base64urlDecode_eq_some, fromSlice_eq_some, parseMessage_eq_some] at h
        obtain ⟨bytes, hmessage, sig, ⟨_, hsignature, rfl⟩, a, ⟨hv, ha⟩, rfl⟩ := h
        obtain ⟨htext, -, -⟩ := splitOn_eq_pair.mp hsplit
        have hascii : Ascii text := htext ▸ dotted_ascii hmessage hsignature
        rw [hascii.utf8Len] at hlen
        exact ⟨⟨message, signature, bytes, htext, hlen.2, hv, ha, hmessage, hsignature⟩, ha⟩
      · cases h
  · obtain ⟨a, bytes, sig⟩ := d
    dsimp only
    rintro ⟨⟨message, signature, bytes', htext, hlen, hv, ha, hmessage, hsignature⟩, ha'⟩
    obtain rfl := Except.ok.inj (ha.symm.trans ha')
    have hascii : Ascii text := htext ▸ dotted_ascii hmessage hsignature
    have hsplit := splitOn_eq_pair.mpr ⟨htext, hmessage.dot_notMem, hsignature.dot_notMem⟩
    have hne : text ≠ [] := by
      rw [htext]
      simp
    rw [if_neg (by rw [hascii.utf8Len]; exact not_or.mpr ⟨hne, Nat.not_lt.mpr hlen⟩), hsplit]
    simp only [Option.bind_eq_bind, Option.bind_eq_some_iff, Option.pure_def, Option.some.injEq,
      base64urlDecode_eq_some, fromSlice_eq_some, parseMessage_eq_some]
    exact ⟨_, hmessage, sig, ⟨_, hsignature, rfl⟩, a, ⟨hv, ha⟩, rfl⟩

/-! ## Round trip -/

theorem spelt_encode (bytes : List UInt8) : Spelt (base64urlEncode bytes) bytes 0 :=
  ⟨split bytes, split_lt bytes, base64urlEncode_eq bytes, spells_split bytes⟩

/-- What is encoded spells what it was encoded from, if its blob is short
enough. -/
theorem spelled_encode (sig : Signature) (hv : a.v = attestationVersion)
    (ha : attestationMessage a = .ok message) (hlen : message.length ≤ 1400) :
    Spelled (base64urlEncode message ++ '.' :: base64urlEncode sig.bytes.toList) a sig 0 0 := by
  refine ⟨_, _, message, rfl, ?_, hv, ha, spelt_encode message, spelt_encode _⟩
  rw [List.length_append, List.length_cons, base64urlEncode_eq, base64urlEncode_eq, List.length_map,
    List.length_map, length_split, length_split, Vector.length_toList, maxAttestationChars]
  omega

theorem Spelt.eq_encode (h : Spelt text bytes 0) : text = base64urlEncode bytes := by
  obtain ⟨vs, hlt, rfl, hspells⟩ := h
  rw [base64urlEncode_eq, hspells.eq_split rfl hlt]

theorem encodeAttestation_eq_ok :
    encodeAttestation a sig = .ok text ↔ ∃ message, attestationMessage a = .ok message ∧
      text = base64urlEncode message ++ '.' :: base64urlEncode sig.bytes.toList := by
  unfold encodeAttestation
  cases attestationMessage a with
  | error e => exact iff_of_false nofun nofun
  | ok message =>
    constructor
    · intro h
      exact ⟨message, rfl, (Except.ok.inj h).symm⟩
    · rintro ⟨_, hmessage, rfl⟩
      obtain rfl := Except.ok.inj hmessage
      rfl

/-- What the decoder accepts is what the encoder writes. -/
theorem encode_of_decode (h : decodeAttestation text = some d) :
    encodeAttestation d.fields d.signature = .ok text := by
  obtain ⟨⟨message, signature, bytes, rfl, -, -, ha, hmessage, hsignature⟩, -⟩ :=
    decodeAttestation_eq_some.mp h
  refine encodeAttestation_eq_ok.mpr ⟨bytes, ha, ?_⟩
  rw [hmessage.eq_encode, hsignature.eq_encode]

/-- What is encoded within the limit is accepted, for what it was encoded from. -/
theorem decode_of_encode (hv : a.v = attestationVersion) (hlen : utf8Len text ≤ maxAttestationChars)
    (h : encodeAttestation a sig = .ok text) :
    ∃ message, decodeAttestation text = some { fields := a, message, signature := sig } := by
  obtain ⟨message, ha, rfl⟩ := encodeAttestation_eq_ok.mp h
  have hmessage := spelt_encode message
  have hsignature := spelt_encode sig.bytes.toList
  rw [(dotted_ascii hmessage hsignature).utf8Len] at hlen
  exact ⟨message, decodeAttestation_eq_some.mpr
    ⟨⟨_, _, message, rfl, hlen, hv, ha, hmessage, hsignature⟩, ha⟩⟩

theorem decoded_bounds (h : decodeAttestation text = some d) :
    d.fields.v = attestationVersion ∧ utf8Len text ≤ maxAttestationChars := by
  obtain ⟨⟨message, signature, bytes, rfl, hlen, hv, -, hmessage, hsignature⟩, -⟩ :=
    decodeAttestation_eq_some.mp h
  rw [(dotted_ascii hmessage hsignature).utf8Len]
  exact ⟨hv, hlen⟩

/-- A statement and a signature have one blob: the decoder reads back what the
encoder writes, encoding what it read gives the text again, and no other text
is taken for the same. -/
theorem one_spelling :
    (∀ (a : Attestation) (sig : Signature) (text : Str), a.v = attestationVersion →
      utf8Len text ≤ maxAttestationChars → encodeAttestation a sig = .ok text →
      ∃ message, decodeAttestation text = some { fields := a, message, signature := sig }) ∧
    (∀ (text : Str) (d : DecodedAttestation), decodeAttestation text = some d →
      encodeAttestation d.fields d.signature = .ok text ∧
        d.fields.v = attestationVersion ∧ utf8Len text ≤ maxAttestationChars) ∧
    ∀ (text text' : Str) (d d' : DecodedAttestation), decodeAttestation text = some d →
      decodeAttestation text' = some d' → d.fields = d'.fields → d.signature = d'.signature →
      text = text' := by
  refine ⟨fun a sig text hv hlen h => decode_of_encode hv hlen h,
    fun text d h => ⟨encode_of_decode h, decoded_bounds h⟩, ?_⟩
  intro text text' d d' h h' hfields hsignature
  have hencode := encode_of_decode h
  rw [hfields, hsignature, encode_of_decode h'] at hencode
  exact (Except.ok.inj hencode).symm

end Zesterm
