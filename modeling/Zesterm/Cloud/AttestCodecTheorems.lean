/-
Zesterm.Cloud.AttestCodecTheorems — the two codecs, side by side.

The cloud reads the same alphabet and the same layout, and is apart from the
daemon in two places. `atob` drops the bits left over in a last character,
which the daemon refuses; and the decoded text of a field loses a leading
byte order mark, so that it does not encode back and is refused, as is a
timestamp no number holds exactly (`decodeAttestation_eq_some`). What they
encode is the same.
-/
import Mathlib.Data.UInt
import Zesterm.Cloud.AttestCodec
import Zesterm.Mesh.AttestCodecTheorems

namespace Zesterm.Cloud

open Coding Sextets

variable {text : Str} {malformed : List UInt8 → Str}

/-! ## Parts -/

theorem base64_chars :
    "ABCDEFGHIJKLMNOPQRSTUVWXYZabcdefghijklmnopqrstuvwxyz0123456789+/".toList =
      alphabet.take 62 ++ ['+', '/'] := by
  decide

/-- The alphabet, character by character: `B64URL` matches it, `atob` gets
the sextet it writes, neither padding nor white space, and `btoa` writes that
sextet as the character it stands for. -/
theorem base64Url_table : ∀ v < 64, isBase64Url (alphabetChar v) = true ∧
    (base64Value (plainChar (alphabetChar v)) = some v ∧
      plainChar (alphabetChar v) ≠ '=' ∧ plainChar (alphabetChar v) ∉ asciiWhitespace) ∧
    urlChar (base64Char v) = alphabetChar v ∧ alphabetChar v ≠ '=' := by
  simp only [alphabetChar, base64Char, base64_chars, alphabet_chars]
  decide +kernel

theorem isBase64Url_iff {c : Char} : isBase64Url c = true ↔ ∃ v < 64, c = alphabetChar v := by
  constructor
  · intro h
    simp only [isBase64Url, Char.le_def, UInt32.le_iff_toNat_le, Bool.decide_or, Bool.or_eq_true,
      decide_eq_true_eq] at h
    have hrange : (65 ≤ c.toNat ∧ c.toNat ≤ 90) ∨ (97 ≤ c.toNat ∧ c.toNat ≤ 122) ∨
        (48 ≤ c.toNat ∧ c.toNat ≤ 57) ∨ c.toNat = 95 ∨ c.toNat = 45 :=
      h.imp id (Or.imp id (Or.imp id (Or.imp (congrArg Char.toNat) (congrArg Char.toNat))))
    have hbyte : (UInt8.ofNat c.toNat).toNat = c.toNat := toNat_ofNat (by omega)
    -- The daemon's decoder takes the same characters.
    have hsome : (sextet (UInt8.ofNat c.toNat)).isSome = true := by
      unfold sextet
      rw [hbyte]
      dsimp only
      split_ifs <;> first | rfl | omega
    obtain ⟨v, hv⟩ := Option.isSome_iff_exists.mp hsome
    obtain ⟨hlt, heq⟩ := sextet_eq_some.mp hv
    refine ⟨v, hlt, Char.toNat_inj.mp ?_⟩
    rw [← hbyte, heq, alphabetByte, toNat_ofNat ((alphabetChar_ascii v).trans (by decide))]
  · rintro ⟨v, hv, rfl⟩
    exact (base64Url_table v hv).1

/-- The texts `B64URL` matches. -/
theorem all_isBase64Url_iff : ∀ {text : Str}, text.all isBase64Url = true ↔
    ∃ vs : List Nat, (∀ v ∈ vs, v < 64) ∧ text = vs.map alphabetChar
  | [] => iff_of_true rfl ⟨[], by simp, rfl⟩
  | c :: text => by
    rw [List.all_cons, Bool.and_eq_true, isBase64Url_iff, all_isBase64Url_iff]
    constructor
    · rintro ⟨⟨v, hv, rfl⟩, vs, hvs, rfl⟩
      exact ⟨v :: vs, List.forall_mem_cons.mpr ⟨hv, hvs⟩, rfl⟩
    · rintro ⟨vs, hvs, heq⟩
      obtain ⟨v, ws, rfl, rfl, rfl⟩ := List.map_eq_cons_iff.mp heq.symm
      rw [List.forall_mem_cons] at hvs
      exact ⟨⟨v, hvs.1, rfl⟩, ws, hvs.2, rfl⟩

theorem unpad_of_notMem {s : Str} (h : '=' ∉ s) : unpad s = s := by
  unfold unpad
  split
  · split
    · next rest hrev => exact absurd (List.mem_reverse.mp (hrev ▸ List.mem_cons_self)) h
    · next rest _ hrev => exact absurd (List.mem_reverse.mp (hrev ▸ List.mem_cons_self)) h
    · rfl
  · rfl

theorem mapM_base64Value : ∀ {vs : List Nat}, (∀ v ∈ vs, v < 64) →
    ((vs.map alphabetChar).map plainChar).mapM base64Value = some vs
  | [], _ => rfl
  | v :: vs, h => by
    rw [List.forall_mem_cons] at h
    rw [List.map_cons, List.map_cons, List.mapM_cons, (base64Url_table v h.1).2.1.1,
      mapM_base64Value h.2]
    rfl

/-- `atob` of a text of the alphabet is its bytes, whatever is left over. -/
theorem atob_alphabet {vs : List Nat} (h : ∀ v ∈ vs, v < 64) :
    atob ((vs.map alphabetChar).map plainChar) = (join vs).map Prod.fst := by
  have hmem : ∀ c ∈ (vs.map alphabetChar).map plainChar, c ≠ '=' ∧ c ∉ asciiWhitespace := by
    intro c hc
    rw [List.map_map] at hc
    obtain ⟨v, hv, rfl⟩ := List.mem_map.mp hc
    exact (base64Url_table v (h v hv)).2.1.2
  have hfilter : ((vs.map alphabetChar).map plainChar).filter (fun c => c ∉ asciiWhitespace) =
      (vs.map alphabetChar).map plainChar :=
    List.filter_eq_self.mpr fun c hc => decide_eq_true (hmem c hc).2
  have hunpad : unpad ((vs.map alphabetChar).map plainChar) = (vs.map alphabetChar).map plainChar :=
    unpad_of_notMem fun hc => (hmem _ hc).1 rfl
  unfold atob
  dsimp only
  rw [hfilter, hunpad, mapM_base64Value h, List.length_map, List.length_map]
  split
  · next hlen =>
    rw [(join_eq_none vs).mpr hlen]
    rfl
  · change ((some vs).bind fun vs => (join vs).bind fun p => some p.1) = _
    rw [Option.bind_some]
    cases join vs <;> rfl

/-- A part is accepted if it writes bytes, whatever is left over. -/
theorem fromBase64Url_eq_some {bytes : List UInt8} :
    fromBase64Url text = some bytes ↔ ∃ spare, Spelt text bytes spare := by
  unfold fromBase64Url
  split
  · next hall =>
    refine iff_of_false (by simp) ?_
    rintro ⟨spare, vs, hvs, htext, -⟩
    exact hall (all_isBase64Url_iff.mpr ⟨vs, hvs, htext⟩)
  · next hall =>
    obtain ⟨vs, hvs, rfl⟩ := all_isBase64Url_iff.mp (not_not.mp hall)
    rw [atob_alphabet hvs, Option.map_eq_some_iff]
    constructor
    · rintro ⟨p, hjoin, rfl⟩
      exact ⟨p.2, vs, hvs, rfl, (join_eq_some hvs).mp hjoin⟩
    · rintro ⟨spare, ws, hws, heq, hspells⟩
      obtain rfl := map_alphabetChar_injective hvs hws heq
      exact ⟨(bytes, spare), (join_eq_some hvs).mpr hspells, rfl⟩

/-! ## Messages -/

/-- A byte order mark leads. -/
def Marked (s : Str) : Prop := s.head? = some '\uFEFF'

theorem reads_u16 : Reads Parse.readU16 (fun n => n < 65536) (bigEndian 2) := by
  refine (reads_take 2).narrow (fun b hb n => ?_) fun n _ => length_bigEndian 2 n
  obtain ⟨x, y, rfl⟩ := List.length_eq_two.mp hb
  have hvalue : ([x, y].getD 0 0).toNat * 256 + ([x, y].getD 1 0).toNat = ofBigEndian [x, y] := by
    simp [ofBigEndian]
  rw [Option.some.injEq, hvalue]
  constructor
  · rintro rfl
    have hlt : ofBigEndian [x, y] < 256 ^ 2 := ofBigEndian_lt [x, y]
    exact ⟨hlt, (bigEndian_ofBigEndian [x, y]).symm⟩
  · rintro ⟨hn, h⟩
    exact (congrArg ofBigEndian h).trans (ofBigEndian_bigEndian (k := 2) hn)

theorem reads_u64 : Reads Parse.readU64 (fun n => n ≤ maxSafeInteger) (bigEndian 8) := by
  have hsafe : maxSafeInteger < 256 ^ 8 := by decide
  refine (reads_number 8).narrow (fun n _ m => ?_) fun n hn => Nat.lt_of_le_of_lt hn hsafe
  by_cases hn : n > maxSafeInteger
  · rw [if_pos hn]
    refine iff_of_false (by simp) ?_
    rintro ⟨hm, rfl⟩
    omega
  · rw [if_neg hn, Option.some.injEq]
    constructor
    · rintro rfl
      exact ⟨Nat.le_of_not_lt hn, rfl⟩
    · rintro ⟨-, rfl⟩
      rfl

theorem textDecode_toUtf8 (malformed : List UInt8 → Str) (s : Str) :
    textDecode malformed (toUtf8 s) = if s.head? = some '\uFEFF' then s.tail else s := by
  rw [textDecode, fromUtf8_toUtf8]

/-- The texts that come back as they were: those no byte order mark leads. -/
theorem textDecode_toUtf8_eq (malformed : List UInt8 → Str) {s : Str} :
    textDecode malformed (toUtf8 s) = s ↔ ¬ Marked s := by
  rw [textDecode_toUtf8]
  split
  · next h =>
    refine iff_of_false (fun heq => ?_) (not_not.mpr h)
    cases s with
    | nil => simp at h
    | cons c s => exact List.ne_cons_self heq
  · next h => exact iff_of_true rfl h

theorem reads_string (malformed : List UInt8 → Str) : Reads (Parse.readString malformed)
    (fun s => (toUtf8 s).length < 65536 ∧ ¬ Marked s)
    fun s => bigEndian 2 (toUtf8 s).length ++ toUtf8 s := by
  have hbytes (n : Nat) : Reads (narrow (take n) fun bytes =>
      if toUtf8 (textDecode malformed bytes) ≠ bytes then none
      else some (textDecode malformed bytes))
      (fun s => (toUtf8 s).length = n ∧ ¬ Marked s) toUtf8 := by
    refine (reads_take n).narrow (fun bytes hlen s => ?_) fun s hs => hs.1
    by_cases hback : toUtf8 (textDecode malformed bytes) = bytes
    · rw [if_neg (not_not.mpr hback), Option.some.injEq]
      constructor
      · rintro rfl
        refine ⟨⟨by rw [hback, hlen], ?_⟩, hback.symm⟩
        rw [← textDecode_toUtf8_eq malformed, hback]
      · rintro ⟨⟨-, hs⟩, rfl⟩
        exact (textDecode_toUtf8_eq malformed).mpr hs
    · rw [if_pos hback]
      refine iff_of_false (by simp) ?_
      rintro ⟨⟨-, hs⟩, rfl⟩
      exact hback (congrArg toUtf8 ((textDecode_toUtf8_eq malformed).mpr hs))
  intro input s rest
  rw [Parse.readString, reads_u16.bind_eq_some]
  constructor
  · rintro ⟨len, mid, hlt, rfl, hrest⟩
    obtain ⟨⟨hlen, hs⟩, rfl⟩ := (hbytes len mid s rest).mp hrest
    refine ⟨⟨hlen ▸ hlt, hs⟩, ?_⟩
    dsimp only
    rw [hlen, List.append_assoc]
  · rintro ⟨⟨hlen, hs⟩, rfl⟩
    exact ⟨_, toUtf8 s ++ rest, hlen, List.append_assoc .., (hbytes _ _ s rest).mpr ⟨⟨rfl, hs⟩, rfl⟩⟩

theorem reads_version : Reads (narrow Parse.readU16 fun v => if v ≠ attestationVersion then none
    else some v) (fun v => v = attestationVersion) (bigEndian 2) :=
  reads_u16.only _ (by decide)

/-- The statement as the cloud holds it. -/
def fieldsOf (a : Attestation) : Fields :=
  { v := a.v.toNat, account := a.account, device := hexEncode a.device.bytes.toList,
    label := a.label, approver := hexEncode a.approver.bytes.toList, iat := a.iat.toNat,
    exp := a.exp.toNat }

/-- Both timestamps are numbers JavaScript holds exactly. -/
def Safe (a : Attestation) : Prop :=
  a.iat.toNat ≤ maxSafeInteger ∧ a.exp.toNat ≤ maxSafeInteger

/-- No field begins with a byte order mark. -/
def Unmarked (a : Attestation) : Prop := ¬ Marked a.account ∧ ¬ Marked a.label

/-- The fields are read from the message of a statement of this version,
without byte order marks and of safe timestamps. -/
theorem parse_fields {input rest : List UInt8} {f : Fields} :
    Parse.fields malformed input = some (f, rest) ↔
      ∃ a message, a.v = Zesterm.attestationVersion ∧
        Zesterm.attestationMessage a = .ok message ∧ Unmarked a ∧ Safe a ∧
        input = message ++ rest ∧ f = fieldsOf a := by
  have hsafe : maxSafeInteger < 2 ^ 64 := by decide
  simp only [Parse.fields, (reads_expect attestDomain).bind_eq_some,
    reads_version.bind_eq_some, (reads_string malformed).bind_eq_some,
    (reads_take attestationKeyLen).bind_eq_some, reads_u64.bind_eq_some, pure_eq_some,
    attestationMessage_ok]
  constructor
  · rintro ⟨-, _, -, rfl, v, _, rfl, rfl, account, _, haccount, rfl, device, _, hdevice, rfl, label,
      _, hlabel, rfl, approver, _, happrover, rfl, iat, _, hiat, rfl, exp, _, hexp, rfl, rfl, rfl⟩
    have hiat' : (UInt64.ofNat iat).toNat = iat := UInt64.toNat_ofNat_of_lt' (Nat.lt_of_le_of_lt hiat hsafe)
    have hexp' : (UInt64.ofNat exp).toNat = exp := UInt64.toNat_ofNat_of_lt' (Nat.lt_of_le_of_lt hexp hsafe)
    refine ⟨⟨1, account, ⟨⟨device.toArray, hdevice⟩⟩, label, ⟨⟨approver.toArray, happrover⟩⟩,
      UInt64.ofNat iat, UInt64.ofNat exp⟩, _, rfl, ⟨haccount.1, hlabel.1, rfl⟩,
      ⟨haccount.2, hlabel.2⟩, ⟨by rw [hiat']; exact hiat, by rw [hexp']; exact hexp⟩, ?_, ?_⟩
    · simp only [hiat', hexp', List.append_assoc]
      rfl
    · simp only [fieldsOf, hiat', hexp']
      rfl
  · rintro ⟨a, _, hv, ⟨haccount, hlabel, rfl⟩, hmarked, hsafe, rfl, rfl⟩
    have hv' : a.v.toNat = attestationVersion := by rw [hv]; rfl
    refine ⟨(), _, trivial, List.append_assoc .., _, _, hv', List.append_assoc .., _, _,
      ⟨haccount, hmarked.1⟩, List.append_assoc .., _, _, Vector.length_toList,
      List.append_assoc .., _, _, ⟨hlabel, hmarked.2⟩, List.append_assoc .., _, _,
      Vector.length_toList, List.append_assoc .., _, _, hsafe.1, List.append_assoc .., _, _, hsafe.2,
      rfl, ?_, rfl⟩
    rw [fieldsOf, hv']
    rfl

/-- A message is accepted if it is the message of a statement of this
version that the cloud can hold and read back. -/
theorem parseMessage_eq_some {message : List UInt8} {f : Fields} :
    parseMessage malformed message = some f ↔
      ∃ a, a.v = Zesterm.attestationVersion ∧ Zesterm.attestationMessage a = .ok message ∧
        Unmarked a ∧ Safe a ∧ f = fieldsOf a := by
  unfold parseMessage
  rw [Option.bind_eq_bind, Option.bind_eq_some_iff]
  constructor
  · rintro ⟨p, hp, h⟩
    obtain ⟨f', rest⟩ := p
    obtain ⟨a, message, hv, hmessage, hmarked, hsafe, rfl, rfl⟩ := parse_fields.mp hp
    dsimp only at h
    split at h
    · cases h
    · next hrest =>
      obtain rfl := Option.some.inj h
      rw [not_not.mp hrest, List.append_nil]
      exact ⟨a, hv, hmessage, hmarked, hsafe, rfl⟩
  · rintro ⟨a, hv, hmessage, hmarked, hsafe, rfl⟩
    refine ⟨(fieldsOf a, []), parse_fields.mpr
      ⟨a, message, hv, hmessage, hmarked, hsafe, by simp, rfl⟩, ?_⟩
    rfl

/-! ## Blobs -/

theorem utf16Len_of_ascii (h : Ascii text) : utf16Len text = text.length := by
  induction text with
  | nil => rfl
  | cons c text ih =>
    obtain ⟨hc, htext⟩ := List.forall_mem_cons.mp h
    have ih := ih htext
    rw [utf16Len] at ih ⊢
    rw [List.map_cons, List.sum_cons, ih, if_pos (by omega), List.length_cons]
    omega

/-- The first of the dots that a text has. -/
theorem splitOnce_eq_some {sep : Char} {before after : Str} :
    splitOnce sep text = some (before, after) ↔ text = before ++ sep :: after ∧ sep ∉ before := by
  unfold splitOnce
  constructor
  · intro h
    split at h
    · next hmem =>
      simp only [Option.some.injEq, Prod.mk.injEq] at h
      obtain ⟨rfl, rfl⟩ := h
      have hdrop : ∃ rest, text.dropWhile (· != sep) = sep :: rest := by
        cases hcut : text.dropWhile (· != sep) with
        | nil =>
          rw [List.dropWhile_eq_nil_iff] at hcut
          have := hcut sep (by simpa using hmem)
          simp at this
        | cons c rest =>
          have hc := List.head?_dropWhile_not (· != sep) text
          rw [hcut] at hc
          simp only [List.head?_cons, bne_eq_false_iff_eq] at hc
          exact ⟨rest, by rw [hc]⟩
      obtain ⟨rest, hrest⟩ := hdrop
      refine ⟨?_, fun hsep => ?_⟩
      · rw [hrest, List.drop_one, List.tail_cons, ← hrest, List.takeWhile_append_dropWhile]
      · have := List.mem_takeWhile_imp hsep
        simp at this
    · cases h
  · rintro ⟨rfl, hbefore⟩
    have hp : ∀ c ∈ before, (c != sep) = true := by
      intro c hc
      rw [bne_iff_ne]
      rintro rfl
      exact hbefore hc
    rw [if_pos (by simp), List.takeWhile_append_of_pos hp, List.dropWhile_append_of_pos hp]
    simp

/-- The cloud accepts a blob if it spells a statement and a signature,
whatever is left over, and the statement is one it can hold and read back. -/
theorem decodeAttestation_eq_some {d : DecodedAttestation} :
    decodeAttestation malformed text = some d ↔
      ∃ a sig i j, Spelled text a sig i j ∧ Unmarked a ∧ Safe a ∧
        Zesterm.attestationMessage a = .ok d.message ∧ d.fields = fieldsOf a ∧
        d.signature = sig.bytes.toList := by
  unfold decodeAttestation
  constructor
  · intro h
    split at h
    · cases h
    · next hlen =>
      rw [not_or, not_lt] at hlen
      split at h
      · cases h
      · next message signature hsplit =>
        split at h
        · cases h
        · next hdot =>
          simp only [Option.bind_eq_bind, Option.bind_eq_some_iff, fromBase64Url_eq_some] at h
          obtain ⟨bytes, ⟨i, hmessage⟩, sig, ⟨j, hsignature⟩, h⟩ := h
          split at h
          · cases h
          · next hsig =>
            simp only [Option.bind_eq_some_iff, Option.pure_def, Option.some.injEq,
              parseMessage_eq_some] at h
            obtain ⟨f, ⟨a, hv, ha, hmarked, hsafe, rfl⟩, rfl⟩ := h
            obtain ⟨htext, -⟩ := splitOnce_eq_some.mp hsplit
            have hascii : Ascii text := htext ▸ dotted_ascii hmessage hsignature
            rw [utf16Len_of_ascii hascii] at hlen
            have hsig' : sig.length = 64 := not_not.mp hsig
            exact ⟨a, ⟨⟨sig.toArray, hsig'⟩⟩, i, j, ⟨message, signature, bytes, htext, hlen.2, hv,
              ha, hmessage, hsignature⟩, hmarked, hsafe, ha, rfl, rfl⟩
  · obtain ⟨f, bytes, sigBytes⟩ := d
    dsimp only
    rintro ⟨a, sig, i, j, ⟨message, signature, bytes', htext, hlen, hv, ha, hmessage, hsignature⟩,
      hmarked, hsafe, ha', rfl, rfl⟩
    obtain rfl := Except.ok.inj (ha.symm.trans ha')
    have hascii : Ascii text := htext ▸ dotted_ascii hmessage hsignature
    have hsplit := splitOnce_eq_some.mpr ⟨htext, hmessage.dot_notMem⟩
    have hne : text.length ≠ 0 := by
      rw [htext]
      simp
    have hdot : ¬ signature.contains '.' = true := by simpa using hsignature.dot_notMem
    have hsig : ¬ sig.bytes.toList.length ≠ attestationSignatureLen :=
      not_not.mpr Vector.length_toList
    rw [if_neg (by rw [utf16Len_of_ascii hascii]; exact not_or.mpr ⟨hne, Nat.not_lt.mpr hlen⟩),
      hsplit]
    dsimp only
    rw [if_neg hdot]
    simp only [Option.bind_eq_bind, Option.bind_eq_some_iff, fromBase64Url_eq_some]
    refine ⟨_, ⟨i, hmessage⟩, _, ⟨j, hsignature⟩, ?_⟩
    rw [if_neg hsig]
    simp only [Option.bind_eq_some_iff, Option.pure_def, Option.some.injEq, parseMessage_eq_some]
    exact ⟨_, ⟨a, hv, ha, hmarked, hsafe, rfl⟩, rfl⟩

/-! ## What is encoded -/

theorem map_urlChar : ∀ {vs : List Nat}, (∀ v ∈ vs, v < 64) →
    (vs.map base64Char).map urlChar = vs.map alphabetChar
  | [], _ => rfl
  | v :: vs, h => by
    rw [List.forall_mem_cons] at h
    rw [List.map_cons, List.map_cons, List.map_cons, (base64Url_table v h.1).2.2.1, map_urlChar h.2]

/-- `btoa` writes the sextets and then the padding. -/
theorem btoa_eq (bytes : List UInt8) :
    ∃ n, btoa bytes = (split bytes).map base64Char ++ List.replicate n '=' := by
  fun_induction btoa bytes with
  | case1 => exact ⟨0, rfl⟩
  | case2 x => exact ⟨2, rfl⟩
  | case3 x y => exact ⟨1, rfl⟩
  | case4 x y z bytes ih =>
    obtain ⟨n, hn⟩ := ih
    refine ⟨n, ?_⟩
    rw [hn, ← List.append_assoc, ← List.map_append]
    rfl

theorem rdropWhile_padded {s : Str} (h : '=' ∉ s) :
    ∀ n, (s ++ List.replicate n '=').rdropWhile (· = '=') = s
  | 0 => by
    rw [List.replicate_zero, List.append_nil, List.rdropWhile_eq_self_iff]
    intro hne hlast
    exact h (of_decide_eq_true hlast ▸ List.getLast_mem hne)
  | n + 1 => by
    rw [List.replicate_succ', ← List.append_assoc, List.rdropWhile_concat_pos _ _ _ rfl,
      rdropWhile_padded h n]

/-- The cloud writes the same sextets with the same characters. -/
theorem toBase64Url_eq (bytes : List UInt8) : toBase64Url bytes = base64urlEncode bytes := by
  obtain ⟨n, hn⟩ := btoa_eq bytes
  have hpad : (List.replicate n '=').map urlChar = List.replicate n '=' := by
    rw [List.map_replicate]
    rfl
  have hnone : '=' ∉ (split bytes).map alphabetChar := by
    rw [List.mem_map]
    rintro ⟨v, hv, h⟩
    exact (base64Url_table v (split_lt bytes v hv)).2.2.2 h
  rw [toBase64Url, hn, List.map_append, map_urlChar (split_lt bytes), hpad, base64urlEncode_eq,
    rdropWhile_padded hnone]

theorem digit_digitChar : ∀ n < 16, fromHex.digit (Nat.digitChar n) = some n := by decide

theorem pairs_hexEncode : ∀ bytes : List UInt8, fromHex.pairs (hexEncode bytes) = some bytes
  | [] => rfl
  | b :: bytes => by
    have hb := b.toNat_lt
    have hbyte : UInt8.ofNat (b.toNat / 16 * 16 + b.toNat % 16) = b :=
      Sextets.ofNat_eq (by omega)
    rw [hexEncode_cons, fromHex.pairs, digit_digitChar _ (by omega), digit_digitChar _ (by omega),
      pairs_hexEncode bytes]
    simp only [Option.bind_eq_bind, Option.bind_some, Option.pure_def, hbyte]

/-- A key's hex is the key. -/
theorem keyBytes_hexEncode (key : Vector UInt8 32) :
    keyBytes (hexEncode key.toList) = some key.toList := by
  have hlen : ¬ (hexEncode key.toList).length ≠ attestationKeyLen * 2 := by
    rw [length_hexEncode, Vector.length_toList]
    simp [attestationKeyLen]
  rw [keyBytes, fromHex, if_neg hlen, pairs_hexEncode]

theorem pushLenPrefixed_eq (text : Str) : pushLenPrefixed text =
    if (toUtf8 text).length < 65536 then
      some (bigEndian 2 (toUtf8 text).length ++ toUtf8 text)
    else none := by
  unfold pushLenPrefixed
  dsimp only
  by_cases h : (toUtf8 text).length < 65536
  · have hlow : UInt8.ofNat ((toUtf8 text).length % 256) = UInt8.ofNat (toUtf8 text).length :=
      ofNat_congr (by omega)
    rw [if_neg (by omega), if_pos h, hlow]
    rfl
  · rw [if_pos (by omega), if_neg h]

theorem u16be_eq (n : Nat) : u16be n = bigEndian 2 n := by
  have hhigh : UInt8.ofNat (n / 256 % 256) = UInt8.ofNat (n / 256) := ofNat_congr (by omega)
  have hlow : UInt8.ofNat (n % 256) = UInt8.ofNat n := ofNat_congr (by omega)
  rw [u16be, hhigh, hlow]
  rfl

/-- A statement both can hold is one message. -/
theorem attestationMessage_fieldsOf {a : Attestation} (h : Safe a) :
    attestationMessage (fieldsOf a) = (Zesterm.attestationMessage a).toOption := by
  have hiat : u64be a.iat.toNat = some (bigEndian 8 a.iat.toNat) :=
    if_neg (Nat.not_lt.mpr h.1)
  have hexp : u64be a.exp.toNat = some (bigEndian 8 a.exp.toNat) :=
    if_neg (Nat.not_lt.mpr h.2)
  unfold attestationMessage Zesterm.attestationMessage
  simp only [fieldsOf, pushLenPrefixed_eq, keyBytes_hexEncode, hiat, hexp, u16be_eq]
  by_cases haccount : (toUtf8 a.account).length < 65536
  · by_cases hlabel : (toUtf8 a.label).length < 65536
    · rw [if_pos haccount, if_pos hlabel, if_neg (not_not.mpr haccount),
        if_neg (not_not.mpr hlabel)]
      simp [Except.toOption]
    · rw [if_pos haccount, if_neg hlabel, if_neg (not_not.mpr haccount), if_pos hlabel]
      rfl
  · rw [if_neg haccount, if_pos haccount]
    rfl

/-- And one blob. -/
theorem encodeAttestation_eq (message : List UInt8) (sig : Signature) :
    encodeAttestation message sig.bytes.toList =
      base64urlEncode message ++ '.' :: base64urlEncode sig.bytes.toList := by
  rw [encodeAttestation, toBase64Url_eq, toBase64Url_eq]

/-! ## Side by side -/

/-- What the daemon decoded, as the cloud holds it. -/
def shown (d : Zesterm.DecodedAttestation) : DecodedAttestation :=
  { fields := fieldsOf d.fields, message := d.message, signature := d.signature.bytes.toList }

/-- Both refuse a text, or both accept it with the same fields, message and
signature. -/
def Agree (malformed : List UInt8 → Str) (text : Str) : Prop :=
  decodeAttestation malformed text = (Zesterm.decodeAttestation text).map shown

/-- What the codecs agree on: every attestation both can hold is one message
and, signed, one text. -/
theorem encoded_alike {a : Attestation} (h : Safe a) :
    attestationMessage (fieldsOf a) = (Zesterm.attestationMessage a).toOption ∧
      ∀ sig : Signature, (attestationMessage (fieldsOf a)).map
        (encodeAttestation · sig.bytes.toList) = (Zesterm.encodeAttestation a sig).toOption := by
  refine ⟨attestationMessage_fieldsOf h, fun sig => ?_⟩
  rw [attestationMessage_fieldsOf h, Zesterm.encodeAttestation]
  cases Zesterm.attestationMessage a with
  | error e => rfl
  | ok message => exact congrArg some (encodeAttestation_eq message sig)

section Spelling

variable {text : Str} {a : Attestation} {sig : Signature} {i j : Nat} {message : List UInt8}

/-- The daemon wants no bit left over. -/
theorem daemon_decodes (h : Spelled text a sig i j)
    (ha : Zesterm.attestationMessage a = .ok message) :
    Zesterm.decodeAttestation text = some ⟨a, message, sig⟩ ↔ i = 0 ∧ j = 0 := by
  rw [Zesterm.decodeAttestation_eq_some]
  constructor
  · rintro ⟨h', -⟩
    obtain ⟨-, -, hi, hj⟩ := h.unique h'
    exact ⟨hi, hj⟩
  · rintro ⟨rfl, rfl⟩
    exact ⟨h, ha⟩

/-- The cloud wants a statement it can hold and read back. -/
theorem cloud_decodes (malformed : List UInt8 → Str) (h : Spelled text a sig i j)
    (ha : Zesterm.attestationMessage a = .ok message) :
    decodeAttestation malformed text = some (shown ⟨a, message, sig⟩) ↔ Unmarked a ∧ Safe a := by
  rw [decodeAttestation_eq_some]
  constructor
  · rintro ⟨a', sig', i', j', h', hmarked, hsafe, -⟩
    obtain ⟨rfl, -⟩ := h.unique h'
    exact ⟨hmarked, hsafe⟩
  · rintro ⟨hmarked, hsafe⟩
    exact ⟨a, sig, i, j, h, hmarked, hsafe, ha, rfl, rfl⟩

/-- What the daemon accepts of a text is what the text spells. -/
theorem of_daemon_decodes {d : Zesterm.DecodedAttestation} (h : Spelled text a sig i j)
    (ha : Zesterm.attestationMessage a = .ok message)
    (hd : Zesterm.decodeAttestation text = some d) : d = ⟨a, message, sig⟩ := by
  obtain ⟨h', ha'⟩ := Zesterm.decodeAttestation_eq_some.mp hd
  obtain ⟨rfl, rfl, -⟩ := h.unique h'
  obtain rfl := Except.ok.inj (ha.symm.trans ha')
  rfl

/-- So is what the cloud accepts. -/
theorem of_cloud_decodes {malformed : List UInt8 → Str} {d : DecodedAttestation}
    (h : Spelled text a sig i j) (ha : Zesterm.attestationMessage a = .ok message)
    (hd : decodeAttestation malformed text = some d) : d = shown ⟨a, message, sig⟩ := by
  obtain ⟨a', sig', i', j', h', -, -, ha', hfields, hsig⟩ := decodeAttestation_eq_some.mp hd
  obtain ⟨rfl, rfl, -⟩ := h.unique h'
  obtain ⟨f, bytes, s⟩ := d
  dsimp only at ha' hfields hsig
  obtain rfl := Except.ok.inj (ha.symm.trans ha')
  rw [hfields, hsig]
  rfl

end Spelling

/-- A text that spells nothing is refused by both. -/
theorem refused_of_not_spelled {malformed : List UInt8 → Str} {text : Str}
    (h : ∀ a sig i j, ¬ Spelled text a sig i j) :
    Zesterm.decodeAttestation text = none ∧ decodeAttestation malformed text = none := by
  constructor
  · rw [Option.eq_none_iff_forall_ne_some]
    exact fun d hd => h _ _ _ _ (Zesterm.decodeAttestation_eq_some.mp hd).1
  · rw [Option.eq_none_iff_forall_ne_some]
    intro d hd
    obtain ⟨a, sig, i, j, hspelled, -⟩ := decodeAttestation_eq_some.mp hd
    exact h _ _ _ _ hspelled

/-- The texts the two codecs agree on: those that spell no attestation, and
those that spell one with no bit left over if and only if none of its fields
begins with a byte order mark and its timestamps are safe. -/
theorem agree_iff (malformed : List UInt8 → Str) (text : Str) :
    Agree malformed text ↔ ∀ a sig i j, Spelled text a sig i j →
      (i = 0 ∧ j = 0 ↔ Unmarked a ∧ Safe a) := by
  unfold Agree
  constructor
  · intro hagree a sig i j h
    obtain ⟨message, ha⟩ : ∃ message, Zesterm.attestationMessage a = .ok message := by
      obtain ⟨-, -, message, -, -, -, ha, -⟩ := h
      exact ⟨message, ha⟩
    rw [← daemon_decodes h ha, ← cloud_decodes malformed h ha, hagree, Option.map_eq_some_iff]
    constructor
    · exact fun hd => ⟨_, hd, rfl⟩
    · rintro ⟨d, hd, -⟩
      rwa [of_daemon_decodes h ha hd] at hd
  · intro hiff
    by_cases hspelled : ∃ a sig i j, Spelled text a sig i j
    · obtain ⟨a, sig, i, j, h⟩ := hspelled
      obtain ⟨message, ha⟩ : ∃ message, Zesterm.attestationMessage a = .ok message := by
        obtain ⟨-, -, message, -, -, -, ha, -⟩ := h
        exact ⟨message, ha⟩
      have hsame := hiff a sig i j h
      rw [← daemon_decodes h ha, ← cloud_decodes malformed h ha] at hsame
      by_cases hd : Zesterm.decodeAttestation text = some ⟨a, message, sig⟩
      · rw [hd, hsame.mp hd]
        rfl
      · have hnone : Zesterm.decodeAttestation text = none := by
          rw [Option.eq_none_iff_forall_ne_some]
          exact fun d hd' => hd (of_daemon_decodes h ha hd' ▸ hd')
        rw [hnone, Option.map_none, Option.eq_none_iff_forall_ne_some]
        exact fun d hd' => hd (hsame.mpr (of_cloud_decodes h ha hd' ▸ hd'))
    · push Not at hspelled
      obtain ⟨hdaemon, hcloud⟩ := refused_of_not_spelled hspelled
      rw [hdaemon, hcloud]
      rfl

/-- A text that leaves no bit over and spells no field that a byte order mark
leads: one that neither decoder reads otherwise than it was written. -/
def Plain (text : Str) : Prop :=
  ∀ a sig i j, Spelled text a sig i j → i = 0 ∧ j = 0 ∧ Unmarked a

instance (a : Attestation) : Decidable (Safe a) := inferInstanceAs (Decidable (_ ∧ _))

/-- Of a plain text the cloud makes what the daemon makes of it, save that it
refuses timestamps no JavaScript number holds exactly; and an attestation both
can hold is one message and one text. -/
theorem codecs_alike (malformed : List UInt8 → Str) {text : Str} (hplain : Plain text) :
    decodeAttestation malformed text =
      ((Zesterm.decodeAttestation text).filter fun d => Safe d.fields).map shown ∧
    ∀ a, Safe a → attestationMessage (fieldsOf a) = (Zesterm.attestationMessage a).toOption ∧
      ∀ sig : Signature, (attestationMessage (fieldsOf a)).map
        (encodeAttestation · sig.bytes.toList) = (Zesterm.encodeAttestation a sig).toOption := by
  refine ⟨?_, fun a ha => encoded_alike ha⟩
  by_cases hspelled : ∃ a sig i j, Spelled text a sig i j
  · obtain ⟨a, sig, i, j, h⟩ := hspelled
    obtain ⟨hi, hj, hmarked⟩ := hplain a sig i j h
    obtain ⟨message, ha⟩ : ∃ message, Zesterm.attestationMessage a = .ok message := by
      obtain ⟨-, -, message, -, -, -, ha, -⟩ := h
      exact ⟨message, ha⟩
    rw [(daemon_decodes h ha).mpr ⟨hi, hj⟩]
    by_cases hsafe : Safe a
    · rw [(cloud_decodes malformed h ha).mpr ⟨hmarked, hsafe⟩,
        Option.filter_some, if_pos (decide_eq_true hsafe), Option.map_some]
    · rw [Option.filter_some, if_neg (by simpa using hsafe), Option.map_none,
        Option.eq_none_iff_forall_ne_some]
      intro d hd
      rw [of_cloud_decodes h ha hd] at hd
      exact hsafe ((cloud_decodes malformed h ha).mp hd).2
  · push Not at hspelled
    obtain ⟨hdaemon, hcloud⟩ := refused_of_not_spelled hspelled
    rw [hdaemon, hcloud]
    rfl

/-- A statement issued at `iat`, and its signature. -/
def statement (iat : UInt64) : Attestation :=
  { v := 1, account := "u1".toList, device := ⟨.replicate 32 7⟩, label := "phone".toList,
    approver := ⟨.replicate 32 9⟩, iat, exp := iat + 1000 }

def mark : Signature := ⟨.replicate 64 5⟩

/-- The blob of a statement. -/
def blob (iat : UInt64) : Str :=
  match Zesterm.encodeAttestation (statement iat) mark with
  | .ok text => text
  | .error _ => []

theorem spelled_blob (iat : UInt64) : Spelled (blob iat) (statement iat) mark 0 0 := by
  have haccount : (toUtf8 (statement iat).account).length = 2 := by
    change (toUtf8 "u1".toList).length = 2
    decide
  have hlabel : (toUtf8 (statement iat).label).length = 5 := by
    change (toUtf8 "phone".toList).length = 5
    decide
  have hdomain : attestDomain.length = 17 := by decide
  obtain ⟨message, hmessage, hlen⟩ : ∃ message,
      Zesterm.attestationMessage (statement iat) = .ok message ∧ message.length ≤ 1400 := by
    refine ⟨_, attestationMessage_ok.mpr ⟨by rw [haccount]; decide, by rw [hlabel]; decide, rfl⟩, ?_⟩
    simp only [List.length_append, length_bigEndian, Vector.length_toList, haccount, hlabel, hdomain]
    decide
  have hblob : blob iat =
      base64urlEncode message ++ '.' :: base64urlEncode mark.bytes.toList := by
    rw [blob, Zesterm.encodeAttestation, hmessage]
    rfl
  rw [hblob]
  exact spelled_encode mark rfl hmessage hlen

theorem unmarked_statement (iat : UInt64) : Unmarked (statement iat) := by
  unfold Unmarked Marked
  change ¬ "u1".toList.head? = some '\uFEFF' ∧ ¬ "phone".toList.head? = some '\uFEFF'
  decide

theorem plain_blob (iat : UInt64) : Plain (blob iat) := by
  intro a sig i j h
  obtain ⟨rfl, -, rfl, rfl⟩ := (spelled_blob iat).unique h
  exact ⟨rfl, rfl, unmarked_statement iat⟩

theorem codecs_alike_blob :
    decodeAttestation (fun _ => ['\uFFFD']) (blob 0) =
      ((Zesterm.decodeAttestation (blob 0)).filter fun d => Safe d.fields).map shown ∧
    attestationMessage (fieldsOf (statement 0)) =
      (Zesterm.attestationMessage (statement 0)).toOption := by
  obtain ⟨hdecode, hencode⟩ := codecs_alike (fun _ => ['\uFFFD']) (plain_blob 0)
  exact ⟨hdecode, (hencode (statement 0) (by decide)).1⟩

/-- The first millisecond no JavaScript number can be trusted with: the daemon
takes its blob and the cloud does not. -/
theorem unsafe_timestamp_refused : ¬ Agree (fun _ => ['\uFFFD']) (blob (2 ^ 53)) := by
  rw [agree_iff]
  intro h
  have hsafe := ((h _ _ _ _ (spelled_blob (2 ^ 53))).mp ⟨rfl, rfl⟩).2
  exact absurd hsafe (by decide)

end Zesterm.Cloud
