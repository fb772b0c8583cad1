/-
Zesterm.Daemon.HelloTheorems — the daemon's hello and the relay's reading
of it.

`writeHello` is `serde_json::to_string` of a `Hello`. What the daemon writes
is longer than what it is made of by the escapes of its label alone, and a
label of 128 units leaves room for those: `length_writeHello`. The relay then
reads it member by member: `parseHello_writeHello`.
-/
import Zesterm.Cloud.AttestCodecTheorems
import Zesterm.Cloud.Control
import Zesterm.Daemon.RelayTheorems

namespace Zesterm.RelayLeg

open JsonText

/-- `serde_json::to_string` of a `Hello`. -/
def writeHello (h : Hello) : Str :=
  writeObject
    [("t".toList, writeString h.t), ("v".toList, showNat h.v.toNat),
      ("host".toList, writeString h.host), ("label".toList, writeString h.label),
      ("sig".toList, writeString h.sig)]

/-! ## A label is cut at its 128th unit -/

theorem length_unitsOf_eq (c : Char) : (unitsOf c).length = lenUtf16 c := by
  unfold unitsOf lenUtf16
  split <;> rfl

theorem length_go (limit : Nat) (s : Str) : ∀ units ≤ limit,
    units + (utf16 (truncateChars.go limit units s)).length ≤ limit := by
  induction s with
  | nil => intro units h; exact h
  | cons c s ih =>
    intro units h
    rw [truncateChars.go]
    split
    · exact h
    · next hfits =>
      have := ih (units + lenUtf16 c) (Nat.le_of_not_lt hfits)
      rw [utf16_cons, List.length_append, length_unitsOf_eq]
      omega

theorem go_start (limit : Nat) (s : Str) : ∀ units, truncateChars.go limit units s <+: s := by
  induction s with
  | nil => intro units; exact List.nil_prefix
  | cons c s ih =>
    intro units
    rw [truncateChars.go]
    split
    · exact List.nil_prefix
    · exact (List.prefix_cons_inj c).mpr (ih _)

/-- No prefix that fits goes further. -/
theorem prefix_go (limit : Nat) (s : Str) : ∀ units (p : Str), p <+: s →
    units + (utf16 p).length ≤ limit → p <+: truncateChars.go limit units s := by
  induction s with
  | nil => intro units p hp _; rwa [truncateChars.go]
  | cons c s ih =>
    intro units p hp hfits
    cases p with
    | nil => exact List.nil_prefix
    | cons d p =>
      obtain ⟨rfl, hp'⟩ := List.cons_prefix_cons.mp hp
      rw [utf16_cons, List.length_append, length_unitsOf_eq] at hfits
      rw [truncateChars.go, if_neg (by omega)]
      exact (List.prefix_cons_inj d).mpr (ih _ p hp' (by omega))

/-- `truncateChars` keeps the longest prefix of so many units. -/
theorem truncateChars_longest (s : Str) (limit : Nat) :
    truncateChars s limit <+: s ∧ (utf16 (truncateChars s limit)).length ≤ limit ∧
      ∀ p, p <+: s → (utf16 p).length ≤ limit → p <+: truncateChars s limit := by
  refine ⟨go_start limit s 0, ?_, fun p hp h => prefix_go limit s 0 p hp (by omega)⟩
  have := length_go limit s 0 (Nat.zero_le _)
  rwa [Nat.zero_add] at this

/-! ## Hex, as units -/

/-- A character of hex is one unit, that is read back and is not escaped. -/
theorem hexDigit_plain : ∀ n < 16,
    unitsOf (Nat.digitChar n) = [UInt16.ofNat (Nat.digitChar n).toNat] ∧
      Char.ofNat (UInt16.ofNat (Nat.digitChar n).toNat).toNat = Nat.digitChar n ∧
      escaped (Nat.digitChar n) = [Nat.digitChar n] := by
  decide

theorem of_mem_hexEncode {bytes : List UInt8} {c : Char} (h : c ∈ hexEncode bytes) :
    ∃ n < 16, c = Nat.digitChar n := by
  obtain ⟨b, -, hc⟩ := List.mem_flatMap.mp h
  have := b.toNat_lt
  simp only [List.mem_cons, List.not_mem_nil, or_false] at hc
  rcases hc with rfl | rfl
  · exact ⟨_, by omega, rfl⟩
  · exact ⟨_, by omega, rfl⟩

theorem map_utf16 {s : Str} (h : ∀ c ∈ s, ∃ n < 16, c = Nat.digitChar n) :
    (utf16 s).map (fun u => Char.ofNat u.toNat) = s ∧ (utf16 s).length = s.length ∧
      s.flatMap escaped = s := by
  induction s with
  | nil => exact ⟨rfl, rfl, rfl⟩
  | cons c s ih =>
    obtain ⟨n, hn, rfl⟩ := h c List.mem_cons_self
    obtain ⟨hunits, hback, hescaped⟩ := hexDigit_plain n hn
    obtain ⟨hmap, hlength, hflat⟩ := ih fun d hd => h d (List.mem_cons_of_mem _ hd)
    refine ⟨?_, ?_, ?_⟩
    · rw [utf16_cons, hunits, List.singleton_append, List.map_cons, hback, hmap]
    · rw [utf16_cons, hunits, List.singleton_append, List.length_cons, List.length_cons, hlength]
    · rw [List.flatMap_cons, hescaped, hflat, List.singleton_append]

/-- The relay reads the bytes of a hex. -/
theorem fromHexUnits_hexEncode (bytes : List UInt8) {n : Nat} (hn : bytes.length = n) :
    Cloud.Control.fromHexUnits (utf16 (hexEncode bytes)) n = .ok bytes := by
  have hlength : ¬ (hexEncode bytes).length ≠ n * 2 :=
    not_not_intro (by rw [length_hexEncode, hn])
  rw [Cloud.Control.fromHexUnits, (map_utf16 fun c hc => of_mem_hexEncode hc).1, Cloud.fromHex,
    if_neg hlength, Cloud.pairs_hexEncode]

theorem length_writeString_hexEncode (bytes : List UInt8) :
    (utf16 (writeString (hexEncode bytes))).length = bytes.length * 2 + 2 := by
  obtain ⟨-, hlength, hflat⟩ := map_utf16 fun c (hc : c ∈ hexEncode bytes) => of_mem_hexEncode hc
  rw [utf16_writeString, hflat, List.length_cons, utf16_append, List.length_append, hlength,
    length_hexEncode]
  rfl

/-! ## A hello is read -/

/-- How long a hello is: what is fixed, and its three texts. -/
theorem length_writeHello {h : Hello} (ht : h.t = "hello".toList) (hv : h.v = controlVersion) :
    (utf16 (writeHello h)).length =
      43 + (utf16 (writeString h.host)).length + (utf16 (writeString h.label)).length +
        (utf16 (writeString h.sig)).length := by
  have hkeys : (utf16 (writeString "t".toList)).length = 3 ∧
      (utf16 (writeString "hello".toList)).length = 7 ∧
      (utf16 (writeString "v".toList)).length = 3 ∧
      (utf16 (showNat controlVersion.toNat)).length = 1 ∧
      (utf16 (writeString "host".toList)).length = 6 ∧
      (utf16 (writeString "label".toList)).length = 7 ∧
      (utf16 (writeString "sig".toList)).length = 5 := by decide
  obtain ⟨htKey, hhello, hvKey, hversion, hhostKey, hlabelKey, hsigKey⟩ := hkeys
  rw [writeHello, writeObject, utf16_cons, List.length_append, length_writeMembers]
  simp only [List.map_cons, List.map_nil, List.sum_cons, List.sum_nil, ht, hv, htKey, hhello, hvKey,
    hversion, hhostKey, hlabelKey, hsigKey]
  have : (unitsOf '\x7b').length = 1 := by decide
  omega

theorem reads_one : JsonText.Reads ['1'] (.number ⟨false, [1], [], 0⟩) := by
  have h : JsonText.Reads ([1].map Nat.digitChar) (.number ⟨false, [1], [], 0⟩) :=
    reads_digits (by decide) (by decide)
  exact h

/-- The members of a hello. -/
def helloMembers (h : Hello) : List Member :=
  [⟨"t".toList, _, _, reads_writeString h.t⟩,
    ⟨"v".toList, _, _, reads_one⟩,
    ⟨"host".toList, _, _, reads_writeString h.host⟩,
    ⟨"label".toList, _, _, reads_writeString h.label⟩,
    ⟨"sig".toList, _, _, reads_writeString h.sig⟩]

theorem parse_writeHello {h : Hello} (hv : h.v = controlVersion) :
    JsonText.parse (utf16 (writeHello h)) = some (.object ((helloMembers h).map Member.read)) := by
  have hwritten : writeHello h = writeObject ((helloMembers h).map Member.written) := by
    rw [writeHello, hv]
    rfl
  rw [hwritten, helloMembers, parse_writeObject]

theorem fields_hello (h : Hello) :
    Cloud.Control.field ((helloMembers h).map Member.read) "t".toList = some (.string (utf16 h.t)) ∧
    Cloud.Control.field ((helloMembers h).map Member.read) "v".toList =
      some (.number ⟨false, [1], [], 0⟩) ∧
    Cloud.Control.field ((helloMembers h).map Member.read) "host".toList =
      some (.string (utf16 h.host)) ∧
    Cloud.Control.field ((helloMembers h).map Member.read) "label".toList =
      some (.string (utf16 h.label)) ∧
    Cloud.Control.field ((helloMembers h).map Member.read) "sig".toList =
      some (.string (utf16 h.sig)) :=
  ⟨rfl, rfl, rfl, rfl, rfl⟩

theorem isVersion_one : Cloud.Control.isVersion (some (.number ⟨false, [1], [], 0⟩)) = true := by
  simp [Cloud.Control.isVersion, Number.value]

theorem bind_ok {ε α β : Type} (a : α) (f : α → Except ε β) : (Except.ok a >>= f) = f a := rfl

/-- The relay reads what the daemon writes. -/
theorem parseHello_writeHello {h : Hello} {host : Vector UInt8 32} {sig : Vector UInt8 64}
    (ht : h.t = "hello".toList) (hv : h.v = controlVersion) (hhost : h.host = hexEncode host.toList)
    (hsig : h.sig = hexEncode sig.toList) (hlabel : (utf16 h.label).length ≤ maxLabelChars) :
    (utf16 (writeHello h)).length ≤ Cloud.Control.maxControlMessageChars ∧
      Cloud.Control.parseHello (.text (utf16 (writeHello h))) =
        .ok { host := utf16 h.host, label := utf16 h.label, sig := sig.toList } := by
  have hlength := length_writeHello ht hv
  have hescapes := length_writeString h.label
  rw [hhost, hsig, length_writeString_hexEncode, length_writeString_hexEncode, Vector.length_toList,
    Vector.length_toList] at hlength
  have hfits : (utf16 (writeHello h)).length ≤ Cloud.Control.maxControlMessageChars ∧
      (utf16 (writeHello h)).length ≠ 0 := by
    simp only [maxLabelChars] at hlabel
    simp only [Cloud.Control.maxControlMessageChars]
    omega
  refine ⟨hfits.1, ?_⟩
  obtain ⟨htField, hvField, hhostField, hlabelField, hsigField⟩ := fields_hello h
  have hhostBytes : Cloud.Control.fromHexUnits (utf16 h.host) 32 = .ok host.toList := by
    rw [hhost, fromHexUnits_hexEncode _ Vector.length_toList]
  have hsigBytes : Cloud.Control.fromHexUnits (utf16 h.sig) 64 = .ok sig.toList := by
    rw [hsig, fromHexUnits_hexEncode _ Vector.length_toList]
  have hisText : Cloud.Control.isText "hello".toList (some (.string (utf16 h.t))) = true := by
    rw [ht]
    rfl
  rw [Cloud.Control.parseHello, if_neg (not_or.mpr ⟨hfits.2, Nat.not_lt.mpr hfits.1⟩),
    parse_writeHello hv]
  dsimp only
  rw [htField, hvField, hhostField, hlabelField, hsigField, if_neg (not_not_intro hisText),
    if_neg (not_not_intro isVersion_one)]
  have hfitsLabel : ¬ Cloud.Control.maxLabelChars < (utf16 h.label).length := Nat.not_lt.mpr hlabel
  simp only [Cloud.Control.asText, Cloud.Control.hostIdBytes, Cloud.Control.signatureBytes,
    bind_ok, hhostBytes, hsigBytes, if_neg hfitsLabel]
  rfl

/-- Whatever a machine is called and whatever nonce it was sent, its hello is
no longer than the relay reads, and the relay reads the id, the signature and
the longest part of the name that 128 units hold. -/
theorem hello_read (ed : Ed25519) (read : Str → Except Str Down) (identity : HostIdentity)
    (label : Str) (nonce : Nonce) :
    ∃ text kept,
      helloFor ed ⟨read, writeHello⟩ identity label (hexEncode nonce.bytes.toList) = .ok text ∧
      (utf16 text).length ≤ Cloud.Control.maxControlMessageChars ∧
      Cloud.Control.parseHello (.text (utf16 text)) =
        .ok
          { host := utf16 (hexEncode identity.id.bytes.toList)
            label := utf16 kept
            sig := (identity.sign ed .auth nonce.bytes.toList).bytes.toList } ∧
      kept <+: label ∧ (utf16 kept).length ≤ 128 ∧
      ∀ p, p <+: label → (utf16 p).length ≤ 128 → p <+: kept := by
  obtain ⟨hstart, hfits, hlongest⟩ := truncateChars_longest label maxLabelChars
  obtain ⟨hlength, hread⟩ := parseHello_writeHello (h := hello ed identity label nonce) rfl rfl rfl
    rfl hfits
  refine ⟨writeHello (hello ed identity label nonce), truncateChars label maxLabelChars, ?_,
    hlength, hread, hstart, hfits, hlongest⟩
  rw [helloFor, parseNonce_hexEncode]
  rfl

end Zesterm.RelayLeg
