/-
Zesterm.Proto.MsgpackTheorems — when MessagePack round-trips in the browser.

What `encode` writes of a value that fits, `decode` reads as that value with
the byte order mark gone that begins a text (`value_encode`). It looks no
further than the value, so a shorter input is refused and a longer one is.
-/
import Zesterm.Core.Utf8Theorems
import Zesterm.Proto.Msgpack

namespace Zesterm

namespace Msgpack

open Coding

variable {fuel : Nat} {rest bytes : List UInt8} {n : Int}

/-! ## Parts of a value -/

theorem number_append {k n : Nat} (h : n < 256 ^ k) (rest : List UInt8) :
    number k (bigEndian k n ++ rest) = some (n, rest) := (reads_number k _ _ _).mpr ⟨h, rfl⟩

theorem take_append (bytes rest : List UInt8) :
    take bytes.length (bytes ++ rest) = some (bytes, rest) := (reads_take _ _ _ _).mpr ⟨rfl, rfl⟩

theorem value_cons (fuel : Nat) (b : UInt8) (rest : List UInt8) :
    value (fuel + 1) (b :: rest) = body (value fuel) b.toNat rest := by
  have hbyte : number 1 (b :: rest) = some (b.toNat, rest) := by
    have hcode : bigEndian 1 b.toNat = [b] := by
      show [UInt8.ofNat b.toNat] = [b]
      rw [UInt8.ofNat_toNat]
    have hread := @number_append 1 b.toNat b.toNat_lt rest
    rwa [hcode] at hread
  rw [value, bind_of_eq hbyte]

/-- A value that begins with a small header. -/
theorem value_byte {n : Nat} (h : n < 256) (fuel : Nat) (rest : List UInt8) :
    value (fuel + 1) (bigEndian 1 n ++ rest) = body (value fuel) n rest := by
  have hcode : bigEndian 1 n ++ rest = UInt8.ofNat n :: rest := rfl
  rw [hcode, value_cons, UInt8.toNat_ofNat', Nat.mod_eq_of_lt h]

/-- A value behind a header byte that is read by one reader. -/
theorem value_coded {α : Type} {b : UInt8} {r : Reader UInt8 α} (f : α → Value)
    (hbody : body (value fuel) b.toNat = r >>= fun x => pure (f x)) {x : α}
    (h : r bytes = some (x, rest)) : value (fuel + 1) (b :: bytes) = some (f x, rest) := by
  rw [value_cons, hbody, bind_of_eq h]
  rfl

/-- So is one whose length is read first. -/
theorem value_sized {α : Type} {b : UInt8} {k : Nat} {r : Nat → Reader UInt8 α} (f : α → Value)
    (hbody : body (value fuel) b.toNat = number k >>= fun len => r len >>= fun x => pure (f x))
    {len : Nat} (hlen : len < 256 ^ k) {x : α} (h : r len bytes = some (x, rest)) :
    value (fuel + 1) (b :: bigEndian k len ++ bytes) = some (f x, rest) := by
  rw [List.cons_append, value_cons, hbody, bind_of_eq (number_append hlen _), bind_of_eq h]
  rfl

theorem or_header : ∀ len < 16, (0x90 ||| len = 0x90 + len ∧ (0x90 + len) &&& 0x0f = len) ∧
    (0x80 ||| len = 0x80 + len ∧ (0x80 + len) &&& 0x0f = len) := by decide

theorem or_text : ∀ len < 32, 0xa0 ||| len = 0xa0 + len ∧ (0xa0 + len) &&& 0x1f = len := by decide

theorem text_append (s : Str) (rest : List UInt8) :
    text (toUtf8 s).length (toUtf8 s ++ rest) = some (dropBom s, rest) := by
  rw [text, narrow, bind_of_eq (take_append _ _), fromUtf8_toUtf8]
  rfl

theorem value_str {s : Str} (h : (toUtf8 s).length < 2 ^ 32) (fuel : Nat) (rest : List UInt8) :
    value (fuel + 1) (str s ++ rest) = some (.str (dropBom s), rest) := by
  have htext := text_append s rest
  unfold str
  dsimp only
  rw [List.append_assoc]
  split
  · next hlen =>
    obtain ⟨hor, hand⟩ := or_text (toUtf8 s).length (by omega)
    rw [hor, value_byte (by omega), body, if_neg (by omega), if_neg (by omega), if_neg (by omega),
      if_neg (by omega), if_pos (by omega), hand, bind_of_eq htext]
    rfl
  · split
    · exact value_sized Value.str rfl (by omega) htext
    · split
      · exact value_sized Value.str rfl (by omega) htext
      · exact value_sized Value.str rfl (by omega) htext

theorem value_array {len : Nat} (h : len < 2 ^ 32) {items : List Value}
    (hitems : readItems (value fuel) len bytes = some (items, rest)) :
    value (fuel + 1) (arrayHeader len ++ bytes) = some (.array items, rest) := by
  unfold arrayHeader
  split
  · obtain ⟨⟨hor, hand⟩, -⟩ := or_header len (by omega)
    rw [hor, value_byte (by omega), body, if_neg (by omega), if_neg (by omega), if_neg (by omega),
      if_pos (by omega), hand]
    dsimp only
    rw [bind_of_eq hitems]
    rfl
  · split
    · exact value_sized Value.array rfl (by omega) hitems
    · exact value_sized Value.array rfl (by omega) hitems

theorem value_map {len : Nat} (h : len < 2 ^ 32) {entries : List (Str × Value)}
    (hentries : readEntries (value fuel) len [] bytes = some (entries, rest)) :
    value (fuel + 1) (mapHeader len ++ bytes) = some (.map entries, rest) := by
  unfold mapHeader
  split
  · obtain ⟨-, hor, hand⟩ := or_header len (by omega)
    rw [hor, value_byte (by omega), body, if_neg (by omega), if_neg (by omega), if_pos (by omega),
      hand]
    dsimp only
    rw [bind_of_eq hentries]
    rfl
  · split
    · exact value_sized Value.map rfl (by omega) hentries
    · exact value_sized Value.map rfl (by omega) hentries

/-! ## Integers -/

/-- An integer of the wire: of 64 bits, signed or not. -/
def IntRange (n : Int) : Prop := -2 ^ 63 ≤ n ∧ n < 2 ^ 64

theorem signed_append {k m : Nat} (hm : m < 256 ^ k) (hbig : ¬ m < 2 ^ (8 * k - 1))
    (hn : (m : Int) - 2 ^ (8 * k) = n) (rest : List UInt8) :
    signed k (bigEndian k m ++ rest) = some (n, rest) := by
  rw [signed, bind_of_eq (number_append hm rest), if_neg hbig, hn]
  rfl

theorem safe_small (h : -2 ^ 32 ≤ n ∧ n < 2 ^ 32) : safe n = .number n := by
  unfold safe
  rw [if_pos (by omega)]

theorem value_int {code : List UInt8} (h : int n = some code) (fuel : Nat) (rest : List UInt8) :
    value (fuel + 1) (code ++ rest) = some (safe n, rest) := by
  unfold int at h
  split at h
  · next hpos =>
    have hnat : (n.toNat : Int) = n := Int.toNat_of_nonneg hpos
    split at h
    · obtain rfl := Option.some.inj h
      rw [value_byte (by omega), body, if_pos (by omega), safe_small (by omega), hnat]
      rfl
    · split at h
      · obtain rfl := Option.some.inj h
        rw [safe_small (by omega), ← hnat]
        exact value_coded (fun m : Nat => .number m) rfl (number_append (by omega) rest)
      · split at h
        · obtain rfl := Option.some.inj h
          rw [safe_small (by omega), ← hnat]
          exact value_coded (fun m : Nat => .number m) rfl (number_append (by omega) rest)
        · split at h
          · obtain rfl := Option.some.inj h
            rw [safe_small (by omega), ← hnat]
            exact value_coded (fun m : Nat => .number m) rfl (number_append (by omega) rest)
          · split at h
            · obtain rfl := Option.some.inj h
              rw [← hnat]
              exact value_coded (fun m : Nat => safe m) rfl (number_append (by omega) rest)
            · cases h
  · split at h
    · obtain rfl := Option.some.inj h
      rw [value_byte (by omega), body, if_neg (by omega), if_pos (by omega), safe_small (by omega)]
      have hneg : (((n % 2 ^ 8).toNat : Int) - 0x100) = n := by omega
      rw [hneg]
      rfl
    · split at h
      · obtain rfl := Option.some.inj h
        rw [safe_small (by omega)]
        exact value_coded .number rfl (signed_append (by omega) (by omega) (by omega) rest)
      · split at h
        · obtain rfl := Option.some.inj h
          rw [safe_small (by omega)]
          exact value_coded .number rfl (signed_append (by omega) (by omega) (by omega) rest)
        · split at h
          · obtain rfl := Option.some.inj h
            rw [safe_small (by omega)]
            exact value_coded .number rfl (signed_append (by omega) (by omega) (by omega) rest)
          · split at h
            · obtain rfl := Option.some.inj h
              exact value_coded safe rfl (signed_append (by omega) (by omega) (by omega) rest)
            · cases h

theorem int_eq_some (h : IntRange n) : ∃ code, int n = some code := by
  unfold IntRange at h
  unfold int
  split_ifs <;> first | exact ⟨_, rfl⟩ | omega

theorem int_ne_nil {code : List UInt8} (h : int n = some code) : code ≠ [] := by
  rintro rfl
  have hread := value_int h 0 []
  cases hread

/-! ## What is read back -/

mutual

/-- What is read of a value that was written. -/
def readBack : Value → Value
  | .null => .null
  | .bool b => .bool b
  | .number n => safe n
  | .bigint n => safe n
  | .str s => .str (dropBom s)
  | .bytes bytes => .array (bytes.map fun b => .number b.toNat)
  | .array items => .array (readBackItems items)
  | .map entries => .map (readBackEntries entries [])

def readBackItems : List Value → List Value
  | [] => []
  | v :: vs => readBack v :: readBackItems vs

def readBackEntries : List (Str × Value) → List (Str × Value) → List (Str × Value)
  | [], out => out
  | (key, v) :: es, out => readBackEntries es (assign out (dropBom key) (readBack v))

end

/-- `p` holds of every value inside a value, itself included. -/
inductive Every (p : Value → Prop) : Value → Prop
  | null : Every p .null
  | bool (b : Bool) : Every p (.bool b)
  | number {n : Int} : p (.number n) → Every p (.number n)
  | bigint {n : Int} : p (.bigint n) → Every p (.bigint n)
  | str {s : Str} : p (.str s) → Every p (.str s)
  | bytes {bytes : List UInt8} : p (.bytes bytes) → Every p (.bytes bytes)
  | array {items : List Value} : p (.array items) → (∀ v ∈ items, Every p v) → Every p (.array items)
  | map {entries : List (Str × Value)} : p (.map entries) → (∀ e ∈ entries, Every p e.2) →
    Every p (.map entries)

/-- A value of the wire: integers of 64 bits, and an object's keys are distinct. -/
def Wire : Value → Prop
  | .number n | .bigint n => IntRange n
  | .map entries => (entries.map Prod.fst).Nodup
  | _ => True

/-- No part is too long for its header. -/
def Small : Value → Prop
  | .str s => (toUtf8 s).length < 2 ^ 32
  | .bytes bytes => bytes.length < 2 ^ 32
  | .array items => items.length < 2 ^ 32
  | .map entries => entries.length < 2 ^ 32 ∧ ∀ e ∈ entries, (toUtf8 e.1).length < 2 ^ 32
  | _ => True

/-- No text begins with a byte order mark. -/
def Unmarked : Value → Prop
  | .str s => s.head? ≠ some bom
  | .map entries => ∀ e ∈ entries, e.1.head? ≠ some bom
  | _ => True

/-- No key is `__proto__`. -/
def Keyed : Value → Prop
  | .map entries => ∀ e ∈ entries, e.1 ≠ "__proto__".toList
  | _ => True

/-- `bytes` are a code of `v`, read as `w`. -/
def Codes (bytes : List UInt8) (w : Value) : Prop :=
  bytes ≠ [] ∧ ∀ fuel, bytes.length ≤ fuel → ∀ rest, value fuel (bytes ++ rest) = some (w, rest)

theorem codes_succ {bytes : List UInt8} {w : Value} (hne : bytes ≠ [])
    (h : ∀ fuel, bytes.length ≤ fuel + 1 → ∀ rest, value (fuel + 1) (bytes ++ rest) = some (w, rest)) :
    Codes bytes w := by
  refine ⟨hne, fun fuel hfuel rest => ?_⟩
  have hpos := List.length_pos_iff.mpr hne
  obtain ⟨f, rfl⟩ : ∃ f, fuel = f + 1 := ⟨fuel - 1, by omega⟩
  exact h f hfuel rest

theorem codes_int {n : Int} {code : List UInt8} (h : int n = some code) : Codes code (safe n) :=
  codes_succ (int_ne_nil h) fun fuel _ rest => value_int h fuel rest

theorem str_ne_nil (s : Str) : str s ≠ [] := by
  unfold str
  dsimp only
  split_ifs <;> simp [bigEndian]

theorem codes_str {s : Str} (h : (toUtf8 s).length < 2 ^ 32) : Codes (str s) (.str (dropBom s)) :=
  codes_succ (str_ne_nil s) fun fuel _ rest => value_str h fuel rest

theorem arrayHeader_ne_nil (len : Nat) : arrayHeader len ≠ [] := by
  unfold arrayHeader
  split_ifs <;> simp [bigEndian]

theorem mapHeader_ne_nil (len : Nat) : mapHeader len ≠ [] := by
  unfold mapHeader
  split_ifs <;> simp [bigEndian]

theorem readItems_codes {codes : List (List UInt8 × Value)} (h : ∀ c ∈ codes, Codes c.1 c.2)
    {fuel : Nat} (hfuel : (codes.flatMap Prod.fst).length ≤ fuel) (rest : List UInt8) :
    readItems (value fuel) codes.length (codes.flatMap Prod.fst ++ rest) =
      some (codes.map Prod.snd, rest) := by
  induction codes with
  | nil => rfl
  | cons c codes ih =>
    rw [List.forall_mem_cons] at h
    rw [List.flatMap_cons, List.length_append] at hfuel
    have hc := h.1.2 fuel (by omega) (codes.flatMap Prod.fst ++ rest)
    rw [List.flatMap_cons, List.append_assoc, List.length_cons, readItems, bind_of_eq hc,
      bind_of_eq (ih h.2 (by omega))]
    rfl

/-- An array of values that read back is read back. -/
theorem codes_array {codes : List (List UInt8 × Value)} (h : ∀ c ∈ codes, Codes c.1 c.2)
    (hlen : codes.length < 2 ^ 32) :
    Codes (arrayHeader codes.length ++ codes.flatMap Prod.fst) (.array (codes.map Prod.snd)) := by
  have hheader := List.length_pos_iff.mpr (arrayHeader_ne_nil codes.length)
  refine codes_succ (fun hnil => arrayHeader_ne_nil _ (List.append_eq_nil_iff.mp hnil).1)
    fun fuel hfuel rest => ?_
  rw [List.length_append] at hfuel
  rw [List.append_assoc]
  exact value_array hlen (readItems_codes h (by omega) rest)

theorem readEntries_codes {codes : List ((List UInt8 × Str) × (List UInt8 × Value))}
    (h : ∀ c ∈ codes, Codes c.1.1 (.str c.1.2) ∧ Codes c.2.1 c.2.2) {fuel : Nat}
    (hfuel : (codes.flatMap fun c => c.1.1 ++ c.2.1).length ≤ fuel) (out : List (Str × Value))
    (rest : List UInt8) :
    readEntries (value fuel) codes.length out ((codes.flatMap fun c => c.1.1 ++ c.2.1) ++ rest) =
      some (codes.foldl (fun out c => assign out c.1.2 c.2.2) out, rest) := by
  induction codes generalizing out with
  | nil => rfl
  | cons c codes ih =>
    rw [List.forall_mem_cons] at h
    rw [List.flatMap_cons, List.length_append, List.length_append] at hfuel
    have hkey := h.1.1.2 fuel (by omega)
      (c.2.1 ++ ((codes.flatMap fun c => c.1.1 ++ c.2.1) ++ rest))
    have hitem := h.1.2.2 fuel (by omega) ((codes.flatMap fun c => c.1.1 ++ c.2.1) ++ rest)
    have hname : narrow (value fuel) keyOf
        (c.1.1 ++ (c.2.1 ++ ((codes.flatMap fun c => c.1.1 ++ c.2.1) ++ rest))) =
          some (c.1.2, c.2.1 ++ ((codes.flatMap fun c => c.1.1 ++ c.2.1) ++ rest)) := by
      rw [narrow, bind_of_eq hkey]
      rfl
    rw [List.flatMap_cons, List.append_assoc, List.append_assoc, List.length_cons, readEntries,
      bind_of_eq hname, bind_of_eq hitem, ih h.2 (by omega)]
    rfl

theorem codes_map {codes : List ((List UInt8 × Str) × (List UInt8 × Value))}
    (h : ∀ c ∈ codes, Codes c.1.1 (.str c.1.2) ∧ Codes c.2.1 c.2.2) (hlen : codes.length < 2 ^ 32) :
    Codes (mapHeader codes.length ++ codes.flatMap fun c => c.1.1 ++ c.2.1)
      (.map (codes.foldl (fun out c => assign out c.1.2 c.2.2) [])) := by
  have hheader := List.length_pos_iff.mpr (mapHeader_ne_nil codes.length)
  refine codes_succ (fun hnil => mapHeader_ne_nil _ (List.append_eq_nil_iff.mp hnil).1)
    fun fuel hfuel rest => ?_
  rw [List.length_append] at hfuel
  rw [List.append_assoc]
  exact value_map hlen (readEntries_codes h (by omega) [] rest)

theorem byteItems_codes (bytes : List UInt8) : ∃ codes : List (List UInt8 × Value),
    byteItems bytes = some (codes.flatMap Prod.fst) ∧ codes.length = bytes.length ∧
      codes.map Prod.snd = bytes.map (fun b => .number b.toNat) ∧ ∀ c ∈ codes, Codes c.1 c.2 := by
  induction bytes with
  | nil => exact ⟨[], rfl, rfl, rfl, nofun⟩
  | cons b bytes ih =>
    obtain ⟨codes, hcodes, hlen, hsnd, hall⟩ := ih
    have hb := b.toNat_lt
    obtain ⟨code, hcode⟩ := int_eq_some (n := (b.toNat : Int)) ⟨by omega, by omega⟩
    have hsafe : safe (b.toNat : Int) = .number b.toNat := safe_small (by omega)
    refine ⟨(code, .number b.toNat) :: codes, ?_, by simp [hlen], by simp [hsnd], ?_⟩
    · rw [byteItems, hcode, hcodes]
      rfl
    · rw [List.forall_mem_cons]
      exact ⟨hsafe ▸ codes_int hcode, hall⟩

theorem encodeItems_codes {items : List Value}
    (h : ∀ v ∈ items, ∃ bytes, encode v = some bytes ∧ Codes bytes (readBack v)) :
    ∃ codes : List (List UInt8 × Value), encodeItems items = some (codes.flatMap Prod.fst) ∧
      codes.length = items.length ∧ codes.map Prod.snd = readBackItems items ∧
        ∀ c ∈ codes, Codes c.1 c.2 := by
  induction items with
  | nil => exact ⟨[], by rw [encodeItems]; rfl, rfl, by rw [readBackItems]; rfl, nofun⟩
  | cons v items ih =>
    rw [List.forall_mem_cons] at h
    obtain ⟨bytes, hbytes, hcode⟩ := h.1
    obtain ⟨codes, hcodes, hlen, hsnd, hall⟩ := ih h.2
    refine ⟨(bytes, readBack v) :: codes, ?_, by simp [hlen], ?_, ?_⟩
    · rw [encodeItems, hbytes, hcodes]
      rfl
    · rw [readBackItems, List.map_cons, hsnd]
    · rw [List.forall_mem_cons]
      exact ⟨hcode, hall⟩

theorem encodeEntries_codes {entries : List (Str × Value)}
    (hkeys : ∀ e ∈ entries, (toUtf8 e.1).length < 2 ^ 32)
    (h : ∀ e ∈ entries, ∃ bytes, encode e.2 = some bytes ∧ Codes bytes (readBack e.2)) :
    ∃ codes : List ((List UInt8 × Str) × (List UInt8 × Value)),
      encodeEntries entries = some (codes.flatMap fun c => c.1.1 ++ c.2.1) ∧
      codes.length = entries.length ∧
      (∀ out, codes.foldl (fun out c => assign out c.1.2 c.2.2) out = readBackEntries entries out) ∧
      ∀ c ∈ codes, Codes c.1.1 (.str c.1.2) ∧ Codes c.2.1 c.2.2 := by
  induction entries with
  | nil =>
    exact ⟨[], by rw [encodeEntries]; rfl, rfl, fun out => by rw [readBackEntries]; rfl, nofun⟩
  | cons e entries ih =>
    obtain ⟨key, v⟩ := e
    rw [List.forall_mem_cons] at h hkeys
    obtain ⟨bytes, hbytes, hcode⟩ := h.1
    obtain ⟨codes, hcodes, hlen, hfold, hall⟩ := ih hkeys.2 h.2
    refine ⟨((str key, dropBom key), (bytes, readBack v)) :: codes, ?_, by simp [hlen],
      fun out => ?_, ?_⟩
    · rw [encodeEntries, hbytes, hcodes]
      rfl
    · rw [readBackEntries, List.foldl_cons, hfold]
    · rw [List.forall_mem_cons]
      exact ⟨⟨codes_str hkeys.1, hcode⟩, hall⟩

/-- What is written of a value is read back as that value, its marks dropped. -/
theorem value_encode {v : Value} (hwire : Every Wire v) (hsmall : Every Small v) :
    ∃ bytes, encode v = some bytes ∧ Codes bytes (readBack v) := by
  induction hwire with
  | null =>
    refine ⟨[0xc0], by rw [encode], ?_⟩
    rw [readBack]
    exact codes_succ (List.cons_ne_nil _ _) fun fuel _ rest => value_cons fuel 0xc0 rest
  | bool b =>
    cases b with
    | false =>
      refine ⟨[0xc2], by rw [encode]; rfl, ?_⟩
      rw [readBack]
      exact codes_succ (List.cons_ne_nil _ _) fun fuel _ rest => value_cons fuel 0xc2 rest
    | true =>
      refine ⟨[0xc3], by rw [encode]; rfl, ?_⟩
      rw [readBack]
      exact codes_succ (List.cons_ne_nil _ _) fun fuel _ rest => value_cons fuel 0xc3 rest
  | number hn | bigint hn =>
    obtain ⟨code, hcode⟩ := int_eq_some hn
    rw [encode, readBack]
    exact ⟨code, hcode, codes_int hcode⟩
  | str _ =>
    cases hsmall with
    | str hs =>
      rw [encode, readBack]
      exact ⟨_, rfl, codes_str hs⟩
  | @bytes bytes _ =>
    cases hsmall with
    | bytes hlen =>
      obtain ⟨codes, hcodes, hlength, hsnd, hall⟩ := byteItems_codes bytes
      have harray := codes_array hall (hlength ▸ hlen)
      rw [encode, readBack, hcodes, ← hsnd, ← hlength]
      exact ⟨_, rfl, harray⟩
  | array _ _ ih =>
    cases hsmall with
    | array hlen hitems =>
      obtain ⟨codes, hcodes, hlength, hsnd, hall⟩ :=
        encodeItems_codes fun v hv => ih v hv (hitems v hv)
      have harray := codes_array hall (hlength ▸ hlen)
      rw [encode, readBack, hcodes, ← hsnd, ← hlength]
      exact ⟨_, rfl, harray⟩
  | map _ _ ih =>
    cases hsmall with
    | map hlen hentries =>
      obtain ⟨codes, hcodes, hlength, hfold, hall⟩ :=
        encodeEntries_codes hlen.2 fun e he => ih e he (hentries e he)
      have hmap := codes_map hall (hlength ▸ hlen.1)
      rw [encode, readBack, hcodes, ← hfold, ← hlength]
      exact ⟨_, rfl, hmap⟩

/-! ## No further than the value -/

theorem grows_number (k : Nat) : Grows (number k) (number k) := .of_reads (reads_number k)

theorem grows_take (n : Nat) : Grows (take n : Reader UInt8 (List UInt8)) (take n) :=
  .of_reads (reads_take n)

theorem grows_text (len : Nat) : Grows (text len) (text len) := (grows_take len).narrow _

theorem grows_signed (k : Nat) : Grows (signed k) (signed k) :=
  (grows_number k).bind fun _ => .pure _

section Growing

variable {r r' : Reader UInt8 Value}

theorem grows_items (h : Grows r r') (len : Nat) : Grows (readItems r len) (readItems r' len) := by
  induction len with
  | zero => exact .pure _
  | succ len ih => exact h.bind fun _ => ih.bind fun _ => .pure _

theorem grows_entries (h : Grows r r') (len : Nat) (out : List (Str × Value)) :
    Grows (readEntries r len out) (readEntries r' len out) := by
  induction len generalizing out with
  | zero => exact .pure _
  | succ len ih => exact (h.narrow keyOf).bind fun _ => h.bind fun _ => ih _

theorem grows_array (h : Grows r r') (len : Nat) :
    Grows (do return Value.array (← readItems r len)) (do return Value.array (← readItems r' len)) :=
  (grows_items h len).bind fun _ => .pure _

theorem grows_map (h : Grows r r') (len : Nat) :
    Grows (do return Value.map (← readEntries r len [])) (do return Value.map (← readEntries r' len [])) :=
  (grows_entries h len []).bind fun _ => .pure _

theorem grows_ite {c : Prop} [Decidable c] {s s' : Reader UInt8 Value} (h : Grows r r')
    (h' : Grows s s') : Grows (if c then r else s) (if c then r' else s') := by
  split
  · exact h
  · exact h'

theorem grows_body (h : Grows r r') (b : Nat) : Grows (body r b) (body r' b) := by
  have hnumber (k : Nat) (f : Nat → Value) :
      Grows (number k >>= fun n => pure (f n)) (number k >>= fun n => pure (f n)) :=
    (grows_number k).bind fun _ => .pure _
  have hsigned (k : Nat) (f : Int → Value) :
      Grows (signed k >>= fun n => pure (f n)) (signed k >>= fun n => pure (f n)) :=
    (grows_signed k).bind fun _ => .pure _
  have hbytes (k : Nat) :
      Grows (number k >>= fun n => take n >>= fun x => pure (Value.bytes x))
        (number k >>= fun n => take n >>= fun x => pure (Value.bytes x)) :=
    (grows_number k).bind fun _ => (grows_take _).bind fun _ => .pure _
  have htext (len : Nat) :
      Grows (text len >>= fun x => pure (Value.str x)) (text len >>= fun x => pure (Value.str x)) :=
    (grows_text len).bind fun _ => .pure _
  unfold body
  refine grows_ite (.pure _) (grows_ite (.pure _) (grows_ite (grows_map h _)
    (grows_ite (grows_array h _) (grows_ite (htext _) ?_))))
  refine grows_ite (.pure _) (grows_ite (.pure _) (grows_ite (.pure _) ?_))
  refine grows_ite (hbytes 1) (grows_ite (hbytes 2) (grows_ite (hbytes 4) ?_))
  refine grows_ite (hnumber 1 _) (grows_ite (hnumber 2 _) (grows_ite (hnumber 4 _)
    (grows_ite (hnumber 8 _) ?_)))
  refine grows_ite (hsigned 1 _) (grows_ite (hsigned 2 _) (grows_ite (hsigned 4 _)
    (grows_ite (hsigned 8 _) ?_)))
  refine grows_ite ((grows_number 1).bind htext) (grows_ite ((grows_number 2).bind htext)
    (grows_ite ((grows_number 4).bind htext) ?_))
  refine grows_ite ((grows_number 2).bind (grows_array h)) (grows_ite
    ((grows_number 4).bind (grows_array h)) ?_)
  refine grows_ite ((grows_number 2).bind (grows_map h)) (grows_ite
    ((grows_number 4).bind (grows_map h)) ?_)
  exact nofun

end Growing

variable {bytes : List UInt8} {w : Value} {α : Type}

theorem value_grows {fuel fuel' : Nat} (h : fuel ≤ fuel') : Grows (value fuel) (value fuel') := by
  induction fuel generalizing fuel' with
  | zero => exact nofun
  | succ fuel ih =>
    obtain ⟨f, rfl⟩ : ∃ f, fuel' = f + 1 := ⟨fuel' - 1, by omega⟩
    exact (grows_number 1).bind fun b => grows_body (ih (by omega)) b

theorem decode_eq_some {v : Value} :
    decode bytes = some v ↔ value bytes.length bytes = some (v, []) := by
  unfold decode
  split
  · next w heq => simp [heq]
  · next hother =>
    refine iff_of_false nofun fun heq => hother v heq

theorem Codes.decoded (h : Codes bytes w) : decode bytes = some w := by
  have hread := h.2 bytes.length le_rfl []
  rw [List.append_nil] at hread
  exact decode_eq_some.mpr hread

/-- Every proper beginning of a code is refused. -/
theorem Codes.prefix_refused {p q : List UInt8} (h : Codes (p ++ q) w) (hq : q ≠ []) :
    decode p = none := by
  rw [Option.eq_none_iff_forall_ne_some]
  intro v hv
  have hshort := value_grows (Nat.le_of_lt (show p.length < (p ++ q).length by
    rw [List.length_append]
    have := List.length_pos_iff.mpr hq
    omega)) p v [] q (decode_eq_some.mp hv)
  have hlong := h.2 (p ++ q).length le_rfl []
  rw [List.append_nil, hshort] at hlong
  exact hq (Prod.mk.inj (Option.some.inj hlong)).2

/-- So is every longer input. -/
theorem Codes.longer_refused {q : List UInt8} (h : Codes bytes w) (hq : q ≠ []) :
    decode (bytes ++ q) = none := by
  rw [Option.eq_none_iff_forall_ne_some]
  intro v hv
  have hread := h.2 (bytes ++ q).length (by simp) q
  rw [decode_eq_some.mp hv] at hread
  exact hq (Prod.mk.inj (Option.some.inj hread)).2.symm

/-! ## The narrowest form -/

/-- The integer a value is. -/
def Value.int? : Value → Option Int
  | .number n => some n
  | .bigint n => some n
  | _ => none

theorem int?_safe (n : Int) : (safe n).int? = some n := by
  unfold safe
  split <;> rfl

/-- An integer has a form of `k` bytes. -/
def Form (k : Nat) (n : Int) : Prop :=
  k = 1 ∧ -32 ≤ n ∧ n ≤ 127 ∨ k = 2 ∧ -128 ≤ n ∧ n ≤ 255 ∨ k = 3 ∧ -2 ^ 15 ≤ n ∧ n < 2 ^ 16 ∨
    k = 5 ∧ -2 ^ 31 ≤ n ∧ n < 2 ^ 32 ∨ k = 9

theorem length_int_le {n : Int} {code : List UInt8} (h : int n = some code) {k : Nat}
    (hk : Form k n) : code.length ≤ k := by
  unfold Form at hk
  unfold int at h
  split_ifs at h <;>
    (obtain rfl := Option.some.inj h
     simp only [List.length_cons, length_bigEndian]
     omega)

/-- What a reader takes for an integer is a form of it. -/
def Forms (r : Reader UInt8 Value) : Prop :=
  ∀ input w rest n, r input = some (w, rest) → w.int? = some n →
    ∃ k, Form k n ∧ input.length + 1 = rest.length + k

/-- Of what is no integer there is nothing to say. -/
theorem forms_other (r : Reader UInt8 α) {f : α → Value} (hf : ∀ x, (f x).int? = none) :
    Forms (r >>= fun x => pure (f x)) := by
  intro input w rest n h hn
  obtain ⟨x, mid, -, hpure⟩ := bind_eq_some'.mp h
  obtain ⟨rfl, rfl⟩ := pure_eq_some.mp hpure
  rw [hf] at hn
  cases hn

theorem forms_other₂ {β : Type} (r : Reader UInt8 α) (r' : α → Reader UInt8 β) {f : β → Value}
    (hf : ∀ x, (f x).int? = none) : Forms (r >>= fun x => r' x >>= fun y => pure (f y)) := by
  intro input w rest n h hn
  obtain ⟨x, mid, -, hx⟩ := bind_eq_some'.mp h
  obtain ⟨y, mid', -, hpure⟩ := bind_eq_some'.mp hx
  obtain ⟨rfl, rfl⟩ := pure_eq_some.mp hpure
  rw [hf] at hn
  cases hn

theorem forms_pure (h : ∀ n, w.int? = some n → Form 1 n) : Forms (pure w) := by
  intro input v rest n hread hn
  obtain ⟨rfl, rfl⟩ := pure_eq_some.mp hread
  exact ⟨1, h n hn, rfl⟩

theorem forms_number {k : Nat} {f : Nat → Value}
    (h : ∀ m < 256 ^ k, ∀ n, (f m).int? = some n → Form (k + 1) n) :
    Forms (number k >>= fun m => pure (f m)) := by
  intro input w rest n hread hn
  obtain ⟨m, mid, hm, hpure⟩ := bind_eq_some'.mp hread
  obtain ⟨rfl, rfl⟩ := pure_eq_some.mp hpure
  obtain ⟨hlt, rfl⟩ := (reads_number k _ _ _).mp hm
  refine ⟨k + 1, h m hlt n hn, ?_⟩
  rw [List.length_append, length_bigEndian]
  omega

theorem forms_signed {k : Nat} {f : Int → Value}
    (h : ∀ m, -2 ^ (8 * k - 1) ≤ m → m < 2 ^ (8 * k - 1) → ∀ n, (f m).int? = some n → Form (k + 1) n)
    (hk : 0 < k) : Forms (signed k >>= fun m => pure (f m)) := by
  intro input w rest n hread hn
  obtain ⟨i, mid, hi, hpure⟩ := bind_eq_some'.mp hread
  obtain ⟨rfl, rfl⟩ := pure_eq_some.mp hpure
  obtain ⟨m, mid', hm, hsign⟩ := bind_eq_some'.mp hi
  obtain ⟨rfl, rfl⟩ := pure_eq_some.mp hsign
  obtain ⟨hlt, rfl⟩ := (reads_number k _ _ _).mp hm
  have htop : (2 : Nat) ^ (8 * k) = 2 * 2 ^ (8 * k - 1) := by
    rw [← pow_succ', Nat.sub_add_cancel (by omega)]
  have hbytes : 256 ^ k = 2 ^ (8 * k) := by rw [pow_mul]; norm_num
  have htop' : (2 : Int) ^ (8 * k) = 2 * 2 ^ (8 * k - 1) := by exact_mod_cast htop
  have hlt' : (m : Int) < 2 ^ (8 * k) := by
    have : m < 2 ^ (8 * k) := hbytes ▸ hlt
    exact_mod_cast this
  refine ⟨k + 1, h _ ?_ ?_ n hn, by rw [List.length_append, length_bigEndian]; omega⟩
  · split
    · have hpos : (0 : Int) ≤ 2 ^ (8 * k - 1) := by positivity
      omega
    · next hbig =>
      have hbig' : (2 : Int) ^ (8 * k - 1) ≤ m := by exact_mod_cast not_lt.mp hbig
      omega
  · split
    · next hsmall => exact_mod_cast hsmall
    · omega

theorem forms_ite {c : Prop} [Decidable c] {r s : Reader UInt8 Value} (h : c → Forms r)
    (h' : ¬ c → Forms s) : Forms (if c then r else s) := by
  split
  · next hc => exact h hc
  · next hc => exact h' hc

theorem forms_body (r : Reader UInt8 Value) {b : Nat} (hb : b < 256) : Forms (body r b) := by
  have htext (len : Nat) : Forms (text len >>= fun x => pure (Value.str x)) :=
    forms_other _ fun _ => rfl
  have htexts (k : Nat) : Forms (number k >>= fun len => text len >>= fun x => pure (Value.str x)) :=
    forms_other₂ _ _ fun _ => rfl
  have harray (len : Nat) : Forms (readItems r len >>= fun x => pure (Value.array x)) :=
    forms_other _ fun _ => rfl
  have harrays (k : Nat) :
      Forms (number k >>= fun len => readItems r len >>= fun x => pure (Value.array x)) :=
    forms_other₂ _ _ fun _ => rfl
  have hmap (len : Nat) : Forms (readEntries r len [] >>= fun x => pure (Value.map x)) :=
    forms_other _ fun _ => rfl
  have hmaps (k : Nat) :
      Forms (number k >>= fun len => readEntries r len [] >>= fun x => pure (Value.map x)) :=
    forms_other₂ _ _ fun _ => rfl
  have hbytes (k : Nat) : Forms (number k >>= fun len => take len >>= fun x => pure (Value.bytes x)) :=
    forms_other₂ _ _ fun _ => rfl
  unfold body
  refine forms_ite (fun hfix => forms_pure fun n hn => ?_) fun _ => ?_
  · obtain rfl := Option.some.inj hn
    exact .inl ⟨rfl, by omega, by omega⟩
  refine forms_ite (fun hneg => forms_pure fun n hn => ?_) fun _ => ?_
  · obtain rfl := Option.some.inj hn
    exact .inl ⟨rfl, by omega, by omega⟩
  refine forms_ite (fun _ => hmap _) fun _ => forms_ite (fun _ => harray _) fun _ =>
    forms_ite (fun _ => htext _) fun _ => ?_
  refine forms_ite (fun _ => forms_pure nofun) fun _ => forms_ite (fun _ => forms_pure nofun) fun _ =>
    forms_ite (fun _ => forms_pure nofun) fun _ => ?_
  refine forms_ite (fun _ => hbytes 1) fun _ => forms_ite (fun _ => hbytes 2) fun _ =>
    forms_ite (fun _ => hbytes 4) fun _ => ?_
  refine forms_ite (fun _ => forms_number fun m hm n hn => ?_) fun _ => ?_
  · obtain rfl := Option.some.inj hn
    exact .inr (.inl ⟨rfl, by omega, by omega⟩)
  refine forms_ite (fun _ => forms_number fun m hm n hn => ?_) fun _ => ?_
  · obtain rfl := Option.some.inj hn
    exact .inr (.inr (.inl ⟨rfl, by omega, by omega⟩))
  refine forms_ite (fun _ => forms_number fun m hm n hn => ?_) fun _ => ?_
  · obtain rfl := Option.some.inj hn
    exact .inr (.inr (.inr (.inl ⟨rfl, by omega, by omega⟩)))
  refine forms_ite (fun _ => forms_number fun m hm n hn => .inr (.inr (.inr (.inr rfl)))) fun _ => ?_
  refine forms_ite (fun _ => forms_signed (fun m hlo hhi n hn => ?_) (by omega)) fun _ => ?_
  · obtain rfl := Option.some.inj hn
    exact .inr (.inl ⟨rfl, by omega, by omega⟩)
  refine forms_ite (fun _ => forms_signed (fun m hlo hhi n hn => ?_) (by omega)) fun _ => ?_
  · obtain rfl := Option.some.inj hn
    exact .inr (.inr (.inl ⟨rfl, by omega, by omega⟩))
  refine forms_ite (fun _ => forms_signed (fun m hlo hhi n hn => ?_) (by omega)) fun _ => ?_
  · obtain rfl := Option.some.inj hn
    exact .inr (.inr (.inr (.inl ⟨rfl, by omega, by omega⟩)))
  refine forms_ite (fun _ => forms_signed (fun m hlo hhi n hn => .inr (.inr (.inr (.inr rfl))))
    (by omega)) fun _ => ?_
  refine forms_ite (fun _ => htexts 1) fun _ => forms_ite (fun _ => htexts 2) fun _ =>
    forms_ite (fun _ => htexts 4) fun _ => ?_
  refine forms_ite (fun _ => harrays 2) fun _ => forms_ite (fun _ => harrays 4) fun _ =>
    forms_ite (fun _ => hmaps 2) fun _ => forms_ite (fun _ => hmaps 4) fun _ => ?_
  exact nofun

/-- No code the reader takes for an integer is shorter than the one written. -/
theorem int_narrowest {n : Int} {code other : List UInt8} (h : int n = some code)
    (hother : decode other = some w) (hw : w.int? = some n) : code.length ≤ other.length := by
  have hread := decode_eq_some.mp hother
  cases other with
  | nil => cases hread
  | cons b rest =>
    rw [List.length_cons, value_cons] at hread
    obtain ⟨k, hform, hlen⟩ := forms_body _ b.toNat_lt rest w [] n hread hw
    have hle := length_int_le h hform
    simp only [List.length_nil, List.length_cons] at hlen ⊢
    omega

/-! ## The same value -/

/-- The items of an array or of a byte array. -/
def Value.items? : Value → Option (List Value)
  | .bytes bs => some (bs.map fun b => .number b.toNat)
  | .array items => some items
  | _ => none

/-- The value under a key. -/
def get (key : Str) (entries : List (Str × Value)) : Option Value :=
  (entries.find? fun e => e.1 = key).map Prod.snd

/-- The same value up to byte arrays and plain arrays, the order of a map, and
how an integer is kept. -/
inductive Same : Value → Value → Prop
  | null : Same .null .null
  | bool (b : Bool) : Same (.bool b) (.bool b)
  | int {v w : Value} {n : Int} : v.int? = some n → w.int? = some n → Same v w
  | str (s : Str) : Same (.str s) (.str s)
  | list {v w : Value} {xs ys : List Value} : v.items? = some xs → w.items? = some ys →
    xs.length = ys.length → (∀ (i : Nat) (x y : Value), xs[i]? = some x → ys[i]? = some y → Same x y) →
    Same v w
  | map {es fs : List (Str × Value)} : (∀ key, get key es = none ↔ get key fs = none) →
    (∀ key x y, get key es = some x → get key fs = some y → Same x y) → Same (.map es) (.map fs)

theorem get_eq_none {key : Str} {entries : List (Str × Value)} :
    get key entries = none ↔ ∀ e ∈ entries, e.1 ≠ key := by
  rw [get, Option.map_eq_none_iff, List.find?_eq_none]
  exact forall₂_congr fun e _ => by rw [decide_eq_true_iff]

theorem mem_of_get {key : Str} {v : Value} {entries : List (Str × Value)}
    (h : get key entries = some v) : (key, v) ∈ entries := by
  obtain ⟨e, he, rfl⟩ := Option.map_eq_some_iff.mp h
  have hkey := List.find?_some he
  obtain rfl : e.1 = key := of_decide_eq_true hkey
  exact List.mem_of_find?_eq_some he

theorem get_of_mem {entries : List (Str × Value)} (hnodup : (entries.map Prod.fst).Nodup)
    {e : Str × Value} (he : e ∈ entries) : get e.1 entries = some e.2 := by
  cases hget : get e.1 entries with
  | none => exact absurd rfl (get_eq_none.mp hget e he)
  | some v =>
    have hpair := List.inj_on_of_nodup_map hnodup (mem_of_get hget) he rfl
    rw [← hpair]

theorem readBackItems_eq (items : List Value) : readBackItems items = items.map readBack := by
  induction items with
  | nil => rw [readBackItems]; rfl
  | cons v items ih => rw [readBackItems, ih, List.map_cons]

theorem keys_assign {out : List (Str × Value)} {key : Str} {item : Value} {e : Str × Value}
    (he : e ∈ assign out key item) :
    e ∈ out ∨ e = (key, item) ∧ key ≠ "__proto__".toList := by
  unfold assign at he
  split at he
  · exact .inl he
  · next hproto =>
    split at he
    · obtain ⟨f, hf, rfl⟩ := List.mem_map.mp he
      split
      · exact .inr ⟨rfl, hproto⟩
      · exact .inl hf
    · rcases List.mem_append.mp he with hold | hnew
      · exact .inl hold
      · exact .inr ⟨List.mem_singleton.mp hnew, hproto⟩

/-- What a map's entries are read back under. -/
theorem keys_readBackEntries {es out : List (Str × Value)} {e : Str × Value}
    (he : e ∈ readBackEntries es out) :
    e ∈ out ∨ e.1 ≠ "__proto__".toList ∧ ∃ f ∈ es, dropBom f.1 = e.1 := by
  induction es generalizing out with
  | nil =>
    rw [readBackEntries] at he
    exact .inl he
  | cons f es ih =>
    obtain ⟨key, v⟩ := f
    rw [readBackEntries] at he
    rcases ih he with hout | ⟨hproto, g, hg, heq⟩
    · rcases keys_assign hout with hold | ⟨rfl, hproto⟩
      · exact .inl hold
      · exact .inr ⟨hproto, (key, v), List.mem_cons_self, rfl⟩
    · exact .inr ⟨hproto, g, List.mem_cons_of_mem _ hg, heq⟩

theorem dropBom_of_unmarked {s : Str} (h : s.head? ≠ some bom) : dropBom s = s := by
  cases s with
  | nil => rfl
  | cons c s => exact if_neg fun hc => h (congrArg some hc)

theorem readBackEntries_of_unmarked {es : List (Str × Value)} (hnodup : (es.map Prod.fst).Nodup)
    (hunmarked : ∀ e ∈ es, e.1.head? ≠ some bom) (hkeyed : ∀ e ∈ es, e.1 ≠ "__proto__".toList)
    (out : List (Str × Value)) (hout : ∀ e ∈ es, e.1 ∉ out.map Prod.fst) :
    readBackEntries es out = out ++ es.map fun e => (e.1, readBack e.2) := by
  induction es generalizing out with
  | nil => rw [readBackEntries, List.map_nil, List.append_nil]
  | cons e es ih =>
    obtain ⟨key, v⟩ := e
    rw [List.forall_mem_cons] at hunmarked hkeyed hout
    rw [List.map_cons, List.nodup_cons] at hnodup
    have hkey : ∀ f ∈ es, f.1 ≠ key := fun f hf heq =>
      hnodup.1 (List.mem_map.mpr ⟨f, hf, heq⟩)
    rw [readBackEntries, dropBom_of_unmarked hunmarked.1, assign, if_neg hkeyed.1, if_neg hout.1,
      ih hnodup.2 hunmarked.2 hkeyed.2]
    · rw [List.append_assoc]
      rfl
    · intro f hf hmem
      rw [List.map_append, List.mem_append] at hmem
      rcases hmem with hold | hnew
      · exact hout.2 f hf hold
      · exact hkey f hf (List.mem_singleton.mp hnew)

/-- Of a wire's value without marks and `__proto__` the same is read back. -/
theorem same_readBack {v : Value} (hwire : Every Wire v) (hunmarked : Every Unmarked v)
    (hkeyed : Every Keyed v) : Same v (readBack v) := by
  induction hwire with
  | null => rw [readBack]; exact .null
  | bool b => rw [readBack]; exact .bool b
  | number | bigint =>
    rw [readBack]
    exact .int rfl (int?_safe _)
  | str =>
    cases hunmarked with
    | str hs =>
      rw [readBack, dropBom_of_unmarked hs]
      exact .str _
  | bytes =>
    rw [readBack]
    refine .list rfl rfl rfl fun i x y hx hy => ?_
    obtain rfl := Option.some.inj (hx.symm.trans hy)
    obtain ⟨b, -, rfl⟩ := List.mem_map.mp (List.mem_of_getElem? hx)
    exact .int rfl rfl
  | array _ _ ih =>
    cases hunmarked with
    | array _ hun =>
      cases hkeyed with
      | array _ hkey =>
        rw [readBack, readBackItems_eq]
        refine .list rfl rfl (List.length_map _).symm fun i x y hx hy => ?_
        rw [List.getElem?_map, hx] at hy
        obtain rfl := Option.some.inj hy
        have hmem := List.mem_of_getElem? hx
        exact ih x hmem (hun x hmem) (hkey x hmem)
  | @map entries hnodup _ ih =>
    cases hunmarked with
    | map hmarks hun =>
      cases hkeyed with
      | map hproto hkey =>
        have hread : readBackEntries entries [] = entries.map fun e => (e.1, readBack e.2) :=
          readBackEntries_of_unmarked hnodup hmarks hproto [] fun _ _ => List.not_mem_nil
        rw [readBack, hread]
        refine .map (fun key => ?_) fun key x y hx hy => ?_
        · rw [get_eq_none, get_eq_none, List.forall_mem_map]
        · have hmem := mem_of_get hx
          obtain ⟨e, he, heq⟩ := List.mem_map.mp (mem_of_get hy)
          obtain ⟨rfl, rfl⟩ := Prod.mk.inj heq
          have hget := get_of_mem hnodup he
          rw [hx] at hget
          obtain rfl := Option.some.inj hget
          exact ih e he (hun e he) (hkey e he)

/-- A finite set of keys that are all of them keys without a mark has none with
one: a marked key would come from a longer marked key. -/
theorem unmarked_of_closed {keys : List Str} (h : ∀ k ∈ keys, ∃ k' ∈ keys, dropBom k' = k) :
    ∀ k ∈ keys, k.head? ≠ some bom := by
  intro k hk hmarked
  have hlonger : ∀ n, ∃ k ∈ keys, k.head? = some bom ∧ n ≤ k.length := by
    intro n
    induction n with
    | zero => exact ⟨k, hk, hmarked, Nat.zero_le _⟩
    | succ n ih =>
      obtain ⟨k₁, hk₁, hmark, hlen⟩ := ih
      obtain ⟨k₂, hk₂, hdrop⟩ := h k₁ hk₁
      by_cases hmark₂ : k₂.head? = some bom
      · refine ⟨k₂, hk₂, hmark₂, ?_⟩
        cases k₂ with
        | nil => cases hmark₂
        | cons c s =>
          obtain rfl : s = k₁ := by
            rw [← hdrop]
            exact (if_pos (Option.some.inj hmark₂)).symm
          exact Nat.succ_le_succ hlen
      · rw [dropBom_of_unmarked hmark₂] at hdrop
        rw [hdrop] at hmark₂
        exact absurd hmark hmark₂
  obtain ⟨k', hk', -, hlen⟩ := hlonger (keys.flatten.length + 1)
  have hle := (List.sublist_flatten_of_mem hk').length_le
  omega

/-- A value that is read back as the same has no marks. -/
theorem unmarked_of_same {v : Value} (hwire : Every Wire v) (hkeyed : Every Keyed v)
    (hsame : Same v (readBack v)) : Every Unmarked v := by
  induction hwire with
  | null => exact .null
  | bool b => exact .bool b
  | number => exact .number trivial
  | bigint => exact .bigint trivial
  | bytes => exact .bytes trivial
  | @str s _ =>
    refine .str fun hmark => ?_
    rw [readBack] at hsame
    have heq : dropBom s = s := by
      generalize hw : dropBom s = t at hsame
      cases hsame with
      | str => rfl
      | int h _ => cases h
      | list h _ _ _ => cases h
    cases s with
    | nil => cases hmark
    | cons c s =>
      have hdrop : dropBom (c :: s) = s := if_pos (Option.some.inj hmark)
      have hlen := congrArg List.length (hdrop.symm.trans heq)
      simp at hlen
  | @array items _ _ ih =>
    cases hkeyed with
    | array _ hkey =>
      rw [readBack, readBackItems_eq] at hsame
      refine .array trivial fun v hv => ih v hv (hkey v hv) ?_
      obtain ⟨i, hi⟩ := List.mem_iff_getElem?.mp hv
      generalize hw : Value.array (items.map readBack) = w at hsame
      cases hsame with
      | int h _ => cases h
      | list hxs hys _ hall =>
        subst hw
        obtain rfl := Option.some.inj hxs
        obtain rfl := Option.some.inj hys
        exact hall i v (readBack v) hi (by rw [List.getElem?_map, hi]; rfl)
  | @map entries hnodup _ ih =>
    cases hkeyed with
    | map hproto hkey =>
      rw [readBack] at hsame
      generalize hw : Value.map (readBackEntries entries []) = w at hsame
      cases hsame with
      | int h _ => cases h
      | list h _ _ _ => cases h
      | map hkeys hall =>
        obtain rfl := Value.map.inj hw
        have hclosed : ∀ k ∈ entries.map Prod.fst, ∃ k' ∈ entries.map Prod.fst, dropBom k' = k := by
          intro k hk
          obtain ⟨e, he, rfl⟩ := List.mem_map.mp hk
          have hsome : get e.1 (readBackEntries entries []) ≠ none := fun hnone => by
            rw [← hkeys, get_of_mem hnodup he] at hnone
            cases hnone
          obtain ⟨w, hw⟩ := Option.ne_none_iff_exists'.mp hsome
          rcases keys_readBackEntries (mem_of_get hw) with hnil | ⟨-, f, hf, heq⟩
          · cases hnil
          · exact ⟨f.1, List.mem_map_of_mem hf, heq⟩
        have hmarks : ∀ e ∈ entries, e.1.head? ≠ some bom := fun e he =>
          unmarked_of_closed hclosed e.1 (List.mem_map_of_mem he)
        have hread : readBackEntries entries [] = entries.map fun e => (e.1, readBack e.2) :=
          readBackEntries_of_unmarked hnodup hmarks hproto [] fun _ _ => List.not_mem_nil
        refine .map hmarks fun e he => ih e he (hkey e he) ?_
        refine hall e.1 e.2 (readBack e.2) (get_of_mem hnodup he) ?_
        rw [hread]
        refine @get_of_mem _ ?_ (e.1, readBack e.2) (List.mem_map.mpr ⟨e, he, rfl⟩)
        rw [List.map_map]
        exact hnodup

/-! ## What the decoder can give -/

/-- A decoded value: its parts have headers, and no key is `__proto__`. -/
def Decoded (v : Value) : Prop := Small v ∧ Keyed v

/-- What a reader gives is decoded. -/
def Gives {α : Type} (P : α → Prop) (r : Reader UInt8 α) : Prop :=
  ∀ input x rest, r input = some (x, rest) → P x

theorem gives_pure {P : α → Prop} {x : α} (h : P x) : Gives P (pure x) := by
  intro input y rest hread
  obtain ⟨rfl, -⟩ := pure_eq_some.mp hread
  exact h

theorem gives_bind {β : Type} {P : α → Prop} {Q : β → Prop} {r : Reader UInt8 α}
    {k : α → Reader UInt8 β} (hr : Gives P r) (hk : ∀ x, P x → Gives Q (k x)) :
    Gives Q (r >>= k) := by
  intro input y rest hread
  obtain ⟨x, mid, hx, hy⟩ := bind_eq_some'.mp hread
  exact hk x (hr _ _ _ hx) _ _ _ hy

theorem gives_any (r : Reader UInt8 α) : Gives (fun _ => True) r :=
  fun _ _ _ _ => trivial

theorem gives_ite {P : α → Prop} {c : Prop} [Decidable c] {r s : Reader UInt8 α} (h : c → Gives P r)
    (h' : ¬ c → Gives P s) : Gives P (if c then r else s) := by
  split
  · next hc => exact h hc
  · next hc => exact h' hc

theorem gives_number (k : Nat) : Gives (fun n => n < 256 ^ k) (number k) :=
  fun _ _ _ h => ((reads_number k _ _ _).mp h).1

theorem length_dropBom_le (s : Str) : (toUtf8 (dropBom s)).length ≤ (toUtf8 s).length := by
  cases s with
  | nil => exact le_rfl
  | cons c s =>
    have hdrop : dropBom (c :: s) = if c = bom then s else c :: s := rfl
    rw [hdrop]
    split
    · rw [toUtf8_cons, List.length_append]
      exact Nat.le_add_left _ _
    · exact le_rfl

theorem gives_text {len : Nat} (h : len < 2 ^ 32) :
    Gives (fun s => (toUtf8 s).length < 2 ^ 32) (text len) := by
  intro input s rest hread
  obtain ⟨bytes, mid, hbytes, hs⟩ := bind_eq_some'.mp hread
  obtain ⟨hlen, -⟩ := (reads_take len _ _ _).mp hbytes
  obtain ⟨hs, -⟩ := ofOption_eq_some.mp hs
  obtain ⟨s', hs', rfl⟩ := Option.map_eq_some_iff.mp hs
  have hle := length_dropBom_le s'
  rw [← fromUtf8_eq_some.mp hs'] at hlen
  omega

section Giving

variable {r : Reader UInt8 Value}

theorem gives_items (h : Gives (Every Decoded) r) (len : Nat) :
    Gives (fun ws => ws.length = len ∧ ∀ w ∈ ws, Every Decoded w) (readItems r len) := by
  induction len with
  | zero => exact gives_pure ⟨rfl, nofun⟩
  | succ len ih =>
    refine gives_bind h fun w hw => gives_bind ih fun ws hws => gives_pure ⟨?_, ?_⟩
    · rw [List.length_cons, hws.1]
    · exact List.forall_mem_cons.mpr ⟨hw, hws.2⟩

/-- The entries of a decoded map. -/
def DecodedEntries (len : Nat) (es : List (Str × Value)) : Prop :=
  es.length ≤ len ∧
    ∀ e ∈ es, (toUtf8 e.1).length < 2 ^ 32 ∧ e.1 ≠ "__proto__".toList ∧ Every Decoded e.2

theorem decodedEntries_assign {len : Nat} {out : List (Str × Value)} (h : DecodedEntries len out)
    {key : Str} (hkey : (toUtf8 key).length < 2 ^ 32) {item : Value} (hitem : Every Decoded item) :
    DecodedEntries (len + 1) (assign out key item) := by
  refine ⟨?_, fun e he => ?_⟩
  · have hlen := h.1
    unfold assign
    split_ifs
    · omega
    · rw [List.length_map]
      omega
    · rw [List.length_append]
      exact Nat.succ_le_succ hlen
  · rcases keys_assign he with hold | ⟨rfl, hproto⟩
    · exact h.2 e hold
    · exact ⟨hkey, hproto, hitem⟩

theorem gives_entries (h : Gives (Every Decoded) r) (len : Nat) {done : Nat}
    {out : List (Str × Value)} (hout : DecodedEntries done out) :
    Gives (DecodedEntries (done + len)) (readEntries r len out) := by
  induction len generalizing done out with
  | zero => exact gives_pure hout
  | succ len ih =>
    have hkeys : Gives (fun key => (toUtf8 key).length < 2 ^ 32) (narrow r keyOf) := by
      refine gives_bind h fun w hw input key rest hread => ?_
      obtain ⟨hkey, -⟩ := ofOption_eq_some.mp hread
      cases hw with
      | str hs =>
        obtain rfl := Option.some.inj hkey
        exact hs.1
      | _ => cases hkey
    refine gives_bind hkeys fun key hkey => gives_bind h fun item hitem => ?_
    have hrest := ih (decodedEntries_assign hout hkey hitem)
    rwa [Nat.add_right_comm, Nat.add_assoc] at hrest

theorem gives_array (h : Gives (Every Decoded) r) {len : Nat} (hlen : len < 2 ^ 32) :
    Gives (Every Decoded) (readItems r len >>= fun ws => pure (Value.array ws)) :=
  gives_bind (gives_items h len) fun _ hws =>
    gives_pure (.array ⟨by rw [Small, hws.1]; exact hlen, trivial⟩ hws.2)

theorem gives_map (h : Gives (Every Decoded) r) {len : Nat} (hlen : len < 2 ^ 32) :
    Gives (Every Decoded) (readEntries r len [] >>= fun es => pure (Value.map es)) := by
  have hnone : DecodedEntries 0 [] := ⟨Nat.le_refl 0, nofun⟩
  refine gives_bind (gives_entries h len hnone) fun es hes => gives_pure (.map ⟨⟨?_, ?_⟩, ?_⟩ ?_)
  · have hle := hes.1
    omega
  · exact fun e he => (hes.2 e he).1
  · exact fun e he => (hes.2 e he).2.1
  · exact fun e he => (hes.2 e he).2.2

theorem gives_body (h : Gives (Every Decoded) r) (b : Nat) : Gives (Every Decoded) (body r b) := by
  have hleaf (k : Nat) {f : Nat → Value} (hf : ∀ n, Every Decoded (f n)) :
      Gives (Every Decoded) (number k >>= fun n => pure (f n)) :=
    gives_bind (gives_any _) fun n _ => gives_pure (hf n)
  have hsigned (k : Nat) {f : Int → Value} (hf : ∀ n, Every Decoded (f n)) :
      Gives (Every Decoded) (signed k >>= fun n => pure (f n)) :=
    gives_bind (gives_any _) fun n _ => gives_pure (hf n)
  have hsafe : ∀ n, Every Decoded (safe n) := by
    intro n
    unfold safe
    split
    · exact .number ⟨trivial, trivial⟩
    · exact .bigint ⟨trivial, trivial⟩
  have hnum : ∀ n, Every Decoded (.number n) := fun n => .number ⟨trivial, trivial⟩
  have htext {len : Nat} (hlen : len < 2 ^ 32) :
      Gives (Every Decoded) (text len >>= fun s => pure (Value.str s)) :=
    gives_bind (gives_text hlen) fun s hs => gives_pure (.str ⟨hs, trivial⟩)
  have hbytes {k : Nat} (hk : 256 ^ k ≤ 2 ^ 32) :
      Gives (Every Decoded) (number k >>= fun n => take n >>= fun x => pure (Value.bytes x)) := by
    refine gives_bind (gives_number k) fun n hn => ?_
    have htake : Gives (fun x => x.length < 2 ^ 32) (take n : Reader UInt8 (List UInt8)) := by
      intro input x rest hx
      obtain ⟨hlen, -⟩ := (reads_take n _ _ _).mp hx
      omega
    exact gives_bind htake fun x hx => gives_pure (.bytes ⟨hx, trivial⟩)
  have hlen {k : Nat} (hk : 256 ^ k ≤ 2 ^ 32) {f : Nat → Reader UInt8 Value}
      (hf : ∀ n, n < 2 ^ 32 → Gives (Every Decoded) (f n)) :
      Gives (Every Decoded) (number k >>= f) :=
    gives_bind (gives_number k) fun n hn => hf n (hn.trans_le hk)
  have hand (m : Nat) (hm : m < 32) : b &&& m < 2 ^ 32 :=
    lt_of_le_of_lt Nat.and_le_right (by omega)
  unfold body
  refine gives_ite (fun _ => gives_pure (hnum _)) fun _ => gives_ite (fun _ => gives_pure (hnum _))
    fun _ => ?_
  refine gives_ite (fun _ => gives_map h (hand _ (by omega))) fun _ =>
    gives_ite (fun _ => gives_array h (hand _ (by omega))) fun _ =>
      gives_ite (fun _ => htext (hand _ (by omega))) fun _ => ?_
  refine gives_ite (fun _ => gives_pure .null) fun _ => gives_ite (fun _ => gives_pure (.bool _))
    fun _ => gives_ite (fun _ => gives_pure (.bool _)) fun _ => ?_
  refine gives_ite (fun _ => hbytes (by omega)) fun _ => gives_ite (fun _ => hbytes (by omega))
    fun _ => gives_ite (fun _ => hbytes (by omega)) fun _ => ?_
  refine gives_ite (fun _ => hleaf 1 fun n => hnum n) fun _ =>
    gives_ite (fun _ => hleaf 2 fun n => hnum n) fun _ =>
      gives_ite (fun _ => hleaf 4 fun n => hnum n) fun _ =>
        gives_ite (fun _ => hleaf 8 fun n => hsafe n) fun _ => ?_
  refine gives_ite (fun _ => hsigned 1 hnum) fun _ => gives_ite (fun _ => hsigned 2 hnum) fun _ =>
    gives_ite (fun _ => hsigned 4 hnum) fun _ => gives_ite (fun _ => hsigned 8 hsafe) fun _ => ?_
  refine gives_ite (fun _ => hlen (k := 1) (by omega) fun n => htext) fun _ =>
    gives_ite (fun _ => hlen (k := 2) (by omega) fun n => htext) fun _ =>
      gives_ite (fun _ => hlen (k := 4) (by omega) fun n => htext) fun _ => ?_
  refine gives_ite (fun _ => hlen (k := 2) (by omega) fun n => gives_array h) fun _ =>
    gives_ite (fun _ => hlen (k := 4) (by omega) fun n => gives_array h) fun _ =>
      gives_ite (fun _ => hlen (k := 2) (by omega) fun n => gives_map h) fun _ =>
        gives_ite (fun _ => hlen (k := 4) (by omega) fun n => gives_map h) fun _ => ?_
  exact nofun

end Giving

theorem gives_value (fuel : Nat) : Gives (Every Decoded) (value fuel) := by
  induction fuel with
  | zero => exact nofun
  | succ fuel ih => exact gives_bind (gives_any _) fun b _ => gives_body ih b

theorem decoded_decode {bytes : List UInt8} {w : Value} (h : decode bytes = some w) :
    Every Decoded w := gives_value _ _ _ _ (decode_eq_some.mp h)

theorem decoded_items {w : Value} (h : Every Decoded w) {ys : List Value}
    (hys : w.items? = some ys) : ys.length < 2 ^ 32 ∧ ∀ y ∈ ys, Every Decoded y := by
  cases h with
  | bytes hb =>
    obtain rfl := Option.some.inj hys
    refine ⟨by rw [List.length_map]; exact hb.1, fun y hy => ?_⟩
    obtain ⟨b, -, rfl⟩ := List.mem_map.mp hy
    exact .number ⟨trivial, trivial⟩
  | array hlen hall =>
    obtain rfl := Option.some.inj hys
    exact ⟨hlen.1, hall⟩
  | _ => cases hys

/-- What is the same as a decoded value fits its headers and has no `__proto__`. -/
theorem decoded_of_same {v : Value} (hwire : Every Wire v) {w : Value} (hw : Every Decoded w)
    (hsame : Same v w) : Every Small v ∧ Every Keyed v := by
  induction hwire generalizing w with
  | null => exact ⟨.null, .null⟩
  | bool b => exact ⟨.bool b, .bool b⟩
  | number => exact ⟨.number trivial, .number trivial⟩
  | bigint => exact ⟨.bigint trivial, .bigint trivial⟩
  | str =>
    cases hsame with
    | int h _ => cases h
    | list h _ _ _ => cases h
    | str s =>
      cases hw with
      | str hs => exact ⟨.str hs.1, .str trivial⟩
  | bytes =>
    cases hsame with
    | int h _ => cases h
    | list hxs hys hlen _ =>
      obtain rfl := Option.some.inj hxs
      rw [List.length_map] at hlen
      have hsmall := (decoded_items hw hys).1
      exact ⟨.bytes (by rw [Small, hlen]; exact hsmall), .bytes trivial⟩
  | array _ _ ih =>
    cases hsame with
    | int h _ => cases h
    | list hxs hys hlen hall =>
      obtain rfl := Option.some.inj hxs
      obtain ⟨hsmall, hitems⟩ := decoded_items hw hys
      have hboth : ∀ v ∈ _, Every Small v ∧ Every Keyed v := fun v hv => by
        obtain ⟨i, hi⟩ := List.mem_iff_getElem?.mp hv
        have hlt := (List.getElem?_eq_some_iff.mp hi).1
        have hy := List.getElem?_eq_getElem (hlen ▸ hlt)
        exact ih v hv (hitems _ (List.getElem_mem _)) (hall i v _ hi hy)
      exact ⟨.array (by rw [Small, hlen]; exact hsmall) fun v hv => (hboth v hv).1,
        .array trivial fun v hv => (hboth v hv).2⟩
  | @map entries hnodup _ ih =>
    cases hsame with
    | int h _ => cases h
    | list h _ _ _ => cases h
    | @map _ fs hkeys hall =>
      cases hw with
      | map hfs hvalues =>
        have hfound : ∀ e ∈ entries, ∃ y, (e.1, y) ∈ fs ∧ Same e.2 y := by
          intro e he
          have hget := get_of_mem hnodup he
          have hsome : get e.1 fs ≠ none := fun hnone => by
            rw [← hkeys, hget] at hnone
            cases hnone
          obtain ⟨y, hy⟩ := Option.ne_none_iff_exists'.mp hsome
          exact ⟨y, mem_of_get hy, hall e.1 e.2 y hget hy⟩
        have hlen : entries.length ≤ fs.length := by
          have hsub : (entries.map Prod.fst).Subperm (fs.map Prod.fst) := by
            refine hnodup.subperm fun k hk => ?_
            obtain ⟨e, he, rfl⟩ := List.mem_map.mp hk
            obtain ⟨y, hy, -⟩ := hfound e he
            exact List.mem_map.mpr ⟨(e.1, y), hy, rfl⟩
          have hle := hsub.length_le
          rwa [List.length_map, List.length_map] at hle
        have hboth : ∀ e ∈ entries, Every Small e.2 ∧ Every Keyed e.2 := fun e he => by
          obtain ⟨y, hy, hsame⟩ := hfound e he
          exact ih e he (hvalues (e.1, y) hy) hsame
        refine ⟨.map ⟨hlen.trans_lt hfs.1.1, fun e he => ?_⟩ fun e he => (hboth e he).1,
          .map (fun e he => ?_) fun e he => (hboth e he).2⟩
        · obtain ⟨y, hy, -⟩ := hfound e he
          exact hfs.1.2 (e.1, y) hy
        · obtain ⟨y, hy, -⟩ := hfound e he
          exact hfs.2 (e.1, y) hy

/-! ## The round trip -/

/-- What encoding and decoding promise of a value: it comes back the same, from
its own bytes and from no beginning or extension of them, and an integer's
bytes are as few as any that are read as it. -/
def RoundTrips (v : Value) : Prop :=
  ∃ bytes, encode v = some bytes ∧
    (∃ w, decode bytes = some w ∧ Same v w) ∧
    (∀ p q, bytes = p ++ q → q ≠ [] → decode p = none) ∧
    (∀ q, q ≠ [] → decode (bytes ++ q) = none) ∧
    ∀ n, v.int? = some n → ∀ other w, decode other = some w → w.int? = some n →
      bytes.length ≤ other.length

theorem encode_of_int? {v : Value} {n : Int} (h : v.int? = some n) : encode v = int n := by
  cases v with
  | number | bigint =>
    obtain rfl := Option.some.inj h
    rw [encode]
  | _ => cases h

/-- A wire's value round-trips if and only if its parts have headers, no text in
it begins with a byte order mark and no key is `__proto__`. -/
theorem value_roundTrips_iff (v : Value) (hwire : Every Wire v) :
    RoundTrips v ↔ Every Small v ∧ Every Unmarked v ∧ Every Keyed v := by
  constructor
  · rintro ⟨bytes, hbytes, ⟨w, hw, hsame⟩, -⟩
    obtain ⟨hsmall, hkeyed⟩ := decoded_of_same hwire (decoded_decode hw) hsame
    obtain ⟨bytes', hbytes', hcodes⟩ := value_encode hwire hsmall
    obtain rfl := Option.some.inj (hbytes.symm.trans hbytes')
    obtain rfl := Option.some.inj (hw.symm.trans hcodes.decoded)
    exact ⟨hsmall, unmarked_of_same hwire hkeyed hsame, hkeyed⟩
  · rintro ⟨hsmall, hunmarked, hkeyed⟩
    obtain ⟨bytes, hbytes, hcodes⟩ := value_encode hwire hsmall
    refine ⟨bytes, hbytes, ⟨_, hcodes.decoded, same_readBack hwire hunmarked hkeyed⟩, ?_,
      fun q hq => hcodes.longer_refused hq, fun n hn other w hother hw => ?_⟩
    · rintro p q rfl hq
      exact hcodes.prefix_refused hq
    · rw [encode_of_int? hn] at hbytes
      exact int_narrowest hbytes hother hw

theorem roundTrips_nested : RoundTrips (.array [.number 128, .str ['a']]) ↔
    Every Small (.array [.number 128, .str ['a']]) ∧
      Every Unmarked (.array [.number 128, .str ['a']]) ∧
        Every Keyed (.array [.number 128, .str ['a']]) := by
  refine value_roundTrips_iff _ (.array trivial fun v hv => ?_)
  rcases List.mem_cons.mp hv with rfl | hv
  · exact .number ⟨by omega, by omega⟩
  · rw [List.mem_singleton.mp hv]
    exact .str trivial

/-- A text of one byte order mark comes back empty. -/
theorem mark_lost : decode (str [bom]) = some (.str []) ∧ ¬ RoundTrips (.str [bom]) := by
  have hcodes := codes_str (s := [bom]) (by decide)
  refine ⟨hcodes.decoded, ?_⟩
  rintro ⟨bytes, hbytes, ⟨w, hw, hsame⟩, -⟩
  rw [encode] at hbytes
  obtain rfl := Option.some.inj hbytes
  obtain rfl := Option.some.inj (hw.symm.trans hcodes.decoded)
  have hne : dropBom [bom] = [] := rfl
  rw [hne] at hsame
  cases hsame with
  | int h _ => cases h
  | list h _ _ _ => cases h

/-! ## Values one after the other -/

/-- The first value of a stream and its bytes. -/
theorem encodeItems_cons {v : Value} {vs : List Value} {bytes : List UInt8}
    (hv : Every Wire v ∧ Every Small v) (h : encodeItems (v :: vs) = some bytes) :
    ∃ code rest, bytes = code ++ rest ∧ Codes code (readBack v) ∧ encodeItems vs = some rest := by
  obtain ⟨code, hcode, hcodes⟩ := value_encode hv.1 hv.2
  rw [encodeItems, hcode] at h
  cases hrest : encodeItems vs with
  | none => simp [hrest] at h
  | some rest =>
    obtain rfl : code ++ rest = bytes := by simpa [hrest] using h
    exact ⟨code, rest, rfl, hcodes, rfl⟩

/-- Streams of values have the same bytes only where they read the same. -/
theorem readBack_of_encodeItems {vs ws : List Value} {bytes : List UInt8}
    (hvs : ∀ v ∈ vs, Every Wire v ∧ Every Small v) (hws : ∀ w ∈ ws, Every Wire w ∧ Every Small w)
    (hv : encodeItems vs = some bytes) (hw : encodeItems ws = some bytes) :
    vs.map readBack = ws.map readBack := by
  induction vs generalizing ws bytes with
  | nil =>
    obtain rfl : [] = bytes := Option.some.inj (by rwa [encodeItems] at hv)
    cases ws with
    | nil => rfl
    | cons w ws =>
      obtain ⟨code, rest, hbytes, hcode, -⟩ := encodeItems_cons (hws w List.mem_cons_self) hw
      exact absurd (List.append_eq_nil_iff.mp hbytes.symm).1 hcode.1
  | cons v vs ih =>
    obtain ⟨code, rest, rfl, hcode, hrest⟩ := encodeItems_cons (hvs v List.mem_cons_self) hv
    cases ws with
    | nil =>
      rw [encodeItems] at hw
      exact absurd (List.append_eq_nil_iff.mp (Option.some.inj hw).symm).1 hcode.1
    | cons w ws =>
      obtain ⟨code', rest', hbytes, hcode', hrest'⟩ := encodeItems_cons (hws w List.mem_cons_self) hw
      -- Both are read off the front of the same bytes.
      have hread := hcode.2 _ (Nat.le_add_right _ code'.length) rest
      have hread' := hcode'.2 _ (Nat.le_add_left _ code.length) rest'
      rw [← hbytes, hread] at hread'
      obtain ⟨hsame, rfl⟩ := Prod.mk.inj (Option.some.inj hread')
      rw [List.map_cons, List.map_cons, hsame,
        ih (List.forall_mem_of_forall_mem_cons hvs) (List.forall_mem_of_forall_mem_cons hws) hrest
          hrest']

/-- A number has the bytes of the `bigint` it equals. -/
theorem readBack_of_encodeItems_five : [Value.number 5].map readBack = [Value.bigint 5].map readBack := by
  have hrange : IntRange 5 := ⟨by omega, by omega⟩
  have hv : encodeItems [.number 5] = some [5] := by
    simp [encodeItems, encode, int]
    rfl
  have hw : encodeItems [.bigint 5] = some [5] := by
    simp [encodeItems, encode, int]
    rfl
  exact readBack_of_encodeItems (List.forall_mem_singleton.mpr ⟨.number hrange, .number trivial⟩)
    (List.forall_mem_singleton.mpr ⟨.bigint hrange, .bigint trivial⟩) hv hw

end Msgpack

end Zesterm
