/-
Zesterm.Lib.JsonText — JSON, as a text of UTF-16 units that is parsed and a
text of characters that is written.

`parse` accepts the grammar of ECMA-404 and no more; a string's units are
whatever its escapes name, half a surrogate pair included. `writeString`
escapes what has to be escaped and nothing else. `chars_escaped` is what the
two have to do with each other: a string that is written is read, character
by character, whatever stands behind it. The lemmas on members then read an
object one member at a time.

Nothing here is about terminals.
-/
import Mathlib.Algebra.BigOperators.Group.List.Basic
import Mathlib.Algebra.Field.Rat
import Mathlib.Data.List.Basic

namespace JsonText

/-- UTF-16 code units. -/
abbrev Text := List UInt16

/-! ## UTF-16 -/

/-- The units of a character: one, or a surrogate pair. -/
def unitsOf (c : Char) : Text :=
  if c.toNat < 0x10000 then [UInt16.ofNat c.toNat]
  else [UInt16.ofNat (0xD800 + (c.toNat - 0x10000) / 0x400),
    UInt16.ofNat (0xDC00 + (c.toNat - 0x10000) % 0x400)]

def utf16 (s : List Char) : Text := s.flatMap unitsOf

/-! ## Values -/

/-- The decimal a number's literal spells. -/
structure Number where
  negative : Bool
  whole : List Nat
  fraction : List Nat
  exponent : Int
  deriving DecidableEq

def Number.value (n : Number) : Rat :=
  let digits : Nat := (n.whole ++ n.fraction).foldl (fun acc d => acc * 10 + d) 0
  (if n.negative then -1 else 1) * (digits : Rat) * 10 ^ (n.exponent - n.fraction.length)

inductive Value where
  | null
  | bool (b : Bool)
  | number (n : Number)
  | string (s : Text)
  | array (items : List Value)
  | object (members : List (Text × Value))

/-- The member of a name: the last of that name. -/
def get (members : List (Text × Value)) (key : Text) : Option Value :=
  (members.reverse.find? fun m => m.1 == key).map Prod.snd

/-! ## Reading -/

def quote : UInt16 := 0x22

def backslash : UInt16 := 0x5c

def comma : UInt16 := 0x2c

def colon : UInt16 := 0x3a

def openBrace : UInt16 := 0x7b

def closeBrace : UInt16 := 0x7d

def openBracket : UInt16 := 0x5b

def closeBracket : UInt16 := 0x5d

def isBlank (u : UInt16) : Bool := u = 0x20 || u = 0x09 || u = 0x0a || u = 0x0d

def skip (text : Text) : Text := text.dropWhile isBlank

def digit (u : UInt16) : Option Nat :=
  if 0x30 ≤ u.toNat ∧ u.toNat ≤ 0x39 then some (u.toNat - 0x30) else none

def hexDigit (u : UInt16) : Option Nat :=
  if 0x30 ≤ u.toNat ∧ u.toNat ≤ 0x39 then some (u.toNat - 0x30)
  else if 0x61 ≤ u.toNat ∧ u.toNat ≤ 0x66 then some (u.toNat - 0x57)
  else if 0x41 ≤ u.toNat ∧ u.toNat ≤ 0x46 then some (u.toNat - 0x37)
  else none

/-- The unit four hex digits name. -/
def hexUnit (a b c d : UInt16) : Option UInt16 := do
  let a ← hexDigit a
  let b ← hexDigit b
  let c ← hexDigit c
  let d ← hexDigit d
  return UInt16.ofNat (((a * 16 + b) * 16 + c) * 16 + d)

/-- The unit a backslash and another name. -/
def escapedUnit (u : UInt16) : Option UInt16 :=
  if u = quote ∨ u = backslash ∨ u = 0x2f then some u
  else if u = 0x62 then some 0x08
  else if u = 0x66 then some 0x0c
  else if u = 0x6e then some 0x0a
  else if u = 0x72 then some 0x0d
  else if u = 0x74 then some 0x09
  else none

/-- A string behind its opening quote. -/
def chars : Text → Option (Text × Text)
  | [] => none
  | u :: rest =>
    if u = quote then some ([], rest)
    else if u = backslash then
      match rest with
      | [] => none
      | e :: rest =>
        if e = 0x75 then
          match rest with
          | a :: b :: c :: d :: rest => do
            let unit ← hexUnit a b c d
            let (s, rest) ← chars rest
            return (unit :: s, rest)
          | _ => none
        else do
          let unit ← escapedUnit e
          let (s, rest) ← chars rest
          return (unit :: s, rest)
    else if u.toNat < 0x20 then none
    else do
      let (s, rest) ← chars rest
      return (u :: s, rest)

def digits : Text → List Nat × Text
  | [] => ([], [])
  | u :: rest =>
    match digit u with
    | none => ([], u :: rest)
    | some d => let (ds, rest) := digits rest; (d :: ds, rest)

/-- The part behind a point, if there is one. -/
def fraction (text : Text) : Option (List Nat × Text) :=
  match text with
  | u :: rest =>
    if u = 0x2e then
      let (ds, rest) := digits rest
      if ds = [] then none else some (ds, rest)
    else some ([], text)
  | [] => some ([], [])

/-- The power of ten, if there is one. -/
def exponent (text : Text) : Option (Int × Text) :=
  match text with
  | u :: rest =>
    if u = 0x65 ∨ u = 0x45 then
      let signed : Bool × Text :=
        match rest with
        | s :: after => if s = 0x2d then (true, after) else if s = 0x2b then (false, after) else (false, rest)
        | [] => (false, [])
      let (ds, rest) := digits signed.2
      if ds = [] then none
      else
        let n : Int := (ds.foldl (fun acc d => acc * 10 + d) 0 : Nat)
        some (if signed.1 then -n else n, rest)
    else some (0, text)
  | [] => some (0, [])

/-- A number: no sign but a minus, and no zero ahead of other digits. -/
def number (text : Text) : Option (Number × Text) :=
  let signed : Bool × Text :=
    match text with
    | u :: rest => if u = 0x2d then (true, rest) else (false, text)
    | [] => (false, [])
  let (whole, rest) := digits signed.2
  if whole = [] ∨ (whole.head? = some 0 ∧ 1 < whole.length) then none
  else do
    let (fraction, rest) ← fraction rest
    let (exponent, rest) ← exponent rest
    return ({ negative := signed.1, whole, fraction, exponent }, rest)

/-- A word and no other. -/
def literal (word : Text) (v : Value) (text : Text) : Option (Value × Text) :=
  if word.isPrefixOf text then some (v, text.drop word.length) else none

mutual

/-- A value, with the blanks ahead of it. -/
def value : (fuel : Nat) → Text → Option (Value × Text)
  | 0, _ => none
  | fuel + 1, text =>
    match skip text with
    | [] => none
    | u :: rest =>
      if u = quote then (chars rest).map fun p => (.string p.1, p.2)
      else if u = openBrace then
        match skip rest with
        | v :: after =>
          if v = closeBrace then some (.object [], after)
          else (members fuel rest).map fun p => (.object p.1, p.2)
        | [] => none
      else if u = openBracket then
        match skip rest with
        | v :: after =>
          if v = closeBracket then some (.array [], after)
          else (items fuel rest).map fun p => (.array p.1, p.2)
        | [] => none
      else if u = 0x74 then literal [0x74, 0x72, 0x75, 0x65] (.bool true) (u :: rest)
      else if u = 0x66 then literal [0x66, 0x61, 0x6c, 0x73, 0x65] (.bool false) (u :: rest)
      else if u = 0x6e then literal [0x6e, 0x75, 0x6c, 0x6c] .null (u :: rest)
      else (number (u :: rest)).map fun p => (.number p.1, p.2)

/-- Members, and the brace behind them. -/
def members : (fuel : Nat) → Text → Option (List (Text × Value) × Text)
  | 0, _ => none
  | fuel + 1, text =>
    match skip text with
    | [] => none
    | u :: rest =>
      if u ≠ quote then none
      else
        (chars rest).bind fun key =>
          match skip key.2 with
          | [] => none
          | c :: rest =>
            if c ≠ colon then none
            else
              (value fuel rest).bind fun v =>
                match skip v.2 with
                | [] => none
                | d :: rest =>
                  if d = comma then
                    (members fuel rest).map fun p => ((key.1, v.1) :: p.1, p.2)
                  else if d = closeBrace then some ([(key.1, v.1)], rest)
                  else none

/-- Items, and the bracket behind them. -/
def items : (fuel : Nat) → Text → Option (List Value × Text)
  | 0, _ => none
  | fuel + 1, text =>
    (value fuel text).bind fun v =>
      match skip v.2 with
      | [] => none
      | d :: rest =>
        if d = comma then (items fuel rest).map fun p => (v.1 :: p.1, p.2)
        else if d = closeBracket then some ([v.1], rest)
        else none

end

/-- One value and nothing behind it. A value is no deeper than its text is
long, so the fuel is enough. -/
def parse (text : Text) : Option Value :=
  (value (text.length + 1) text).bind fun p => if skip p.2 = [] then some p.1 else none

/-! ## Writing -/

/-- A character of a string: a short escape where there is one, `\u` for the
other controls, itself otherwise. -/
def escaped (c : Char) : List Char :=
  if c = '"' then ['\\', '"']
  else if c = '\\' then ['\\', '\\']
  else if c.toNat = 0x08 then ['\\', 'b']
  else if c.toNat = 0x09 then ['\\', 't']
  else if c.toNat = 0x0a then ['\\', 'n']
  else if c.toNat = 0x0c then ['\\', 'f']
  else if c.toNat = 0x0d then ['\\', 'r']
  else if c.toNat < 0x20 then
    ['\\', 'u', '0', '0', Nat.digitChar (c.toNat / 16), Nat.digitChar (c.toNat % 16)]
  else [c]

def writeString (s : List Char) : List Char := '"' :: (s.flatMap escaped ++ ['"'])

/-- Members that are written, and the brace behind them. -/
def writeMembers : List (List Char × List Char) → List Char
  | [] => ['}']
  | [m] => writeString m.1 ++ ':' :: (m.2 ++ ['}'])
  | m :: ms => writeString m.1 ++ ':' :: (m.2 ++ ',' :: writeMembers ms)

/-- An object of members that are written. -/
def writeObject (members : List (List Char × List Char)) : List Char := '{' :: writeMembers members

/-! ## UTF-16 of what is written -/

@[simp] theorem utf16_nil : utf16 [] = [] := rfl

@[simp] theorem utf16_cons (c : Char) (s : List Char) : utf16 (c :: s) = unitsOf c ++ utf16 s := rfl

@[simp] theorem utf16_append (s t : List Char) : utf16 (s ++ t) = utf16 s ++ utf16 t :=
  List.flatMap_append

theorem unitsOf_small {c : Char} (h : c.toNat < 0x10000) : unitsOf c = [UInt16.ofNat c.toNat] :=
  if_pos h

theorem length_unitsOf (c : Char) : 1 ≤ (unitsOf c).length ∧ (unitsOf c).length ≤ 2 := by
  unfold unitsOf
  split
  · exact ⟨Nat.le_refl 1, Nat.le_succ 1⟩
  · exact ⟨Nat.le_succ 1, Nat.le_refl 2⟩

/-- Every unit of a character that needs no escape stands for itself in a
string. -/
theorem plain_units {c : Char} (hquote : c ≠ '"') (hbackslash : c ≠ '\\') (hcontrol : 0x20 ≤ c.toNat)
    {u : UInt16} (hu : u ∈ unitsOf c) : u ≠ quote ∧ u ≠ backslash ∧ ¬ u.toNat < 0x20 := by
  have hbound : c.toNat < 0x110000 := by
    have := c.valid
    simp only [UInt32.isValidChar, Nat.isValidChar] at this
    simp only [Char.toNat]
    omega
  have hne : c.toNat ≠ 0x22 ∧ c.toNat ≠ 0x5c :=
    ⟨fun h => hquote (Char.toNat_inj.mp h), fun h => hbackslash (Char.toNat_inj.mp h)⟩
  have hval : 0x20 ≤ u.toNat ∧ u.toNat ≠ 0x22 ∧ u.toNat ≠ 0x5c := by
    unfold unitsOf at hu
    split at hu
    · rw [List.mem_singleton.mp hu, UInt16.toNat_ofNat']
      omega
    · simp only [List.mem_cons, List.not_mem_nil, or_false] at hu
      rcases hu with rfl | rfl <;> rw [UInt16.toNat_ofNat'] <;> omega
  refine ⟨?_, ?_, by omega⟩
  · rintro rfl
    exact hval.2.1 rfl
  · rintro rfl
    exact hval.2.2 rfl

/-! ## A string that is written is read -/

/-- A unit that stands for itself. -/
theorem chars_plain {u : UInt16} (hquote : u ≠ quote) (hbackslash : u ≠ backslash)
    (hcontrol : ¬ u.toNat < 0x20) (rest : Text) :
    chars (u :: rest) = (chars rest).map fun p => (u :: p.1, p.2) := by
  rw [chars.eq_def]
  dsimp only
  rw [if_neg hquote, if_neg hbackslash, if_neg hcontrol]
  cases chars rest <;> rfl

/-- A short escape. -/
theorem chars_short {e unit : UInt16} (h : escapedUnit e = some unit) (hu : e ≠ 0x75) (rest : Text) :
    chars (backslash :: e :: rest) = (chars rest).map fun p => (unit :: p.1, p.2) := by
  rw [chars.eq_def]
  dsimp only
  rw [if_neg (by decide), if_pos rfl, if_neg hu, h]
  cases chars rest <;> rfl

/-- A unit that is spelled in hex. -/
theorem chars_hex {a b c d unit : UInt16} (h : hexUnit a b c d = some unit) (rest : Text) :
    chars (backslash :: 0x75 :: a :: b :: c :: d :: rest) =
      (chars rest).map fun p => (unit :: p.1, p.2) := by
  rw [chars.eq_def]
  dsimp only
  rw [if_neg (by decide), if_pos rfl, if_pos rfl, h]
  cases chars rest <;> rfl

theorem chars_plains {us : Text}
    (h : ∀ u ∈ us, u ≠ quote ∧ u ≠ backslash ∧ ¬ u.toNat < 0x20) (rest : Text) :
    chars (us ++ rest) = (chars rest).map fun p => (us ++ p.1, p.2) := by
  induction us with
  | nil => cases h' : chars rest <;> simp [h']
  | cons u us ih =>
    obtain ⟨hquote, hbackslash, hcontrol⟩ := h u List.mem_cons_self
    rw [List.cons_append, chars_plain hquote hbackslash hcontrol,
      ih fun v hv => h v (List.mem_cons_of_mem _ hv), Option.map_map]
    rfl

theorem hexUnit_digitChar : ∀ n < 0x20,
    hexUnit 0x30 0x30 (UInt16.ofNat (Nat.digitChar (n / 16)).toNat)
      (UInt16.ofNat (Nat.digitChar (n % 16)).toNat) = some (UInt16.ofNat n) := by
  decide

theorem digitChar_small : ∀ n < 16, (Nat.digitChar n).toNat < 0x10000 := by
  decide

/-- A character that is escaped is read as its own units. -/
theorem chars_escaped (c : Char) (rest : Text) :
    chars (utf16 (escaped c) ++ rest) = (chars rest).map fun p => (unitsOf c ++ p.1, p.2) := by
  -- one case for each branch of `escaped`
  have hshort (e : Char) (n : Nat) (hc : c.toNat = n) (hn : n < 0x10000)
      (he : utf16 ['\\', e] = [backslash, UInt16.ofNat e.toNat])
      (hunit : escapedUnit (UInt16.ofNat e.toNat) = some (UInt16.ofNat n))
      (hu : UInt16.ofNat e.toNat ≠ 0x75) :
      chars (utf16 ['\\', e] ++ rest) = (chars rest).map fun p => (unitsOf c ++ p.1, p.2) := by
    rw [he, unitsOf_small (by omega), hc]
    exact chars_short hunit hu rest
  unfold escaped
  split
  case isTrue h => exact hshort '"' 0x22 (by rw [h]; rfl) (by decide) rfl rfl (by decide)
  split
  case isTrue h => exact hshort '\\' 0x5c (by rw [h]; rfl) (by decide) rfl rfl (by decide)
  split
  case isTrue h => exact hshort 'b' 0x08 h (by decide) rfl rfl (by decide)
  split
  case isTrue h => exact hshort 't' 0x09 h (by decide) rfl rfl (by decide)
  split
  case isTrue h => exact hshort 'n' 0x0a h (by decide) rfl rfl (by decide)
  split
  case isTrue h => exact hshort 'f' 0x0c h (by decide) rfl rfl (by decide)
  split
  case isTrue h => exact hshort 'r' 0x0d h (by decide) rfl rfl (by decide)
  split
  case isTrue h =>
    have hhigh := digitChar_small (c.toNat / 16) (by omega)
    have hlow := digitChar_small (c.toNat % 16) (by omega)
    have hunits : utf16 ['\\', 'u', '0', '0', Nat.digitChar (c.toNat / 16),
        Nat.digitChar (c.toNat % 16)] = [backslash, 0x75, 0x30, 0x30,
          UInt16.ofNat (Nat.digitChar (c.toNat / 16)).toNat,
          UInt16.ofNat (Nat.digitChar (c.toNat % 16)).toNat] := by
      simp only [utf16_cons, unitsOf_small hhigh, unitsOf_small hlow]
      rfl
    rw [hunits, unitsOf_small (by omega)]
    exact chars_hex (hexUnit_digitChar _ h) rest
  case isFalse hquote hbackslash _ _ _ _ _ hcontrol =>
    rw [utf16_cons, utf16_nil, List.append_nil]
    exact chars_plains (fun u hu => plain_units hquote hbackslash (by omega) hu) rest

/-- A string that is written is read, whatever stands behind it. -/
theorem chars_writeString (s : List Char) (rest : Text) :
    chars (utf16 (s.flatMap escaped ++ ['"']) ++ rest) = some (utf16 s, rest) := by
  induction s with
  | nil => rw [chars.eq_def]; rfl
  | cons c s ih =>
    rw [List.flatMap_cons, List.append_assoc, utf16_append, List.append_assoc, chars_escaped, ih]
    rfl

/-- How much longer an escape makes a text: six times at most. -/
theorem length_escaped (c : Char) : (utf16 (escaped c)).length ≤ 6 * (unitsOf c).length := by
  have hone := (length_unitsOf c).1
  have htwo (e : Char) (h : (unitsOf e).length ≤ 2) : (utf16 ['\\', e]).length ≤ 6 * (unitsOf c).length := by
    have : (unitsOf '\\').length = 1 := rfl
    simp only [utf16_cons, utf16_nil, List.append_nil, List.length_append]
    omega
  unfold escaped
  iterate 7 (split; exact htwo _ (length_unitsOf _).2)
  split
  case isTrue h =>
    simp only [utf16_cons, utf16_nil, unitsOf_small (digitChar_small (c.toNat / 16) (by omega)),
      unitsOf_small (digitChar_small (c.toNat % 16) (by omega))]
    simp only [List.length_append, List.length_singleton, List.length_nil]
    have : (unitsOf '\\').length = 1 ∧ (unitsOf 'u').length = 1 ∧ (unitsOf '0').length = 1 :=
      ⟨rfl, rfl, rfl⟩
    omega
  case isFalse =>
    rw [utf16_cons, utf16_nil, List.append_nil]
    omega

theorem length_writeString (s : List Char) :
    (utf16 (writeString s)).length ≤ 6 * (utf16 s).length + 2 := by
  have hbody : (utf16 (s.flatMap escaped)).length ≤ 6 * (utf16 s).length := by
    induction s with
    | nil => exact Nat.zero_le _
    | cons c s ih =>
      have := length_escaped c
      simp only [List.flatMap_cons, utf16_append, utf16_cons, List.length_append]
      omega
  have : (unitsOf '"').length = 1 := rfl
  simp only [writeString, utf16_cons, utf16_append, utf16_nil, List.append_nil, List.length_append]
  omega

/-- A member takes its name, its text and two marks. -/
theorem length_writeMembers (m : List Char × List Char) (ms : List (List Char × List Char)) :
    (utf16 (writeMembers (m :: ms))).length =
      ((m :: ms).map fun n => (utf16 (writeString n.1)).length + (utf16 n.2).length + 2).sum := by
  have hmarks : (unitsOf ':').length = 1 ∧ (unitsOf ',').length = 1 ∧
      (unitsOf '\x7d').length = 1 := by decide
  induction ms generalizing m with
  | nil =>
    simp only [writeMembers, utf16_append, utf16_cons, utf16_nil, List.length_append,
      List.length_nil, List.map_cons, List.map_nil, List.sum_cons, List.sum_nil]
    omega
  | cons m' ms ih =>
    rw [List.map_cons, List.sum_cons, ← ih m']
    simp only [writeMembers, utf16_append, utf16_cons, List.length_append]
    omega

/-! ## An object that is written is read -/

/-- A text that is read as a value, where a comma or a brace follows it. -/
def Reads (text : List Char) (v : Value) : Prop :=
  ∀ (fuel : Nat) (d : UInt16) (rest : Text), d = comma ∨ d = closeBrace →
    value (fuel + 1) (utf16 text ++ d :: rest) = some (v, d :: rest)

theorem skip_cons {u : UInt16} (h : isBlank u = false) (rest : Text) : skip (u :: rest) = u :: rest := by
  rw [skip, List.dropWhile_cons, if_neg (by rw [h]; decide)]

theorem utf16_writeString (s : List Char) :
    utf16 (writeString s) = quote :: utf16 (s.flatMap escaped ++ ['"']) := rfl

theorem reads_writeString (s : List Char) : Reads (writeString s) (.string (utf16 s)) := by
  intro fuel d rest _
  rw [utf16_writeString, List.cons_append, value, skip_cons (by decide)]
  dsimp only
  rw [if_pos rfl, chars_writeString]
  rfl

theorem digits_digitChar {ds : List Nat} (hds : ∀ n ∈ ds, n < 10) {d : UInt16} (hd : digit d = none)
    (rest : Text) : digits (utf16 (ds.map Nat.digitChar) ++ d :: rest) = (ds, d :: rest) := by
  have hdigit : ∀ n < 10, unitsOf (Nat.digitChar n) = [UInt16.ofNat (Nat.digitChar n).toNat] ∧
      digit (UInt16.ofNat (Nat.digitChar n).toNat) = some n := by decide
  induction ds with
  | nil =>
    rw [List.map_nil, utf16_nil, List.nil_append, digits, hd]
  | cons n ds ih =>
    obtain ⟨hunits, hn⟩ := hdigit n (hds n List.mem_cons_self)
    rw [List.map_cons, utf16_cons, hunits, List.append_assoc, List.singleton_append, digits, hn]
    dsimp only
    rw [ih fun m hm => hds m (List.mem_cons_of_mem _ hm)]

/-- A natural number that is written without a zero ahead of it. -/
theorem reads_digits {n : Nat} {ns : List Nat} (hns : ∀ m ∈ n :: ns, m < 10)
    (hzero : n = 0 → ns = []) : Reads ((n :: ns).map Nat.digitChar)
      (.number { negative := false, whole := n :: ns, fraction := [], exponent := 0 }) := by
  intro fuel d rest hd
  have hfollow : digit d = none ∧ d ≠ 0x2e ∧ d ≠ 0x65 ∧ d ≠ 0x45 := by
    rcases hd with rfl | rfl <;> decide
  have hdigits := digits_digitChar hns hfollow.1 rest
  obtain ⟨u, us, htext, hblank, hplain⟩ : ∃ u us,
      utf16 ((n :: ns).map Nat.digitChar) ++ d :: rest = u :: us ∧ isBlank u = false ∧
        u ≠ quote ∧ u ≠ openBrace ∧ u ≠ openBracket ∧ u ≠ 0x74 ∧ u ≠ 0x66 ∧ u ≠ 0x6e ∧ u ≠ 0x2d := by
    have hfirst : ∀ n < 10, ∃ u, unitsOf (Nat.digitChar n) = [u] ∧ isBlank u = false ∧
        u ≠ quote ∧ u ≠ openBrace ∧ u ≠ openBracket ∧ u ≠ 0x74 ∧ u ≠ 0x66 ∧ u ≠ 0x6e ∧ u ≠ 0x2d := by
      intro n hn
      refine ⟨UInt16.ofNat (Nat.digitChar n).toNat, ?_⟩
      revert n
      decide
    obtain ⟨u, hunits, hu⟩ := hfirst n (hns n List.mem_cons_self)
    exact ⟨u, _, by rw [List.map_cons, utf16_cons, hunits]; rfl, hu⟩
  rw [htext] at hdigits ⊢
  obtain ⟨hquote, hbrace, hbracket, ht, hf, hn, hminus⟩ := hplain
  have hlead : ¬ (n :: ns = [] ∨ ((n :: ns).head? = some 0 ∧ 1 < (n :: ns).length)) := by
    rintro (h | ⟨h, hlong⟩)
    · cases h
    · rw [hzero (Option.some.inj h)] at hlong
      exact absurd hlong (Nat.lt_irrefl 1)
  have hnumber : number (u :: us) = some
      ({ negative := false, whole := n :: ns, fraction := [], exponent := 0 }, d :: rest) := by
    unfold number
    dsimp only
    rw [if_neg hminus]
    dsimp only
    rw [hdigits]
    dsimp only
    rw [if_neg hlead, fraction, if_neg hfollow.2.1]
    simp only [Option.bind_eq_bind, Option.bind_some]
    rw [exponent.eq_def]
    dsimp only
    rw [if_neg (by simp [hfollow])]
    rfl
  rw [value, skip_cons hblank]
  dsimp only
  rw [if_neg hquote, if_neg hbrace, if_neg hbracket, if_neg ht, if_neg hf, if_neg hn, hnumber]
  rfl

/-- Members that are written, and the values their texts are read as. -/
structure Member where
  key : List Char
  text : List Char
  value : Value
  reads : Reads text value

def Member.written (m : Member) : List Char × List Char := (m.key, m.text)

def Member.read (m : Member) : Text × Value := (utf16 m.key, m.value)

theorem members_head (fuel : Nat) (m : Member) {d : UInt16} (hd : d = comma ∨ d = closeBrace)
    (rest : Text) :
    members (fuel + 2) (utf16 (writeString m.key) ++ colon :: (utf16 m.text ++ d :: rest)) =
      if d = comma then
        (members (fuel + 1) rest).map fun p => ((utf16 m.key, m.value) :: p.1, p.2)
      else some ([(utf16 m.key, m.value)], rest) := by
  have hblank : isBlank d = false := by rcases hd with rfl | rfl <;> decide
  rw [utf16_writeString, List.cons_append, members, skip_cons (by decide)]
  dsimp only
  rw [if_neg (not_not_intro rfl), chars_writeString, Option.bind_some]
  dsimp only
  rw [skip_cons (by decide)]
  dsimp only
  rw [if_neg (not_not_intro rfl), m.reads fuel d rest hd, Option.bind_some]
  dsimp only
  rw [skip_cons hblank]
  dsimp only
  rcases hd with rfl | rfl
  · rw [if_pos rfl, if_pos rfl]
  · rfl

theorem written_cons (m : Member) (text : Text) :
    ∃ us, utf16 (writeString m.key) ++ text = quote :: us := ⟨_, rfl⟩

theorem utf16_writeMembers_last (m : Member) :
    utf16 (writeMembers [m.written]) =
      utf16 (writeString m.key) ++ colon :: (utf16 m.text ++ [closeBrace]) := by
  simp only [writeMembers, Member.written, utf16_append, utf16_cons]
  rfl

theorem utf16_writeMembers_cons (m m' : Member) (ms : List Member) :
    utf16 (writeMembers ((m :: m' :: ms).map Member.written)) =
      utf16 (writeString m.key) ++ colon :: (utf16 m.text ++
        comma :: utf16 (writeMembers ((m' :: ms).map Member.written))) := by
  simp only [List.map_cons, writeMembers, Member.written, utf16_append, utf16_cons]
  rfl

theorem members_written (m : Member) (ms : List Member) (rest : Text) :
    ∀ fuel, ms.length < fuel →
      members (fuel + 1) (utf16 (writeMembers ((m :: ms).map Member.written)) ++ rest) =
        some ((m :: ms).map Member.read, rest) := by
  induction ms generalizing m with
  | nil =>
    intro fuel hfuel
    obtain ⟨fuel, rfl⟩ : ∃ f, fuel = f + 1 := ⟨fuel - 1, (Nat.succ_pred_eq_of_pos hfuel).symm⟩
    have h := members_head fuel m (.inr rfl) rest
    rw [if_neg (by decide)] at h
    rw [List.map_cons, List.map_nil, utf16_writeMembers_last, List.append_assoc, List.cons_append,
      List.append_assoc]
    exact h
  | cons m' ms ih =>
    intro fuel hfuel
    rw [List.length_cons] at hfuel
    obtain ⟨fuel, rfl⟩ : ∃ f, fuel = f + 1 := ⟨fuel - 1, by omega⟩
    have h := members_head fuel m (.inl rfl)
      (utf16 (writeMembers ((m' :: ms).map Member.written)) ++ rest)
    rw [if_pos rfl, ih m' fuel (by omega)] at h
    rw [utf16_writeMembers_cons, List.append_assoc, List.cons_append, List.append_assoc]
    exact h

theorem length_lt_writeMembers (m : Member) (ms : List Member) :
    ms.length < (utf16 (writeMembers ((m :: ms).map Member.written))).length := by
  rw [List.map_cons, length_writeMembers, ← List.map_cons, List.map_map]
  refine Nat.lt_of_lt_of_le ?_ (List.length_le_sum_of_one_le _ fun n hn => ?_)
  · rw [List.length_map]
    exact Nat.lt_succ_self _
  · obtain ⟨_, -, rfl⟩ := List.mem_map.mp hn
    exact Nat.le_add_left 1 _

/-- An object that is written is read. -/
theorem parse_writeObject (m : Member) (ms : List Member) :
    parse (utf16 (writeObject ((m :: ms).map Member.written))) =
      some (.object ((m :: ms).map Member.read)) := by
  have hbody := members_written m ms [] _ (length_lt_writeMembers m ms)
  rw [List.append_nil] at hbody
  obtain ⟨us, hquote⟩ : ∃ us, utf16 (writeMembers ((m :: ms).map Member.written)) = quote :: us := by
    cases ms with
    | nil => rw [List.map_cons, List.map_nil, utf16_writeMembers_last]; exact written_cons m _
    | cons m' ms => rw [utf16_writeMembers_cons]; exact written_cons m _
  have htext : utf16 (writeObject ((m :: ms).map Member.written)) =
      openBrace :: utf16 (writeMembers ((m :: ms).map Member.written)) := rfl
  rw [parse, htext, List.length_cons, value, skip_cons (by decide)]
  dsimp only
  rw [if_neg (by decide), if_pos rfl, hbody, hquote, skip_cons (by decide)]
  dsimp only
  rw [if_neg (by decide)]
  rfl

end JsonText
