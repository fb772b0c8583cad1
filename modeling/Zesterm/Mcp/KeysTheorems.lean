/-
Zesterm.Mcp.KeysTheorems — the grammar of a key's name, and where the
reading of one leaves it.

A text is spelled by its parts in one way (`spelling_inj`), so what the split
finds is what was spelled, unless the base is the separator itself. The base
is then read by its name, by its number or as a character (`parseBase_iff`).
What is left are three slips at the edge of the grammar: a base that is `+`
or missing, a character with blanks beside it, a number with zeros ahead.
-/
import Zesterm.Mcp.AddrTheorems
import Zesterm.Mcp.Keys

namespace Zesterm.Mcp.Keys

variable {parts : List Str} {c : Char} {text : Str}

/-! ## The grammar -/

/-- Names, each followed by `+`, and a base. -/
def spelling (parts : List Str) (base : Str) : Str := parts.flatMap (· ++ ['+']) ++ base

def IsModifier (part : Str) : Prop := part ∈ ctrlNames ∨ part ∈ altNames ∨ part ∈ shiftNames

local instance : LawfulBEq Str := inferInstance

/-- What is held. -/
def held (parts : List Str) : Mods :=
  { ctrl := parts.any (· ∈ ctrlNames)
    alt := parts.any (· ∈ altNames)
    shift := parts.any (· ∈ shiftNames) }

/-- Modifiers under which a character is a key. -/
def Mods.TakesChar (mods : Mods) : Prop := (mods.ctrl = true ∨ mods.alt = true) ∧ mods.shift = false

/-- The base a text names. -/
inductive Names (mods : Mods) (text : Str) : Base → Prop
  | named {key : Named} (h : (squash text, key) ∈ names) : Names mods text (.named key)
  | function {n : Nat} (hn : 1 ≤ n ∧ n ≤ 12) (h : squash text = 'f' :: showNat n) :
      Names mods text (.named (.f n))
  | char {c : Char} (h : text = [c]) (hmods : mods.TakesChar) : Names mods text (.char c)

/-- A string that spells a chord, case aside and without its outer blanks. -/
def Spells (s : Str) (c : Chord) : Prop :=
  ∃ parts base, toAsciiLowercase (trim s) = spelling parts base ∧ (∀ p ∈ parts, IsModifier p) ∧
    c.mods = held parts ∧ Names c.mods base c.base

/-- A number of a function key with zeros ahead of it. -/
def Padded (base : Str) : Prop :=
  ∃ z n, 0 < z ∧ (1 ≤ n ∧ n ≤ 12) ∧ squash base = 'f' :: (List.replicate z '0' ++ showNat n)

/-- A base that is the separator, is missing, or has blanks beside its one
character. -/
def Bare (base : Str) : Prop :=
  base = [] ∨ base = ['+'] ∨ ('+' ∉ base ∧ ∃ c, trim base = [c] ∧ base ≠ [c])

/-- A string at the edge of the grammar. -/
def Slips (s : Str) : Prop :=
  ∃ parts base, toAsciiLowercase (trim s) = spelling parts base ∧ (∀ p ∈ parts, IsModifier p) ∧
    (((held parts).TakesChar ∧ Bare base) ∨ Padded base)

/-! ## Parts -/

theorem spelling_cons (part : Str) (parts : List Str) (base : Str) :
    spelling (part :: parts) base = part ++ '+' :: spelling parts base := by
  simp [spelling]

/-- A base that is the separator is a part more, and no base. -/
theorem spelling_plus (parts : List Str) : spelling parts ['+'] = spelling (parts ++ [[]]) [] := by
  simp [spelling]

theorem splitOn_spelling {base : Str} (hparts : ∀ p ∈ parts, '+' ∉ p) (hbase : '+' ∉ base) :
    (spelling parts base).splitOn '+' = parts ++ [base] := by
  induction parts with
  | nil => exact List.splitOn_eq_singleton hbase
  | cons p parts ih =>
    rw [spelling_cons, List.splitOn_append_cons_self,
      List.splitOn_eq_singleton (hparts p List.mem_cons_self),
      ih fun q hq => hparts q (List.mem_cons_of_mem _ hq)]
    rfl

theorem spelling_inj {parts' : List Str} {base base' : Str} (hparts : ∀ p ∈ parts, '+' ∉ p)
    (hbase : '+' ∉ base) (hparts' : ∀ p ∈ parts', '+' ∉ p) (hbase' : '+' ∉ base')
    (h : spelling parts base = spelling parts' base') : parts = parts' ∧ base = base' := by
  have hsplit := congrArg (List.splitOn '+') h
  rw [splitOn_spelling hparts hbase, splitOn_spelling hparts' hbase'] at hsplit
  exact List.append_singleton_inj.mp hsplit

/-- Every text has its parts. -/
theorem exists_spelling (text : Str) :
    ∃ parts base, text = spelling parts base ∧ (∀ p ∈ parts, '+' ∉ p) ∧ '+' ∉ base := by
  induction text with
  | nil => exact ⟨[], [], rfl, by simp, by simp⟩
  | cons c text ih =>
    obtain ⟨parts, base, rfl, hparts, hbase⟩ := ih
    by_cases hc : c = '+'
    · refine ⟨[] :: parts, base, by rw [spelling_cons, hc]; rfl, ?_, hbase⟩
      intro p hp
      rcases List.mem_cons.mp hp with rfl | hp
      · exact List.not_mem_nil
      · exact hparts p hp
    · cases parts with
      | nil =>
        refine ⟨[], c :: base, rfl, by simp, ?_⟩
        rintro (_ | ⟨_, h⟩)
        · exact hc rfl
        · exact hbase h
      | cons part parts =>
        refine ⟨(c :: part) :: parts, base, by rw [spelling_cons, spelling_cons]; rfl, ?_, hbase⟩
        intro p hp
        rcases List.mem_cons.mp hp with rfl | hp
        · rintro (_ | ⟨_, h⟩)
          · exact hc rfl
          · exact hparts part List.mem_cons_self h
        · exact hparts p (List.mem_cons_of_mem _ hp)

theorem IsModifier.plain {part : Str} (h : IsModifier part) : '+' ∉ part ∧ part ≠ [] := by
  have hall : ∀ q ∈ ctrlNames ++ altNames ++ shiftNames, '+' ∉ q ∧ q ≠ [] := by decide
  refine hall part ?_
  rw [List.mem_append, List.mem_append, or_assoc]
  exact h

theorem readParts_cons (spelled : Str) (mods : Mods) (part : Str) {rest : List Str}
    (h : rest ≠ []) : readParts spelled mods (part :: rest) =
      if part ∈ ctrlNames then readParts spelled { mods with ctrl := true } rest
      else if part ∈ altNames then readParts spelled { mods with alt := true } rest
      else if part ∈ shiftNames then readParts spelled { mods with shift := true } rest
      else if part ∈ desktopNames then .error (.desktop spelled)
      else .error (.unknown spelled) := by
  cases rest with
  | nil => exact absurd rfl h
  | cons q qs => rfl

/-- What is held already, and what the parts add. -/
def Mods.add (mods more : Mods) : Mods :=
  { ctrl := mods.ctrl || more.ctrl, alt := mods.alt || more.alt, shift := mods.shift || more.shift }

theorem held_cons (part : Str) (parts : List Str) :
    held (part :: parts) =
      Mods.add ⟨part ∈ ctrlNames, part ∈ altNames, part ∈ shiftNames⟩ (held parts) := rfl

/-- The parts ahead of the last are all modifiers, and are held. -/
theorem readParts_iff (spelled : Str) {base : Str} :
    ∀ {mods got : Mods} {part : Str},
      readParts spelled mods (parts ++ [base]) = .ok (got, part) ↔
        (∀ p ∈ parts, IsModifier p) ∧ part = base ∧ got = mods.add (held parts) := by
  have hctrl : ∀ q ∈ ctrlNames, q ∉ altNames ∧ q ∉ shiftNames := by decide
  have halt : ∀ q ∈ altNames, q ∉ shiftNames := by decide
  induction parts with
  | nil =>
    intro mods got part
    have hnone : mods.add (held []) = mods := by simp [Mods.add, held]
    rw [List.nil_append, readParts, hnone]
    constructor
    · intro h
      obtain ⟨rfl, rfl⟩ := Prod.mk.inj (Except.ok.inj h)
      exact ⟨by simp, rfl, rfl⟩
    · rintro ⟨-, rfl, rfl⟩
      rfl
  | cons p parts ih =>
    intro mods got part
    have hstep (mods' : Mods) (hp : IsModifier p)
        (hmods : mods'.add (held parts) = mods.add (held (p :: parts))) :
        readParts spelled mods' (parts ++ [base]) = .ok (got, part) ↔
          (∀ q ∈ p :: parts, IsModifier q) ∧ part = base ∧ got = mods.add (held (p :: parts)) := by
      rw [ih, hmods, List.forall_mem_cons]
      simp only [hp, true_and]
    rw [List.cons_append, readParts_cons _ _ _ (by simp)]
    by_cases h₁ : p ∈ ctrlNames
    · rw [if_pos h₁]
      exact hstep _ (.inl h₁) (by simp [Mods.add, held_cons, h₁, hctrl p h₁])
    rw [if_neg h₁]
    by_cases h₂ : p ∈ altNames
    · rw [if_pos h₂]
      exact hstep _ (.inr (.inl h₂)) (by simp [Mods.add, held_cons, h₁, h₂, halt p h₂])
    rw [if_neg h₂]
    by_cases h₃ : p ∈ shiftNames
    · rw [if_pos h₃]
      exact hstep _ (.inr (.inr h₃)) (by simp [Mods.add, held_cons, h₁, h₂, h₃])
    rw [if_neg h₃]
    constructor
    · intro h
      split at h <;> cases h
    · rintro ⟨hall, -, -⟩
      rcases hall p List.mem_cons_self with h | h | h
      · exact absurd h h₁
      · exact absurd h h₂
      · exact absurd h h₃

/-! ## A base -/

/-- A digit, read as its number. -/
theorem digitValue_eq {d : Nat} (h : digitValue 10 c = some d) : d < 10 ∧ c = Nat.digitChar d := by
  unfold digitValue at h
  dsimp only at h
  split_ifs at h with h₁ h₂ h₃ <;> try omega
  · cases h
    have hdigit : ∀ n < 10, Char.ofNat (48 + n) = Nat.digitChar n := by decide
    refine ⟨by omega, ?_⟩
    rw [← hdigit _ (by omega), Nat.add_sub_cancel' (by omega), Char.ofNat_toNat]

theorem showNat_step {v d : Nat} (hv : 0 < v) (hd : d < 10) :
    showNat (v * 10 + d) = showNat v ++ [Nat.digitChar d] := by
  have hdiv : (v * 10 + d) / 10 = v := by omega
  have hmod : (v * 10 + d) % 10 = d := by omega
  rw [showNat, Nat.toDigits_eq_if (by decide), if_neg (by omega), hdiv, hmod]
  rfl

theorem showNat_digit {d : Nat} (hd : d < 10) : showNat d = [Nat.digitChar d] := by
  rw [showNat, Nat.toDigits_eq_if (by decide), if_pos hd]

theorem parseDigits_snoc (ds : Str) (c : Char) :
    parseDigits 10 (ds ++ [c]) =
      (parseDigits 10 ds).bind fun v => (digitValue 10 c).map (v * 10 + ·) := by
  rw [parseDigits, List.foldlM_append]
  cases h : parseDigits 10 ds with
  | none => rw [parseDigits] at h; rw [h]; rfl
  | some v => rw [parseDigits] at h; rw [h]; simp

/-- A number is read from its decimal and from no other text, zeros ahead of
it apart. -/
theorem parseDigits_iff {ds : Str} {n : Nat} (hne : ds ≠ []) :
    parseDigits 10 ds = some n ↔ ∃ z, ds = List.replicate z '0' ++ showNat n := by
  constructor
  · intro h
    -- digit by digit from the left: what was read so far has zeros ahead of it, or is zero
    induction ds using List.reverseRecOn generalizing n with
    | nil => exact absurd rfl hne
    | append_singleton ds c ih =>
      rw [parseDigits_snoc, Option.bind_eq_some_iff] at h
      obtain ⟨v, hv, hc⟩ := h
      obtain ⟨d, hd, rfl⟩ := Option.map_eq_some_iff.mp hc
      obtain ⟨hlt, rfl⟩ := digitValue_eq hd
      by_cases hds : ds = []
      · subst hds
        obtain rfl : v = 0 := (Option.some.inj hv).symm
        exact ⟨0, by rw [Nat.zero_mul, Nat.zero_add, showNat_digit hlt]; rfl⟩
      · obtain ⟨z, rfl⟩ := ih hds hv
        rcases Nat.eq_zero_or_pos v with rfl | hpos
        · refine ⟨z + 1, ?_⟩
          rw [Nat.zero_mul, Nat.zero_add, showNat_digit hlt, List.replicate_succ']
          rfl
        · exact ⟨z, by rw [showNat_step hpos hlt, List.append_assoc]⟩
  · rintro ⟨z, rfl⟩
    have hzeros : ∀ k, parseDigits 10 (List.replicate k '0') = some 0 := by
      intro k
      induction k with
      | zero => rfl
      | succ k ih => rw [List.replicate_succ', parseDigits_snoc, ih]; rfl
    have h := hzeros z
    rw [parseDigits] at h ⊢
    rw [List.foldlM_append, h]
    exact parseDigits_showNat n

/-- What stands behind the `f` of a function key. -/
theorem functionNumber_iff (hplus : '+' ∉ text) {n : Nat} (hn : n ≤ 255) :
    functionNumber text = some n ↔ ∃ z, text = 'f' :: (List.replicate z '0' ++ showNat n) := by
  have hparse {ds : Str} (h : '+' ∉ ds) :
      parseUnsigned 255 ds = some n ↔ ∃ z, ds = List.replicate z '0' ++ showNat n := by
    cases ds with
    | nil =>
      refine ⟨fun h => (by cases h), ?_⟩
      rintro ⟨z, hz⟩
      exact absurd (List.append_eq_nil_iff.mp hz.symm).2 Nat.toDigits_ne_nil
    | cons c cs =>
      have hc : ∀ rest, c :: cs = '+' :: rest → False :=
        fun _ heq => h ((List.cons.inj heq).1 ▸ List.mem_cons_self)
      have hradix : parseRadix 10 255 (c :: cs) = (parseDigits 10 (c :: cs)).filter (· ≤ 255) := by
        rw [parseRadix]
        · rfl
        · exact hc
      rw [← parseDigits_iff (List.cons_ne_nil c cs), parseUnsigned, hradix,
        Option.filter_eq_some_iff]
      exact ⟨fun h => h.1, fun h => ⟨h, decide_eq_true (by omega)⟩⟩
  cases text with
  | nil =>
    refine ⟨fun h => (by cases h), ?_⟩
    rintro ⟨z, hz⟩
    cases hz
  | cons c cs =>
    have hcs : '+' ∉ cs := fun h => hplus (List.mem_cons_of_mem c h)
    rw [functionNumber, stripPrefix]
    by_cases hc : 'f' = c
    · subst hc
      rw [if_pos rfl, stripPrefix, Option.bind_some, hparse hcs]
      simp only [List.cons.injEq, true_and]
    · rw [if_neg hc]
      refine ⟨fun h => (by cases h), ?_⟩
      rintro ⟨z, hz⟩
      exact absurd (List.cons.inj hz).1.symm hc

theorem le_of_functionNumber {n : Nat} (h : functionNumber text = some n) : n ≤ 255 := by
  obtain ⟨digits, -, hdigits⟩ := Option.bind_eq_some_iff.mp h
  rw [parseUnsigned, parseRadix.eq_def] at hdigits
  split at hdigits
  all_goals
    dsimp only at hdigits
    split at hdigits
    · cases hdigits
    · exact of_decide_eq_true (Option.filter_eq_some_iff.mp hdigits).2

/-- The characters that are no blanks. -/
def solid (text : Str) : Str := text.filter fun c => !isWhitespace c

theorem solid_dropWhile (text : Str) : solid (text.dropWhile isWhitespace) = solid text := by
  induction text with
  | nil => rfl
  | cons c text ih =>
    rw [List.dropWhile_cons]
    split
    · next h => rw [ih, solid, solid, List.filter_cons, h]; rfl
    · rfl

theorem solid_trim (text : Str) : solid (trim text) = solid text := by
  rw [trim, trimEnd, List.rdropWhile, solid, List.filter_reverse]
  change (solid _).reverse = _
  rw [solid_dropWhile, solid, List.filter_reverse, List.reverse_reverse]
  exact solid_dropWhile text

/-- A text of one character, blanks aside, is no longer when it is squashed. -/
theorem solid_squash (h : trim text = [c]) : (solid (squash text)).length ≤ 1 := by
  have htrim : (solid text).length ≤ 1 := by
    rw [← solid_trim, h]
    exact List.length_filter_le _ _
  rw [solid, squash, List.filter_comm]
  exact Nat.le_trans (List.length_filter_le _ _) htrim

theorem names_solid : ∀ e ∈ names, 1 < (solid e.1).length ∧ e.1.head? ≠ some 'f' ∧
    names.find? (fun n => n.1 = e.1) = some e := by
  decide

theorem isWhitespace_digit (h : c.isDigit = true) : isWhitespace c = false := by
  have hrange : 48 ≤ c.toNat ∧ c.toNat ≤ 57 := by
    simp only [Char.isDigit, Bool.and_eq_true, decide_eq_true_eq] at h
    exact ⟨h.1, h.2⟩
  simp only [isWhitespace, Bool.or_eq_false_iff, Bool.and_eq_false_iff, decide_eq_false_iff_not,
    beq_eq_false_iff_ne]
  omega

/-- The number of a function key is no single character. -/
theorem solid_function (z n : Nat) :
    1 < (solid ('f' :: (List.replicate z '0' ++ showNat n))).length := by
  have hnumber : solid (showNat n) = showNat n :=
    List.filter_eq_self.mpr fun c hc => by rw [isWhitespace_digit (isDigit_showNat hc)]; rfl
  have hpos : 0 < (showNat n).length := List.length_pos_iff.mpr Nat.toDigits_ne_nil
  have hsplit : solid ('f' :: (List.replicate z '0' ++ showNat n)) =
      'f' :: (solid (List.replicate z '0') ++ solid (showNat n)) := by
    rw [solid, List.filter_cons, if_pos (by decide), List.filter_append]
    rfl
  rw [hsplit, hnumber, List.length_cons, List.length_append]
  omega

/-- What the code reads a base as. -/
theorem parseBase_iff {token : Str} (hplus : '+' ∉ token) (spelled : Str) (mods : Mods) {b : Base} :
    parseBase token spelled mods = .ok b ↔
      (∃ key, (squash token, key) ∈ names ∧ b = .named key) ∨
      (∃ z n, (1 ≤ n ∧ n ≤ 12) ∧ squash token = 'f' :: (List.replicate z '0' ++ showNat n) ∧
        b = .named (.f n)) ∨
      ∃ c, trim token = [c] ∧ mods.TakesChar ∧ b = .char c := by
  have hsquash : '+' ∉ squash token := fun h => hplus (List.mem_filter.mp h).1
  unfold parseBase
  cases hfind : names.find? fun n => n.1 = squash token with
  | some e =>
    have hmem := List.mem_of_find?_eq_some hfind
    have hname : e.1 = squash token := by simpa using List.find?_some hfind
    obtain ⟨hsolid, hf, -⟩ := names_solid e hmem
    dsimp only
    constructor
    · intro h
      exact .inl ⟨e.2, hname ▸ hmem, (Except.ok.inj h).symm⟩
    · rintro (⟨key, hkey, rfl⟩ | ⟨z, n, -, heq, -⟩ | ⟨c, htrim, -, -⟩)
      · have hsame := (names_solid _ hkey).2.2
        rw [hfind] at hsame
        rw [Option.some.inj hsame]
      · rw [hname, heq] at hf
        exact absurd rfl hf
      · rw [hname] at hsolid
        exact absurd (solid_squash htrim) (Nat.not_le.mpr hsolid)
  | none =>
    have hnone (key : Named) : (squash token, key) ∉ names := by
      intro hmem
      have := List.find?_eq_none.mp hfind _ hmem
      simp at this
    dsimp only
    cases hnumber : functionNumber (squash token) with
    | some n =>
      obtain ⟨z, hz⟩ := (functionNumber_iff hsquash (le_of_functionNumber hnumber)).mp hnumber
      dsimp only
      constructor
      · intro h
        split at h
        · next hrange => exact .inr (.inl ⟨z, n, hrange, hz, (Except.ok.inj h).symm⟩)
        · cases h
      · rintro (⟨key, hkey, rfl⟩ | ⟨z', n', hrange, heq, rfl⟩ | ⟨c, htrim, -, -⟩)
        · exact absurd hkey (hnone key)
        · have hsame := (functionNumber_iff hsquash (by omega)).mpr ⟨z', heq⟩
          rw [hnumber] at hsame
          obtain rfl := Option.some.inj hsame
          rw [if_pos hrange]
        · have hsolid := solid_function z n
          rw [← hz] at hsolid
          exact absurd (solid_squash htrim) (Nat.not_le.mpr hsolid)
    | none =>
      dsimp only
      constructor
      · intro h
        refine .inr (.inr ?_)
        split at h
        · next c htrim =>
          split_ifs at h with hshift hbare
          · refine ⟨c, htrim, ⟨?_, by simpa using hshift⟩, (Except.ok.inj h).symm⟩
            cases hctrl : mods.ctrl
            · cases halt : mods.alt
              · rw [hctrl, halt] at hbare
                exact absurd rfl hbare
              · exact .inr rfl
            · exact .inl rfl
        · cases h
      · rintro (⟨key, hkey, rfl⟩ | ⟨z, n, hrange, heq, rfl⟩ | ⟨c, htrim, ⟨hmods, hshift⟩, rfl⟩)
        · exact absurd hkey (hnone key)
        · rw [(functionNumber_iff hsquash (by omega)).mpr ⟨z, heq⟩] at hnumber
          cases hnumber
        · rw [htrim]
          dsimp only
          rw [if_neg (by rw [hshift]; decide), if_neg (by rcases hmods with h | h <;> simp [h])]

/-- A base that is the separator is a character or nothing. -/
theorem parseBase_plus (spelled : Str) (mods : Mods) {b : Base} :
    parseBase ['+'] spelled mods = .ok b ↔ mods.TakesChar ∧ b = .char '+' := by
  have hread : parseBase ['+'] spelled mods =
      if mods.shift then .error (.shiftedCharacter spelled)
      else if !mods.ctrl && !mods.alt then .error (.bareCharacter spelled)
      else .ok (.char '+') := rfl
  rw [hread]
  obtain ⟨ctrl, alt, shift⟩ := mods
  cases ctrl <;> cases alt <;> cases shift <;> simp [Mods.TakesChar, eq_comm]

/-! ## The whole name -/

/-- A text that ends with no base ends with the separator. -/
theorem getLast?_spelling (h : parts ≠ []) : (spelling parts []).getLast? = some '+' := by
  obtain ⟨before, p, rfl⟩ : ∃ before p, parts = before ++ [p] :=
    ⟨parts.dropLast, parts.getLast h, (List.dropLast_append_getLast h).symm⟩
  simp [spelling]

/-- What the code reads a string as: the parts of the split, and the last of
them for the base, or the separator when that is empty. -/
theorem fromStr_iff (s : Str) {c : Chord} :
    fromStr s = .ok c ↔
      ∃ parts part, toAsciiLowercase (trim s) = spelling parts part ∧ '+' ∉ part ∧
        (∀ p ∈ parts, IsModifier p) ∧ c.mods = held parts ∧
        parseBase (if part = [] then ['+'] else part) (trim s) c.mods = .ok c.base ∧
        ¬ (parts = [] ∧ part = []) := by
  by_cases hempty : trim s = []
  · have hnothing : toAsciiLowercase (trim s) = [] := by rw [hempty]; rfl
    simp only [fromStr, hempty, List.isEmpty_nil, if_true]
    refine ⟨fun h => (by cases h), ?_⟩
    rintro ⟨parts, part, htext, -, -, -, -, hsome⟩
    cases parts with
    | nil => exact absurd ⟨rfl, htext.symm⟩ hsome
    | cons p parts => rw [spelling_cons] at htext; simp [toAsciiLowercase] at htext
  have hlowered : toAsciiLowercase (trim s) ≠ [] := by simpa [toAsciiLowercase] using hempty
  obtain ⟨parts, part, htext, hparts, hpart⟩ := exists_spelling (toAsciiLowercase (trim s))
  have hsome : ¬ (parts = [] ∧ part = []) := by
    rintro ⟨rfl, rfl⟩
    exact hlowered htext
  have htoken : (if (part.isEmpty && (toAsciiLowercase (trim s)).getLast? == some '+') = true
      then ['+'] else part) = if part = [] then ['+'] else part := by
    by_cases hp : part = []
    · subst hp
      have hlast := getLast?_spelling fun h => hsome ⟨h, rfl⟩
      rw [htext, hlast]
      rfl
    · rw [if_neg hp, if_neg (by simp [hp])]
  rw [fromStr]
  dsimp only
  rw [if_neg (by simpa using hempty), htext, splitOn_spelling hparts hpart, ← htext]
  constructor
  · intro h
    split at h
    · cases h
    · next mods part' hread =>
      obtain ⟨hmodifiers, rfl, rfl⟩ := (readParts_iff _).mp hread
      rw [htoken] at h
      split at h
      · cases h
      · next base hbase =>
        cases h
        exact ⟨parts, part', htext, hpart, hmodifiers, by simp [Mods.add], hbase, hsome⟩
  · rintro ⟨parts', part', htext', hpart', hmodifiers, hmods, hbase, -⟩
    obtain ⟨rfl, rfl⟩ := spelling_inj hparts hpart (fun p hp => (hmodifiers p hp).plain.1) hpart'
      (htext.symm.trans htext')
    rw [(readParts_iff _).mpr ⟨hmodifiers, rfl, rfl⟩]
    have hheld : Mods.add {} (held parts) = c.mods := by rw [hmods]; simp [Mods.add]
    dsimp only
    rw [htoken, hheld, hbase]

theorem names_plain {key : Named} (h : (squash text, key) ∈ names) : '+' ∉ text ∧ text ≠ [] := by
  have hall : ∀ e ∈ names, '+' ∉ e.1 ∧ e.1 ≠ [] := by decide
  obtain ⟨hplus, hne⟩ := hall _ h
  refine ⟨fun hmem => hplus (List.mem_filter.mpr ⟨hmem, by decide⟩), ?_⟩
  rintro rfl
  exact hne rfl

theorem function_plain {z n : Nat} (h : squash text = 'f' :: (List.replicate z '0' ++ showNat n)) :
    '+' ∉ text ∧ text ≠ [] := by
  refine ⟨fun hmem => ?_, fun hnil => by rw [hnil] at h; cases h⟩
  have hsquash : '+' ∈ squash text := List.mem_filter.mpr ⟨hmem, by decide⟩
  rw [h, List.mem_cons, List.mem_append, List.mem_replicate] at hsquash
  rcases hsquash with h | ⟨-, h⟩ | h
  · cases h
  · cases h
  · exact absurd (isDigit_showNat h) (by decide)

theorem isWhitespace_toLower (h : isWhitespace c = false) : isWhitespace c.toLower = false := by
  by_cases hupper : 65 ≤ c.toNat ∧ c.toNat ≤ 90
  · have hall : ∀ n < 26, isWhitespace (Char.ofNat (65 + n)).toLower = false := by decide
    have hc := hall (c.toNat - 65) (by omega)
    rwa [Nat.add_sub_cancel' hupper.1, Char.ofNat_toNat] at hc
  · have hsame : c.toLower = c := dif_neg fun hrange => hupper ⟨hrange.1, hrange.2⟩
    rwa [hsame]

/-- The last character of a trimmed text is no blank, in either case. -/
theorem solid_last {s before : Str} (h : toAsciiLowercase (trim s) = before ++ [c]) :
    isWhitespace c = false := by
  obtain ⟨front, last, htrim, -, hlast⟩ := List.map_eq_append_iff.mp h
  obtain ⟨d, rfl, hd⟩ := List.map_eq_singleton_iff.mp hlast
  have hsolid : isWhitespace d = false := by
    have hne : trim s ≠ [] := by rw [htrim]; simp
    have hnot := List.rdropWhile_last_not isWhitespace (s.dropWhile isWhitespace) hne
    have hgot : (List.rdropWhile isWhitespace (s.dropWhile isWhitespace)).getLast hne = d := by
      have : (trim s).getLast hne = d := by simp only [htrim, List.getLast_append_singleton]
      exact this
    rw [hgot] at hnot
    simpa using hnot
  rw [← hd]
  exact isWhitespace_toLower hsolid

/-- What is spelled is what is read, but for a slip. -/
theorem fromStr_of_spells {s : Str} {c : Chord} (hslip : ¬ Slips s) (h : Spells s c) :
    fromStr s = .ok c := by
  obtain ⟨parts, base, htext, hparts, hmods, hbase⟩ := h
  obtain ⟨b, mods⟩ := c
  rw [fromStr_iff]
  have hplain : '+' ∉ base ∧ base ≠ [] := by
    cases hbase with
    | named h => exact names_plain h
    | function _ h => exact function_plain (z := 0) h
    | char h htakes =>
      subst h
      refine ⟨fun hplus => ?_, List.cons_ne_nil _ _⟩
      rw [List.mem_singleton] at hplus
      subst hplus
      exact hslip ⟨parts, ['+'], htext, hparts, .inl ⟨hmods ▸ htakes, .inr (.inl rfl)⟩⟩
  refine ⟨parts, base, htext, hplain.1, hparts, hmods, ?_, fun h => hplain.2 h.2⟩
  rw [if_neg hplain.2, parseBase_iff hplain.1]
  cases hbase with
  | named h => exact .inl ⟨_, h, rfl⟩
  | function hn h => exact .inr (.inl ⟨0, _, hn, h, rfl⟩)
  | char h htakes =>
    subst h
    have hsolid := solid_last htext
    exact .inr (.inr ⟨_, by simp [trim, trimEnd, List.rdropWhile, hsolid], htakes, rfl⟩)

/-- What is read is what is spelled, but for a slip. -/
theorem spells_of_fromStr {s : Str} {c : Chord} (hslip : ¬ Slips s) (h : fromStr s = .ok c) :
    Spells s c := by
  obtain ⟨parts, part, htext, hplus, hparts, hmods, hbase, -⟩ := (fromStr_iff s).mp h
  obtain ⟨b, mods⟩ := c
  dsimp only at hmods hbase
  by_cases hpart : part = []
  · rw [if_pos hpart, parseBase_plus] at hbase
    exact absurd ⟨parts, part, htext, hparts, .inl ⟨hmods ▸ hbase.1, .inl hpart⟩⟩ hslip
  rw [if_neg hpart, parseBase_iff hplus] at hbase
  refine ⟨parts, part, htext, hparts, hmods, ?_⟩
  rcases hbase with ⟨key, hkey, rfl⟩ | ⟨z, n, hn, heq, rfl⟩ | ⟨ch, htrim, htakes, rfl⟩
  · exact .named hkey
  · rcases Nat.eq_zero_or_pos z with rfl | hz
    · exact .function hn heq
    · exact absurd ⟨parts, part, htext, hparts, .inr ⟨z, n, hz, hn, heq⟩⟩ hslip
  · by_cases hsame : part = [ch]
    · exact .char hsame htakes
    · exact absurd ⟨parts, part, htext, hparts,
        .inl ⟨hmods ▸ htakes, .inr (.inr ⟨hplus, ch, htrim, hsame⟩)⟩⟩ hslip

/-- A key's name is read by its grammar, unless it slips. -/
theorem fromStr_iff_spells (s : Str) : (∀ c, fromStr s = .ok c ↔ Spells s c) ↔ ¬ Slips s := by
  constructor
  · rintro hread ⟨parts, base, htext, hparts, hslip⟩
    have hplain (p : Str) (hp : p ∈ parts) : '+' ∉ p := (hparts p hp).plain.1
    -- a spelling of the separator has an empty part, which is no modifier
    have hnoPlus {parts' : List Str} (hparts' : ∀ p ∈ parts', IsModifier p) {more : List Str}
        {part : Str} (hmore : ∀ p ∈ more, IsModifier p) (hpart : '+' ∉ part)
        (heq : spelling parts' ['+'] = spelling more part) : False := by
      rw [spelling_plus] at heq
      have hsplit := (spelling_inj
        (by
          intro p hp
          rcases List.mem_append.mp hp with hp | hp
          · exact (hparts' p hp).plain.1
          · rw [List.mem_singleton.mp hp]
            exact List.not_mem_nil)
        List.not_mem_nil (fun p hp => (hmore p hp).plain.1) hpart heq).1
      exact (hmore [] (hsplit ▸ by simp)).plain.2 rfl
    rcases hslip with ⟨htakes, hbare⟩ | ⟨z, n, hz, hn, heq⟩
    · have hsome : parts ≠ [] := by
        rintro rfl
        rcases htakes.1 with h | h <;> cases h
      rcases hbare with rfl | rfl | ⟨hplus, c, htrim, hne⟩
      · -- nothing is read as the separator
        have hok : fromStr s = .ok ⟨.char '+', held parts⟩ :=
          (fromStr_iff s).mpr ⟨parts, [], htext, List.not_mem_nil, hparts, rfl,
            (parseBase_plus _ _).mpr ⟨htakes, rfl⟩, fun h => hsome h.1⟩
        obtain ⟨parts', base', htext', hparts', -, hbase'⟩ := (hread _).mp hok
        cases hbase' with
        | char h _ =>
          subst h
          exact hnoPlus hparts' hparts List.not_mem_nil (htext'.symm.trans htext)
      · -- the separator is not read
        have hspells : Spells s ⟨.char '+', held parts⟩ :=
          ⟨parts, ['+'], htext, hparts, rfl, .char rfl htakes⟩
        obtain ⟨more, part, htext', hpart, hmore, -⟩ := (fromStr_iff s).mp ((hread _).mpr hspells)
        exact hnoPlus hparts hmore hpart (htext.symm.trans htext')
      · -- a character with blanks beside it is read
        have hbase : base ≠ [] := by
          rintro rfl
          cases htrim
        have hok : fromStr s = .ok ⟨.char c, held parts⟩ :=
          (fromStr_iff s).mpr ⟨parts, base, htext, hplus, hparts, rfl, by
            rw [if_neg hbase]
            exact (parseBase_iff hplus _ _).mpr (.inr (.inr ⟨c, htrim, htakes, rfl⟩)),
            fun h => hsome h.1⟩
        obtain ⟨parts', base', htext', hparts', -, hbase'⟩ := (hread _).mp hok
        cases hbase' with
        | char h _ =>
          subst h
          by_cases hc : c = '+'
          · subst hc
            exact hnoPlus hparts' hparts hplus (htext'.symm.trans htext)
          · refine hne (spelling_inj hplain hplus (fun p hp => (hparts' p hp).plain.1) ?_
              (htext.symm.trans htext')).2
            rw [List.mem_singleton]
            exact fun h => hc h.symm
    · -- zeros are read over
      obtain ⟨hplus, hbase⟩ := function_plain heq
      have hok : fromStr s = .ok ⟨.named (.f n), held parts⟩ :=
        (fromStr_iff s).mpr ⟨parts, base, htext, hplus, hparts, rfl, by
          rw [if_neg hbase]
          exact (parseBase_iff hplus _ _).mpr (.inr (.inl ⟨z, n, hn, heq, rfl⟩)),
          fun h => hbase h.2⟩
      obtain ⟨parts', base', htext', hparts', -, hbase'⟩ := (hread _).mp hok
      have hsame (h : '+' ∉ base') : base = base' :=
        (spelling_inj hplain hplus (fun p hp => (hparts' p hp).plain.1) h (htext.symm.trans htext')).2
      cases hbase' with
      | named h =>
        have htable : ∀ e ∈ names, ∀ k < 13, e.2 ≠ .f k := by decide
        exact htable _ h n (by omega) rfl
      | function _ h =>
        obtain rfl := hsame (function_plain (z := 0) h).1
        rw [h] at heq
        have hlength := congrArg List.length heq
        simp only [List.length_cons, List.length_append, List.length_replicate] at hlength
        omega
  · exact fun hslip c => ⟨spells_of_fromStr hslip, fromStr_of_spells hslip⟩

/-- Control and the plus key, as the source says it is spelled. -/
def ctrlPlus : Str := "ctrl++".toList

/-- It is spelled, and refused. -/
theorem plus_refused :
    fromStr ctrlPlus = .error (.unknown ctrlPlus) ∧ Spells ctrlPlus ⟨.char '+', { ctrl := true }⟩ ∧
      ¬ ∀ s c, fromStr s = .ok c ↔ Spells s c := by
  have hrefused : fromStr ctrlPlus = .error (.unknown ctrlPlus) := by decide
  have hspells : Spells ctrlPlus ⟨.char '+', { ctrl := true }⟩ :=
    ⟨["ctrl".toList], ['+'], by decide, fun p hp => .inl (by rw [List.mem_singleton.mp hp]; decide),
      by decide, .char rfl ⟨.inl rfl, rfl⟩⟩
  refine ⟨hrefused, hspells, fun h => ?_⟩
  have hok := (h _ _).mpr hspells
  rw [hrefused] at hok
  cases hok

end Zesterm.Mcp.Keys
