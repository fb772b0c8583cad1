/-
Zesterm.Lib.Http — the HTTP/1.1 grammar of a request, over bytes.

`Reads bytes r` says that `bytes` are one request and nothing more: a request
line with a target in origin form, field lines, an empty line, and a body of
the length the fields give. Blanks around a field's value are not part of
it. A text reads as one request at most (`Reads.unique`), since no part holds
the byte that ends it. `Plain` is a request all of whose parts may be
written; written with one blank before each value it reads as itself.

Nothing here is about terminals.
-/
import Mathlib.Data.List.DropRight
import Zesterm.Lib.Delimited

namespace Http

/-! ## Bytes -/

/-- The bytes of an ASCII text. -/
def ascii (text : String) : List UInt8 := text.toList.map fun c => UInt8.ofNat c.toNat

def IsAlphanumeric (b : UInt8) : Bool :=
  (48 ≤ b.toNat && b.toNat ≤ 57) || (65 ≤ b.toNat && b.toNat ≤ 90) ||
    (97 ≤ b.toNat && b.toNat ≤ 122)

/-- What a name is made of. -/
def IsTokenByte (b : UInt8) : Bool :=
  IsAlphanumeric b || [33, 35, 36, 37, 38, 39, 42, 43, 45, 46, 94, 95, 96, 124, 126].contains b

def IsBlank (b : UInt8) : Bool := b == 32 || b == 9

/-- What a value is made of: visible characters, bytes past ASCII, blanks. -/
def IsValueByte (b : UInt8) : Bool :=
  (33 ≤ b.toNat && b.toNat ≤ 126) || 128 ≤ b.toNat || IsBlank b

def IsHexDigit (b : UInt8) : Bool :=
  (48 ≤ b.toNat && b.toNat ≤ 57) || (65 ≤ b.toNat && b.toNat ≤ 70) ||
    (97 ≤ b.toNat && b.toNat ≤ 102)

/-- What a target is made of besides percent escapes: the characters of a
path segment, `/` and `?`. -/
def IsTargetByte (b : UInt8) : Bool :=
  IsAlphanumeric b ||
    [45, 46, 95, 126, 33, 36, 38, 39, 40, 41, 42, 43, 44, 59, 61, 58, 64, 47, 63].contains b

/-! ## The parts of a request -/

def Token (name : List UInt8) : Prop := name ≠ [] ∧ ∀ b ∈ name, IsTokenByte b = true

/-- A field's value: no blank begins or ends it. -/
def Value (value : List UInt8) : Prop :=
  (∀ b ∈ value, IsValueByte b = true) ∧ (∀ b ∈ value.head?, IsBlank b = false) ∧
    ∀ b ∈ value.getLast?, IsBlank b = false

theorem token_of_all {name : List UInt8} (hne : name ≠ []) (h : name.all IsTokenByte = true) :
    Token name := ⟨hne, List.all_eq_true.mp h⟩

theorem value_of_all {value : List UInt8} (h : value.all IsValueByte = true)
    (hhead : (value.head?.map IsBlank).getD false = false)
    (hlast : (value.getLast?.map IsBlank).getD false = false) : Value value := by
  refine ⟨List.all_eq_true.mp h, fun b hb => ?_, fun b hb => ?_⟩
  · rwa [Option.mem_def.mp hb] at hhead
  · rwa [Option.mem_def.mp hb] at hlast

/-- Characters of a target and percent escapes. -/
inductive TargetText : List UInt8 → Prop
  | nil : TargetText []
  | byte {b : UInt8} {text : List UInt8} :
    IsTargetByte b = true → TargetText text → TargetText (b :: text)
  | escape {hi lo : UInt8} {text : List UInt8} :
    IsHexDigit hi = true → IsHexDigit lo = true → TargetText text → TargetText (37 :: hi :: lo :: text)

/-- A target in origin form: a path and perhaps a query. -/
def Target (target : List UInt8) : Prop := target.head? = some 47 ∧ TargetText target

structure Field where
  name : List UInt8
  value : List UInt8
  deriving DecidableEq

def Field.Valid (f : Field) : Prop := Token f.name ∧ Value f.value

structure Request where
  method : List UInt8
  target : List UInt8
  fields : List Field
  body : List UInt8
  deriving DecidableEq

/-- A name, whatever its case. -/
def lower (name : List UInt8) : List UInt8 :=
  name.map fun b => if 65 ≤ b.toNat ∧ b.toNat ≤ 90 then b + 32 else b

/-- A decimal number. -/
def Decimal (text : List UInt8) (n : ℕ) : Prop :=
  text ≠ [] ∧ (∀ b ∈ text, 48 ≤ b.toNat ∧ b.toNat ≤ 57) ∧
    text.foldl (fun acc b => 10 * acc + (b.toNat - 48)) 0 = n

/-- The body is as long as the fields say, and no other framing is asked
for. -/
def Framed (fields : List Field) (body : List UInt8) : Prop :=
  (∀ f ∈ fields, lower f.name ≠ ascii "transfer-encoding") ∧
    (∀ f ∈ fields, lower f.name = ascii "content-length" → Decimal f.value body.length) ∧
      ((∀ f ∈ fields, lower f.name ≠ ascii "content-length") → body = [])

/-! ## The grammar -/

/-- Field lines and the empty line behind them. -/
inductive FieldLines : (bytes : List UInt8) → (fields : List Field) → (rest : List UInt8) → Prop
  | done {rest : List UInt8} : FieldLines (13 :: 10 :: rest) [] rest
  | field {f : Field} {before after bytes rest : List UInt8} {fields : List Field} :
    f.Valid → (∀ b ∈ before, IsBlank b = true) → (∀ b ∈ after, IsBlank b = true) →
    FieldLines bytes fields rest →
    FieldLines (f.name ++ 58 :: (before ++ (f.value ++ after)) ++ 13 :: 10 :: bytes) (f :: fields) rest

/-- `bytes` are the request `r` and nothing else. -/
def Reads (bytes : List UInt8) (r : Request) : Prop :=
  ∃ lines, bytes = r.method ++ 32 :: (r.target ++ 32 :: (ascii "HTTP/1.1" ++ 13 :: 10 :: lines)) ∧
    Token r.method ∧ Target r.target ∧ FieldLines lines r.fields r.body ∧ Framed r.fields r.body

/-- Every part of a request may be written. -/
structure Plain (r : Request) : Prop where
  method : Token r.method
  target : Target r.target
  fields : ∀ f ∈ r.fields, f.Valid
  framed : Framed r.fields r.body

theorem FieldLines.valid {bytes rest : List UInt8} {fields : List Field}
    (h : FieldLines bytes fields rest) : ∀ f ∈ fields, f.Valid := by
  induction h with
  | done => nofun
  | field hf _ _ _ ih => exact List.forall_mem_cons.mpr ⟨hf, ih⟩

/-- What is read is plain. -/
theorem Reads.plain {bytes : List UInt8} {r : Request} (h : Reads bytes r) : Plain r := by
  obtain ⟨lines, -, hmethod, htarget, hfields, hframed⟩ := h
  exact ⟨hmethod, htarget, hfields.valid, hframed⟩

/-! ## One reading -/

/-- Two texts cut at the same byte, which the first parts do not hold. -/
theorem cut_unique {sep : UInt8} {xs ys s t : List UInt8} (hx : sep ∉ xs) (hy : sep ∉ ys)
    (h : xs ++ sep :: s = ys ++ sep :: t) : xs = ys ∧ s = t := by
  have hcut : Coding.Delimited (fun text : List UInt8 => sep ∉ text) fun text => id text ++ [sep] :=
    .terminated sep (fun _ h => h) fun _ _ _ _ h => h
  exact hcut xs ys hx hy s t (by simpa using h)

theorem notMem_token {name : List UInt8} (h : Token name) {b : UInt8} (hb : IsTokenByte b = false) :
    b ∉ name := by
  intro hmem
  rw [h.2 b hmem] at hb
  cases hb

theorem TargetText.space_notMem {text : List UInt8} (h : TargetText text) : 32 ∉ text := by
  induction h with
  | nil => nofun
  | @byte b text hb _ ih =>
    rw [List.mem_cons]
    rintro (rfl | hmem)
    · exact absurd hb (by decide)
    · exact ih hmem
  | @escape hi lo text hhi hlo _ ih =>
    rw [List.mem_cons, List.mem_cons, List.mem_cons]
    rintro (heq | rfl | rfl | hmem)
    · exact absurd heq (by decide)
    · exact absurd hhi (by decide)
    · exact absurd hlo (by decide)
    · exact ih hmem

/-- A line without the blanks around it. -/
def trim (text : List UInt8) : List UInt8 := (text.dropWhile IsBlank).rdropWhile IsBlank

theorem trim_value {before value after : List UInt8} (hbefore : ∀ b ∈ before, IsBlank b = true)
    (hvalue : Value value) (hafter : ∀ b ∈ after, IsBlank b = true) :
    trim (before ++ (value ++ after)) = value := by
  obtain ⟨-, hhead, hlast⟩ := hvalue
  have hrdrop : ∀ text : List UInt8, (text ++ after).rdropWhile IsBlank = text.rdropWhile IsBlank := by
    intro text
    rw [List.rdropWhile, List.reverse_append, List.dropWhile_append_of_pos (by simpa using hafter)]
    rfl
  unfold trim
  rw [List.dropWhile_append_of_pos hbefore]
  cases value with
  | nil =>
    have hnil : after.dropWhile IsBlank = [] := List.dropWhile_eq_nil_iff.mpr hafter
    rw [List.nil_append, hnil]
    rfl
  | cons b value =>
    have hb : IsBlank b = false := hhead b rfl
    rw [List.cons_append, List.dropWhile_cons_of_neg (by simp [hb]), ← List.cons_append, hrdrop,
      List.rdropWhile_eq_self_iff]
    intro hne
    rw [hlast _ (List.getLast?_eq_some_getLast hne)]
    exact Bool.false_ne_true

/-- The end of a line is not in a field line. -/
theorem return_notMem_line {f : Field} {before after : List UInt8} (hf : f.Valid)
    (hbefore : ∀ b ∈ before, IsBlank b = true) (hafter : ∀ b ∈ after, IsBlank b = true) :
    13 ∉ f.name ++ 58 :: (before ++ (f.value ++ after)) := by
  have hblank : IsBlank 13 = false := by decide
  simp only [List.mem_append, List.mem_cons]
  rintro (hmem | heq | hmem | hmem | hmem)
  · exact notMem_token hf.1 (by decide) hmem
  · exact absurd heq (by decide)
  · exact absurd (hbefore _ hmem) (by decide)
  · exact absurd (hf.2.1 _ hmem) (by decide)
  · exact absurd (hafter _ hmem) (by decide)

/-- Field lines name their fields and where they end. -/
theorem FieldLines.unique {bytes rest rest' : List UInt8} {fields fields' : List Field}
    (h : FieldLines bytes fields rest) (h' : FieldLines bytes fields' rest') :
    fields = fields' ∧ rest = rest' := by
  have hnotdone : ∀ {f : Field} {before after bytes rest : List UInt8}, f.Valid →
      (∀ b ∈ before, IsBlank b = true) → (∀ b ∈ after, IsBlank b = true) →
        13 :: 10 :: rest ≠ f.name ++ 58 :: (before ++ (f.value ++ after)) ++ 13 :: 10 :: bytes := by
    intro f before after bytes rest hf hbefore hafter heq
    obtain ⟨hline, -⟩ := cut_unique List.not_mem_nil (return_notMem_line hf hbefore hafter)
      (show [] ++ 13 :: (10 :: rest) = _ from heq)
    simp at hline
  induction h generalizing fields' rest' with
  | @done rest =>
    generalize hbytes : 13 :: 10 :: rest = bytes at h'
    cases h' with
    | done => exact ⟨rfl, (List.cons.inj (List.cons.inj hbytes).2).2⟩
    | field hf hbefore hafter _ => exact absurd hbytes (hnotdone hf hbefore hafter)
  | @field f before after bytes rest fields hf hbefore hafter _ ih =>
    generalize hbytes : f.name ++ 58 :: (before ++ (f.value ++ after)) ++ 13 :: 10 :: bytes = all at h'
    cases h' with
    | done => exact absurd hbytes.symm (hnotdone hf hbefore hafter)
    | @field f' before' after' bytes' _ fields' hf' hbefore' hafter' hlines' =>
      obtain ⟨hline, hrest⟩ := cut_unique (return_notMem_line hf hbefore hafter)
        (return_notMem_line hf' hbefore' hafter') hbytes
      obtain ⟨hname, hvalue⟩ := cut_unique (notMem_token hf.1 (by decide))
        (notMem_token hf'.1 (by decide)) hline
      have hvalue := congrArg trim hvalue
      rw [trim_value hbefore hf.2 hafter, trim_value hbefore' hf'.2 hafter'] at hvalue
      obtain rfl := (List.cons.inj hrest).2
      obtain ⟨rfl, rfl⟩ := ih hlines'
      cases f
      cases f'
      cases hname
      cases hvalue
      exact ⟨rfl, rfl⟩

/-- A text is one request at most. -/
theorem Reads.unique {bytes : List UInt8} {r r' : Request} (h : Reads bytes r) (h' : Reads bytes r') :
    r = r' := by
  obtain ⟨lines, rfl, hmethod, htarget, hfields, -⟩ := h
  obtain ⟨lines', heq, hmethod', htarget', hfields', -⟩ := h'
  obtain ⟨hmethods, hrest⟩ := cut_unique (notMem_token hmethod (by decide))
    (notMem_token hmethod' (by decide)) heq
  obtain ⟨htargets, hrest⟩ := cut_unique htarget.2.space_notMem htarget'.2.space_notMem hrest
  obtain rfl := (List.cons.inj (List.cons.inj (List.append_cancel_left hrest)).2).2
  obtain ⟨hfieldss, hbody⟩ := hfields.unique hfields'
  cases r
  cases r'
  simp_all

/-! ## Writing -/

/-- A field line, with one blank before the value. -/
def Field.line (f : Field) : List UInt8 := f.name ++ ascii ": " ++ f.value ++ [13, 10]

/-- A request line, the field lines, an empty line and the body. -/
def Request.write (r : Request) : List UInt8 :=
  r.method ++ ([32] ++ (r.target ++ ([32] ++ (ascii "HTTP/1.1" ++ ([13, 10] ++
    (r.fields.flatMap Field.line ++ ([13, 10] ++ r.body)))))))

theorem fieldLines_write {fields : List Field} (h : ∀ f ∈ fields, f.Valid) (body : List UInt8) :
    FieldLines (fields.flatMap Field.line ++ 13 :: 10 :: body) fields body := by
  induction fields with
  | nil => exact .done
  | cons f fields ih =>
    rw [List.forall_mem_cons] at h
    have hblank : ∀ b ∈ [32], IsBlank b = true := fun b hb => by
      rw [List.mem_singleton.mp hb]
      rfl
    have hline := @FieldLines.field f [32] [] _ _ fields h.1 hblank nofun (ih h.2)
    have heq : (f :: fields).flatMap Field.line ++ 13 :: 10 :: body = f.name ++ 58 ::
        ([32] ++ (f.value ++ [])) ++ 13 :: 10 :: (fields.flatMap Field.line ++ 13 :: 10 :: body) := by
      simp [Field.line, ascii]
    rw [heq]
    exact hline

/-- A plain request reads as itself. -/
theorem reads_write {r : Request} (h : Plain r) : Reads r.write r := by
  refine ⟨r.fields.flatMap Field.line ++ 13 :: 10 :: r.body, ?_, h.method, h.target,
    fieldLines_write h.fields r.body, h.framed⟩
  simp [Request.write, ascii]

/-- What is written reads as the request and as no other exactly if the request
is plain. -/
theorem reads_write_iff {r : Request} : Reads r.write r ↔ Plain r :=
  ⟨Reads.plain, reads_write⟩

end Http
