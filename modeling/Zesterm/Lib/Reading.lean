/-
Zesterm.Lib.Reading — readers, and the writers they undo.

A reader takes a value off the front of its input, or refuses. It `Reads`
a code when it accepts exactly the inputs that begin with the code of some
value and leaves what stands behind: a record read field by field is then
the record whose code its fields' codes make up (`Reads.bind_eq_some`).

Nothing here is about terminals.
-/
import Zesterm.Lib.Delimited

namespace Coding

variable {α β γ : Type*}

/-- A reader of values from a list. -/
abbrev Reader (β : Type) := StateT (List β) Option

section Readers

variable {α β γ : Type}

/-- The next `n`, if there are so many. -/
def take (n : Nat) : Reader β (List β) := fun input =>
  if n ≤ input.length then some (input.take n, input.drop n) else none

/-- Refuse, or go on with a value. -/
def ofOption (x : Option α) : Reader β α := StateT.lift x

/-- A value in the form `f` takes it in, if it takes it. -/
def narrow (r : Reader β α) (f : α → Option γ) : Reader β γ := r >>= fun x => ofOption (f x)

/-- These and no others. -/
def expect [DecidableEq β] (code : List β) : Reader β Unit :=
  narrow (take code.length) fun x => if x = code then some () else none

/-- `r` reads the codes of the values in `P` and nothing else. -/
def Reads (r : Reader β α) (P : α → Prop) (enc : α → List β) : Prop :=
  ∀ input x rest, r input = some (x, rest) ↔ P x ∧ input = enc x ++ rest

theorem ofOption_eq_some {x : Option α} {y : α} {input rest : List β} :
    ofOption x input = some (y, rest) ↔ x = some y ∧ rest = input := by
  cases x with
  | none => simp [ofOption, StateT.lift]
  | some x =>
    simp only [ofOption, StateT.lift, Option.bind_eq_bind, Option.bind_some, Option.pure_def,
      Option.some.injEq, Prod.mk.injEq]
    exact and_congr Iff.rfl eq_comm

theorem pure_eq_some {x y : α} {input rest : List β} :
    (pure x : Reader β α) input = some (y, rest) ↔ y = x ∧ rest = input := by
  change some (x, input) = some (y, rest) ↔ _
  simp only [Option.some.injEq, Prod.mk.injEq]
  exact and_congr eq_comm eq_comm

/-- The next `n` are any `n`. -/
theorem reads_take (n : Nat) : Reads (take n : Reader β (List β)) (fun x => x.length = n) id := by
  intro input x rest
  unfold take
  split
  · next h =>
    rw [Option.some.injEq, Prod.mk.injEq]
    constructor
    · rintro ⟨rfl, rfl⟩
      exact ⟨List.length_take_of_le h, (List.take_append_drop n input).symm⟩
    · rintro ⟨rfl, rfl⟩
      exact ⟨List.take_left, List.drop_left⟩
  · next h =>
    refine iff_of_false (by simp) ?_
    rintro ⟨rfl, rfl⟩
    exact h (by simp)

namespace Reads

variable {r : Reader β α} {P : α → Prop} {enc : α → List β}

/-- What follows a value is read from behind it. -/
theorem bind_eq_some (h : Reads r P enc) {k : α → Reader β γ} {input rest : List β} {y : γ} :
    (r >>= k) input = some (y, rest) ↔
      ∃ x mid, P x ∧ input = enc x ++ mid ∧ k x mid = some (y, rest) := by
  change (r input).bind (fun p => k p.1 p.2) = some (y, rest) ↔ _
  rw [Option.bind_eq_some_iff]
  constructor
  · rintro ⟨p, hp, hk⟩
    obtain ⟨hP, rfl⟩ := (h input p.1 p.2).mp hp
    exact ⟨p.1, p.2, hP, rfl, hk⟩
  · rintro ⟨x, mid, hP, rfl, hk⟩
    exact ⟨(x, mid), (h _ x mid).mpr ⟨hP, rfl⟩, hk⟩

/-- A value kept in another form: `f` takes it in and `g` gives it back. -/
theorem narrow {Q : γ → Prop} {f : α → Option γ} {g : γ → α} (h : Reads r P enc)
    (hf : ∀ x, P x → ∀ y, f x = some y ↔ Q y ∧ x = g y) (hg : ∀ y, Q y → P (g y)) :
    Reads (narrow r f) Q fun y => enc (g y) := by
  intro input y rest
  rw [Coding.narrow, h.bind_eq_some]
  constructor
  · rintro ⟨x, mid, hP, rfl, hk⟩
    obtain ⟨hx, rfl⟩ := ofOption_eq_some.mp hk
    obtain ⟨hQ, rfl⟩ := (hf x hP y).mp hx
    exact ⟨hQ, rfl⟩
  · rintro ⟨hQ, rfl⟩
    have hx : f (g y) = some y := (hf _ (hg y hQ) y).mpr ⟨hQ, rfl⟩
    exact ⟨g y, rest, hg y hQ, rfl, ofOption_eq_some.mpr ⟨hx, rfl⟩⟩

/-- One value and no other. -/
theorem only [DecidableEq α] (h : Reads r P enc) (k : α) (hk : P k) :
    Reads (Coding.narrow r fun v => if v ≠ k then none else some v) (fun v => v = k) enc := by
  refine h.narrow (fun v _ w => ?_) fun v hv => hv ▸ hk
  by_cases hv : v = k
  · rw [if_neg (not_not.mpr hv), Option.some.injEq]
    exact ⟨fun hw => ⟨hw ▸ hv, hw⟩, And.right⟩
  · rw [if_pos hv]
    exact iff_of_false (by simp) fun hw => hv (hw.2.trans hw.1)

end Reads

theorem reads_expect [DecidableEq β] (code : List β) :
    Reads (expect code) (fun _ => True) fun _ => code := by
  refine (reads_take code.length).narrow (fun x _ y => ?_) fun _ _ => rfl
  rw [ite_eq_left_iff]
  constructor
  · intro h
    by_contra hne
    exact absurd (h fun heq => hne ⟨trivial, heq⟩) (by simp)
  · rintro ⟨-, rfl⟩ hne
    exact absurd rfl hne

/-! ## More input -/

/-- `r'` takes of a longer input what `r` takes of its beginning. -/
def Grows (r r' : Reader β α) : Prop :=
  ∀ input x rest later, r input = some (x, rest) → r' (input ++ later) = some (x, rest ++ later)

theorem bind_of_eq {r : Reader β α} {k : α → Reader β γ} {input mid : List β} {x : α}
    (h : r input = some (x, mid)) : (r >>= k) input = k x mid := by
  change (r input).bind (fun p => k p.1 p.2) = _
  rw [h]
  rfl

theorem bind_eq_some' {r : Reader β α} {k : α → Reader β γ} {input rest : List β} {y : γ} :
    (r >>= k) input = some (y, rest) ↔ ∃ x mid, r input = some (x, mid) ∧ k x mid = some (y, rest) := by
  change (r input).bind (fun p => k p.1 p.2) = _ ↔ _
  rw [Option.bind_eq_some_iff]
  exact Prod.exists

namespace Grows

theorem pure (x : α) : Grows (pure x : Reader β α) (Pure.pure x) := by
  intro input y rest later h
  obtain ⟨rfl, rfl⟩ := pure_eq_some.mp h
  rfl

theorem bind {r r' : Reader β α} {k k' : α → Reader β γ} (hr : Grows r r')
    (hk : ∀ x, Grows (k x) (k' x)) : Grows (r >>= k) (r' >>= k') := by
  intro input y rest later h
  obtain ⟨x, mid, hx, hy⟩ := bind_eq_some'.mp h
  rw [bind_of_eq (hr input x mid later hx)]
  exact hk x mid y rest later hy

theorem ofOption (x : Option α) : Grows (ofOption x : Reader β α) (Coding.ofOption x) := by
  intro input y rest later h
  obtain ⟨hx, rfl⟩ := ofOption_eq_some.mp h
  exact ofOption_eq_some.mpr ⟨hx, rfl⟩

theorem narrow {r r' : Reader β α} (hr : Grows r r') (f : α → Option γ) :
    Grows (narrow r f) (Coding.narrow r' f) := hr.bind fun x => ofOption (f x)

/-- A reader of codes does not look past its code. -/
theorem of_reads {r : Reader β α} {P : α → Prop} {enc : α → List β} (h : Reads r P enc) :
    Grows r r := by
  intro input x rest later hx
  obtain ⟨hP, rfl⟩ := (h input x rest).mp hx
  exact (h _ x _).mpr ⟨hP, List.append_assoc _ _ _⟩

end Grows

end Readers

/-! ## Numbers -/

/-- The number whose bytes these are, the most significant first. -/
def ofBigEndian (bytes : List UInt8) : Nat := bytes.foldl (fun n b => n * 256 + b.toNat) 0

theorem ofBigEndian_append (bytes : List UInt8) (b : UInt8) :
    ofBigEndian (bytes ++ [b]) = ofBigEndian bytes * 256 + b.toNat := by
  simp [ofBigEndian]

theorem ofBigEndian_bigEndian : ∀ {k n : Nat}, n < 256 ^ k → ofBigEndian (bigEndian k n) = n
  | 0, n, h => by
    rw [pow_zero] at h
    simp [bigEndian, ofBigEndian]
    omega
  | k + 1, n, h => by
    have hhigh : n / 256 < 256 ^ k := Nat.div_lt_of_lt_mul (by rwa [pow_succ, Nat.mul_comm] at h)
    rw [bigEndian, ofBigEndian_append, ofBigEndian_bigEndian hhigh, UInt8.toNat_ofNat']
    omega

theorem bigEndian_ofBigEndian : ∀ bytes : List UInt8,
    bigEndian bytes.length (ofBigEndian bytes) = bytes := by
  intro bytes
  induction bytes using List.reverseRecOn with
  | nil => rfl
  | append_singleton bytes b ih =>
    have hdiv : (ofBigEndian bytes * 256 + b.toNat) / 256 = ofBigEndian bytes := by
      have := b.toNat_lt
      omega
    have hlow : UInt8.ofNat (ofBigEndian bytes * 256 + b.toNat) = b := by
      rw [← UInt8.toNat_inj, UInt8.toNat_ofNat']
      have := b.toNat_lt
      omega
    rw [List.length_append, List.length_singleton, bigEndian, ofBigEndian_append, hdiv, hlow, ih]

theorem ofBigEndian_lt : ∀ bytes : List UInt8, ofBigEndian bytes < 256 ^ bytes.length := by
  intro bytes
  induction bytes using List.reverseRecOn with
  | nil => simp [ofBigEndian]
  | append_singleton bytes b ih =>
    have := b.toNat_lt
    rw [List.length_append, List.length_singleton, pow_succ, ofBigEndian_append]
    omega

/-- A number of `k` bytes. -/
def number (k : Nat) : Reader UInt8 Nat := narrow (take k) fun bytes => some (ofBigEndian bytes)

theorem reads_number (k : Nat) : Reads (number k) (fun n => n < 256 ^ k) (bigEndian k) := by
  refine (reads_take k).narrow (fun x hx n => ?_) fun n _ => length_bigEndian k n
  rw [Option.some.injEq]
  constructor
  · rintro rfl
    exact ⟨hx ▸ ofBigEndian_lt x, by rw [← hx, bigEndian_ofBigEndian]⟩
  · rintro ⟨hn, rfl⟩
    exact ofBigEndian_bigEndian hn

end Coding
