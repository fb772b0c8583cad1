/-
Zesterm.Lib.Delimited — byte codes a reader can tell the end of.

A code is `Delimited` when a value can be read off the front of any text
that begins with its code: `enc a ++ s = enc b ++ t` only if `a = b` and
`s = t`. Codes of one length are, and so are texts behind their length, and
names that end in a separator none of them holds. A message built from
delimited fields one after the other is then taken apart field by field,
and two equal messages have equal fields whatever stands in them.

Nothing here is about terminals.
-/
import Mathlib.Data.List.Basic
import Mathlib.Tactic

namespace Coding

variable {α β γ : Type*}

/-- On `P`, the code of a value ends where it says it does. -/
def Delimited (P : α → Prop) (enc : α → List β) : Prop :=
  ∀ a b, P a → P b → ∀ s t, enc a ++ s = enc b ++ t → a = b ∧ s = t

namespace Delimited

variable {P : α → Prop} {enc : α → List β}

theorem injective (h : Delimited P enc) {a b : α} (ha : P a) (hb : P b) (heq : enc a = enc b) :
    a = b := by
  refine (h a b ha hb [] [] ?_).1
  rw [heq]

/-- Codes of one length. -/
theorem of_length (n : Nat) (hlen : ∀ a, P a → (enc a).length = n)
    (hinj : ∀ a b, P a → P b → enc a = enc b → a = b) : Delimited P enc := by
  intro a b ha hb s t heq
  obtain ⟨henc, hrest⟩ := List.append_inj heq ((hlen a ha).trans (hlen b hb).symm)
  exact ⟨hinj a b ha hb henc, hrest⟩

/-- Codes that end in a separator they do not hold otherwise. -/
theorem terminated (sep : β) (hsep : ∀ a, P a → sep ∉ enc a)
    (hinj : ∀ a b, P a → P b → enc a = enc b → a = b) :
    Delimited P fun a => enc a ++ [sep] := by
  have hcut : ∀ {xs ys s t : List β}, sep ∉ xs → sep ∉ ys →
      xs ++ [sep] ++ s = ys ++ [sep] ++ t → xs = ys ∧ s = t := by
    intro xs
    induction xs with
    | nil =>
      intro ys s t _ hy heq
      cases ys with
      | nil => exact ⟨rfl, by simpa using heq⟩
      | cons y ys =>
        have hhead : sep = y := by simpa using congrArg List.head? heq
        exact absurd (hhead ▸ List.mem_cons_self ..) hy
    | cons x xs ih =>
      intro ys s t hx hy heq
      cases ys with
      | nil =>
        have hhead : x = sep := by simpa using congrArg List.head? heq
        exact absurd (hhead ▸ List.mem_cons_self ..) hx
      | cons y ys =>
        simp only [List.cons_append, List.cons.injEq] at heq
        obtain ⟨hxs, hst⟩ := ih (fun h => hx (List.mem_cons_of_mem x h))
          (fun h => hy (List.mem_cons_of_mem y h)) heq.2
        exact ⟨by rw [heq.1, hxs], hst⟩
  intro a b ha hb s t heq
  obtain ⟨henc, hrest⟩ := hcut (hsep a ha) (hsep b hb) heq
  exact ⟨hinj a b ha hb henc, hrest⟩

/-- A text behind the code of its length. -/
theorem lengthPrefixed {Q : Nat → Prop} {len : Nat → List β} (h : Delimited Q len)
    (hinj : ∀ a b, P a → P b → enc a = enc b → a = b) :
    Delimited (fun a => P a ∧ Q (enc a).length) fun a => len (enc a).length ++ enc a := by
  intro a b ha hb s t heq
  rw [List.append_assoc, List.append_assoc] at heq
  obtain ⟨hlen, hrest⟩ := h _ _ ha.2 hb.2 _ _ heq
  obtain ⟨henc, hst⟩ := List.append_inj hrest hlen
  exact ⟨hinj a b ha.1 hb.1 henc, hst⟩

end Delimited

/-! ## Numbers -/

/-- The `k` bytes of a number, the most significant first. -/
def bigEndian : Nat → Nat → List UInt8
  | 0, _ => []
  | k + 1, n => bigEndian k (n / 256) ++ [UInt8.ofNat n]

@[simp] theorem length_bigEndian : ∀ k n : Nat, (bigEndian k n).length = k
  | 0, _ => rfl
  | k + 1, n => by rw [bigEndian, List.length_append, length_bigEndian k]; rfl

theorem bigEndian_inj : ∀ {k a b : Nat}, a < 256 ^ k → b < 256 ^ k →
    bigEndian k a = bigEndian k b → a = b
  | 0, a, b, ha, hb, _ => by
    rw [pow_zero] at ha hb
    omega
  | k + 1, a, b, ha, hb, heq => by
    rw [bigEndian, bigEndian] at heq
    obtain ⟨hhigh, hlow⟩ := List.append_inj heq (by simp)
    have ih := bigEndian_inj (Nat.div_lt_of_lt_mul (by rw [pow_succ, Nat.mul_comm] at ha; exact ha))
      (Nat.div_lt_of_lt_mul (by rw [pow_succ, Nat.mul_comm] at hb; exact hb)) hhigh
    have hmod : a % 256 = b % 256 := by
      have := congrArg UInt8.toNat (List.cons.inj hlow).1
      simpa using this
    rw [← Nat.div_add_mod a 256, ← Nat.div_add_mod b 256, ih, hmod]

/-- Numbers of a fixed number of bytes. -/
theorem delimited_bigEndian (k : Nat) : Delimited (fun n => n < 256 ^ k) (bigEndian k) :=
  .of_length k (fun _ _ => length_bigEndian k _) fun _ _ => bigEndian_inj

/-- Byte strings of a fixed length. -/
theorem delimited_vector (n : Nat) :
    Delimited (fun _ => True) fun v : Vector β n => v.toList :=
  .of_length n (fun v _ => by simp) fun _ _ _ _ heq => Vector.toList_inj.mp heq

end Coding
