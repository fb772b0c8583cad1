/-
Zesterm.Lib.Sextets — bytes as sextets, the way base64 writes them.

Four sextets are three bytes, and a text may end in two sextets for one
byte or in three for two. The last sextet of such an end has bits that no
byte holds: `Spells sextets bytes spare` says what bytes a text is and what
those bits are. `join` reads a text and `split` writes one.

Nothing here is about terminals.
-/
import Mathlib.Tactic

namespace Sextets

variable {sextets : List Nat} {bytes : List UInt8} {spare : Nat}

/-- `sextets` are `bytes`, with `spare` in the bits left over. -/
inductive Spells : (sextets : List Nat) → (bytes : List UInt8) → (spare : Nat) → Prop
  | done : Spells [] [] 0
  | one {a b spare : Nat} {x : UInt8} :
    a * 64 + b = x.toNat * 16 + spare → spare < 16 → Spells [a, b] [x] spare
  | two {a b c spare : Nat} {x y : UInt8} :
    a * 4096 + b * 64 + c = (x.toNat * 256 + y.toNat) * 4 + spare → spare < 4 →
    Spells [a, b, c] [x, y] spare
  | three {a b c d spare : Nat} {x y z : UInt8} {sextets : List Nat} {bytes : List UInt8} :
    a * 262144 + b * 4096 + c * 64 + d = x.toNat * 65536 + y.toNat * 256 + z.toNat →
    Spells sextets bytes spare → Spells (a :: b :: c :: d :: sextets) (x :: y :: z :: bytes) spare

/-- The bytes of a text and its left over bits; one sextet alone is none. -/
def join : List Nat → Option (List UInt8 × Nat)
  | [] => some ([], 0)
  | [_] => none
  | [a, b] => some ([UInt8.ofNat (a * 4 + b / 16)], b % 16)
  | [a, b, c] =>
    some ([UInt8.ofNat (a * 4 + b / 16), UInt8.ofNat (b % 16 * 16 + c / 4)], c % 4)
  | a :: b :: c :: d :: sextets => do
    let (bytes, spare) ← join sextets
    return (UInt8.ofNat (a * 4 + b / 16) :: UInt8.ofNat (b % 16 * 16 + c / 4) ::
      UInt8.ofNat (c % 4 * 64 + d) :: bytes, spare)

/-- The sextets of a text, nothing left over. -/
def split : List UInt8 → List Nat
  | [] => []
  | [x] => [x.toNat / 4, x.toNat % 4 * 16]
  | [x, y] => [x.toNat / 4, x.toNat % 4 * 16 + y.toNat / 16, y.toNat % 16 * 4]
  | x :: y :: z :: bytes =>
    x.toNat / 4 :: (x.toNat % 4 * 16 + y.toNat / 16) :: (y.toNat % 16 * 4 + z.toNat / 64) ::
      z.toNat % 64 :: split bytes

theorem join_four (a b c d : Nat) (sextets : List Nat) :
    join (a :: b :: c :: d :: sextets) = (join sextets).bind fun p =>
      some (UInt8.ofNat (a * 4 + b / 16) :: UInt8.ofNat (b % 16 * 16 + c / 4) ::
        UInt8.ofNat (c % 4 * 64 + d) :: p.1, p.2) := rfl

theorem split_three (x y z : UInt8) (bytes : List UInt8) :
    split (x :: y :: z :: bytes) =
      x.toNat / 4 :: (x.toNat % 4 * 16 + y.toNat / 16) :: (y.toNat % 16 * 4 + z.toNat / 64) ::
        z.toNat % 64 :: split bytes := rfl

theorem toNat_ofNat {n : Nat} (h : n < 256) : (UInt8.ofNat n).toNat = n := by
  rw [UInt8.toNat_ofNat', Nat.mod_eq_of_lt h]

theorem ofNat_eq {x : UInt8} {n : Nat} (h : x.toNat = n) : UInt8.ofNat n = x := by
  rw [← h, UInt8.ofNat_toNat]

theorem spells_of_join : ∀ sextets : List Nat, (∀ a ∈ sextets, a < 64) → ∀ bytes spare,
    join sextets = some (bytes, spare) → Spells sextets bytes spare
  | [], _, bytes, spare, h => by
    obtain ⟨rfl, rfl⟩ := Prod.mk.inj (Option.some.inj h)
    exact .done
  | [_], _, _, _, h => nomatch h
  | [a, b], hlt, bytes, spare, h => by
    simp only [List.forall_mem_cons] at hlt
    obtain ⟨rfl, rfl⟩ := Prod.mk.inj (Option.some.inj h)
    refine .one ?_ (by omega)
    rw [toNat_ofNat (by omega)]
    omega
  | [a, b, c], hlt, bytes, spare, h => by
    simp only [List.forall_mem_cons] at hlt
    obtain ⟨rfl, rfl⟩ := Prod.mk.inj (Option.some.inj h)
    refine .two ?_ (by omega)
    rw [toNat_ofNat (by omega), toNat_ofNat (by omega)]
    omega
  | a :: b :: c :: d :: sextets, hlt, bytes, spare, h => by
    simp only [List.forall_mem_cons] at hlt
    rw [join_four, Option.bind_eq_some_iff] at h
    obtain ⟨p, hjoin, heq⟩ := h
    obtain ⟨rfl, rfl⟩ := Prod.mk.inj (Option.some.inj heq)
    refine .three ?_ (spells_of_join sextets hlt.2.2.2.2 _ _ hjoin)
    rw [toNat_ofNat (by omega), toNat_ofNat (by omega), toNat_ofNat (by omega)]
    omega

theorem Spells.join (h : Spells sextets bytes spare) (hlt : ∀ a ∈ sextets, a < 64) :
    join sextets = some (bytes, spare) := by
  induction h with
  | done => rfl
  | @one a b spare x heq hspare =>
    simp only [List.forall_mem_cons] at hlt
    have hx := x.toNat_lt
    show some ([UInt8.ofNat (a * 4 + b / 16)], b % 16) = some ([x], spare)
    rw [ofNat_eq (x := x) (by omega), show b % 16 = spare by omega]
  | @two a b c spare x y heq hspare =>
    simp only [List.forall_mem_cons] at hlt
    have hx := x.toNat_lt
    have hy := y.toNat_lt
    show some ([UInt8.ofNat (a * 4 + b / 16), UInt8.ofNat (b % 16 * 16 + c / 4)], c % 4) =
      some ([x, y], spare)
    rw [ofNat_eq (x := x) (by omega), ofNat_eq (x := y) (by omega), show c % 4 = spare by omega]
  | @three a b c d spare x y z sextets bytes heq _ ih =>
    simp only [List.forall_mem_cons] at hlt
    have hx := x.toNat_lt
    have hy := y.toNat_lt
    have hz := z.toNat_lt
    rw [join_four, ofNat_eq (x := x) (by omega), ofNat_eq (x := y) (by omega),
      ofNat_eq (x := z) (by omega), ih hlt.2.2.2.2]
    rfl

/-- `join` gives what a text spells. -/
theorem join_eq_some (hlt : ∀ a ∈ sextets, a < 64) :
    join sextets = some (bytes, spare) ↔ Spells sextets bytes spare :=
  ⟨spells_of_join sextets hlt bytes spare, fun h => h.join hlt⟩

/-- A text spells one thing. -/
theorem Spells.unique {bytes' : List UInt8} {spare' : Nat} (h : Spells sextets bytes spare)
    (h' : Spells sextets bytes' spare') (hlt : ∀ a ∈ sextets, a < 64) :
    bytes = bytes' ∧ spare = spare' := by
  have heq := (h.join hlt).symm.trans (h'.join hlt)
  simpa using heq

/-- Only a sextet with no other to make a byte with is no text. -/
theorem join_eq_none : ∀ sextets : List Nat, join sextets = none ↔ sextets.length % 4 = 1
  | [] => iff_of_false nofun nofun
  | [_] => iff_of_true rfl rfl
  | [_, _] => iff_of_false nofun nofun
  | [_, _, _] => iff_of_false nofun nofun
  | a :: b :: c :: d :: sextets => by
    rw [join_four, Option.bind_eq_none_iff]
    simp only [reduceCtorEq, imp_false]
    rw [← Option.eq_none_iff_forall_ne_some, join_eq_none sextets]
    simp only [List.length_cons]
    omega

theorem split_lt : ∀ bytes : List UInt8, ∀ a ∈ split bytes, a < 64
  | [] => nofun
  | [x] => by
    have hx := x.toNat_lt
    refine List.forall_mem_cons.mpr ⟨?_, List.forall_mem_singleton.mpr ?_⟩ <;> omega
  | [x, y] => by
    have hx := x.toNat_lt
    have hy := y.toNat_lt
    refine List.forall_mem_cons.mpr ⟨?_, List.forall_mem_cons.mpr ⟨?_,
      List.forall_mem_singleton.mpr ?_⟩⟩ <;> omega
  | x :: y :: z :: bytes => by
    have hx := x.toNat_lt
    have hy := y.toNat_lt
    have hz := z.toNat_lt
    simp only [split_three, List.forall_mem_cons]
    exact ⟨by omega, by omega, by omega, by omega, split_lt bytes⟩

theorem length_split : ∀ bytes : List UInt8, (split bytes).length = (bytes.length * 4 + 2) / 3
  | [] => rfl
  | [x] => by
    show 2 = (1 * 4 + 2) / 3
    rfl
  | [x, y] => by
    show 3 = (2 * 4 + 2) / 3
    rfl
  | x :: y :: z :: bytes => by
    simp only [split_three, List.length_cons, length_split bytes]
    omega

theorem spells_split : ∀ bytes : List UInt8, Spells (split bytes) bytes 0
  | [] => .done
  | [x] => .one (by omega) (by omega)
  | [x, y] => .two (by omega) (by omega)
  | x :: y :: z :: bytes => .three (by omega) (spells_split bytes)

/-- With nothing left over there is one text. -/
theorem Spells.eq_split (h : Spells sextets bytes spare) (hspare : spare = 0)
    (hlt : ∀ a ∈ sextets, a < 64) : sextets = split bytes := by
  induction h with
  | done => rfl
  | @one a b spare x heq _ =>
    simp only [List.forall_mem_cons] at hlt
    have ha : a = x.toNat / 4 := by omega
    have hb : b = x.toNat % 4 * 16 := by omega
    rw [ha, hb, split]
  | @two a b c spare x y heq _ =>
    simp only [List.forall_mem_cons] at hlt
    have hy := y.toNat_lt
    have ha : a = x.toNat / 4 := by omega
    have hb : b = x.toNat % 4 * 16 + y.toNat / 16 := by omega
    have hc : c = y.toNat % 16 * 4 := by omega
    rw [ha, hb, hc, split]
  | @three a b c d spare x y z sextets bytes heq _ ih =>
    simp only [List.forall_mem_cons] at hlt
    have hy := y.toNat_lt
    have hz := z.toNat_lt
    have ha : a = x.toNat / 4 := by omega
    have hb : b = x.toNat % 4 * 16 + y.toNat / 16 := by omega
    have hc : c = y.toNat % 16 * 4 + z.toNat / 64 := by omega
    have hd : d = z.toNat % 64 := by omega
    rw [split_three, ha, hb, hc, hd, ih hspare hlt.2.2.2.2]

end Sextets
