/-
Zesterm.Lib.Interning — names handed out by a counter that wraps.

A sender keeps a ledger of the keys it has named, in the order it named
them: the `i`-th key is named `i % m`. A receiver keeps a table of what each
name means and learns one definition at a time, the last one standing. The
two agree (`Holds`) for as long as the ledger has not wrapped, whichever
definitions are sent again, and a definition from elsewhere does no harm as
long as it says what the ledger says.

Nothing here is about styles.
-/
import Mathlib.Data.List.Nodup
import Mathlib.Data.List.Range
import Mathlib.Data.List.Perm.Basic

namespace Interning

variable {κ : Type*}
variable {ledger : List (κ × Nat)}

/-! ## The sender -/

/-- A ledger whose names were counted modulo `m`. -/
structure Counted (m : Nat) (ledger : List (κ × Nat)) : Prop where
  keys : (ledger.map Prod.fst).Nodup
  names : ledger.map Prod.snd = (List.range ledger.length).map (· % m)

theorem counted_nil (m : Nat) : Counted m ([] : List (κ × Nat)) := ⟨List.nodup_nil, rfl⟩

/-- The next new key takes the next name. -/
theorem Counted.snoc {m : Nat} (h : Counted m ledger) {key : κ} (hnew : key ∉ ledger.map Prod.fst) :
    Counted m (ledger ++ [(key, ledger.length % m)]) := by
  refine ⟨?_, ?_⟩
  · rw [List.map_append, List.nodup_append]
    refine ⟨h.keys, List.nodup_singleton _, fun a ha b hb hab => ?_⟩
    obtain rfl := List.mem_singleton.mp hb
    exact hnew (hab ▸ ha)
  · rw [List.map_append, h.names, List.length_append, List.length_singleton, List.range_succ,
      List.map_append]
    rfl

/-- Until the counter wraps, no name is given twice. -/
theorem Counted.nodup {m : Nat} (h : Counted m ledger) (hroom : ledger.length ≤ m) :
    (ledger.map Prod.snd).Nodup := by
  rw [h.names]
  refine List.Nodup.map_on (fun a ha b hb hab => ?_) List.nodup_range
  have ha := List.mem_range.mp ha
  have hb := List.mem_range.mp hb
  rwa [Nat.mod_eq_of_lt (by omega), Nat.mod_eq_of_lt (by omega)] at hab

/-- A ledger is no longer than any list that has all its keys. -/
theorem Counted.length_le {m : Nat} (h : Counted m ledger) {keys : List κ}
    (hsub : ledger.map Prod.fst ⊆ keys) : ledger.length ≤ keys.length := by
  have := (List.subperm_of_subset h.keys hsub).length_le
  simpa using this

/-! ## The receiver -/

/-- One definition, which replaces what the name meant. -/
def learn (table : Nat → Option κ) (p : κ × Nat) : Nat → Option κ :=
  fun name => if name = p.2 then some p.1 else table name

/-- Definitions, in order. -/
def learnAll (table : Nat → Option κ) (defs : List (κ × Nat)) : Nat → Option κ :=
  defs.foldl learn table

/-- The receiver's table says of every name in the ledger what it was given
for. -/
def Holds (table : Nat → Option κ) (ledger : List (κ × Nat)) : Prop :=
  ∀ p ∈ ledger, table p.2 = some p.1

/-- Two ledgers give no name to different keys. -/
def Compatible (ledger defs : List (κ × Nat)) : Prop :=
  ∀ p ∈ ledger, ∀ q ∈ defs, p.2 = q.2 → p.1 = q.1

theorem learnAll_of_notMem {name : Nat} (defs : List (κ × Nat)) (table : Nat → Option κ)
    (h : name ∉ defs.map Prod.snd) : learnAll table defs name = table name := by
  induction defs generalizing table with
  | nil => rfl
  | cons p defs ih =>
    simp only [List.map_cons, List.mem_cons, not_or] at h
    have hstep : learnAll table (p :: defs) name = learnAll (learn table p) defs name := rfl
    rw [hstep, ih _ h.2, learn, if_neg h.1]

/-- A name that every definition of it gives to one key means that key. -/
theorem learnAll_of_mem {name : Nat} {key : κ} (defs : List (κ × Nat)) (table : Nat → Option κ)
    (hmem : name ∈ defs.map Prod.snd) (hkey : ∀ q ∈ defs, q.2 = name → q.1 = key) :
    learnAll table defs name = some key := by
  induction defs generalizing table with
  | nil => simp at hmem
  | cons p defs ih =>
    have hstep : learnAll table (p :: defs) name = learnAll (learn table p) defs name := rfl
    rw [hstep]
    by_cases hlater : name ∈ defs.map Prod.snd
    · exact ih _ hlater fun q hq => hkey q (List.mem_cons_of_mem _ hq)
    · have hname : name = p.2 := by
        rcases List.mem_cons.mp hmem with h | h
        · exact h
        · exact absurd h hlater
      rw [learnAll_of_notMem defs _ hlater, learn, if_pos hname,
        hkey p (List.mem_cons_self ..) hname.symm]

theorem eq_of_nodup_names (h : (ledger.map Prod.snd).Nodup) {p q : κ × Nat} (hp : p ∈ ledger)
    (hq : q ∈ ledger) (hname : p.2 = q.2) : p = q :=
  List.inj_on_of_nodup_map h hp hq hname

/-- The new end of a ledger is learned and the rest stays. -/
theorem Holds.append {table : Nat → Option κ} {more : List (κ × Nat)} (h : Holds table ledger)
    (hnames : ((ledger ++ more).map Prod.snd).Nodup) :
    Holds (Interning.learnAll table more) (ledger ++ more) := by
  intro p hp
  rcases List.mem_append.mp hp with hold | hnew
  · have hnot : p.2 ∉ more.map Prod.snd := by
      rw [List.map_append, List.nodup_append] at hnames
      exact fun hmem => hnames.2.2 p.2 (List.mem_map_of_mem hold) p.2 hmem rfl
    rw [learnAll_of_notMem more table hnot]
    exact h p hold
  · refine learnAll_of_mem more table (List.mem_map_of_mem hnew) fun q hq hname => ?_
    rw [eq_of_nodup_names hnames hp (List.mem_append_right _ hq) hname.symm]

/-- A whole ledger, sent again in any order, is held. -/
theorem holds_restated {defs : List (κ × Nat)} (hnames : (ledger.map Prod.snd).Nodup)
    (hperm : defs.Perm ledger) (table : Nat → Option κ) :
    Holds (Interning.learnAll table defs) ledger := by
  intro p hp
  refine learnAll_of_mem defs table (List.mem_map_of_mem (hperm.mem_iff.mpr hp)) ?_
  intro q hq hname
  rw [eq_of_nodup_names hnames hp (hperm.mem_iff.mp hq) hname.symm]

/-! ## After the counter has wrapped -/

/-- Two keys `m` apart share a name, so no table can be right of both. -/
theorem Counted.not_holds {m : Nat} (h : Counted m ledger) (hpos : 0 < m)
    (hlong : m < ledger.length) (table : Nat → Option κ) : ¬ Holds table ledger := by
  intro hall
  have hname (i : Nat) (hi : i < ledger.length) : (ledger.get ⟨i, hi⟩).2 = i % m := by
    have := congrArg (·[i]?) h.names
    simpa [hi] using this
  have h0 := hall _ (List.get_mem ledger ⟨0, by omega⟩)
  have hm := hall _ (List.get_mem ledger ⟨m, hlong⟩)
  rw [hname 0 (by omega), Nat.zero_mod] at h0
  rw [hname m hlong, Nat.mod_self, h0] at hm
  have hkeys := List.nodup_iff_injective_get.mp h.keys
  have hsame : (⟨0, by simp; omega⟩ : Fin (ledger.map Prod.fst).length) =
      ⟨m, by simpa using hlong⟩ :=
    hkeys (by simpa using Option.some.inj hm)
  have hzero : (0 : Nat) = m := congrArg Fin.val hsame
  omega

end Interning
