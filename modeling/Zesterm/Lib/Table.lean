/-
Zesterm.Lib.Table — a value for each of finitely many keys.

A table is Mathlib's `AList` with values of one type. What is added to it
is an edit of the values in place: of all of them, or of the one under a
key; and the two conditional statements a store answers with the row they
leave: an update of the row under a key, and an insertion that updates the
row it collides with.

Nothing here is about terminals.
-/
import Mathlib.Data.List.AList
import Mathlib.Tactic

/-- A value for each of finitely many keys. -/
abbrev Table (K V : Type*) := AList fun _ : K => V

namespace Table

variable {K V : Type*}

/-- Edit every value. -/
def mapWithKey (f : K → V → V) (t : Table K V) : Table K V where
  entries := t.entries.map fun e => ⟨e.1, f e.1 e.2⟩
  nodupKeys := by
    have hkeys : (t.entries.map fun e => (⟨e.1, f e.1 e.2⟩ : Sigma fun _ : K => V)).keys =
        t.entries.keys := by
      simp [List.keys]
    unfold List.NodupKeys
    rw [hkeys]
    exact t.nodupKeys

/-- Leave out the entries that fail a test. -/
def keep (p : K → V → Bool) (t : Table K V) : Table K V where
  entries := t.entries.filter fun e => p e.1 e.2
  nodupKeys := t.nodupKeys.sublist List.filter_sublist

/-- The values, in some order. -/
def values (t : Table K V) : List V := t.entries.map Sigma.snd

variable [DecidableEq K]

/-- Edit the value under a key, if there is one. -/
def adjust (k : K) (f : V → V) (t : Table K V) : Table K V :=
  t.mapWithKey fun k' v => if k' = k then f v else v

theorem dlookup_map (f : K → V → V) (k : K) (l : List (Sigma fun _ : K => V)) :
    (l.map fun e => (⟨e.1, f e.1 e.2⟩ : Sigma fun _ : K => V)).dlookup k =
      (l.dlookup k).map (f k) := by
  induction l with
  | nil => rfl
  | cons e l ih =>
    obtain ⟨k', v⟩ := e
    rw [List.map_cons]
    by_cases hk : k' = k
    · subst hk
      rw [List.dlookup_cons_eq, List.dlookup_cons_eq, Option.map_some]
    · rw [List.dlookup_cons_ne _ _ (Ne.symm hk), List.dlookup_cons_ne _ _ (Ne.symm hk), ih]

@[simp] theorem lookup_mapWithKey (f : K → V → V) (t : Table K V) (k : K) :
    (t.mapWithKey f).lookup k = (t.lookup k).map (f k) :=
  dlookup_map f k t.entries

@[simp] theorem lookup_adjust_self (k : K) (f : V → V) (t : Table K V) :
    (t.adjust k f).lookup k = (t.lookup k).map f := by
  simp [adjust]

theorem lookup_adjust_ne {k k' : K} (h : k' ≠ k) (f : V → V) (t : Table K V) :
    (t.adjust k f).lookup k' = t.lookup k' := by
  simp [adjust, h]

theorem lookup_adjust (k k' : K) (f : V → V) (t : Table K V) :
    (t.adjust k f).lookup k' = (t.lookup k').map fun v => if k' = k then f v else v := by
  simp [adjust]

theorem dlookup_filter (p : K → V → Bool) (k : K) : ∀ {l : List (Sigma fun _ : K => V)},
    l.NodupKeys → (l.filter fun e => p e.1 e.2).dlookup k = (l.dlookup k).filter (p k)
  | [], _ => rfl
  | ⟨k', v⟩ :: l, hnodup => by
    obtain ⟨hnot, hrest⟩ := List.nodupKeys_cons.mp hnodup
    have ih := dlookup_filter p k hrest
    by_cases hk : k' = k
    · subst hk
      -- What is left of the list has no other entry under the key.
      rw [List.dlookup_eq_none.mpr hnot, Option.filter_none] at ih
      rw [List.dlookup_cons_eq, List.filter_cons]
      split
      · next hp => rw [List.dlookup_cons_eq, Option.filter_some, if_pos hp]
      · next hp => rw [ih, Option.filter_some, if_neg hp]
    · rw [List.dlookup_cons_ne _ _ (Ne.symm hk), List.filter_cons]
      split
      · rw [List.dlookup_cons_ne _ _ (Ne.symm hk), ih]
      · exact ih

@[simp] theorem lookup_keep (p : K → V → Bool) (t : Table K V) (k : K) :
    (t.keep p).lookup k = (t.lookup k).filter (p k) :=
  dlookup_filter p k t.nodupKeys

theorem lookup_insert_eq (k k' : K) (v : V) (t : Table K V) :
    (t.insert k v).lookup k' = if k' = k then some v else t.lookup k' := by
  split
  · next h => rw [h, AList.lookup_insert]
  · next h => rw [AList.lookup_insert_ne h]

theorem lookup_erase_eq (k k' : K) (t : Table K V) :
    (t.erase k).lookup k' = if k' = k then none else t.lookup k' := by
  split
  · next h => rw [h, AList.lookup_erase]
  · next h => rw [AList.lookup_erase_ne h]

/-! ## Conditional statements -/

/-- `UPDATE … SET f WHERE key = k AND p`. -/
def updateWhere (k : K) (p : V → Bool) (f : V → V) (t : Table K V) : Table K V :=
  t.adjust k fun v => if p v then f v else v

/-- Its `RETURNING`: the row it leaves, if it changed one. -/
def updated (k : K) (p : V → Bool) (f : V → V) (t : Table K V) : Option V :=
  ((t.lookup k).filter p).map f

/-- `INSERT … ON CONFLICT (key) DO UPDATE SET f WHERE p`. -/
def upsert (k : K) (new : V) (p : V → Bool) (f : V → V) (t : Table K V) : Table K V :=
  match t.lookup k with
  | none => t.insert k new
  | some v => if p v then t.insert k (f v) else t

/-- Its `RETURNING`. -/
def upserted (k : K) (new : V) (p : V → Bool) (f : V → V) (t : Table K V) : Option V :=
  match t.lookup k with
  | none => some new
  | some v => if p v then some (f v) else none

theorem lookup_updateWhere (k k' : K) (p : V → Bool) (f : V → V) (t : Table K V) :
    (t.updateWhere k p f).lookup k' =
      (t.lookup k').map fun v => if k' = k ∧ p v = true then f v else v := by
  rw [updateWhere, lookup_adjust]
  congr 1
  funext v
  by_cases hk : k' = k <;> by_cases hp : p v = true <;> simp [hk, hp]

theorem lookup_upsert_ne {k k' : K} (h : k' ≠ k) (new : V) (p : V → Bool) (f : V → V)
    (t : Table K V) : (t.upsert k new p f).lookup k' = t.lookup k' := by
  unfold upsert
  split
  · rw [AList.lookup_insert_ne h]
  · split
    · rw [AList.lookup_insert_ne h]
    · rfl

/-- The row under the key is what it answers with, or the one it left. -/
theorem lookup_upsert_self (k : K) (new : V) (p : V → Bool) (f : V → V) (t : Table K V) :
    (t.upsert k new p f).lookup k = (t.upserted k new p f).or (t.lookup k) := by
  unfold upsert upserted
  cases ht : t.lookup k with
  | none => simp
  | some v =>
    dsimp only
    split
    · simp
    · simp [ht]

/-- An update that answers found the row and changed it. -/
theorem updated_eq_some {k : K} {p : V → Bool} {f : V → V} {t : Table K V} {v : V} :
    t.updated k p f = some v ↔ ∃ u, t.lookup k = some u ∧ p u = true ∧ v = f u := by
  simp only [updated, Option.map_eq_some_iff, Option.filter_eq_some_iff, eq_comm (a := v)]
  constructor
  · rintro ⟨u, ⟨hu, hp⟩, hv⟩
    exact ⟨u, hu, hp, hv⟩
  · rintro ⟨u, hu, hp, hv⟩
    exact ⟨u, ⟨hu, hp⟩, hv⟩

theorem mem_values {v : V} {t : Table K V} : v ∈ t.values ↔ ∃ k, t.lookup k = some v := by
  unfold values
  constructor
  · intro h
    obtain ⟨e, he, rfl⟩ := List.mem_map.mp h
    exact ⟨e.1, AList.mem_lookup_iff.mpr he⟩
  · rintro ⟨k, hk⟩
    exact List.mem_map.mpr ⟨⟨k, v⟩, AList.mem_lookup_iff.mp hk, rfl⟩

end Table
