/-
Zesterm.Lib.KeyTree — nested tables, read by a path of keys.

An item is a value or a table of items by key, as in a configuration file.
A path of keys leads to an item (`get`), and what stands at every path is
the item's `shape`: a value, a table, or nothing. Two items with one shape
hold the same whatever the order of their entries.

An edit is said of shapes, for every path at once: put an item at a path and
the tables that lead to it (`Shape.grafted`), take the item away and every
table that held nothing else (`Shape.pruned`). What such edits leave of the
values at other paths is said here (`leaf_grafted`, `leaf_pruned`); that a
piece of code does such an edit is shown where the code is.

Nothing here is about terminals.
-/
import Mathlib.Data.List.Infix
import Mathlib.Tactic

namespace KeyTree

universe u v

/-- A value, or a table of items by key. -/
inductive Item (K : Type u) (V : Type v) where
  | value (v : V)
  | table (entries : List (K × Item K V))

/-- What stands at a path. -/
inductive Node (V : Type v) where
  | value (v : V)
  | table
  deriving DecidableEq

/-- The entries of a table. -/
abbrev Entries (K : Type u) (V : Type v) := List (K × Item K V)

/-- What stands at every path. -/
abbrev Shape (K : Type u) (V : Type v) := List K → Option (Node V)

variable {K : Type u} {V : Type v}

/-- What an item is, without what it holds. -/
def Item.node : Item K V → Node V
  | .value v => .value v
  | .table _ => .table

section Reading

variable [DecidableEq K]
variable {e : K × Item K V} {i : Item K V} {es : Entries K V}

/-! ## Entries -/

/-- The item under a key. -/
def find (k : K) : Entries K V → Option (Item K V)
  | [] => none
  | e :: es => if e.1 = k then some e.2 else find k es

/-- Put an item under a key: in the place of the one there, else at the
end. -/
def put (k : K) (i : Item K V) : Entries K V → Entries K V
  | [] => [(k, i)]
  | e :: es => if e.1 = k then (k, i) :: es else e :: put k i es

/-- Take away what is under a key. -/
def drop (k : K) (es : Entries K V) : Entries K V := es.filter fun e => e.1 ≠ k

@[simp] theorem find_nil (k : K) : find k ([] : Entries K V) = none := rfl

theorem find_cons (k : K) (e : K × Item K V) (es : Entries K V) :
    find k (e :: es) = if e.1 = k then some e.2 else find k es := rfl

theorem put_nil (k : K) (i : Item K V) : put k i [] = [(k, i)] := rfl

theorem put_cons (k : K) (i : Item K V) (e : K × Item K V) (es : Entries K V) :
    put k i (e :: es) = if e.1 = k then (k, i) :: es else e :: put k i es := rfl

theorem drop_cons_self {k : K} (h : e.1 = k) (es : Entries K V) : drop k (e :: es) = drop k es :=
  List.filter_cons_of_neg (by simpa using h)

theorem drop_cons_ne {k : K} (h : e.1 ≠ k) (es : Entries K V) : drop k (e :: es) = e :: drop k es :=
  List.filter_cons_of_pos (by simpa using h)

theorem find_put (k k' : K) (i : Item K V) (es : Entries K V) :
    find k' (put k i es) = if k' = k then some i else find k' es := by
  induction es with
  | nil => simp only [put_nil, find_cons, find_nil, eq_comm]
  | cons e es ih =>
    by_cases he : e.1 = k
    · simp only [put_cons, find_cons, if_pos he]
      by_cases hk : k' = k
      · rw [if_pos hk, if_pos hk.symm]
      · have hne : e.1 ≠ k' := fun h => hk (h.symm.trans he)
        rw [if_neg hk, if_neg (Ne.symm hk), if_neg hne]
    · simp only [put_cons, find_cons, if_neg he, ih]
      by_cases hk : k' = k
      · have hne : e.1 ≠ k' := fun h => he (h.trans hk)
        simp only [if_pos hk, if_neg hne]
      · simp only [if_neg hk]

theorem find_drop (k k' : K) (es : Entries K V) :
    find k' (drop k es) = if k' = k then none else find k' es := by
  induction es with
  | nil => exact (ite_self none).symm
  | cons e es ih =>
    by_cases he : e.1 = k
    · rw [drop_cons_self he, ih, find_cons]
      by_cases hk : k' = k
      · rw [if_pos hk, if_pos hk]
      · have hne : e.1 ≠ k' := fun h => hk (h.symm.trans he)
        rw [if_neg hk, if_neg hk, if_neg hne]
    · rw [drop_cons_ne he, find_cons, find_cons, ih]
      by_cases hk : k' = k
      · have hne : e.1 ≠ k' := fun h => he (h.trans hk)
        rw [if_neg hne, if_pos hk, if_pos hk]
      · simp only [if_neg hk]

/-- The keys of a table are those an item is under. -/
theorem mem_keys_iff (k : K) (es : Entries K V) : k ∈ es.map Prod.fst ↔ find k es ≠ none := by
  induction es with
  | nil => simp
  | cons e es ih =>
    rw [List.map_cons, List.mem_cons, ih, find_cons]
    by_cases he : e.1 = k
    · simp [he]
    · simp [he, Ne.symm he]

theorem mem_of_find {k : K} (h : find k es = some i) : (k, i) ∈ es := by
  induction es with
  | nil => cases h
  | cons e es ih =>
    rw [find_cons] at h
    split at h
    · next he =>
      rw [← he, ← Option.some.inj h]
      exact List.mem_cons_self
    · exact List.mem_cons_of_mem _ (ih h)

/-- Under distinct keys an entry is the one found. -/
theorem find_of_mem (hnodup : (es.map Prod.fst).Nodup) (h : e ∈ es) : find e.1 es = some e.2 := by
  induction es with
  | nil => cases h
  | cons e' es ih =>
    rw [List.map_cons, List.nodup_cons] at hnodup
    rw [find_cons]
    rcases List.mem_cons.mp h with rfl | hmem
    · rw [if_pos rfl]
    · have hne : e'.1 ≠ e.1 := fun heq => hnodup.1 (heq ▸ List.mem_map_of_mem hmem)
      rw [if_neg hne, ih hnodup.2 hmem]

/-- Putting back what is there changes nothing. -/
theorem put_of_find {k : K} (h : find k es = some i) : put k i es = es := by
  induction es with
  | nil => simp at h
  | cons e es ih =>
    rw [find_cons] at h
    rw [put_cons]
    split at h
    · next he =>
      rw [if_pos he, ← he, ← Option.some.inj h]
    · next he => rw [if_neg he, ih h]

/-- Nor does taking away what is not there. -/
theorem drop_of_not_find {k : K} (h : find k es = none) : drop k es = es := by
  induction es with
  | nil => rfl
  | cons e es ih =>
    rw [find_cons] at h
    split at h
    · cases h
    · next he => rw [drop_cons_ne he, ih h]

theorem eq_nil_iff (es : Entries K V) : es = [] ↔ ∀ k, find k es = none := by
  constructor
  · rintro rfl k
    rfl
  · intro h
    cases es with
    | nil => rfl
    | cons e es => simpa [find_cons] using h e.1

/-! ## Reading -/

/-- The item at a path. -/
def get : Item K V → List K → Option (Item K V)
  | i, [] => some i
  | .value _, _ :: _ => none
  | .table es, k :: p => (find k es).bind fun i => get i p

/-- What stands at every path of an item. -/
def Item.shape (i : Item K V) : Shape K V := fun p => (get i p).map Item.node

@[simp] theorem get_nil (i : Item K V) : get i [] = some i := by cases i <;> rfl

@[simp] theorem get_value_cons (v : V) (k : K) (p : List K) :
    get (Item.value v) (k :: p) = none := rfl

@[simp] theorem get_table_cons (es : Entries K V) (k : K) (p : List K) :
    get (.table es) (k :: p) = (find k es).bind fun i => get i p := rfl

theorem get_append (i : Item K V) (p q : List K) :
    get i (p ++ q) = (get i p).bind fun j => get j q := by
  induction p generalizing i with
  | nil => simp
  | cons k p ih =>
    cases i with
    | value v => simp
    | table es =>
      rw [List.cons_append, get_table_cons, get_table_cons, Option.bind_assoc]
      exact congrArg (Option.bind _) (funext fun i => ih i)

@[simp] theorem shape_nil (i : Item K V) : i.shape [] = some i.node := by
  simp [Item.shape]

theorem shape_table_cons (es : Entries K V) (k : K) (p : List K) :
    (Item.table es).shape (k :: p) = (find k es).bind fun i => i.shape p := by
  rw [Item.shape, get_table_cons, Option.map_bind]
  rfl

theorem shape_append {j : Item K V} {p : List K} (h : get i p = some j) (q : List K) :
    i.shape (p ++ q) = j.shape q := by
  rw [Item.shape, get_append, h]
  rfl

/-- Nothing stands under what is not there. -/
theorem shape_append_none {p : List K} (h : i.shape p = none) (q : List K) :
    i.shape (p ++ q) = none := by
  rw [Item.shape, Option.map_eq_none_iff] at h
  rw [Item.shape, get_append, h]
  rfl

theorem shape_put (k : K) (i : Item K V) (es : Entries K V) (k' : K) (p : List K) :
    (Item.table (put k i es)).shape (k' :: p) =
      if k' = k then i.shape p else (Item.table es).shape (k' :: p) := by
  rw [shape_table_cons, shape_table_cons, find_put]
  split <;> rfl

theorem shape_drop (k : K) (es : Entries K V) (k' : K) (p : List K) :
    (Item.table (drop k es)).shape (k' :: p) =
      if k' = k then none else (Item.table es).shape (k' :: p) := by
  rw [shape_table_cons, shape_table_cons, find_drop]
  split <;> rfl

/-- A table is empty when nothing stands under it. -/
theorem eq_nil_iff_shape (es : Entries K V) :
    es = [] ↔ ∀ k p, (Item.table es).shape (k :: p) = none := by
  rw [eq_nil_iff]
  constructor
  · intro h k p
    rw [shape_table_cons, h k]
    rfl
  · intro h k
    have hk := h k []
    rw [shape_table_cons] at hk
    cases hfind : find k es with
    | none => rfl
    | some i => simp [hfind] at hk

end Reading

/-! ## Edits of shapes -/

namespace Shape

/-- What stands under a path. -/
def under (s : Shape K V) (p : List K) : Shape K V := fun q => s (p ++ q)

/-- The value at a path. -/
def leaf (s : Shape K V) (p : List K) : Option V :=
  match s p with
  | some (.value v) => some v
  | _ => none

/-- No value stands on the way to a path. -/
def Clear (s : Shape K V) (p : List K) : Prop :=
  ∀ q, q <+: p → q ≠ p → s.leaf q = none

/-- All that stands under `q` is on the way to `p` or under it. -/
def Lone (s : Shape K V) (q p : List K) : Prop :=
  ∀ r, q <+: r → r ≠ q → s r ≠ none → r <+: p ∨ p <+: r

open Classical in
/-- With `t` at a path, and tables on the way to it. -/
noncomputable def grafted (s : Shape K V) (p : List K) (t : Shape K V) : Shape K V := fun q =>
  if p <+: q then t (q.drop p.length) else if q <+: p then some .table else s q

open Classical in
/-- Without what stands at a path. -/
noncomputable def cut (s : Shape K V) (p : List K) : Shape K V := fun q =>
  if p <+: q then none else s q

open Classical in
/-- Without what stands at a path, and without the tables that held nothing
else. -/
noncomputable def pruned (s : Shape K V) (p : List K) : Shape K V := fun q =>
  if p <+: q then none else if q ≠ [] ∧ q <+: p ∧ s.Lone q p then none else s q

theorem clear_nil (s : Shape K V) : s.Clear [] := by
  intro q hq hne
  exact absurd (List.prefix_nil.mp hq) hne

theorem clear_cons {s : Shape K V} {k : K} {p : List K} :
    s.Clear (k :: p) ↔ s.leaf [] = none ∧ (s.under [k]).Clear p := by
  constructor
  · intro h
    refine ⟨h [] (List.nil_prefix) (by simp), fun q hq hne => ?_⟩
    exact h (k :: q) (List.cons_prefix_cons.mpr ⟨rfl, hq⟩) (by simpa using hne)
  · rintro ⟨hroot, hunder⟩ q hq hne
    cases q with
    | nil => exact hroot
    | cons k' q =>
      obtain ⟨rfl, htail⟩ := List.cons_prefix_cons.mp hq
      exact hunder q htail (by simpa using hne)

theorem lone_cons {s : Shape K V} {k : K} {q p : List K} :
    s.Lone (k :: q) (k :: p) ↔ (s.under [k]).Lone q p := by
  constructor
  · intro h r hr hne hs
    have := h (k :: r) (List.cons_prefix_cons.mpr ⟨rfl, hr⟩) (by simpa using hne) hs
    simpa [List.cons_prefix_cons] using this
  · intro h r hr hne hs
    cases r with
    | nil => exact absurd (List.prefix_nil.mp hr) (by simp)
    | cons k' r =>
      obtain ⟨rfl, htail⟩ := List.cons_prefix_cons.mp hr
      have := h r htail (by simpa using hne) hs
      simpa [List.cons_prefix_cons] using this

/-- What holds of all that stands under a table holds under any table in
it. -/
theorem Lone.below {s : Shape K V} {q r p : List K} (h : s.Lone q p) (hr : q <+: r) :
    s.Lone r p := by
  intro x hx hne hs
  refine h x (hr.trans hx) ?_ hs
  rintro rfl
  exact hne (hx.eq_of_length (Nat.le_antisymm hx.length_le hr.length_le)).symm

/-! ### Step by step down a path -/

theorem grafted_nil (s t : Shape K V) : s.grafted [] t = t := by
  funext q
  simp [grafted]

/-- What stands at the root of an edited item does not matter. -/
theorem grafted_congr {s s' : Shape K V} (p : List K) (t : Shape K V)
    (h : ∀ k q, s (k :: q) = s' (k :: q)) : s.grafted p t = s'.grafted p t := by
  funext q
  unfold grafted
  split
  · rfl
  · split
    · rfl
    · next hq =>
      cases q with
      | nil => exact absurd List.nil_prefix hq
      | cons k q => exact h k q

theorem grafted_cons_nil (s t : Shape K V) (k : K) (p : List K) :
    s.grafted (k :: p) t [] = some .table := by
  simp [grafted]

theorem grafted_cons_self (s t : Shape K V) (k : K) (p q : List K) :
    s.grafted (k :: p) t (k :: q) = (s.under [k]).grafted p t q := by
  have hcons : ∀ a b : List K, k :: a <+: k :: b ↔ a <+: b := fun a b => by simp
  by_cases hp : p <+: q
  · rw [grafted, grafted, if_pos ((hcons p q).mpr hp), if_pos hp]
    rfl
  · rw [grafted, grafted, if_neg (mt (hcons p q).mp hp), if_neg hp]
    by_cases hq : q <+: p
    · rw [if_pos ((hcons q p).mpr hq), if_pos hq]
    · rw [if_neg (mt (hcons q p).mp hq), if_neg hq]
      rfl

theorem grafted_cons_ne (s t : Shape K V) {k k' : K} (hk : k' ≠ k) (p q : List K) :
    s.grafted (k :: p) t (k' :: q) = s (k' :: q) := by
  simp [grafted, List.cons_prefix_cons, hk, Ne.symm hk]

theorem pruned_cons_nil (s : Shape K V) (k : K) (p : List K) : s.pruned (k :: p) [] = s [] := by
  simp [pruned]

open Classical in
theorem pruned_cons_self (s : Shape K V) (k : K) (p q : List K) :
    s.pruned (k :: p) (k :: q) =
      if q = [] ∧ (s.under [k]).Lone [] p then none else (s.under [k]).pruned p q := by
  simp only [pruned, List.cons_prefix_cons, true_and, lone_cons, ne_eq, reduceCtorEq,
    not_false_eq_true]
  by_cases hp : p <+: q
  · simp [hp]
  · by_cases hq : q = []
    · subst hq
      simp [hp, under]
    · simp [hp, hq, under]

theorem pruned_cons_ne (s : Shape K V) {k k' : K} (hk : k' ≠ k) (p q : List K) :
    s.pruned (k :: p) (k' :: q) = s (k' :: q) := by
  simp [pruned, List.cons_prefix_cons, hk, Ne.symm hk]

theorem cut_cons_ne (s : Shape K V) {k k' : K} (hk : k' ≠ k) (p q : List K) :
    s.cut (k :: p) (k' :: q) = s (k' :: q) := by
  simp [cut, List.cons_prefix_cons, Ne.symm hk]

theorem under_cut (s : Shape K V) (k : K) (p : List K) :
    (s.cut (k :: p)).under [k] = (s.under [k]).cut p := by
  funext q
  by_cases hp : p <+: q <;> simp [cut, under, hp]

/-- Where a table holds nothing but what is taken away, nothing is left. -/
theorem pruned_eq_none_iff {s : Shape K V} {p : List K} :
    (∀ q, q ≠ [] → s.pruned p q = none) ↔ s.Lone [] p := by
  constructor
  · intro h r _ hne hs
    have hr := h r hne
    unfold pruned at hr
    split at hr
    · next hp => exact .inr hp
    · split at hr
      · next hq => exact .inl hq.2.1
      · exact absurd hr hs
  · intro h q hne
    unfold pruned
    split
    · rfl
    · next hp =>
      split
      · rfl
      · next hq =>
        by_contra hs
        rcases h q List.nil_prefix hne hs with hqp | hpq
        · exact hq ⟨hne, hqp, h.below List.nil_prefix⟩
        · exact hp hpq

/-! ### What an edit leaves of the values -/

/-- Whatever something stands under is a table. -/
def Rooted (s : Shape K V) : Prop :=
  ∀ p q, q ≠ [] → s (p ++ q) ≠ none → s p = some .table

theorem leaf_of_eq {s t : Shape K V} {p q : List K} (h : s p = t q) : s.leaf p = t.leaf q := by
  rw [leaf, leaf, h]

theorem leaf_of_none {s : Shape K V} {p : List K} (h : s p = none) : s.leaf p = none := by
  rw [leaf, h]

theorem leaf_of_table {s : Shape K V} {p : List K} (h : s p = some .table) : s.leaf p = none := by
  rw [leaf, h]

/-- What stands at the path of an edit and under it. -/
theorem grafted_append (s t : Shape K V) (p q : List K) : s.grafted p t (p ++ q) = t q := by
  simp [grafted]

/-- An edit with no value on its way costs none at another path. -/
theorem leaf_grafted {s : Shape K V} {p : List K} (hclear : s.Clear p) (t : Shape K V)
    {q : List K} (hq : ¬p <+: q) : (s.grafted p t).leaf q = s.leaf q := by
  by_cases hqp : q <+: p
  · have htable : s.grafted p t q = some .table := by simp [grafted, hq, hqp]
    have hne : q ≠ p := fun h => hq (h ▸ List.prefix_refl p)
    rw [leaf_of_table htable, hclear q hqp hne]
  · exact leaf_of_eq (by simp [grafted, hq, hqp])

/-- Nor does taking away. -/
theorem leaf_pruned {s : Shape K V} (hs : s.Rooted) {p : List K} (hp : s p ≠ none)
    {q : List K} (hq : ¬p <+: q) : (s.pruned p).leaf q = s.leaf q := by
  by_cases hlone : q ≠ [] ∧ q <+: p ∧ s.Lone q p
  · obtain ⟨r, rfl⟩ := hlone.2.1
    have hr : r ≠ [] := by
      rintro rfl
      exact hq (by simp)
    have hnone : s.pruned (q ++ r) q = none := by
      rw [pruned, if_neg hq, if_pos hlone]
    rw [leaf_of_none hnone, leaf_of_table (hs q r hr hp)]
  · exact leaf_of_eq (by rw [pruned, if_neg hq, if_neg hlone])

/-- To put an item where nothing was and take it away again gives every
value back. -/
theorem leaf_pruned_grafted {s t : Shape K V} (hs : s.Rooted) {p : List K} (hclear : s.Clear p)
    (hp : s p = none) (hg : (s.grafted p t).Rooted) (ht : t [] ≠ none) :
    ((s.grafted p t).pruned p).leaf = s.leaf := by
  funext q
  by_cases hq : p <+: q
  · have hnone : (s.grafted p t).pruned p q = none := by rw [pruned, if_pos hq]
    rw [leaf_of_none hnone]
    obtain ⟨r, rfl⟩ := hq
    cases hr : s (p ++ r) with
    | none => rw [leaf_of_none hr]
    | some n =>
      cases r with
      | nil => rw [List.append_nil, hp] at hr; cases hr
      | cons k r => simp [hs p (k :: r) (by simp) (by simp [hr])] at hp
  · have hthere : s.grafted p t p ≠ none := by
      have happ := s.grafted_append t p []
      rw [List.append_nil] at happ
      rwa [happ]
    rw [leaf_pruned hg hthere hq, leaf_grafted hclear t hq]

end Shape

/-- An item is rooted. -/
theorem Item.rooted_shape [DecidableEq K] (i : Item K V) : i.shape.Rooted := by
  intro p q hq hpq
  cases hget : get i p with
  | none =>
    have hnone : i.shape p = none := by simp [Item.shape, hget]
    exact absurd (shape_append_none hnone q) hpq
  | some j =>
    rw [shape_append hget] at hpq
    cases j with
    | value v =>
      obtain ⟨k, q, rfl⟩ := List.exists_cons_of_ne_nil hq
      exact absurd rfl hpq
    | table es => simp [Item.shape, hget, Item.node]

end KeyTree
