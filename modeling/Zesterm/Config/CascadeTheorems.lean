/-
Zesterm.Config.CascadeTheorems — when the provenance of a configuration
tells the truth.

A value stands at a place: under a key of the root, or under a key of a
group. Merging a layer writes its values to their places (`at_merge_top`,
`at_merge_field`) and its source to their dotted keys (`source_merge`). The
dotted keys stay when a group gives way to a value that is no table, or
such a value to a group, though what they name is gone then.
-/
import Zesterm.Config.Cascade

namespace Zesterm

namespace Cascade

open KeyTree

variable {V : Type}
variable {key group : Str} {t src : Entries Str V} {layers : List (Layer V)}
variable (source : Source)

/-! ## Places -/

/-- Where a value of a table stands. -/
inductive Place where
  | top (key : Str)
  | field (group key : Str)
  deriving DecidableEq

def Place.dotted : Place → Str
  | .top key => key
  | .field group key => group ++ '.' :: key

/-- The value at a place. A group is no value. -/
def valueAt (t : Entries Str V) : Place → Option (Item Str V)
  | .top key =>
    match find key t with
    | some (.table es) => if isMergeable key then none else some (.table es)
    | i => i
  | .field group key => if isMergeable group then find key (existing group t) else none

theorem valueAt_top (t : Entries Str V) (key : Str) :
    valueAt t (.top key) =
      match find key t with
      | some (.table es) => if isMergeable key then none else some (.table es)
      | i => i := rfl

/-- The keys of a table are distinct, and so are those of the tables in it. -/
def Distinct (t : Entries Str V) : Prop :=
  (t.map Prod.fst).Nodup ∧ ∀ key es, (key, Item.table es) ∈ t → (es.map Prod.fst).Nodup

theorem mergeInto_nil (path : Str) (s : Entries Str V × Provenance) :
    mergeInto source path [] s = s := by rw [mergeInto]

theorem mergeInto_cons (path : Str) (e : Str × Item Str V) (src : Entries Str V)
    (s : Entries Str V × Provenance) :
    mergeInto source path (e :: src) s = mergeInto source path src (mergeEntry source path e s) := by
  rw [mergeInto]

/-! ## Inside a group -/

theorem dot_notMem_group (h : isMergeable group = true) : '.' ∉ group := by
  have hall : groups.all (fun g => !g.contains '.') = true := by decide
  have hmem : group ∈ groups := by simpa [isMergeable] using h
  have hdot := List.all_eq_true.mp hall group hmem
  simpa using hdot

theorem group_ne_nil (h : isMergeable group = true) : group ≠ [] := by
  rintro rfl
  revert h
  decide

theorem join_group (h : isMergeable group = true) (key : Str) :
    join group key = group ++ '.' :: key := by
  have hne : group.isEmpty = false := List.isEmpty_eq_false_iff.mpr (group_ne_nil h)
  rw [join, hne]
  rfl

theorem not_mergeable_dotted (group key : Str) : isMergeable (group ++ '.' :: key) = false := by
  rw [← Bool.not_eq_true]
  intro h
  exact dot_notMem_group h (by simp)

/-- Inside a group every value replaces the one under its key. -/
theorem mergeEntry_field (h : isMergeable group = true) (source : Source) (e : Str × Item Str V)
    (s : Entries Str V × Provenance) :
    mergeEntry source group e s =
      (put e.1 e.2 s.1, s.2.insert (group ++ '.' :: e.1) source) := by
  obtain ⟨key, item⟩ := e
  cases item with
  | value v => rw [mergeEntry, join_group h]
  | table es =>
    rw [mergeEntry, join_group h, not_mergeable_dotted]
    rfl

/-- What an entry of the root writes: `collect_leaves`. -/
def leavesOf : Str × Item Str V → List Str
  | (key, .table es) =>
    if isMergeable key then es.map fun e => key ++ '.' :: e.1 else [key]
  | (key, .value _) => [key]

theorem merge_group (h : isMergeable group = true) (source : Source) (src : Entries Str V)
    (hsrc : (src.map Prod.fst).Nodup) (s : Entries Str V × Provenance) :
    (∀ key, find key (mergeInto source group src s).1 = (find key src).or (find key s.1)) ∧
      ∀ path, (mergeInto source group src s).2 path =
        if path ∈ src.map (fun e => group ++ '.' :: e.1) then some source else s.2 path := by
  induction src generalizing s with
  | nil => simp [mergeInto_nil]
  | cons e src ih =>
    rw [List.map_cons, List.nodup_cons, mem_keys_iff, not_not] at hsrc
    rw [mergeInto_cons, mergeEntry_field h]
    obtain ⟨hfind, hprov⟩ := ih hsrc.2 (put e.1 e.2 s.1, s.2.insert (group ++ '.' :: e.1) source)
    refine ⟨fun key => ?_, fun path => ?_⟩
    · rw [hfind, find_put, find_cons]
      by_cases hkey : key = e.1
      · rw [if_pos hkey, if_pos hkey.symm, hkey, hsrc.1]
        rfl
      · rw [if_neg hkey, if_neg (Ne.symm hkey)]
    · rw [hprov, List.map_cons]
      by_cases hlater : path ∈ src.map fun e => group ++ '.' :: e.1
      · rw [if_pos hlater, if_pos (List.mem_cons_of_mem _ hlater)]
      · rw [if_neg hlater]
        refine if_congr ?_ rfl rfl
        rw [List.mem_cons, or_iff_left hlater]

/-! ## A layer -/

/-- What merging an item under a key makes of what was under it. -/
def Becomes (key : Str) (dst : Entries Str V) (new : Option (Item Str V)) : Item Str V → Prop
  | .value v => new = some (.value v)
  | .table es =>
    if isMergeable key then
      ∃ es', new = some (.table es') ∧ ∀ k, find k es' = (find k es).or (find k (existing key dst))
    else new = some (.table es)

theorem becomes_group {dst : Entries Str V} {new : Option (Item Str V)} {es : Entries Str V}
    (h : isMergeable key = true) :
    Becomes key dst new (.table es) ↔
      ∃ es', new = some (.table es') ∧
        ∀ k, find k es' = (find k es).or (find k (existing key dst)) := by
  rw [Becomes, if_pos h]

/-- Merging an entry of the root edits what is under its key. -/
theorem mergeEntry_root (e : Str × Item Str V)
    (he : ∀ es, e.2 = .table es → (es.map Prod.fst).Nodup) (s : Entries Str V × Provenance) :
    (∀ key, key ≠ e.1 → find key (mergeEntry source [] e s).1 = find key s.1) ∧
      Becomes e.1 s.1 (find e.1 (mergeEntry source [] e s).1) e.2 ∧
      ∀ path, (mergeEntry source [] e s).2 path =
        if path ∈ leavesOf e then some source else s.2 path := by
  obtain ⟨k, item⟩ := e
  have hjoin : join [] k = k := rfl
  cases item with
  | value v =>
    rw [mergeEntry, hjoin]
    refine ⟨fun key hkey => by rw [find_put, if_neg hkey], ?_, fun path => ?_⟩
    · show find k (put k _ s.1) = _
      rw [find_put, if_pos rfl]
    · simp [leavesOf, Provenance.insert]
  | table es =>
    rw [mergeEntry, hjoin, leavesOf, Becomes]
    cases hk : isMergeable k with
    | false =>
      simp only [Bool.false_eq_true, if_false]
      refine ⟨fun key hkey => by rw [find_put, if_neg hkey], by rw [find_put, if_pos rfl],
        fun path => ?_⟩
      simp [Provenance.insert]
    | true =>
      simp only [if_true]
      obtain ⟨hfind, hprov⟩ := merge_group hk source es (he es rfl) (existing k s.1, s.2)
      exact ⟨fun key hkey => by rw [find_put, if_neg hkey],
        ⟨_, by rw [find_put, if_pos rfl], hfind⟩, hprov⟩

/-- Merging a layer edits what is under its keys, and notes its leaves. -/
theorem merge_root (src : Entries Str V) (hsrc : Distinct src) (s : Entries Str V × Provenance) :
    (∀ key, find key src = none → find key (mergeInto source [] src s).1 = find key s.1) ∧
      (∀ key item, find key src = some item →
        Becomes key s.1 (find key (mergeInto source [] src s).1) item) ∧
      ∀ path, (mergeInto source [] src s).2 path =
        if path ∈ src.flatMap leavesOf then some source else s.2 path := by
  induction src generalizing s with
  | nil => exact ⟨fun _ _ => by rw [mergeInto_nil], nofun, fun path => by rw [mergeInto_nil]; rfl⟩
  | cons e src ih =>
    obtain ⟨hkeys, htables⟩ := hsrc
    rw [List.map_cons, List.nodup_cons, mem_keys_iff, not_not] at hkeys
    obtain ⟨hother, hown, hnoted⟩ := mergeEntry_root source e
      (fun es hes => htables e.1 es (by rw [← hes]; exact List.mem_cons_self)) s
    obtain ⟨hrest, hbecomes, hprov⟩ := ih
      ⟨hkeys.2, fun key es hes => htables key es (List.mem_cons_of_mem _ hes)⟩
      (mergeEntry source [] e s)
    rw [mergeInto_cons]
    refine ⟨fun key hkey => ?_, fun key item hkey => ?_, fun path => ?_⟩
    · rw [find_cons] at hkey
      split at hkey
      · cases hkey
      · next hne => rw [hrest key hkey, hother key (Ne.symm hne)]
    · rw [find_cons] at hkey
      split at hkey
      · next heq =>
        obtain rfl := Option.some.inj hkey
        rw [← heq, hrest e.1 hkeys.1]
        exact hown
      · next hne =>
        have hkept := hbecomes key item hkey
        have hexisting : existing key (mergeEntry source [] e s).1 = existing key s.1 := by
          unfold existing
          rw [hother key (Ne.symm hne)]
        cases item with
        | value v => exact hkept
        | table es =>
          unfold Becomes at hkept ⊢
          rwa [hexisting] at hkept
    · rw [hprov, hnoted, List.flatMap_cons]
      by_cases hlater : path ∈ src.flatMap leavesOf
      · rw [if_pos hlater, if_pos (List.mem_append_right _ hlater)]
      · rw [if_neg hlater]
        refine if_congr ?_ rfl rfl
        rw [List.mem_append, or_iff_left hlater]

/-- At the root a layer's own entry decides. -/
theorem at_merge_top (hsrc : Distinct src) (s : Entries Str V × Provenance) (key : Str) :
    valueAt (mergeInto source [] src s).1 (.top key) =
      if find key src = none then valueAt s.1 (.top key) else valueAt src (.top key) := by
  obtain ⟨hrest, hbecomes, -⟩ := merge_root source src hsrc s
  cases hkey : find key src with
  | none => simp only [valueAt, hrest key hkey, if_true]
  | some item =>
    rw [if_neg (by simp)]
    have hnew := hbecomes key item hkey
    cases item with
    | value v =>
      have hnew : find key (mergeInto source [] src s).1 = some (.value v) := hnew
      simp only [valueAt, hkey, hnew]
    | table es =>
      rw [Becomes] at hnew
      split at hnew
      · next hgroup =>
        obtain ⟨es', hfind, -⟩ := hnew
        simp only [valueAt, hkey, hfind, hgroup, if_true]
      · simp only [valueAt, hkey, hnew]

/-- In a group a layer's own field decides, and an entry that is no group takes
every field. -/
theorem at_merge_field (hsrc : Distinct src) (s : Entries Str V × Provenance) (group key : Str) :
    valueAt (mergeInto source [] src s).1 (.field group key) =
      if valueAt src (.top group) = none then
        (valueAt src (.field group key)).or (valueAt s.1 (.field group key))
      else none := by
  obtain ⟨hrest, hbecomes, -⟩ := merge_root source src hsrc s
  cases hgroup : isMergeable group with
  | false => simp [valueAt, hgroup]
  | true =>
    cases hfind : find group src with
    | none => simp [valueAt, hgroup, existing, hrest group hfind, hfind]
    | some item =>
      have hnew := hbecomes group item hfind
      cases item with
      | value v =>
        have hnew : find group (mergeInto source [] src s).1 = some (.value v) := hnew
        simp [valueAt, hgroup, existing, hfind, hnew]
      | table es =>
        rw [becomes_group hgroup] at hnew
        obtain ⟨es', hes', hor⟩ := hnew
        simp only [valueAt, hgroup, hfind, if_true, existing, hes']
        exact hor key

/-! ## All layers -/

/-- The last layer with a value at a place, and the value. -/
def lastAt (p : Place) (layers : List (Layer V)) : Option (Source × Item Str V) :=
  layers.reverse.findSome? fun l => (valueAt l.table p).map fun v => (l.source, v)

/-- The last layer that mentions a key. -/
def lastMention (key : Str) (layers : List (Layer V)) : Option (Layer V) :=
  layers.reverse.find? fun l => (find key l.table).isSome

theorem resolve_snoc (layers : List (Layer V)) (l : Layer V) :
    resolve (layers ++ [l]) = mergeInto l.source [] l.table (resolve layers) := by
  rw [resolve, List.foldl_append]
  rfl

theorem lastAt_snoc (p : Place) (layers : List (Layer V)) (l : Layer V) :
    lastAt p (layers ++ [l]) =
      ((valueAt l.table p).map fun v => (l.source, v)).or (lastAt p layers) := by
  unfold lastAt
  rw [List.reverse_append, List.reverse_singleton, List.singleton_append, List.findSome?_cons]
  cases valueAt l.table p <;> rfl

theorem lastAt_eq_none {p : Place} :
    lastAt p layers = none ↔ ∀ l ∈ layers, valueAt l.table p = none := by
  simp [lastAt, List.findSome?_eq_none_iff]

theorem lastMention_snoc (key : Str) (layers : List (Layer V)) (l : Layer V) :
    lastMention key (layers ++ [l]) =
      if find key l.table = none then lastMention key layers else some l := by
  unfold lastMention
  rw [List.reverse_append, List.reverse_singleton, List.singleton_append, List.find?_cons]
  cases find key l.table <;> rfl

theorem valueAt_top_of_not_group (h : isMergeable key = false) :
    valueAt t (.top key) = find key t := by
  rw [valueAt_top]
  split
  · next hfind => rw [h, if_neg Bool.false_ne_true, hfind]
  · rfl

/-- A value at a place of the root is under a key the table has. -/
theorem valueAt_top_of_not_find (h : find key t = none) : valueAt t (.top key) = none := by
  simp only [valueAt, h]

/-- At the root the last layer to mention a key decides. -/
theorem at_resolve_top (h : ∀ l ∈ layers, Distinct l.table) (key : Str) :
    valueAt (resolve layers).1 (.top key) =
      (lastMention key layers).bind fun l => valueAt l.table (.top key) := by
  induction layers using List.reverseRecOn with
  | nil => rfl
  | append_singleton layers l ih =>
    rw [resolve_snoc, at_merge_top l.source (h l (by simp)), lastMention_snoc]
    split
    · exact ih fun l' hl' => h l' (List.mem_append_left _ hl')
    · rfl

/-- In a group that no layer replaces, the last layer that sets a field decides. -/
theorem at_resolve_field (h : ∀ l ∈ layers, Distinct l.table)
    (hkept : ∀ l ∈ layers, valueAt l.table (.top group) = none) (key : Str) :
    valueAt (resolve layers).1 (.field group key) =
      (lastAt (.field group key) layers).map Prod.snd := by
  induction layers using List.reverseRecOn with
  | nil => simp [resolve, valueAt, existing, lastAt]
  | append_singleton layers l ih =>
    rw [resolve_snoc, at_merge_field l.source (h l (by simp)), if_pos (hkept l (by simp)),
      lastAt_snoc, ih (fun l' hl' => h l' (List.mem_append_left _ hl'))
        fun l' hl' => hkept l' (List.mem_append_left _ hl')]
    cases valueAt l.table (.field group key) <;> rfl

/-- A field that no layer sets is in no merged group. -/
theorem at_resolve_field_none (h : ∀ l ∈ layers, Distinct l.table)
    (hunset : lastAt (.field group key) layers = none) :
    valueAt (resolve layers).1 (.field group key) = none := by
  induction layers using List.reverseRecOn with
  | nil => simp [resolve, valueAt, existing]
  | append_singleton layers l ih =>
    rw [lastAt_snoc, Option.or_eq_none_iff, Option.map_eq_none_iff] at hunset
    rw [resolve_snoc, at_merge_field l.source (h l (by simp)), hunset.1,
      ih (fun l' hl' => h l' (List.mem_append_left _ hl')) hunset.2]
    split <;> rfl

/-- A group whose key holds a value has no fields. -/
theorem field_of_top (hgroup : isMergeable group = true) (htop : valueAt t (.top group) ≠ none)
    (key : Str) : valueAt t (.field group key) = none := by
  rw [valueAt_top] at htop
  split at htop
  · rw [if_pos hgroup] at htop
    exact absurd rfl htop
  · next hother =>
    have hnone : existing group t = [] := by
      unfold existing
      split
      · next es hes => exact absurd hes (hother es)
      · rfl
    rw [valueAt, hnone]
    exact ite_self _

/-- The last mention, where it puts a value, is the last value. -/
theorem lastAt_of_lastMention {l : Layer V} {v : Item Str V} (hl : lastMention key layers = some l)
    (hv : valueAt l.table (.top key) = some v) : lastAt (.top key) layers = some (l.source, v) := by
  induction layers using List.reverseRecOn with
  | nil => cases hl
  | append_singleton layers l' ih =>
    rw [lastMention_snoc] at hl
    rw [lastAt_snoc]
    split at hl
    · next hnone => rw [valueAt_top_of_not_find hnone, ih hl]; rfl
    · obtain rfl := Option.some.inj hl
      rw [hv]
      rfl

/-! ## Provenance -/

theorem mem_leaves (hsrc : Distinct src) (path : Str) :
    path ∈ src.flatMap leavesOf ↔ ∃ p : Place, p.dotted = path ∧ valueAt src p ≠ none := by
  have hfind : ∀ e ∈ src, find e.1 src = some e.2 := fun e he => find_of_mem hsrc.1 he
  constructor
  · rw [List.mem_flatMap]
    rintro ⟨⟨key, item⟩, he, hpath⟩
    have hkey := hfind _ he
    cases item with
    | value v =>
      obtain rfl := List.mem_singleton.mp hpath
      exact ⟨.top path, rfl, by simp only [valueAt_top, hkey]; exact Option.some_ne_none _⟩
    | table es =>
      rw [leavesOf] at hpath
      split at hpath
      · next hgroup =>
        obtain ⟨e, hmem, rfl⟩ := List.mem_map.mp hpath
        refine ⟨.field key e.1, rfl, ?_⟩
        simp only [valueAt, hgroup, if_true, existing, hkey]
        exact (mem_keys_iff e.1 es).mp (List.mem_map_of_mem hmem)
      · next hgroup =>
        obtain rfl := List.mem_singleton.mp hpath
        refine ⟨.top path, rfl, ?_⟩
        simp only [valueAt_top, hkey]
        rw [if_neg hgroup]
        exact Option.some_ne_none _
  · rintro ⟨p, rfl, hp⟩
    rw [List.mem_flatMap]
    cases p with
    | top key =>
      cases hkey : find key src with
      | none => exact absurd (valueAt_top_of_not_find hkey) hp
      | some item =>
        refine ⟨(key, item), mem_of_find hkey, ?_⟩
        simp only [valueAt_top, hkey] at hp
        cases item with
        | value v => exact List.mem_singleton_self key
        | table es =>
          have hgroup : ¬ isMergeable key = true := fun h => hp (if_pos h)
          rw [leavesOf, if_neg hgroup]
          exact List.mem_singleton_self key
    | field group key =>
      simp only [valueAt, existing] at hp
      split at hp
      · next hgroup =>
        split at hp
        · next es hes =>
          refine ⟨(group, .table es), mem_of_find hes, ?_⟩
          rw [leavesOf, if_pos hgroup]
          obtain ⟨e, he, heq⟩ := List.mem_map.mp ((mem_keys_iff key es).mpr hp)
          exact List.mem_map.mpr ⟨e, he, by rw [heq]; rfl⟩
        · exact absurd rfl hp
      · exact absurd rfl hp

/-- A key's source is that of the last value at one of the places it names. -/
theorem source_resolve (h : ∀ l ∈ layers, Distinct l.table) (path : Str) :
    (∀ p : Place, p.dotted = path → lastAt p layers ≠ none → (resolve layers).2 path ≠ none) ∧
      ∀ source, (resolve layers).2 path = some source →
        ∃ p : Place, ∃ v, p.dotted = path ∧ lastAt p layers = some (source, v) := by
  induction layers using List.reverseRecOn with
  | nil => exact ⟨fun _ _ hp => absurd rfl hp, nofun⟩
  | append_singleton layers l ih =>
    obtain ⟨hsome, hlast⟩ := ih fun l' hl' => h l' (List.mem_append_left _ hl')
    have hl : Distinct l.table := h l (by simp)
    obtain ⟨-, -, hprov⟩ := merge_root l.source l.table hl (resolve layers)
    rw [resolve_snoc, hprov]
    split
    · next hnoted =>
      rw [mem_leaves hl] at hnoted
      refine ⟨fun _ _ _ => Option.some_ne_none _, fun source hsource => ?_⟩
      obtain rfl := Option.some.inj hsource
      obtain ⟨p, hp, hne⟩ := hnoted
      obtain ⟨v, hv⟩ := Option.ne_none_iff_exists'.mp hne
      exact ⟨p, v, hp, by rw [lastAt_snoc, hv]; rfl⟩
    · next hother =>
      rw [mem_leaves hl] at hother
      have hsame : ∀ p : Place, p.dotted = path → lastAt p (layers ++ [l]) = lastAt p layers := by
        intro p hp
        have hnone : valueAt l.table p = none := by
          by_contra hne
          exact hother ⟨p, hp, hne⟩
        rw [lastAt_snoc, hnone]
        rfl
      refine ⟨fun p hp hne => hsome p hp (by rwa [hsame p hp] at hne), fun source hsource => ?_⟩
      obtain ⟨p, v, hp, hv⟩ := hlast source hsource
      exact ⟨p, v, hp, by rw [hsame p hp, hv]⟩

theorem mergeable_of_lastAt (h : lastAt (.field group key) layers ≠ none) :
    isMergeable group = true := by
  by_contra hgroup
  refine h (lastAt_eq_none.mpr fun l _ => ?_)
  rw [valueAt, if_neg hgroup]

/-- A dotted key names one field at most. -/
theorem field_inj {group' key' : Str} (h : isMergeable group = true)
    (h' : isMergeable group' = true) (heq : group ++ '.' :: key = group' ++ '.' :: key') :
    group = group' ∧ key = key' := by
  have hsplit : ∀ g k, '.' ∉ g → (g ++ '.' :: k).takeWhile (· ≠ '.') = g := by
    intro g k hg
    have hno : ∀ c ∈ g, decide (c ≠ '.') = true := by
      intro c hc
      rw [decide_eq_true_iff]
      rintro rfl
      exact hg hc
    rw [List.takeWhile_append_of_pos hno]
    simp
  have hgroup : group = group' := by
    rw [← hsplit group key (dot_notMem_group h), heq, hsplit group' key' (dot_notMem_group h')]
  subst hgroup
  exact ⟨rfl, List.cons.inj (List.append_cancel_left heq) |>.2⟩

/-! ## When provenance tells the truth -/

/-- What the provenance promises: a key has a source when it names a value, the
source is the last layer that put the value there, and a group's field has
its last value. -/
def Tells (layers : List (Layer V)) : Prop :=
  (∀ path, (resolve layers).2 path ≠ none ↔
      ∃ p : Place, p.dotted = path ∧ valueAt (resolve layers).1 p ≠ none) ∧
    (∀ p v, valueAt (resolve layers).1 p = some v →
      ∃ source, lastAt p layers = some (source, v) ∧
        (resolve layers).2 p.dotted = some source) ∧
    ∀ group key, isMergeable group = true →
      valueAt (resolve layers).1 (.field group key) =
        (lastAt (.field group key) layers).map Prod.snd

/-- No layer takes a group away: where one puts a value under a group's key, the
last to mention the key does too and none sets a field of the group; and a
field and a root key of one dotted name have their last values from one
source. -/
def Fits (layers : List (Layer V)) : Prop :=
  (∀ group, isMergeable group = true →
      (∃ l ∈ layers, valueAt l.table (.top group) ≠ none) →
        (∃ l, lastMention group layers = some l ∧ valueAt l.table (.top group) ≠ none) ∧
          ∀ l ∈ layers, ∀ key, valueAt l.table (.field group key) = none) ∧
    ∀ group key s v s' v', lastAt (.field group key) layers = some (s, v) →
      lastAt (.top (group ++ '.' :: key)) layers = some (s', v') → s = s'

/-- Away from the groups the root has every key's last value. -/
theorem at_resolve_other (h : ∀ l ∈ layers, Distinct l.table) (hkey : isMergeable key = false) :
    valueAt (resolve layers).1 (.top key) = (lastAt (.top key) layers).map Prod.snd := by
  rw [at_resolve_top h]
  cases hl : lastMention key layers with
  | none =>
    have hnone : lastAt (.top key) layers = none := by
      rw [lastAt_eq_none]
      intro l hmem
      have hfind := List.find?_eq_none.mp hl l (List.mem_reverse.mpr hmem)
      rw [Option.not_isSome_iff_eq_none] at hfind
      exact valueAt_top_of_not_find hfind
    rw [hnone]
    rfl
  | some l =>
    have hsome := List.find?_some hl
    obtain ⟨v, hv⟩ := Option.isSome_iff_exists.mp hsome
    have hvalue : valueAt l.table (.top key) = some v := by rw [valueAt_top_of_not_group hkey, hv]
    rw [lastAt_of_lastMention hl hvalue]
    exact hvalue

/-- Where layers fit, every place has its last value. -/
theorem at_resolve (h : ∀ l ∈ layers, Distinct l.table) (hfits : Fits layers) (p : Place) :
    valueAt (resolve layers).1 p = (lastAt p layers).map Prod.snd := by
  cases p with
  | top key =>
    cases hkey : isMergeable key with
    | false => exact at_resolve_other h hkey
    | true =>
      by_cases hput : ∃ l ∈ layers, valueAt l.table (.top key) ≠ none
      · obtain ⟨⟨l, hl, hne⟩, -⟩ := hfits.1 key hkey hput
        obtain ⟨v, hv⟩ := Option.ne_none_iff_exists'.mp hne
        rw [at_resolve_top h, hl, lastAt_of_lastMention hl hv]
        exact hv
      · push Not at hput
        rw [lastAt_eq_none.mpr hput, at_resolve_top h]
        cases hl : lastMention key layers with
        | none => rfl
        | some l => exact hput l (List.mem_reverse.mp (List.mem_of_find?_eq_some hl))
  | field group key =>
    by_cases hput : ∃ l ∈ layers, valueAt l.table (.top group) ≠ none
    · by_cases hgroup : isMergeable group = true
      · have hunset := lastAt_eq_none.mpr fun l hl => (hfits.1 group hgroup hput).2 l hl key
        rw [at_resolve_field_none h hunset, hunset]
        rfl
      · have hunset : lastAt (.field group key) layers = none := by
          by_contra hne
          exact hgroup (mergeable_of_lastAt hne)
        rw [at_resolve_field_none h hunset, hunset]
        rfl
    · push Not at hput
      exact at_resolve_field h hput key

/-- Two places of one dotted key with a value each: a field and a root key. -/
theorem same_place {p q : Place} {s s' : Source} {v v' : Item Str V} (hfits : Fits layers)
    (hname : p.dotted = q.dotted) (hp : lastAt p layers = some (s, v))
    (hq : lastAt q layers = some (s', v')) : s = s' := by
  have happart := hfits.2
  cases p with
  | top key =>
    cases q with
    | top key' =>
      obtain rfl : key = key' := hname
      exact congrArg Prod.fst (Option.some.inj (hp.symm.trans hq))
    | field group' key' =>
      obtain rfl : key = group' ++ '.' :: key' := hname
      exact (happart group' key' s' v' s v hq hp).symm
  | field group key =>
    cases q with
    | top key' =>
      obtain rfl : group ++ '.' :: key = key' := hname
      exact happart group key s v s' v' hp hq
    | field group' key' =>
      have hgroup := mergeable_of_lastAt (by rw [hp]; exact Option.some_ne_none _)
      have hgroup' := mergeable_of_lastAt (by rw [hq]; exact Option.some_ne_none _)
      obtain ⟨rfl, rfl⟩ := field_inj hgroup hgroup' hname
      exact congrArg Prod.fst (Option.some.inj (hp.symm.trans hq))

theorem tells_of_fits (h : ∀ l ∈ layers, Distinct l.table) (hfits : Fits layers) :
    Tells layers := by
  have hat := at_resolve h hfits
  refine ⟨fun path => ⟨fun hpath => ?_, ?_⟩, fun p v hv => ?_, fun group key _ => hat _⟩
  · obtain ⟨source, hsource⟩ := Option.ne_none_iff_exists'.mp hpath
    obtain ⟨p, v, hp, hlast⟩ := (source_resolve h path).2 source hsource
    exact ⟨p, hp, by rw [hat, hlast]; exact Option.some_ne_none _⟩
  · rintro ⟨p, hp, hne⟩
    rw [hat, Ne, Option.map_eq_none_iff] at hne
    exact (source_resolve h path).1 p hp hne
  · rw [hat] at hv
    obtain ⟨⟨source, w⟩, hlast, rfl⟩ := Option.map_eq_some_iff.mp hv
    refine ⟨source, hlast, ?_⟩
    have hsome := (source_resolve h p.dotted).1 p rfl (by rw [hlast]; exact Option.some_ne_none _)
    obtain ⟨source', hsource'⟩ := Option.ne_none_iff_exists'.mp hsome
    obtain ⟨q, v', hq, hlast'⟩ := (source_resolve h p.dotted).2 source' hsource'
    rw [hsource', same_place hfits hq hlast' hlast]

theorem fits_of_tells (h : ∀ l ∈ layers, Distinct l.table) (htells : Tells layers) :
    Fits layers := by
  obtain ⟨hnames, hsources, hfields⟩ := htells
  refine ⟨fun group hgroup hput => ?_, fun group key s v s' v' hfield htop => ?_⟩
  · -- the group's own key has a source, so the merged table has a value there
    obtain ⟨l, hl, hne⟩ := hput
    have hlast : lastAt (.top group) layers ≠ none := fun hnone => hne (lastAt_eq_none.mp hnone l hl)
    obtain ⟨p, hp, hvalue⟩ :=
      (hnames group).mp ((source_resolve h group).1 (.top group) rfl hlast)
    obtain rfl : p = .top group := by
      cases p with
      | top key => exact congrArg Place.top hp
      | field group' key' =>
        obtain rfl : group' ++ '.' :: key' = group := hp
        exact absurd (List.mem_append_right group' List.mem_cons_self) (dot_notMem_group hgroup)
    refine ⟨?_, fun l' hl' key => ?_⟩
    · rw [at_resolve_top h] at hvalue
      cases hmention : lastMention group layers with
      | none => rw [hmention] at hvalue; exact absurd rfl hvalue
      | some l' => rw [hmention] at hvalue; exact ⟨l', rfl, hvalue⟩
    · have hnone := hfields group key hgroup
      rw [field_of_top hgroup hvalue, eq_comm, Option.map_eq_none_iff] at hnone
      exact lastAt_eq_none.mp hnone l' hl'
  · have hgroup := mergeable_of_lastAt (by rw [hfield]; exact Option.some_ne_none _)
    have hinner := hfields group key hgroup
    rw [hfield] at hinner
    have houter := at_resolve_other h (not_mergeable_dotted group key)
    rw [htop] at houter
    obtain ⟨source, hsource, hprov⟩ := hsources _ _ hinner
    obtain ⟨source', hsource', hprov'⟩ := hsources _ _ houter
    rw [hfield] at hsource
    rw [htop] at hsource'
    obtain ⟨rfl, -⟩ := Prod.mk.inj (Option.some.inj hsource)
    obtain ⟨rfl, -⟩ := Prod.mk.inj (Option.some.inj hsource')
    exact Option.some.inj (hprov.symm.trans hprov')

/-- Provenance tells the truth of the layers that fit, and of no others. -/
theorem tells_iff_fits (layers : List (Layer V)) (h : ∀ l ∈ layers, Distinct l.table) :
    Tells layers ↔ Fits layers :=
  ⟨fits_of_tells h, tells_of_fits h⟩

/-! ## A group gives way to a number -/

def userLayer : Layer Nat := ⟨.user, [("shell".toList, .table [("program".toList, .value 0)])]⟩

def workspaceLayer : Layer Nat := ⟨.workspace, [("shell".toList, .value 3)]⟩

theorem distinct_userLayer : Distinct userLayer.table := by
  refine ⟨by decide, fun key es hes => ?_⟩
  obtain ⟨-, hes⟩ := Prod.mk.inj (List.mem_singleton.mp hes)
  rw [Item.table.inj hes]
  exact List.nodup_singleton _

theorem distinct_workspaceLayer : Distinct workspaceLayer.table := by
  refine ⟨by decide, fun key es hes => ?_⟩
  obtain ⟨-, hes⟩ := Prod.mk.inj (List.mem_singleton.mp hes)
  cases hes

/-- One layer alone fits. -/
theorem tells_userLayer :
    Tells [userLayer] ↔ Fits [userLayer] :=
  tells_iff_fits [userLayer] fun l hl => by
    rw [List.mem_singleton.mp hl]
    exact distinct_userLayer

/-- The key of a field that is gone keeps its source. -/
theorem orphan_source :
    (resolve [userLayer, workspaceLayer]).2 "shell.program".toList = some .user ∧
      valueAt (resolve [userLayer, workspaceLayer]).1
        (.field "shell".toList "program".toList) = none ∧
      ¬ Tells [userLayer, workspaceLayer] := by
  have hgone : valueAt (resolve [userLayer, workspaceLayer]).1
      (.field "shell".toList "program".toList) = none := by
    rw [show [userLayer, workspaceLayer] = [userLayer] ++ [workspaceLayer] from rfl, resolve_snoc,
      at_merge_field _ distinct_workspaceLayer]
    rfl
  refine ⟨?_, hgone, fun htells => ?_⟩
  · rw [show [userLayer, workspaceLayer] = [userLayer] ++ [workspaceLayer] from rfl, resolve_snoc,
      (merge_root _ _ distinct_workspaceLayer _).2.2, if_neg (by decide),
      show [userLayer] = [] ++ [userLayer] from rfl, resolve_snoc,
      (merge_root _ _ distinct_userLayer _).2.2, if_pos (by decide)]
    rfl
  · have hlast := htells.2.2 "shell".toList "program".toList (by decide)
    rw [hgone] at hlast
    cases hlast

end Cascade

end Zesterm
