/-
Zesterm.Config.EditTheorems — what an edit costs the rest of the file.

Each writer's walk is one edit of the document's shape: `write_at` grafts
(`writeIn_spec`), `remove_in` prunes (`removeIn_spec`), and the profile
writers graft what they found. A call keeps its promise (`Keeps`) when it
fails and leaves the file, or ends and the file reads as the old document
with that one edit applied.

The writers do not keep it on a file they could not read: `write_at` and
`create_profile` take it for an empty one and replace it. Nor is an index
into a value caught. The exact condition is `Sound` (`keeps_iff`).
-/
import Zesterm.Config.PlainToml

namespace Zesterm.Config

open KeyTree

variable {V : Type}
variable {doc : Doc V}

/-- What stands at every path of a document. -/
def shapeOf (doc : Doc V) : Shape Str V := (KeyTree.Item.table doc).shape

@[simp] theorem shapeOf_root (doc : Doc V) : shapeOf doc [] = some .table := by
  simp [shapeOf, KeyTree.Item.node]

theorem shapeOf_cons (doc : Doc V) (k : Str) (p : List Str) :
    shapeOf doc (k :: p) = (find k doc).bind fun i => i.shape p :=
  shape_table_cons doc k p

theorem leaf_root (doc : Doc V) : (shapeOf doc).leaf [] = none :=
  Shape.leaf_of_table (shapeOf_root doc)

theorem rooted_shapeOf (doc : Doc V) : (shapeOf doc).Rooted := KeyTree.Item.rooted_shape _

theorem under_of_find {k : Str} {i : KeyTree.Item Str V} (h : find k doc = some i) :
    (shapeOf doc).under [k] = i.shape := by
  funext p
  rw [Shape.under, List.singleton_append, shapeOf_cons, h]
  rfl

theorem under_of_not_find {k : Str} (h : find k doc = none) :
    (shapeOf doc).under [k] = fun _ => none := by
  funext p
  rw [Shape.under, List.singleton_append, shapeOf_cons, h]
  rfl

/-- What leads to something that is there is tables. -/
theorem clear_of_there {p : List Str} (h : shapeOf doc p ≠ none) : (shapeOf doc).Clear p := by
  rintro q ⟨r, rfl⟩ hne
  refine Shape.leaf_of_table (rooted_shapeOf doc q r ?_ h)
  rintro rfl
  exact hne (List.append_nil q).symm

/-! ## Writing -/

/-- An item put under a key that is `s` there with something grafted. -/
theorem shapeOf_put {s : Shape Str V} {k : Str}
    (hs : ∀ k', k' ≠ k → ∀ q, shapeOf doc (k' :: q) = s (k' :: q)) {i : KeyTree.Item Str V}
    {p : List Str} {t : Shape Str V} (hi : i.shape = (s.under [k]).grafted p t) :
    shapeOf (put k i doc) = s.grafted (k :: p) t := by
  funext q
  cases q with
  | nil => rw [Shape.grafted_cons_nil, shapeOf_root]
  | cons k' q =>
    rw [shapeOf, shape_put]
    split
    · next hk => rw [hk, Shape.grafted_cons_self, hi]
    · next hk => rw [Shape.grafted_cons_ne _ _ hk]; exact hs k' hk q

theorem clear_cons {k : Str} {p : List Str} :
    (shapeOf doc).Clear (k :: p) ↔ ((shapeOf doc).under [k]).Clear p := by
  rw [Shape.clear_cons]
  exact and_iff_right (leaf_root doc)

/-- Under nothing as under an empty table. -/
theorem grafted_empty (p : List Str) (t : Shape Str V) :
    (shapeOf ([] : Doc V)).grafted p t = Shape.grafted (fun _ => none) p t :=
  Shape.grafted_congr p t fun _ _ => rfl

theorem clear_none (p : List Str) : Shape.Clear (fun _ => none : Shape Str V) p :=
  fun _ _ _ => rfl

theorem clear_empty (p : List Str) : (shapeOf ([] : Doc V)).Clear p := by
  intro q _ _
  cases q with
  | nil => exact leaf_root []
  | cons k q => rfl

/-- `write_at` ends unless a value is in the way, and its document is the
old one with the value at the path. -/
theorem writeIn_spec (value : KeyTree.Item Str V) (parts : List Str) (doc : Doc V)
    (hparts : parts ≠ []) :
    ((writeIn value parts doc).isSome ↔ (shapeOf doc).Clear parts) ∧
    ∀ new, writeIn value parts doc = some new →
      shapeOf new = (shapeOf doc).grafted parts value.shape ∧
        get (.table new) parts = some value := by
  fun_induction writeIn value parts doc with
  | case1 => exact absurd rfl hparts
  | case2 table last =>
    refine ⟨?_, fun new hnew => ?_⟩
    · rw [clear_cons]
      exact iff_of_true rfl (Shape.clear_nil _)
    · obtain rfl := Option.some.inj hnew
      refine ⟨shapeOf_put (fun _ _ _ => rfl) (Shape.grafted_nil _ _).symm, ?_⟩
      rw [get_table_cons, find_put, if_pos rfl]
      exact get_nil value
  | case3 table group next rest hfind ih =>
    obtain ⟨hsome, hspec⟩ := ih (by simp)
    rw [clear_cons, under_of_not_find hfind, Option.isSome_map]
    refine ⟨iff_of_true (hsome.mpr (clear_empty _)) (clear_none _), fun new hnew => ?_⟩
    obtain ⟨child, hchild, rfl⟩ := Option.map_eq_some_iff.mp hnew
    obtain ⟨hshape, hget⟩ := hspec child hchild
    refine ⟨shapeOf_put (fun _ _ _ => rfl) ?_, ?_⟩
    · rw [under_of_not_find hfind, ← grafted_empty, ← hshape]
      rfl
    · rw [get_table_cons, find_put, if_pos rfl]
      exact hget
  | case4 table group next rest child hfind ih =>
    obtain ⟨hsome, hspec⟩ := ih (by simp)
    rw [clear_cons, under_of_find hfind, Option.isSome_map]
    refine ⟨hsome, fun new hnew => ?_⟩
    obtain ⟨child', hchild, rfl⟩ := Option.map_eq_some_iff.mp hnew
    obtain ⟨hshape, hget⟩ := hspec child' hchild
    refine ⟨shapeOf_put (fun _ _ _ => rfl) ?_, ?_⟩
    · rw [under_of_find hfind]
      exact hshape
    · rw [get_table_cons, find_put, if_pos rfl]
      exact hget
  | case5 table group next rest v hfind =>
    refine ⟨?_, fun new hnew => by cases hnew⟩
    rw [clear_cons, under_of_find hfind, Shape.clear_cons]
    simp [Shape.leaf, KeyTree.Item.shape, KeyTree.Item.node]

/-! ## Removing -/

theorem shapeOf_put_pruned (k : Str) (i : KeyTree.Item Str V) (doc : Doc V) (p : List Str)
    (hi : i.shape = ((shapeOf doc).under [k]).pruned p)
    (hlone : ¬((shapeOf doc).under [k]).Lone [] p) :
    shapeOf (put k i doc) = (shapeOf doc).pruned (k :: p) := by
  funext q
  cases q with
  | nil => rw [Shape.pruned_cons_nil, shapeOf_root, shapeOf_root]
  | cons k' q =>
    rw [shapeOf, shape_put]
    split
    · next hk => rw [hk, Shape.pruned_cons_self, if_neg fun h => hlone h.2, hi]
    · next hk => rw [Shape.pruned_cons_ne _ hk]; rfl

theorem shapeOf_drop_pruned (k : Str) (doc : Doc V) (p : List Str)
    (hlone : ((shapeOf doc).under [k]).Lone [] p) :
    shapeOf (drop k doc) = (shapeOf doc).pruned (k :: p) := by
  funext q
  cases q with
  | nil => rw [Shape.pruned_cons_nil, shapeOf_root, shapeOf_root]
  | cons k' q =>
    rw [shapeOf, shape_drop]
    split
    · next hk =>
      rw [hk, Shape.pruned_cons_self]
      split
      · rfl
      · next hq => rw [Shape.pruned_eq_none_iff.mpr hlone q fun h => hq ⟨h, hlone⟩]
    · next hk => rw [Shape.pruned_cons_ne _ hk]; rfl

theorem shapeOf_drop (k : Str) (doc : Doc V) : shapeOf (drop k doc) = (shapeOf doc).pruned [k] :=
  shapeOf_drop_pruned k doc [] fun _ _ _ _ => .inr List.nil_prefix

/-- `remove_in` removes what is there, with every table it emptied. -/
theorem removeIn_spec (parts : List Str) (doc : Doc V) (hparts : parts ≠ []) :
    (removeIn parts doc).1 = (shapeOf doc parts).isSome ∧
    ((removeIn parts doc).1 = false → (removeIn parts doc).2 = doc) ∧
    ((removeIn parts doc).1 = true → shapeOf (removeIn parts doc).2 = (shapeOf doc).pruned parts) := by
  fun_induction removeIn parts doc with
  | case1 => exact absurd rfl hparts
  | case2 last table =>
    refine ⟨?_, fun hnone => ?_, fun _ => shapeOf_drop last table⟩
    · rw [shapeOf_cons, Option.isSome_bind]
      cases find last table <;> simp
    · rw [Option.isSome_eq_false_iff, Option.isNone_iff_eq_none] at hnone
      exact drop_of_not_find hnone
  | case3 head next rest table child hfind removed hemptied ih =>
    obtain ⟨hsome, -, hpruned⟩ := ih (by simp)
    refine ⟨?_, fun h => absurd h (by simp), fun _ => shapeOf_drop_pruned head table _ ?_⟩
    · rw [shapeOf_cons, hfind, ← hemptied.1, hsome]
      rfl
    · rw [under_of_find hfind, ← Shape.pruned_eq_none_iff]
      intro q hq
      obtain ⟨k, q, rfl⟩ := List.exists_cons_of_ne_nil hq
      have hchild := congrFun (hpruned hemptied.1) (k :: q)
      rw [show removed.2 = [] from hemptied.2] at hchild
      exact hchild.symm
  | case4 head next rest table child hfind removed hkept ih =>
    obtain ⟨hsome, hsame, hpruned⟩ := ih (by simp)
    refine ⟨?_, fun hnone => ?_, fun hdone => shapeOf_put_pruned head _ table _ ?_ ?_⟩
    · rw [shapeOf_cons, hfind]
      exact hsome
    · exact put_of_find (by rw [hsame hnone]; exact hfind)
    · rw [under_of_find hfind]
      exact hpruned hdone
    · rw [under_of_find hfind, ← Shape.pruned_eq_none_iff]
      intro hnone
      refine hkept ⟨hdone, (eq_nil_iff_shape _).mpr fun k q => ?_⟩
      exact (congrFun (hpruned hdone) (k :: q)).trans (hnone (k :: q) (by simp))
  | case5 head next rest table hfind =>
    have hnone : shapeOf table (head :: next :: rest) = none := by
      rw [shapeOf_cons]
      cases hhead : find head table with
      | none => rfl
      | some i =>
        cases i with
        | value v => rfl
        | table child => exact absurd hhead (hfind child)
    rw [hnone]
    exact ⟨rfl, fun _ => rfl, fun h => absurd h (by simp)⟩

/-! ## Profiles -/

theorem get_profile (doc : Doc V) (name : Str) :
    get (.table doc) [profilesKey, name] = (find profilesKey doc).bind (itemGet name) := by
  rw [get_table_cons]
  refine congrArg (Option.bind _) (funext fun i => ?_)
  cases i with
  | value v => rfl
  | table es =>
    rw [get_table_cons, itemGet]
    cases find name es <;> simp

theorem shapeOf_profile (doc : Doc V) (name : Str) :
    shapeOf doc [profilesKey, name] =
      ((find profilesKey doc).bind (itemGet name)).map KeyTree.Item.node := by
  rw [← get_profile]
  rfl

/-- `create_profile` writes an empty table where no profile is. -/
theorem createDoc_eq (name : Str) (doc : Doc V) :
    createDoc name doc =
      if shapeOf doc [profilesKey, name] = none then
        writeDoc [profilesKey, name] (.table []) doc
      else .leave := by
  have hiff : ((find profilesKey doc).bind (itemGet name)).isSome = true ↔
      ¬shapeOf doc [profilesKey, name] = none := by
    rw [shapeOf_profile, Option.map_eq_none_iff, Option.isSome_iff_ne_none]
  unfold createDoc writeDoc
  by_cases hnone : shapeOf doc [profilesKey, name] = none
  · rw [if_neg (fun h => hiff.mp h hnone), if_pos hnone, if_neg (by simp), writeIn.eq_3]
    cases hfind : find profilesKey doc with
    | none => rfl
    | some i => cases i <;> rfl
  · rw [if_pos (hiff.mpr hnone), if_neg hnone]

theorem clear_profile {profiles : Doc V} (hfind : find profilesKey doc = some (.table profiles))
    (name : Str) : (shapeOf doc).Clear [profilesKey, name] := by
  rw [clear_cons, under_of_find hfind]
  exact clear_cons.mpr (Shape.clear_nil _)

/-- `copy_profile` writes what it found at another name. -/
theorem copyDoc_eq (origin target : Str) (doc : Doc V) :
    (get (.table doc) [profilesKey, origin] = none ∧ ∃ e, copyDoc origin target doc = .fail e) ∨
      ∃ source, get (.table doc) [profilesKey, origin] = some source ∧
        (shapeOf doc).Clear [profilesKey, target] ∧
        copyDoc origin target doc = writeDoc [profilesKey, target] source doc := by
  rw [get_profile]
  unfold copyDoc writeDoc
  cases hfind : find profilesKey doc with
  | none => exact .inl ⟨rfl, _, rfl⟩
  | some i =>
    cases i with
    | value v => exact .inl ⟨rfl, _, rfl⟩
    | table profiles =>
      rw [Option.bind_some]
      cases hsource : itemGet origin (.table profiles) with
      | none => exact .inl ⟨rfl, _, rfl⟩
      | some source =>
        refine .inr ⟨source, rfl, ?_, ?_⟩
        · exact clear_profile hfind target
        · rw [if_neg (by simp), writeIn.eq_3, hfind]
          rfl

theorem shapeOf_drop_cons (k : Str) (doc : Doc V) (k' : Str) (q : List Str) :
    shapeOf (drop k doc) (k' :: q) = (shapeOf doc).cut [k] (k' :: q) := by
  rw [shapeOf, shape_drop]
  by_cases hk : k' = k
  · simp [hk, Shape.cut]
  · rw [if_neg hk, Shape.cut_cons_ne _ hk]
    rfl

/-- `rename_profile` moves what it found. -/
theorem renameDoc_spec (origin target : Str) (doc : Doc V) :
    (∃ e, renameDoc origin target doc = .fail e) ∨
      ∃ new, renameDoc origin target doc = .save new ∧
        (shapeOf doc).Clear [profilesKey, target] ∧ shapeOf new = ((shapeOf doc).cut [profilesKey, origin]).grafted [profilesKey, target]
          ((shapeOf doc).under [profilesKey, origin]) := by
  unfold renameDoc
  cases hfind : find profilesKey doc with
  | none => exact .inl ⟨_, rfl⟩
  | some i =>
    cases i with
    | value v => exact .inl ⟨_, rfl⟩
    | table profiles =>
      simp only
      split
      · exact .inl ⟨_, rfl⟩
      · cases hsource : find origin profiles with
        | none => exact .inl ⟨_, rfl⟩
        | some source =>
          have hunder : (shapeOf doc).under [profilesKey, origin] = source.shape := by
            rw [← under_of_find hsource]
            change _ = (KeyTree.Item.table profiles).shape.under [origin]
            rw [← under_of_find hfind]
            rfl
          refine .inr ⟨_, rfl, clear_profile hfind target, shapeOf_put (fun k' hk q => ?_) ?_⟩
          · exact (Shape.cut_cons_ne _ hk _ _).symm
          · rw [Shape.under_cut, under_of_find hfind, hunder]
            exact shapeOf_put (fun k' _ q => shapeOf_drop_cons origin profiles k' q)
              (Shape.grafted_nil _ _).symm

/-! ## What a call does to the document -/

/-- Take away what stands at a path, if anything does. -/
noncomputable def removed (s : Shape Str V) (p : List Str) : Shape Str V :=
  if (s p).isSome then s.pruned p else s

/-- The edit a call stands for. -/
noncomputable def Call.applied (s : Shape Str V) : Call V → Shape Str V
  | .writeValue key value => s.grafted (splitOn '.' key) value.shape
  | .writeProfileValue profile key value =>
    s.grafted (profilesKey :: profile :: splitOn '.' key) value.shape
  | .removeValue key => removed s (splitOn '.' key)
  | .removeProfileValue profile key => removed s (profilesKey :: profile :: splitOn '.' key)
  | .createProfile name =>
    if (s [profilesKey, name]).isSome then s
    else s.grafted [profilesKey, name] (KeyTree.Item.table ([] : Doc V)).shape
  | .copyProfile origin target =>
    s.grafted [profilesKey, target] (s.under [profilesKey, origin])
  | .renameProfile origin target =>
    if origin = target then s
    else (s.cut [profilesKey, origin]).grafted [profilesKey, target]
      (s.under [profilesKey, origin])
  | .removeProfile name => removed s [profilesKey, name]

/-- What the file holds, of a file that is there and reads as TOML, and of
one that is not there. -/
def Reads (toml : Toml V) : Option File → Doc V → Prop
  | none, doc => doc = []
  | some f, doc => ∃ text, readToString (some f) = .ok text ∧ toml.parse text = .ok doc

/-- A file that is there and could not be read. -/
def Unread (file : Option File) : Prop :=
  file ≠ none ∧ ∀ text, readToString file ≠ .ok text

/-- A call fails and leaves the file, or ends, and the file holds the old
document with that one edit applied. -/
def Keeps (toml : Toml V) (file : Option File) (call : Call V)
    (result : Outcome × Option File) : Prop :=
  match result.1 with
  | .panicked => False
  | .failed _ => result.2 = file
  | .done => ∃ old new, Reads toml file old ∧ Reads toml result.2 new ∧
      shapeOf new = call.applied (shapeOf old)

theorem Reads.unique {toml : Toml V} {file : Option File} {doc' : Doc V} (h : Reads toml file doc)
    (h' : Reads toml file doc') : doc = doc' := by
  cases file with
  | none => exact h.trans h'.symm
  | some f =>
    obtain ⟨text, hread, hparse⟩ := h
    obtain ⟨text', hread', hparse'⟩ := h'
    obtain rfl : text = text' := Except.ok.inj (hread.symm.trans hread')
    exact Except.ok.inj (hparse.symm.trans hparse')

theorem Reads.not_unread {toml : Toml V} {file : Option File} (h : Reads toml file doc) :
    ¬Unread file := by
  rintro ⟨hthere, hread⟩
  cases file with
  | none => exact hthere rfl
  | some f =>
    obtain ⟨text, hok, -⟩ := h
    exact hread text hok

/-- Whether a save goes through. -/
def SaveCalls.succeeds (calls : SaveCalls) : Bool :=
  calls.hasParent && calls.createDirAll.isNone && calls.create.isNone && calls.writeAll.isNone &&
    calls.syncAll.isNone && calls.rename.isNone

/-- A save that fails leaves the file; one that goes through makes it the
text, and as readable as it was. -/
theorem save_spec (file : Option File) (text : Str) (calls : SaveCalls) :
    (calls.succeeds = false ∧ ∃ e, save file text calls = (.error e, file)) ∨
      (calls.succeeds = true ∧ ∃ readable,
        save file text calls = (.ok (), some ⟨(String.ofList text).toUTF8, readable⟩) ∧
        ((∀ f, file = some f → f.readable = true) → readable = true)) := by
  obtain ⟨hasParent, direct, createDirAll, create, writeAll, syncAll, setPermissions, rename⟩ := calls
  unfold save SaveCalls.succeeds
  cases hasParent with
  | false => exact .inl ⟨rfl, _, rfl⟩
  | true =>
    cases createDirAll with
    | some e => exact .inl ⟨rfl, _, rfl⟩
    | none =>
      cases create with
      | some e => exact .inl ⟨rfl, _, rfl⟩
      | none =>
        cases writeAll with
        | some e => exact .inl ⟨rfl, _, rfl⟩
        | none =>
          cases syncAll with
          | some e => exact .inl ⟨rfl, _, rfl⟩
          | none =>
            cases rename with
            | some e => exact .inl ⟨rfl, _, rfl⟩
            | none =>
              refine .inr ⟨rfl, _, rfl, fun hreadable => ?_⟩
              cases file with
              | none => rfl
              | some f => simp [hreadable f rfl]

theorem fromUTF8_toUTF8 (s : String) : String.fromUTF8? s.toUTF8 = some s := by
  rw [String.toUTF8_eq_toByteArray, String.fromUTF8?, dif_pos s.isValidUTF8]
  rfl

theorem readToString_text (text : Str) :
    readToString (some ⟨(String.ofList text).toUTF8, true⟩) = .ok text := by
  rw [readToString, if_pos rfl]
  simp only [fromUTF8_toUTF8, String.toList_ofList]

/-! ## Each call -/

section Calls

variable {toml : Toml V} {calls : SaveCalls} {file : Option File} {call : Call V}
variable {old : Doc V} {parts : List Str}

theorem readable_of_reads {doc : Doc V} (h : Reads toml file doc) :
    ∀ f, file = some f → f.readable = true := by
  rintro f rfl
  obtain ⟨text, hread, -⟩ := h
  by_contra hmode
  rw [readToString, if_neg hmode] at hread
  cases hread

/-- Saving a document into a file that could be read. -/
theorem commit_save (hold : Reads toml file old) (doc : Doc V) :
    (calls.succeeds = false ∧ ∃ e, commit toml calls file (.save doc) = (.failed e, file)) ∨
      (calls.succeeds = true ∧ (commit toml calls file (.save doc)).1 = .done ∧
        Reads toml (commit toml calls file (.save doc)).2 doc) := by
  rw [commit]
  rcases save_spec file (toml.print doc) calls with ⟨hfails, e, hsave⟩ | ⟨hdone, readable, hsave, hmode⟩
  · rw [hsave]
    exact .inl ⟨hfails, e, rfl⟩
  · rw [hsave]
    obtain rfl := hmode (readable_of_reads hold)
    exact .inr ⟨hdone, rfl, _, readToString_text _, toml.parse_print doc⟩

theorem keeps_save {new : Doc V} (hold : Reads toml file old) :
    Keeps toml file call (commit toml calls file (.save new)) ↔
      (calls.succeeds = true → shapeOf new = call.applied (shapeOf old)) := by
  rcases commit_save hold new with ⟨hfails, e, hcommit⟩ | ⟨hdone, hend, hnew⟩
  · rw [hcommit, hfails]
    exact iff_of_true rfl fun h => by cases h
  · rw [Keeps, hend]
    constructor
    · rintro ⟨old', new', hold', hnew', hshape⟩ -
      obtain rfl := hold.unique hold'
      obtain rfl := hnew.unique hnew'
      exact hshape
    · intro hshape
      exact ⟨old, new, hold, hnew, hshape hdone⟩

theorem keeps_leave (hold : Reads toml file old) (hsame : call.applied (shapeOf old) = shapeOf old)
    :
    Keeps toml file call (commit toml calls file .leave) :=
  ⟨old, old, hold, hold, hsame.symm⟩

/-- Saving into a file that could not be read. -/
theorem keeps_unread (h : Unread file) (new : Doc V) :
    Keeps toml file call (commit toml calls file (.save new)) ↔ calls.succeeds = false := by
  rcases save_spec file (toml.print new) calls with ⟨hfails, e, hsave⟩ | ⟨hdone, readable, hsave, -⟩
  · rw [commit, hsave]
    exact iff_of_true rfl hfails
  · rw [commit, hsave, hdone]
    refine iff_of_false ?_ (by simp)
    rintro ⟨old, new', hold, -⟩
    exact hold.not_unread h

/-- A file could not be read, or holds a document, or is not TOML. -/
theorem read_cases (toml : Toml V) (file : Option File) :
    Unread file ∨ (∃ doc, Reads toml file doc) ∨
      ∃ text e, readToString file = .ok text ∧ toml.parse text = .error e := by
  cases file with
  | none => exact .inr (.inl ⟨[], rfl⟩)
  | some f =>
    cases hread : readToString (some f) with
    | error e =>
      refine .inl ⟨by simp, fun text hok => ?_⟩
      rw [hread] at hok
      cases hok
    | ok text =>
      cases hparse : toml.parse text with
      | ok doc => exact .inr (.inl ⟨doc, text, hread, hparse⟩)
      | error e => exact .inr (.inr ⟨text, e, rfl, hparse⟩)

theorem Unread.error {file : Option File} (h : Unread file) : ∃ e, readToString file = .error e := by
  cases hread : readToString file with
  | error e => exact ⟨e, rfl⟩
  | ok text => exact absurd hread (h.2 text)

/-- What is not TOML was read, but holds no document. -/
theorem not_reads {text : Str} {e : Str} (hread : readToString file = .ok text)
    (hparse : toml.parse text = .error e) : ¬Unread file ∧ ∀ doc, ¬Reads toml file doc := by
  refine ⟨fun h => h.2 text hread, fun doc hdoc => ?_⟩
  cases file with
  | none => cases hread
  | some f =>
    obtain ⟨text', hread', hparse'⟩ := hdoc
    obtain rfl := Except.ok.inj (hread.symm.trans hread')
    rw [hparse] at hparse'
    cases hparse'

theorem editText_default (hold : Reads toml file old) (edit : Doc V → Edited V) :
    editText toml calls file (readOrDefault file) edit = commit toml calls file (edit old) := by
  cases file with
  | none =>
    obtain rfl : old = [] := hold
    rw [editText, show readOrDefault none = [] from rfl, toml.parse_nil]
  | some f =>
    obtain ⟨text, hread, hparse⟩ := hold
    rw [editText, readOrDefault, hread]
    simp only [hparse]

/-- A writer that takes what it could not read for an empty file. -/
theorem keeps_default {edit : Doc V → Edited V} {P : Doc V → Prop}
    (hempty : ∃ new, edit [] = .save new)
    (hedit : ∀ doc, Reads toml file doc →
      (Keeps toml file call (commit toml calls file (edit doc)) ↔ P doc)) :
    Keeps toml file call (editText toml calls file (readOrDefault file) edit) ↔
      (Unread file → calls.succeeds = false) ∧ ∀ doc, Reads toml file doc → P doc := by
  rcases read_cases toml file with hunread | ⟨doc, hdoc⟩ | ⟨text, e, hread, hparse⟩
  · obtain ⟨e, hread⟩ := hunread.error
    obtain ⟨new, hnew⟩ := hempty
    rw [editText, readOrDefault, hread]
    simp only [toml.parse_nil, hnew]
    rw [keeps_unread hunread]
    exact ⟨fun h => ⟨fun _ => h, fun doc hdoc => absurd hunread hdoc.not_unread⟩,
      fun h => h.1 hunread⟩
  · rw [editText_default hdoc, hedit doc hdoc]
    constructor
    · intro h
      refine ⟨fun hunread => absurd hunread hdoc.not_unread, fun doc' hdoc' => ?_⟩
      obtain rfl := hdoc.unique hdoc'
      exact h
    · rintro ⟨-, hall⟩
      exact hall doc hdoc
  · obtain ⟨hunread, hreads⟩ := not_reads hread hparse
    rw [editText, readOrDefault, hread]
    simp only [hparse]
    exact iff_of_true rfl ⟨fun h => absurd h hunread, fun doc hdoc => absurd hdoc (hreads doc)⟩

/-- A writer that stops at what it could not read. -/
theorem keeps_text {text : Str} {edit : Doc V → Edited V} (hread : readToString file = .ok text)
    (hedit : ∀ doc, Reads toml file doc →
      Keeps toml file call (commit toml calls file (edit doc))) :
    Keeps toml file call (editText toml calls file text edit) := by
  unfold editText
  cases hparse : toml.parse text with
  | error e => rfl
  | ok doc =>
    refine hedit doc ?_
    cases file with
    | none => cases hread
    | some f => exact ⟨text, hread, hparse⟩

theorem keeps_writeDoc {doc : Doc V} (hdoc : Reads toml file doc) {value : KeyTree.Item Str V}
    (hparts : parts ≠ [])
    (happlied : call.applied (shapeOf doc) = (shapeOf doc).grafted parts value.shape) :
    Keeps toml file call (commit toml calls file (writeDoc parts value doc)) ↔
      (shapeOf doc).Clear parts := by
  obtain ⟨hclear, hspec⟩ := writeIn_spec value parts doc hparts
  rw [writeDoc, if_neg hparts, ← hclear]
  cases hnew : writeIn value parts doc with
  | none => exact iff_of_false (fun h => h) (by simp)
  | some new =>
    refine iff_of_true ((keeps_save hdoc).mpr fun _ => ?_) rfl
    rw [happlied]
    exact (hspec new hnew).1

/-- `write_at` and its callers. -/
theorem keeps_writeAt {value : KeyTree.Item Str V} (hparts : parts ≠ [])
    (happlied : ∀ s, call.applied s = s.grafted parts value.shape) :
    Keeps toml file call (writeAt toml calls file parts value) ↔
      (Unread file → calls.succeeds = false) ∧
        ∀ doc, Reads toml file doc → (shapeOf doc).Clear parts := by
  refine keeps_default ?_ fun doc hdoc => keeps_writeDoc hdoc hparts (happlied _)
  obtain ⟨new, hnew⟩ := Option.isSome_iff_exists.mp
    ((writeIn_spec value parts ([] : Doc V) hparts).1.mpr (clear_empty parts))
  exact ⟨new, by rw [writeDoc, if_neg hparts, hnew]⟩

/-- What `remove_at` makes of a document. -/
theorem removeDoc_spec (parts : List Str) (doc : Doc V) (hparts : parts ≠ []) :
    removeDoc parts doc = .leave ∧ removed (shapeOf doc) parts = shapeOf doc ∨
      ∃ new, removeDoc parts doc = .save new ∧ shapeOf new = removed (shapeOf doc) parts := by
  obtain ⟨hsome, -, hpruned⟩ := removeIn_spec parts doc hparts
  simp only [removeDoc, removed, ← hsome]
  split
  · next hdone => exact .inr ⟨_, rfl, hpruned hdone⟩
  · exact .inl ⟨rfl, rfl⟩

theorem removeAt_of_reads (hold : Reads toml file old) (hparts : parts ≠ []) :
    removeAt toml calls file parts = commit toml calls file (removeDoc parts old) := by
  cases file with
  | none =>
    obtain rfl : old = [] := hold
    have hnone : (removeIn parts ([] : Doc V)).1 = false := by
      obtain ⟨k, p, rfl⟩ := List.exists_cons_of_ne_nil hparts
      rw [(removeIn_spec (k :: p) ([] : Doc V) hparts).1]
      rfl
    rw [removeDoc, hnone]
    rfl
  | some f =>
    obtain ⟨text, hread, hparse⟩ := hold
    rw [removeAt, hread]
    simp only [editText, hparse]

/-- `remove_at` and its callers. -/
theorem keeps_removeAt (hparts : parts ≠ []) (happlied : ∀ s, call.applied s = removed s parts) :
    Keeps toml file call (removeAt toml calls file parts) ↔ ¬Unread file := by
  rcases read_cases toml file with hunread | ⟨doc, hdoc⟩ | ⟨text, e, hread, hparse⟩
  · obtain ⟨e, hread⟩ := hunread.error
    rw [removeAt, hread]
    refine iff_of_false ?_ fun h => h hunread
    rintro ⟨old, new, hold, -⟩
    exact hold.not_unread hunread
  · rw [removeAt_of_reads hdoc hparts]
    refine iff_of_true ?_ hdoc.not_unread
    rcases removeDoc_spec parts doc hparts with ⟨hleave, hsame⟩ | ⟨new, hsave, hshape⟩
    · rw [hleave]
      exact keeps_leave hdoc ((happlied _).trans hsame)
    · rw [hsave]
      exact (keeps_save hdoc).mpr fun _ => hshape.trans (happlied _).symm
  · rw [removeAt, hread]
    simp only [editText, hparse]
    exact iff_of_true rfl (not_reads hread hparse).1

theorem keeps_createProfile {name : Str} :
    Keeps toml file (.createProfile name) (createProfile toml calls file name) ↔
      (Unread file → calls.succeeds = false) ∧
        ∀ doc, Reads toml file doc → (shapeOf doc).Clear [profilesKey, name] := by
  refine keeps_default ?_ fun doc hdoc => ?_
  · exact ⟨_, by rw [createDoc, if_neg (by simp), find_nil]⟩
  · rw [createDoc_eq]
    by_cases hnone : shapeOf doc [profilesKey, name] = none
    · rw [if_pos hnone]
      refine keeps_writeDoc hdoc (by simp) ?_
      rw [Call.applied, hnone]
      rfl
    · rw [if_neg hnone]
      refine iff_of_true (keeps_leave hdoc ?_) (clear_of_there hnone)
      rw [Call.applied, if_pos (Option.isSome_iff_ne_none.mpr hnone)]

theorem keeps_copyProfile {origin target : Str} :
    Keeps toml file (.copyProfile origin target) (copyProfile toml calls file origin target) := by
  unfold copyProfile
  cases hread : readToString file with
  | error e => rfl
  | ok text =>
    refine keeps_text hread fun doc hdoc => ?_
    rcases copyDoc_eq origin target doc with ⟨-, e, hfail⟩ | ⟨source, hsource, hclear, hcopy⟩
    · rw [hfail]
      rfl
    · rw [hcopy]
      refine (keeps_writeDoc hdoc (by simp) ?_).mpr hclear
      rw [Call.applied]
      congr 1
      funext q
      exact shape_append hsource q

theorem keeps_renameProfile {origin target : Str} :
    Keeps toml file (.renameProfile origin target) (renameProfile toml calls file origin target) ↔
      (origin = target → ∃ doc, Reads toml file doc) := by
  unfold renameProfile
  by_cases hsame : origin = target
  · rw [if_pos hsame]
    constructor
    · rintro ⟨old, new, hold, -⟩ -
      exact ⟨old, hold⟩
    · intro h
      obtain ⟨doc, hdoc⟩ := h hsame
      exact ⟨doc, doc, hdoc, hdoc, by rw [Call.applied, if_pos hsame]⟩
  · rw [if_neg hsame]
    refine iff_of_true ?_ fun h => absurd h hsame
    cases hread : readToString file with
    | error e => rfl
    | ok text =>
      refine keeps_text hread fun doc hdoc => ?_
      rcases renameDoc_spec origin target doc with ⟨e, hfail⟩ | ⟨new, hnew, -, hshape⟩
      · rw [hfail]
        rfl
      · rw [hnew]
        refine (keeps_save hdoc).mpr fun _ => ?_
        rw [Call.applied, if_neg hsame]
        exact hshape

end Calls

/-- The calls that keep the rest of the file. -/
def Sound (toml : Toml V) (calls : SaveCalls) (file : Option File) : Call V → Prop
  | .writeValue key _ => Writes (splitOn '.' key)
  | .writeProfileValue profile key _ => Writes (profilesKey :: profile :: splitOn '.' key)
  | .createProfile name => Writes [profilesKey, name]
  | .removeValue _ | .removeProfileValue _ _ | .removeProfile _ => ¬Unread file
  | .copyProfile _ _ => True
  | .renameProfile origin target => origin = target → ∃ doc, Reads toml file doc
where
  /-- What could not be read is not saved over, and no value is on the way. -/
  Writes (parts : List Str) : Prop :=
    (Unread file → calls.succeeds = false) ∧
      ∀ doc, Reads toml file doc → (shapeOf doc).Clear parts

theorem splitOn_ne_nil (sep : Char) (s : Str) : splitOn sep s ≠ [] := by
  cases s with
  | nil => simp [splitOn]
  | cons c cs =>
    rw [splitOn]
    split
    · simp
    · split <;> simp

/-- A call costs nothing of the rest of the file exactly when it is
sound. -/
theorem keeps_iff (toml : Toml V) (calls : SaveCalls) (file : Option File) (call : Call V) :
    Keeps toml file call (run toml calls file call) ↔ Sound toml calls file call := by
  cases call with
  | writeValue key value => exact keeps_writeAt (splitOn_ne_nil _ _) fun _ => rfl
  | writeProfileValue profile key value => exact keeps_writeAt (by simp) fun _ => rfl
  | removeValue key => exact keeps_removeAt (splitOn_ne_nil _ _) fun _ => rfl
  | removeProfileValue profile key => exact keeps_removeAt (by simp) fun _ => rfl
  | createProfile name => exact keeps_createProfile
  | copyProfile origin target => exact iff_of_true keeps_copyProfile trivial
  | renameProfile origin target => exact keeps_renameProfile
  | removeProfile name => exact keeps_removeAt (by simp) fun _ => rfl

/-- Calls that all go through. -/
def goesThrough : SaveCalls := ⟨true, ⟨.other, []⟩, none, none, none, none, true, none⟩

/-- A file with a comment in Latin-1. -/
def latin1 : File := ⟨⟨#[0x23, 0x20, 0x63, 0x61, 0x66, 0xE9, 0x0A]⟩, true⟩

/-- One write replaces it. -/
theorem not_keeps_latin1 :
    (run PlainToml.toml goesThrough (some latin1)
        (.writeValue "cursor.blink".toList (.value false))).2 =
      some ⟨"cursor = { blink = false }\n".toUTF8, true⟩ ∧
    ¬Keeps PlainToml.toml (some latin1) (.writeValue "cursor.blink".toList (.value false))
      (run PlainToml.toml goesThrough (some latin1)
        (.writeValue "cursor.blink".toList (.value false))) := by
  refine ⟨by decide +kernel, ?_⟩
  have hdone : (run PlainToml.toml goesThrough (some latin1)
      (.writeValue "cursor.blink".toList (.value false))).1 = .done := by decide +kernel
  rw [Keeps, hdone]
  rintro ⟨old, new, ⟨text, hread, -⟩, -⟩
  have hnone : readToString (some latin1) =
      .error ⟨.invalidData, "stream did not contain valid UTF-8".toList⟩ := by decide +kernel
  rw [hnone] at hread
  cases hread

end Zesterm.Config
