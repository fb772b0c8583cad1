/-
Zesterm.Config.LocalTheorems — edits one after another.

A run is any list of calls on one file, each with how its save goes. Of a
call that ends on a file that holds a document, the document afterwards is
the old one with the call's edit (`shapeOf_done`), so what was written reads
back, every other key keeps its value, and setting a key that was absent and
resetting it gives every value back.

The profiles are another matter. `remove_in` prunes whatever the removal
emptied, and a profile whose last override is reset goes with it, also one
that `create_profile` made. `local_iff` says which calls do that.
-/
import Zesterm.Config.EditTheorems
import Zesterm.Lib.Trace

namespace Zesterm.Config

open KeyTree

variable {V : Type}

/-! ## Runs -/

/-- One call on the file. -/
def step (toml : Toml V) (file : Option File) (request : Call V × SaveCalls) :
    Option File × Outcome :=
  ((run toml request.2 file request.1).2, (run toml request.2 file request.1).1)

/-- A call of a run, the file it found and how it ended. -/
abbrev Made (V : Type) := Trace.Entry (Option File) (Call V × SaveCalls) Outcome

/-- A call that ended, on a file that held one document and holds another. -/
structure Did (toml : Toml V) (e : Made V) (old new : Doc V) : Prop where
  found : Reads toml e.state old
  left : Reads toml (step toml e.state e.call).1 new
  done : e.reply = .done

/-- What a call writes, and where. -/
def Call.written : Call V → Option (List Str × KeyTree.Item Str V)
  | .writeValue key value => some (splitOn '.' key, value)
  | .writeProfileValue profile key value => some (profilesKey :: profile :: splitOn '.' key, value)
  | _ => none

/-- What a call resets. -/
def Call.unset : Call V → Option (List Str)
  | .removeValue key => some (splitOn '.' key)
  | .removeProfileValue profile key => some (profilesKey :: profile :: splitOn '.' key)
  | .removeProfile name => some [profilesKey, name]
  | _ => none

/-- The keys whose values a call is about. -/
def Call.Touches (q : List Str) : Call V → Prop
  | .writeValue key _ => splitOn '.' key <+: q
  | .writeProfileValue profile key _ => profilesKey :: profile :: splitOn '.' key <+: q
  | .removeValue key => splitOn '.' key <+: q
  | .removeProfileValue profile key => profilesKey :: profile :: splitOn '.' key <+: q
  | .createProfile _ => False
  | .copyProfile _ target => [profilesKey, target] <+: q
  | .renameProfile origin target => [profilesKey, origin] <+: q ∨ [profilesKey, target] <+: q
  | .removeProfile name => [profilesKey, name] <+: q

/-- The profiles a call may add or take away: those it names, and by a write
the one whose first value it is. -/
def Call.MayChange (old : Doc V) (name : Str) : Call V → Prop
  | .createProfile created => name = created
  | .copyProfile _ target => name = target
  | .renameProfile origin target => name = origin ∨ name = target
  | .removeProfile gone => name = gone
  | .writeProfileValue profile _ _ => name = profile ∧ name ∉ listProfiles old
  | .writeValue key _ => [profilesKey, name] <+: splitOn '.' key ∧ name ∉ listProfiles old
  | .removeValue _ | .removeProfileValue _ _ => False

/-- Edits are local, and a reset undoes the write it follows. -/
structure Lawful (toml : Toml V) (h : List (Made V)) : Prop where
  readBack : ∀ e ∈ h, ∀ old new, Did toml e old new →
    ∀ p value, e.call.1.written = some (p, value) → get (.table new) p = some value
  others : ∀ e ∈ h, ∀ old new, Did toml e old new →
    ∀ q, ¬e.call.1.Touches q → (shapeOf new).leaf q = (shapeOf old).leaf q
  profiles : ∀ e ∈ h, ∀ old new, Did toml e old new →
    ∀ name, e.call.1.MayChange old name ∨ (name ∈ listProfiles new ↔ name ∈ listProfiles old)
  undone : ∀ before e f after, h = before ++ e :: f :: after →
    ∀ old mid new, Did toml e old mid → Did toml f mid new →
      ∀ p value, e.call.1.written = some (p, value) → f.call.1.unset = some p →
        shapeOf old p = none → (shapeOf new).leaf = (shapeOf old).leaf

/-- Taking away what stands at `p` takes the profile away. -/
def Takes (s : Shape Str V) (p : List Str) (name : Str) : Prop :=
  s p ≠ none ∧ (p <+: [profilesKey, name] ∨
    [profilesKey, name] <+: p ∧ s.Lone [profilesKey, name] p)

/-- The calls that spare the profiles they do not name: a reset that takes
none away, and a write of the table of profiles as a whole that lists the
same. -/
def Call.Spares (old : Doc V) : Call V → Prop
  | .writeValue key value => splitOn '.' key = [profilesKey] →
      ∀ name, name ∈ listProfiles [(profilesKey, value)] ↔ name ∈ listProfiles old
  | .removeValue key => ∀ name ∈ listProfiles old, ¬Takes (shapeOf old) (splitOn '.' key) name
  | .removeProfileValue profile key => ∀ name ∈ listProfiles old,
      ¬Takes (shapeOf old) (profilesKey :: profile :: splitOn '.' key) name
  | _ => True

/-- A call whose save goes through spares the profiles. -/
def Spares (toml : Toml V) (e : Made V) : Prop :=
  e.call.2.succeeds = true → ∀ old, Reads toml e.state old → e.call.1.Spares old

/-! ## One call -/

/-- The profiles are the names something stands at. -/
theorem mem_listProfiles {doc : Doc V} {name : Str} :
    name ∈ listProfiles doc ↔
      name ≠ "defaults".toList ∧ shapeOf doc [profilesKey, name] ≠ none := by
  rw [shapeOf_profile]
  unfold listProfiles
  cases hfind : find profilesKey doc with
  | none => simp
  | some i =>
    cases i with
    | value v => simp [itemGet]
    | table profiles =>
      simp only [Option.bind_some, itemGet, List.mem_filter, mem_keys_iff, decide_eq_true_eq, ne_eq,
        Option.map_eq_none_iff]
      exact and_comm

section Done

variable {toml : Toml V} {calls : SaveCalls} {file : Option File} {old new : Doc V}
variable {parts : List Str}

/-- How a call ended on a file that held a document: it left the file, or
it saved a document. -/
theorem commit_done (hold : Reads toml file old) {edited : Edited V}
    (hdone : (commit toml calls file edited).1 = .done)
    (hnew : Reads toml (commit toml calls file edited).2 new) :
    edited = .leave ∧ new = old ∨ edited = .save new ∧ calls.succeeds = true := by
  cases edited with
  | save doc =>
    rcases commit_save hold doc with ⟨-, e, hfailed⟩ | ⟨hsucceeds, -, hdoc⟩
    · rw [hfailed] at hdone
      cases hdone
    · rw [hdoc.unique hnew]
      exact .inr ⟨rfl, hsucceeds⟩
  | leave => exact .inl ⟨rfl, hnew.unique hold⟩
  | fail | panicked => cases hdone

/-- A write that ended: no value was in its way, and what it wrote is
there. -/
theorem writeAt_done (hold : Reads toml file old) {value : KeyTree.Item Str V} (hparts : parts ≠ [])
    (hdone : (writeAt toml calls file parts value).1 = .done)
    (hnew : Reads toml (writeAt toml calls file parts value).2 new) :
    calls.succeeds = true ∧ (shapeOf old).Clear parts ∧
      shapeOf new = (shapeOf old).grafted parts value.shape ∧ get (.table new) parts = some value := by
  rw [writeAt, editText_default hold] at hdone hnew
  obtain ⟨hclear, hspec⟩ := writeIn_spec value parts old hparts
  have hedited := commit_done hold hdone hnew
  rw [writeDoc, if_neg hparts] at hedited
  cases hwrite : writeIn value parts old with
  | none => simp [hwrite] at hedited
  | some doc =>
    rw [hwrite] at hedited
    obtain ⟨rfl, hsucceeds⟩ : doc = new ∧ calls.succeeds = true := by simpa using hedited
    exact ⟨hsucceeds, hclear.mp (by rw [hwrite]; rfl), hspec doc hwrite⟩

/-- A write with no value in its way ends when its save does. -/
theorem writeAt_ends (hold : Reads toml file old) {value : KeyTree.Item Str V} (hparts : parts ≠ [])
    (hclear : (shapeOf old).Clear parts) (hsucceeds : calls.succeeds = true) :
    ∃ new, (writeAt toml calls file parts value).1 = .done ∧
      Reads toml (writeAt toml calls file parts value).2 new := by
  obtain ⟨new, hwrite⟩ := Option.isSome_iff_exists.mp
    ((writeIn_spec value parts old hparts).1.mpr hclear)
  rw [writeAt, editText_default hold, writeDoc, if_neg hparts, hwrite]
  rcases commit_save hold new with ⟨hfails, -⟩ | ⟨-, hdone, hnew⟩
  · rw [hsucceeds] at hfails
    cases hfails
  · exact ⟨new, hdone, hnew⟩

/-- A removal that ended. -/
theorem removeAt_done (hold : Reads toml file old) (hparts : parts ≠ [])
    (hdone : (removeAt toml calls file parts).1 = .done)
    (hnew : Reads toml (removeAt toml calls file parts).2 new) :
    shapeOf new = removed (shapeOf old) parts ∧ (new = old ∨ calls.succeeds = true) := by
  rw [removeAt_of_reads hold hparts] at hdone hnew
  rcases removeDoc_spec parts old hparts with ⟨hleave, hsame⟩ | ⟨doc, hsave, hshape⟩
  · rw [hleave] at hnew
    have heq : new = old := hnew.unique hold
    exact ⟨by rw [heq, hsame], .inl heq⟩
  · rw [hsave] at hdone hnew
    rcases commit_done hold hdone hnew with ⟨h, -⟩ | ⟨h, hsucceeds⟩
    · cases h
    · exact ⟨by rw [← Edited.save.inj h, hshape], .inr hsucceeds⟩

theorem removeAt_ends (hold : Reads toml file old) (hparts : parts ≠ [])
    (hsucceeds : calls.succeeds = true) :
    ∃ new, (removeAt toml calls file parts).1 = .done ∧
      Reads toml (removeAt toml calls file parts).2 new := by
  rw [removeAt_of_reads hold hparts]
  rcases removeDoc_spec parts old hparts with ⟨hleave, -⟩ | ⟨new, hsave, -⟩
  · rw [hleave]
    exact ⟨old, rfl, hold⟩
  · rw [hsave]
    rcases commit_save hold new with ⟨hfails, -⟩ | ⟨-, hdone, hnew⟩
    · rw [hsucceeds] at hfails
      cases hfails
    · exact ⟨new, hdone, hnew⟩

theorem createProfile_done (hold : Reads toml file old) {name : Str}
    (hdone : (createProfile toml calls file name).1 = .done)
    (hnew : Reads toml (createProfile toml calls file name).2 new) :
    new = old ∨ shapeOf old [profilesKey, name] = none ∧ (shapeOf old).Clear [profilesKey, name] ∧
      shapeOf new =
        (shapeOf old).grafted [profilesKey, name] (KeyTree.Item.table ([] : Doc V)).shape := by
  rw [createProfile, editText_default hold, createDoc_eq] at hdone hnew
  split at hdone
  · next hnone =>
    rw [if_pos hnone] at hnew
    have hat : writeAt toml calls file [profilesKey, name] (.table []) =
        commit toml calls file (writeDoc [profilesKey, name] (.table []) old) :=
      editText_default hold _
    rw [← hat] at hdone hnew
    obtain ⟨-, hclear, hshape, -⟩ := writeAt_done hold (by simp) hdone hnew
    exact .inr ⟨hnone, hclear, hshape⟩
  · next hthere =>
    rw [if_neg hthere] at hnew
    exact .inl (hnew.unique hold)

theorem copyProfile_done (hold : Reads toml file old) {origin target : Str}
    (hdone : (copyProfile toml calls file origin target).1 = .done)
    (hnew : Reads toml (copyProfile toml calls file origin target).2 new) :
    (shapeOf old).Clear [profilesKey, target] ∧ ∃ source : KeyTree.Item Str V,
      shapeOf new = (shapeOf old).grafted [profilesKey, target] source.shape := by
  cases file with
  | none => cases hdone
  | some f =>
    obtain ⟨text, hread, hparse⟩ := id hold
    rw [copyProfile, hread] at hdone hnew
    simp only [editText, hparse] at hdone hnew
    rcases copyDoc_eq origin target old with ⟨-, e, hfail⟩ | ⟨source, -, hclear, hcopy⟩
    · rw [hfail] at hdone
      cases hdone
    · rw [hcopy] at hdone hnew
      have hat : writeAt toml calls (some f) [profilesKey, target] source =
          commit toml calls (some f) (writeDoc [profilesKey, target] source old) :=
        editText_default hold _
      rw [← hat] at hdone hnew
      exact ⟨hclear, source, (writeAt_done hold (by simp) hdone hnew).2.2.1⟩

theorem renameProfile_done (hold : Reads toml file old) {origin target : Str}
    (hdone : (renameProfile toml calls file origin target).1 = .done)
    (hnew : Reads toml (renameProfile toml calls file origin target).2 new) :
    new = old ∨ (shapeOf old).Clear [profilesKey, target] ∧
      shapeOf new = ((shapeOf old).cut [profilesKey, origin]).grafted [profilesKey, target]
        ((shapeOf old).under [profilesKey, origin]) := by
  unfold renameProfile at hdone hnew
  split at hdone
  · next hsame =>
    rw [if_pos hsame] at hnew
    exact .inl (hnew.unique hold)
  · next hne =>
    rw [if_neg hne] at hnew
    cases file with
    | none => cases hdone
    | some f =>
      obtain ⟨text, hread, hparse⟩ := id hold
      rw [hread] at hdone hnew
      simp only [editText, hparse] at hdone hnew
      rcases renameDoc_spec origin target old with ⟨e, hfail⟩ | ⟨doc, hsave, hclear, hshape⟩
      · rw [hfail] at hdone
        cases hdone
      · rw [hsave] at hdone hnew
        rcases commit_done hold hdone hnew with ⟨h, -⟩ | ⟨h, -⟩
        · cases h
        · rw [← Edited.save.inj h]
          exact .inr ⟨hclear, hshape⟩

end Done

variable {p : List Str} {value : KeyTree.Item Str V} {new old : Doc V}

theorem run_of_written (toml : Toml V) (calls : SaveCalls) (file : Option File) {call : Call V}
    (h : call.written = some (p, value)) :
    p ≠ [] ∧ run toml calls file call = writeAt toml calls file p value := by
  cases call with
  | writeValue key value' =>
    obtain ⟨rfl, rfl⟩ := Prod.mk.inj (Option.some.inj h)
    exact ⟨splitOn_ne_nil _ _, rfl⟩
  | writeProfileValue profile key value' =>
    obtain ⟨rfl, rfl⟩ := Prod.mk.inj (Option.some.inj h)
    exact ⟨by simp, rfl⟩
  | removeValue | removeProfileValue | createProfile | copyProfile | renameProfile
  | removeProfile => cases h

theorem run_of_unset (toml : Toml V) (calls : SaveCalls) (file : Option File) {call : Call V}
    (h : call.unset = some p) : p ≠ [] ∧ run toml calls file call = removeAt toml calls file p := by
  cases call with
  | removeValue key =>
    obtain rfl := Option.some.inj h
    exact ⟨splitOn_ne_nil _ _, rfl⟩
  | removeProfileValue | removeProfile =>
    obtain rfl := Option.some.inj h
    exact ⟨by simp, rfl⟩
  | writeValue | writeProfileValue | createProfile | copyProfile | renameProfile => cases h

/-! ## Values -/

theorem leaf_removed {doc : Doc V} {q : List Str} (hq : ¬p <+: q) :
    (removed (shapeOf doc) p).leaf q = (shapeOf doc).leaf q := by
  rw [removed]
  split
  · next hp =>
    exact Shape.leaf_pruned (rooted_shapeOf doc) (Option.isSome_iff_ne_none.mp hp) hq
  · rfl

/-- Every call leaves the values it is not about. -/
theorem leaf_done {toml : Toml V} {calls : SaveCalls} {file : Option File} {call : Call V}
    (hold : Reads toml file old) (hdone : (run toml calls file call).1 = .done)
    (hnew : Reads toml (run toml calls file call).2 new) {q : List Str} (hq : ¬call.Touches q) :
    (shapeOf new).leaf q = (shapeOf old).leaf q := by
  cases call with
  | writeValue key value =>
    obtain ⟨-, hclear, hshape, -⟩ := writeAt_done hold (splitOn_ne_nil _ _) hdone hnew
    rw [hshape, Shape.leaf_grafted hclear _ hq]
  | writeProfileValue profile key value =>
    obtain ⟨-, hclear, hshape, -⟩ := writeAt_done hold (by simp) hdone hnew
    rw [hshape, Shape.leaf_grafted hclear _ hq]
  | removeValue key => rw [(removeAt_done hold (splitOn_ne_nil _ _) hdone hnew).1, leaf_removed hq]
  | removeProfileValue | removeProfile =>
    rw [(removeAt_done hold (by simp) hdone hnew).1, leaf_removed hq]
  | createProfile name =>
    rcases createProfile_done hold hdone hnew with rfl | ⟨hnone, hclear, hshape⟩
    · rfl
    · rw [hshape]
      by_cases hunder : [profilesKey, name] <+: q
      · obtain ⟨r, rfl⟩ := hunder
        have hr : shapeOf old ([profilesKey, name] ++ r) = none := shape_append_none hnone r
        rw [Shape.leaf_of_none hr, Shape.leaf, Shape.grafted_append]
        cases r with
        | nil => rfl
        | cons k r => rfl
      · exact Shape.leaf_grafted hclear _ hunder
  | copyProfile origin target =>
    obtain ⟨hclear, source, hshape⟩ := copyProfile_done hold hdone hnew
    rw [hshape, Shape.leaf_grafted hclear _ hq]
  | renameProfile origin target =>
    rcases renameProfile_done hold hdone hnew with rfl | ⟨hclear, hshape⟩
    · rfl
    · obtain ⟨horigin, htarget⟩ := not_or.mp hq
      have hcut : ∀ r, ¬[profilesKey, origin] <+: r →
          ((shapeOf old).cut [profilesKey, origin]).leaf r = (shapeOf old).leaf r := by
        intro r hr
        exact Shape.leaf_of_eq (by rw [Shape.cut, if_neg hr])
      rw [hshape, Shape.leaf_grafted (fun r hr hne => ?_) _ htarget, hcut q horigin]
      by_cases hor : [profilesKey, origin] <+: r
      · exact Shape.leaf_of_none (by rw [Shape.cut, if_pos hor])
      · rw [hcut r hor, hclear r hr hne]

/-! ## Profiles -/

theorem mem_congr {name : Str}
    (h : shapeOf new [profilesKey, name] = shapeOf old [profilesKey, name]) :
    name ∈ listProfiles new ↔ name ∈ listProfiles old := by
  rw [mem_listProfiles, mem_listProfiles, h]

/-- Of two paths that are neither on the way to the other, an edit at one
leaves the other. -/
theorem grafted_apart {s t : Shape Str V} {q : List Str} (hpq : ¬p <+: q) (hqp : ¬q <+: p) :
    s.grafted p t q = s q := by
  rw [Shape.grafted, if_neg hpq, if_neg hqp]

theorem apart {name other : Str} (hne : name ≠ other) :
    ¬[profilesKey, other] <+: [profilesKey, name] := by
  simp [List.cons_prefix_cons, Ne.symm hne]

/-- A write below a profile's name adds that profile and no other. -/
theorem mem_written (hp : p ≠ [profilesKey]) (hparts : p ≠ [])
    (hshape : shapeOf new = (shapeOf old).grafted p value.shape) (name : Str) :
    ([profilesKey, name] <+: p ∧ name ∉ listProfiles old) ∨
      (name ∈ listProfiles new ↔ name ∈ listProfiles old) := by
  by_cases hname : [profilesKey, name] <+: p
  · by_cases hmem : name ∈ listProfiles old
    · refine .inr (iff_of_true (mem_listProfiles.mpr ⟨(mem_listProfiles.mp hmem).1, ?_⟩) hmem)
      rw [hshape, Shape.grafted]
      split
      · next hunder =>
        rw [hname.eq_of_length_le hunder.length_le, List.drop_length]
        simp
      · simp
    · exact .inl ⟨hname, hmem⟩
  · refine .inr (mem_congr ?_)
    rw [hshape]
    refine grafted_apart (fun hunder => ?_) hname
    rcases p with _ | ⟨k, _ | ⟨k', rest⟩⟩
    · exact hparts rfl
    · obtain ⟨rfl, -⟩ := List.cons_prefix_cons.mp hunder
      exact hp rfl
    · obtain ⟨rfl, htail⟩ := List.cons_prefix_cons.mp hunder
      obtain ⟨rfl, hrest⟩ := List.cons_prefix_cons.mp htail
      rw [List.prefix_nil.mp hrest] at hname
      exact hname (List.prefix_refl _)

/-- A removal takes away the profiles it takes with it, and no other. -/
theorem mem_removed (hshape : shapeOf new = removed (shapeOf old) p) (name : Str) :
    name ∈ listProfiles new ↔ name ∈ listProfiles old ∧ ¬Takes (shapeOf old) p name := by
  rw [mem_listProfiles, mem_listProfiles, hshape, removed, and_assoc]
  refine and_congr_right fun _ => ?_
  cases hp : shapeOf old p with
  | none => simp [Takes, hp]
  | some n =>
    rw [Option.isSome_some, if_pos rfl, Shape.pruned, Takes, hp]
    by_cases hunder : p <+: [profilesKey, name]
    · simp [hunder]
    · by_cases hlone : [profilesKey, name] <+: p ∧ (shapeOf old).Lone [profilesKey, name] p
      · simp [hunder, hlone]
      · simp [hunder, hlone]

theorem mem_writtenWhole (hshape : shapeOf new = (shapeOf old).grafted [profilesKey] value.shape)
    (name : Str) : name ∈ listProfiles new ↔ name ∈ listProfiles [(profilesKey, value)] := by
  refine mem_congr ?_
  rw [hshape]
  refine (Shape.grafted_append _ _ [profilesKey] [name]).trans ?_
  rw [shapeOf_cons, find, if_pos rfl]
  rfl

section Profiles

variable {toml : Toml V} {calls : SaveCalls} {file : Option File} {old new : Doc V} {call : Call V}

/-- A call that spares the profiles changes those it may. -/
theorem profiles_done (hold : Reads toml file old) (hdone : (run toml calls file call).1 = .done)
    (hnew : Reads toml (run toml calls file call).2 new)
    (hspares : calls.succeeds = true → call.Spares old) (name : Str) :
    call.MayChange old name ∨ (name ∈ listProfiles new ↔ name ∈ listProfiles old) := by
  have hreset : ∀ {p : List Str}, shapeOf new = removed (shapeOf old) p →
      (new = old ∨ calls.succeeds = true) →
      (calls.succeeds = true → name ∈ listProfiles old → ¬Takes (shapeOf old) p name) →
      (name ∈ listProfiles new ↔ name ∈ listProfiles old) := by
    rintro p hshape (rfl | hsucceeds) hall
    · rfl
    · rw [mem_removed hshape, and_iff_left_iff_imp]
      exact hall hsucceeds
  cases call with
  | writeValue key value =>
    obtain ⟨hsucceeds, -, hshape, -⟩ := writeAt_done hold (splitOn_ne_nil _ _) hdone hnew
    by_cases hwhole : splitOn '.' key = [profilesKey]
    · rw [hwhole] at hshape
      exact .inr ((mem_writtenWhole hshape name).trans (hspares hsucceeds hwhole name))
    · exact mem_written hwhole (splitOn_ne_nil _ _) hshape name
  | writeProfileValue profile key value =>
    obtain ⟨-, -, hshape, -⟩ := writeAt_done hold (by simp) hdone hnew
    refine (mem_written (by simp) (by simp) hshape name).imp_left fun h => ⟨?_, h.2⟩
    simpa [List.cons_prefix_cons] using h.1
  | removeValue key =>
    obtain ⟨hshape, hor⟩ := removeAt_done hold (splitOn_ne_nil _ _) hdone hnew
    exact .inr (hreset hshape hor fun hsucceeds => hspares hsucceeds name)
  | removeProfileValue profile key =>
    obtain ⟨hshape, hor⟩ := removeAt_done hold (by simp) hdone hnew
    exact .inr (hreset hshape hor fun hsucceeds => hspares hsucceeds name)
  | removeProfile gone =>
    obtain ⟨hshape, hor⟩ := removeAt_done hold (by simp) hdone hnew
    by_cases hname : name = gone
    · exact .inl hname
    · refine .inr (hreset hshape hor fun _ _ htakes => ?_)
      rcases htakes.2 with hunder | ⟨hunder, -⟩
      · exact apart hname hunder
      · exact apart (Ne.symm hname) hunder
  | createProfile created =>
    by_cases hname : name = created
    · exact .inl hname
    · rcases createProfile_done hold hdone hnew with rfl | ⟨-, -, hshape⟩
      · exact .inr Iff.rfl
      · refine .inr (mem_congr ?_)
        rw [hshape, grafted_apart (apart hname) (apart (Ne.symm hname))]
  | copyProfile origin target =>
    by_cases hname : name = target
    · exact .inl hname
    · obtain ⟨-, source, hshape⟩ := copyProfile_done hold hdone hnew
      refine .inr (mem_congr ?_)
      rw [hshape, grafted_apart (apart hname) (apart (Ne.symm hname))]
  | renameProfile origin target =>
    by_cases hname : name = origin ∨ name = target
    · exact .inl hname
    · obtain ⟨horigin, htarget⟩ := not_or.mp hname
      rcases renameProfile_done hold hdone hnew with rfl | ⟨-, hshape⟩
      · exact .inr Iff.rfl
      · refine .inr (mem_congr ?_)
        rw [hshape, grafted_apart (apart htarget) (apart (Ne.symm htarget)), Shape.cut,
          if_neg (apart horigin)]

/-- A call that ends and changes only the profiles it may spares the
others. -/
theorem spares_of_profiles (hold : Reads toml file old) (hsucceeds : calls.succeeds = true)
    (hprofiles : ∀ new, (run toml calls file call).1 = .done →
      Reads toml (run toml calls file call).2 new → ∀ name,
        call.MayChange old name ∨ (name ∈ listProfiles new ↔ name ∈ listProfiles old)) :
    call.Spares old := by
  have hreset : ∀ {p : List Str}, p ≠ [] → run toml calls file call = removeAt toml calls file p →
      (∀ name, ¬call.MayChange old name) →
      ∀ name ∈ listProfiles old, ¬Takes (shapeOf old) p name := by
    intro p hp hrun hnone name hname htakes
    obtain ⟨new, hdone, hnew⟩ := removeAt_ends hold hp hsucceeds
    have hshape := (removeAt_done hold hp hdone hnew).1
    rw [← hrun] at hdone hnew
    have hsame := (hprofiles new hdone hnew name).resolve_left (hnone name)
    exact ((mem_removed hshape name).mp (hsame.mpr hname)).2 htakes
  cases call with
  | writeValue key value =>
    intro hwhole name
    have hclear : (shapeOf old).Clear (splitOn '.' key) := by
      rw [hwhole, clear_cons]
      exact Shape.clear_nil _
    obtain ⟨new, hdone, hnew⟩ := writeAt_ends hold (splitOn_ne_nil _ _) hclear hsucceeds
    obtain ⟨-, -, hshape, -⟩ := writeAt_done hold (splitOn_ne_nil _ _) hdone hnew
    rw [hwhole] at hshape
    rw [← mem_writtenWhole hshape name]
    refine (hprofiles new hdone hnew name).resolve_left fun h => ?_
    have hunder := h.1
    rw [hwhole] at hunder
    simp [List.cons_prefix_cons] at hunder
  | removeValue key => exact hreset (splitOn_ne_nil _ _) rfl fun _ h => h
  | removeProfileValue profile key => exact hreset (by simp) rfl fun _ h => h
  | writeProfileValue | createProfile | copyProfile | renameProfile | removeProfile => trivial

end Profiles

/-! ## Runs of calls -/

/-- Of every call of a run, the reply is that of the step. -/
theorem reply_eq {toml : Toml V} {start : Option File} {requests : List (Call V × SaveCalls)}
    {e : Made V} (he : e ∈ (Trace.run (step toml) start requests).2) :
    e.reply = (run toml e.call.2 e.state e.call.1).1 := by
  obtain ⟨before, after, hsplit⟩ := List.append_of_mem he
  obtain ⟨front, back, -, -, hreply⟩ := Trace.split_run hsplit
  exact hreply

theorem written_done {toml : Toml V} {e : Made V} {old new : Doc V}
    (hreply : e.reply = (run toml e.call.2 e.state e.call.1).1) (hdid : Did toml e old new)
    {p : List Str} {value : KeyTree.Item Str V} (hwritten : e.call.1.written = some (p, value)) :
    (shapeOf old).Clear p ∧ shapeOf new = (shapeOf old).grafted p value.shape ∧
      get (.table new) p = some value := by
  obtain ⟨hfound, hleft, hdone⟩ := hdid
  obtain ⟨hp, hrun⟩ := run_of_written toml e.call.2 e.state hwritten
  rw [hreply, hrun] at hdone
  rw [step, hrun] at hleft
  exact (writeAt_done hfound hp hdone hleft).2

theorem unset_done {toml : Toml V} {e : Made V} {old new : Doc V}
    (hreply : e.reply = (run toml e.call.2 e.state e.call.1).1) (hdid : Did toml e old new)
    {p : List Str} (hunset : e.call.1.unset = some p) :
    shapeOf new = removed (shapeOf old) p := by
  obtain ⟨hfound, hleft, hdone⟩ := hdid
  obtain ⟨hp, hrun⟩ := run_of_unset toml e.call.2 e.state hunset
  rw [hreply, hrun] at hdone
  rw [step, hrun] at hleft
  exact (removeAt_done hfound hp hdone hleft).1

/-- The edits of a run are local exactly when every call spares the profiles
it does not name. -/
theorem local_iff (toml : Toml V) (start : Option File) (requests : List (Call V × SaveCalls)) :
    Lawful toml (Trace.run (step toml) start requests).2 ↔
      ∀ e ∈ (Trace.run (step toml) start requests).2, Spares toml e := by
  constructor
  · intro hlawful e he hsucceeds old hold
    refine spares_of_profiles hold hsucceeds fun new hdone hnew name => ?_
    exact hlawful.profiles e he old new ⟨hold, hnew, (reply_eq he).trans hdone⟩ name
  · intro hspares
    refine ⟨fun e he old new hdid p value hwritten => ?_, fun e he old new hdid q hq => ?_,
      fun e he old new hdid name => ?_, fun before e f after hsplit old mid new hdid hdid' p value
        hwritten hunset hnone => ?_⟩
    · exact (written_done (reply_eq he) hdid hwritten).2.2
    · exact leaf_done hdid.found ((reply_eq he).symm.trans hdid.done) hdid.left hq
    · exact profiles_done hdid.found ((reply_eq he).symm.trans hdid.done) hdid.left
        (fun hsucceeds => hspares e he hsucceeds old hdid.found) name
    · have he : e ∈ (Trace.run (step toml) start requests).2 := by
        rw [hsplit]
        simp
      have hf : f ∈ (Trace.run (step toml) start requests).2 := by
        rw [hsplit]
        simp
      obtain ⟨hclear, hmid, -⟩ := written_done (reply_eq he) hdid hwritten
      have hnew := unset_done (reply_eq hf) hdid' hunset
      have hthere : shapeOf mid p ≠ none := by
        have happ := (shapeOf old).grafted_append value.shape p []
        rw [List.append_nil, ← hmid, shape_nil] at happ
        simp [happ]
      rw [hnew, removed, if_pos (Option.isSome_iff_ne_none.mpr hthere), hmid]
      refine Shape.leaf_pruned_grafted (rooted_shapeOf old) hclear hnone ?_ (by simp)
      exact hmid ▸ rooted_shapeOf mid

/-- The file with a profile that was made, and with its first override. -/
def madeFile : File := ⟨"profiles = { x = {} }\n".toUTF8, true⟩

def setFile : File := ⟨"profiles = { x = { follow = true } }\n".toUTF8, true⟩

def setDoc : Doc Bool :=
  [(profilesKey, .table [("x".toList, .table [("follow".toList, .value true)])])]

/-- When that override is reset the profile goes with it. -/
theorem not_lawful_reset :
    ¬Lawful PlainToml.toml (Trace.run (step PlainToml.toml) none
      [(.createProfile "x".toList, goesThrough),
        (.writeProfileValue "x".toList "follow".toList (.value true), goesThrough),
        (.removeProfileValue "x".toList "follow".toList, goesThrough)]).2 := by
  intro hlawful
  have hmade : run PlainToml.toml goesThrough none (.createProfile "x".toList) =
      (.done, some madeFile) := by decide +kernel
  have hset : run PlainToml.toml goesThrough (some madeFile)
      (.writeProfileValue "x".toList "follow".toList (.value true)) = (.done, some setFile) := by
    decide +kernel
  have hreset : run PlainToml.toml goesThrough (some setFile)
      (.removeProfileValue "x".toList "follow".toList) = (.done, some ⟨"".toUTF8, true⟩) := by
    decide +kernel
  have hread : readToString (some setFile) = .ok (PlainToml.print setDoc) := by decide +kernel
  have hempty : readToString (some ⟨"".toUTF8, true⟩) = .ok [] := by decide +kernel
  simp only [Trace.run, Trace.extend, List.foldl_cons, List.foldl_nil, step, hmade, hset,
    hreset] at hlawful
  have hleft : Reads PlainToml.toml (some ⟨"".toUTF8, true⟩) [] :=
    ⟨[], hempty, PlainToml.toml.parse_nil⟩
  have hprofiles := hlawful.profiles
    ⟨some setFile, (.removeProfileValue "x".toList "follow".toList, goesThrough), .done⟩
    (.tail _ (.tail _ (.head _))) setDoc []
    ⟨⟨_, hread, PlainToml.toml.parse_print setDoc⟩, by rw [step, hreset]; exact hleft, rfl⟩
    "x".toList
  rcases hprofiles with h | h
  · exact h
  · exact absurd (h.mpr (by decide)) (by decide)

end Zesterm.Config
