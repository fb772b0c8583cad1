/-
Zesterm.Cloud.UsersTheorems — one person, one account.

Whoever inserts an identity first decides whose it is, and nothing takes it
from them (`Accounts.owner` only grows), so every call for one identity is
answered alike. A row a call has made and not settled yet (`UpsertUser.made`)
has no identity, or has the call's own; it is nobody else's, and the call
either keeps it or deletes it (`Covered`).

The look for a verified address and the insertion it leads to are two
statements. Between them the identity that was found may sign in again under
another address, and then nothing asserts the address any more when the new
identity is attached; `upsert_one_account` says that attaching is sound in
every run where that does not happen (`Spares`).
-/
import Zesterm.Cloud.Users

namespace Zesterm.Cloud

open Interleave

/-! ## Statements and what they leave -/

namespace Accounts

variable {db : Accounts}
variable {u : Str} {profile : Profile} {key : IdentityKey}

@[simp] theorem owner_touchIdentity (key k : IdentityKey) (profile : Profile) (now : Int) :
    (db.touchIdentity key profile now).owner k = db.owner k := by
  simp only [owner, touchIdentity, Table.lookup_adjust, Option.map_map]
  congr 1
  funext row
  simp only [Function.comp]
  split <;> rfl

@[simp] theorem mem_users_touchUser (u c : Str) (profile : Profile) (now : Int) :
    c ∈ (db.touchUser u profile now).users ↔ c ∈ db.users := by
  rw [← AList.lookup_isSome, ← AList.lookup_isSome, touchUser, Table.lookup_adjust,
    Option.isSome_map]

theorem insertUser_eq_some {db' : Accounts} {now : Int} (h : db.insertUser u profile now = some db')
    :
    u ∉ db.users ∧ db'.identities = db.identities ∧ ∀ c, c ∈ db'.users ↔ c = u ∨ c ∈ db.users := by
  rw [insertUser] at h
  split at h
  · exact absurd h (by simp)
  · next hnot =>
    obtain rfl := (Option.some.inj h).symm
    exact ⟨hnot, rfl, fun c => by rw [AList.mem_insert]⟩

/-- The identity is there already and nothing changes, or it is new. -/
theorem insertIdentity_eq_some {db' : Accounts} {now : Int}
    (h : db.insertIdentity key u profile now = some db') :
    (key ∈ db.identities ∧ db' = db) ∨
      (key ∉ db.identities ∧ u ∈ db.users ∧ db'.users = db.users ∧
        db'.identities = db.identities.insert key
          { userId := u, email := profile.email, emailVerified := profile.emailVerified,
            createdAt := now, lastLoginAt := now }) := by
  rw [insertIdentity] at h
  split at h
  · next hmem => exact .inl ⟨hmem, (Option.some.inj h).symm⟩
  · next hnew =>
    split at h
    · next hu =>
      obtain rfl := (Option.some.inj h).symm
      exact .inr ⟨hnew, hu, rfl, rfl⟩
    · exact absurd h (by simp)

theorem insertIdentity_eq_none {now : Int} (h : db.insertIdentity key u profile now = none) :
    u ∉ db.users := by
  rw [insertIdentity] at h
  split at h
  · exact absurd h (by simp)
  · split at h
    · exact absurd h (by simp)
    · next hu => exact hu

theorem owner_isSome : (db.owner key).isSome ↔ key ∈ db.identities := by
  rw [owner, Option.isSome_map, AList.lookup_isSome]

/-- No identity points at this user. -/
def Bare (db : Accounts) (u : Str) : Prop := ∀ k, db.owner k ≠ some u

theorem owner_deleteUser (hbare : db.Bare u) (k : IdentityKey) :
    (db.deleteUser u).owner k = db.owner k := by
  simp only [owner, deleteUser, Table.lookup_keep]
  cases hrow : db.identities.lookup k with
  | none => rfl
  | some row =>
    have hne : row.userId ≠ u := fun h => hbare k (by rw [owner, hrow, Option.map_some, h])
    rw [Option.filter_some, if_pos (by simpa using hne)]

theorem lookup_deleteUser (hbare : db.Bare u) (k : IdentityKey) :
    (db.deleteUser u).identities.lookup k = db.identities.lookup k := by
  simp only [deleteUser, Table.lookup_keep]
  cases hrow : db.identities.lookup k with
  | none => rfl
  | some row =>
    have hne : row.userId ≠ u := fun h => hbare k (by rw [owner, hrow, Option.map_some, h])
    rw [Option.filter_some, if_pos (by simpa using hne)]

theorem mem_users_deleteUser (u c : Str) : c ∈ (db.deleteUser u).users ↔ c ≠ u ∧ c ∈ db.users := by
  rw [deleteUser, AList.mem_erase]

/-- Linking finds an account some identity of which asserts the address. -/
theorem linkable_eq_some {limit1 : AnyOne IdentityRow} {email : Str}
    (h : db.linkable limit1 email = some u) :
    ∃ row ∈ db.identities.values, row.userId = u ∧ row.asserts email = true := by
  obtain ⟨row, hpick, rfl⟩ := Option.map_eq_some_iff.mp h
  obtain ⟨hmem, hasserts⟩ := List.mem_filter.mp (limit1.mem _ _ hpick)
  exact ⟨row, hmem, rfl, hasserts⟩

/-- Every identity points at a user there is. -/
def Grounded (db : Accounts) : Prop := ∀ k u, db.owner k = some u → u ∈ db.users

end Accounts

/-! ## One call -/

namespace UpsertUser

variable {db db' : Accounts} {call : UpsertUser}

/-- The row a call has made and not settled yet. -/
def made (call : UpsertUser) : Option Str :=
  match call.phase with
  | .attach _ createdUserId | .settle _ createdUserId => createdUserId
  | .discard _ createdUserId => some createdUserId
  | _ => none

/-- What a call between two statements takes for granted. -/
def Sound (db : Accounts) (call : UpsertUser) : Prop :=
  match call.phase with
  | .lookup | .link | .create | .rejected => True
  | .touchIdentity u | .touchUser u | .done u => db.owner call.key = some u
  | .attach u none => ∃ k, db.owner k = some u
  | .attach u (some c) => c = u ∧ u ∈ db.users ∧ db.Bare u
  | .settle _ none => (db.owner call.key).isSome
  | .settle _ (some c) => c ∈ db.users ∧ (db.owner call.key).isSome ∧
      (db.owner call.key = some c ∨ db.Bare c)
  | .discard w c => db.owner call.key = some w ∧ c ∈ db.users ∧ db.Bare c

/-- It stays so while identities keep their owners and the call's own row
is left alone. -/
theorem Sound.mono (h : call.Sound db) (hown : ∀ k u, db.owner k = some u → db'.owner k = some u)
    (husers : ∀ c, call.made = some c → c ∈ db.users → c ∈ db'.users)
    (hbare : ∀ c, call.made = some c → db.Bare c → db'.Bare c) : call.Sound db' := by
  have hsome : (db.owner call.key).isSome → (db'.owner call.key).isSome := by
    intro hs
    obtain ⟨u, hu⟩ := Option.isSome_iff_exists.mp hs
    rw [hown _ _ hu]
    rfl
  obtain ⟨args, phase⟩ := call
  cases phase with
  | lookup | link | create | rejected => trivial
  | touchIdentity | touchUser | done => exact hown _ _ h
  | attach u created =>
    cases created with
    | none =>
      obtain ⟨k, hk⟩ := h
      exact ⟨k, hown _ _ hk⟩
    | some c =>
      obtain ⟨rfl, hmem, hb⟩ := h
      exact ⟨rfl, husers _ rfl hmem, hbare _ rfl hb⟩
  | settle u created =>
    cases created with
    | none => exact hsome h
    | some c =>
      obtain ⟨hmem, hs, hor⟩ := h
      exact ⟨husers _ rfl hmem, hsome hs, hor.imp (hown _ _) (hbare _ rfl)⟩
  | discard w c =>
    obtain ⟨hw, hmem, hb⟩ := h
    exact ⟨hown _ _ hw, husers _ rfl hmem, hbare _ rfl hb⟩

/-- What one statement does to the accounts. -/
structure Effect (db : Accounts) (call : UpsertUser) : Prop where
  /-- No identity changes hands. -/
  owner : ∀ k u, db.owner k = some u → (runStatement db call).1.owner k = some u
  /-- Only the row the call made itself can go. -/
  users : ∀ c, call.made ≠ some c → c ∈ db.users → c ∈ (runStatement db call).1.users
  /-- Only the row the call made itself can get its first identity. -/
  bare : ∀ c, call.made ≠ some c → db.Bare c → (runStatement db call).1.Bare c
  grounded : db.Grounded → (runStatement db call).1.Grounded
  sound : db.Grounded → (runStatement db call).2.Sound (runStatement db call).1
  made : ∀ c, (runStatement db call).2.made = some c → call.made = some c ∨ c ∉ db.users
  /-- A row there is was there, or is the call's own, or has an identity. -/
  kept : ∀ c, c ∈ (runStatement db call).1.users → (c ∈ db.users ∧ call.made ≠ some c) ∨
    (runStatement db call).2.made = some c ∨ ∃ k, (runStatement db call).1.owner k = some c

/-- A statement that leaves every owner and every user's row in place. -/
theorem Effect.of_same {next : UpsertUser} (hrun : runStatement db call = (db', next))
    (howner : ∀ k, db'.owner k = db.owner k) (husers : ∀ c, c ∈ db'.users ↔ c ∈ db.users)
    (hsound : db.Grounded → next.Sound db') (hmade : ∀ c, next.made = some c → call.made = some c)
    (hkept : ∀ c, call.made = some c → next.made = some c ∨ ∃ k, db'.owner k = some c) :
    Effect db call where
  owner k u hk := by rw [hrun, howner, hk]
  users c _ hc := by rwa [hrun, husers]
  bare c _ hb k := by rw [hrun, howner]; exact hb k
  grounded hg k u hk := by
    rw [hrun] at hk ⊢
    rw [howner] at hk
    exact (husers u).mpr (hg k u hk)
  sound hg := by rw [hrun]; exact hsound hg
  made c hc := by
    rw [hrun] at hc
    exact .inl (hmade c hc)
  kept c hc := by
    rw [hrun] at hc ⊢
    by_cases hm : call.made = some c
    · exact .inr (hkept c hm)
    · exact .inl ⟨(husers c).mp hc, hm⟩

/-- A statement that writes nothing. -/
theorem Effect.of_read {next : UpsertUser} (hrun : runStatement db call = (db, next))
    (hsound : db.Grounded → next.Sound db) (hmade : next.made = none) (hnone : call.made = none) :
    Effect db call :=
  .of_same hrun (fun _ => rfl) (fun _ => Iff.rfl) hsound (by simp [hmade]) (by simp [hnone])

variable (db) in
theorem sound_afterLookup (args : UpsertArgs) (call : UpsertUser) :
    Sound db ⟨args, call.afterLookup⟩ ∧ made ⟨args, call.afterLookup⟩ = none := by
  unfold afterLookup
  split
  · exact ⟨trivial, rfl⟩
  · exact ⟨trivial, rfl⟩

/-- The call's own row goes into the table under an id that was free. -/
theorem effect_create {args : UpsertArgs} (hcall : call = ⟨args, .create⟩) : Effect db call := by
  subst hcall
  cases hins : db.insertUser args.newUserId args.profile args.now with
  | none =>
    have hrun : runStatement db ⟨args, .create⟩ = (db, ⟨args, .rejected⟩) := by
      simp only [runStatement, hins]
    exact .of_read hrun (fun _ => trivial) rfl rfl
  | some db' =>
    have hrun : runStatement db ⟨args, .create⟩ =
        (db', ⟨args, .attach args.newUserId (some args.newUserId)⟩) := by
      simp only [runStatement, hins]
    obtain ⟨hfree, hidentities, husers⟩ := Accounts.insertUser_eq_some hins
    have howner : ∀ k, db'.owner k = db.owner k := fun k => by simp only [Accounts.owner, hidentities]
    refine ⟨?_, ?_, ?_, ?_, ?_, ?_, ?_⟩
    · intro k u hk
      rw [hrun, howner, hk]
    · intro c _ hc
      rw [hrun]
      exact (husers c).mpr (.inr hc)
    · intro c _ hb k
      rw [hrun, howner]
      exact hb k
    · intro hg k u hk
      rw [hrun] at hk ⊢
      rw [howner] at hk
      exact (husers u).mpr (.inr (hg k u hk))
    · intro hg
      rw [hrun]
      refine ⟨rfl, (husers _).mpr (.inl rfl), fun k hk => ?_⟩
      rw [howner] at hk
      exact hfree (hg k _ hk)
    · intro c hc
      rw [hrun] at hc
      obtain rfl := Option.some.inj hc
      exact .inr hfree
    · intro c hc
      rw [hrun] at hc ⊢
      rcases (husers c).mp hc with rfl | hc
      · exact .inr (.inl rfl)
      · exact .inl ⟨hc, by simp [made]⟩

/-- Attaching gives the identity an owner unless it has one. -/
theorem effect_attach {args : UpsertArgs} {u : Str} {created : Option Str}
    (h : Sound db ⟨args, .attach u created⟩) (hcall : call = ⟨args, .attach u created⟩) :
    Effect db call := by
  subst hcall
  cases hins : db.insertIdentity (key ⟨args, .attach u created⟩) u args.profile args.now with
  | none =>
    have hrun : runStatement db ⟨args, .attach u created⟩ = (db, ⟨args, .rejected⟩) := by
      simp only [runStatement, hins]
    refine .of_same hrun (fun _ => rfl) (fun _ => Iff.rfl) (fun _ => trivial) (by simp [made]) ?_
    intro c hc
    obtain rfl : created = some c := hc
    obtain ⟨rfl, hmem, -⟩ := h
    exact absurd hmem (Accounts.insertIdentity_eq_none hins)
  | some db' =>
    have hrun : runStatement db ⟨args, .attach u created⟩ = (db', ⟨args, .settle u created⟩) := by
      simp only [runStatement, hins]
    rcases Accounts.insertIdentity_eq_some hins with ⟨hmem, rfl⟩ | ⟨hnew, hu, husers, hidentities⟩
    · refine .of_same hrun (fun _ => rfl) (fun _ => Iff.rfl) (fun _ => ?_) (fun _ hc => hc)
        (fun _ hc => .inl hc)
      have hsome := Accounts.owner_isSome.mpr hmem
      cases created with
      | none => exact hsome
      | some c =>
        obtain ⟨rfl, hmem, hb⟩ := h
        exact ⟨hmem, hsome, .inr hb⟩
    · have howner : ∀ k, db'.owner k =
          if k = key ⟨args, .attach u created⟩ then some u else db.owner k := by
        intro k
        simp only [Accounts.owner, hidentities, Table.lookup_insert_eq]
        split <;> rfl
      have hnone : db.owner (key ⟨args, .attach u created⟩) = none := by
        rw [← Option.not_isSome_iff_eq_none, Accounts.owner_isSome]
        exact hnew
      refine ⟨?_, ?_, ?_, ?_, ?_, ?_, ?_⟩
      · intro k v hk
        rw [hrun, howner, if_neg, hk]
        rintro rfl
        rw [hnone] at hk
        exact absurd hk (by simp)
      · intro c _ hc
        rw [hrun, husers]
        exact hc
      · intro c hc hb k
        rw [hrun, howner]
        split
        · -- The account it goes to is the call's own, or has an identity.
          intro heq
          obtain rfl := Option.some.inj heq
          cases created with
          | none =>
            obtain ⟨k', hk'⟩ := h
            exact hb k' hk'
          | some c =>
            obtain ⟨rfl, -, -⟩ := h
            exact hc rfl
        · exact hb k
      · intro hg k v hk
        rw [hrun] at hk ⊢
        rw [howner] at hk
        rw [husers]
        split at hk
        · rw [← Option.some.inj hk]
          exact hu
        · exact hg k v hk
      · intro _
        rw [hrun]
        have hself : db'.owner (key ⟨args, .attach u created⟩) = some u := by rw [howner, if_pos rfl]
        cases created with
        | none => exact Option.isSome_iff_exists.mpr ⟨u, hself⟩
        | some c =>
          obtain ⟨rfl, -, -⟩ := h
          exact ⟨husers ▸ hu, Option.isSome_iff_exists.mpr ⟨_, hself⟩, .inl hself⟩
      · intro c hc
        rw [hrun] at hc
        exact .inl hc
      · intro c hc
        rw [hrun] at hc ⊢
        by_cases hm : created = some c
        · exact .inr (.inl hm)
        · exact .inl ⟨husers ▸ hc, hm⟩

/-- A call that lost deletes the row it made, which nobody points at. -/
theorem effect_discard {args : UpsertArgs} {w c : Str} (h : Sound db ⟨args, .discard w c⟩)
    (hcall : call = ⟨args, .discard w c⟩) : Effect db call := by
  subst hcall
  obtain ⟨hw, -, hbare⟩ := h
  have hrun : runStatement db ⟨args, .discard w c⟩ = (db.deleteUser c, ⟨args, .done w⟩) := rfl
  have howner := Accounts.owner_deleteUser hbare
  refine ⟨?_, ?_, ?_, ?_, ?_, ?_, ?_⟩
  · intro k u hk
    rw [hrun, howner, hk]
  · intro c' hc' hmem
    rw [hrun, Accounts.mem_users_deleteUser]
    exact ⟨fun heq => hc' (congrArg some heq.symm), hmem⟩
  · intro c' _ hb k
    rw [hrun, howner]
    exact hb k
  · intro hg k u hk
    rw [hrun] at hk ⊢
    rw [howner] at hk
    exact (Accounts.mem_users_deleteUser _ _).mpr ⟨fun heq => hbare k (heq ▸ hk), hg k u hk⟩
  · intro _
    rw [hrun]
    exact (howner _).trans hw
  · intro c' hc'
    rw [hrun] at hc'
    exact absurd hc' (by simp [made])
  · intro c' hc'
    rw [hrun] at hc'
    obtain ⟨hne, hmem⟩ := (Accounts.mem_users_deleteUser _ _).mp hc'
    exact .inl ⟨hmem, fun heq => hne (Option.some.inj heq).symm⟩

theorem run_settle (args : UpsertArgs) (u : Str) (created : Option Str) :
    runStatement db ⟨args, .settle u created⟩ =
      (db, ⟨args, afterSettle ((db.owner (key ⟨args, .settle u created⟩)).getD u) created⟩) := rfl

/-- Every statement of a sound call. -/
theorem effect (h : call.Sound db) : Effect db call := by
  obtain ⟨args, phase⟩ := call
  cases phase with
  | lookup =>
    cases hfound : db.owner (key ⟨args, .lookup⟩) with
    | some u =>
      have hrun : runStatement db ⟨args, .lookup⟩ = (db, ⟨args, .touchIdentity u⟩) := by
        simp only [runStatement, hfound]
      exact .of_read hrun (fun _ => hfound) rfl rfl
    | none =>
      have hrun : runStatement db ⟨args, .lookup⟩ =
          (db, ⟨args, afterLookup ⟨args, .lookup⟩⟩) := by
        simp only [runStatement, hfound]
      obtain ⟨hsound, hmade⟩ := sound_afterLookup db args ⟨args, .lookup⟩
      exact .of_read hrun (fun _ => hsound) hmade rfl
  | touchIdentity u =>
    exact .of_same (show _ = (_, UpsertUser.mk args (.touchUser u)) from rfl) (Accounts.owner_touchIdentity _ · _ _)
      (fun _ => Iff.rfl) (fun _ => (Accounts.owner_touchIdentity _ _ _ _).trans h) (by simp [made]) (by simp [made])
  | touchUser u =>
    exact .of_same (show _ = (_, UpsertUser.mk args (.done u)) from rfl) (fun _ => rfl)
      (Accounts.mem_users_touchUser u · _ _) (fun _ => h) (by simp [made]) (by simp [made])
  | link =>
    cases hfound : args.profile.email.bind (db.linkable args.limit1) with
    | some u =>
      have hrun : runStatement db ⟨args, .link⟩ = (db, ⟨args, .attach u none⟩) := by
        simp only [runStatement, hfound]
      refine .of_read hrun (fun _ => ?_) rfl rfl
      obtain ⟨email, -, hlink⟩ := Option.bind_eq_some_iff.mp hfound
      obtain ⟨row, hrow, rfl, -⟩ := Accounts.linkable_eq_some hlink
      obtain ⟨k, hk⟩ := Table.mem_values.mp hrow
      exact ⟨k, by rw [Accounts.owner, hk, Option.map_some]⟩
    | none =>
      have hrun : runStatement db ⟨args, .link⟩ = (db, ⟨args, .create⟩) := by
        simp only [runStatement, hfound]
      exact .of_read hrun (fun _ => trivial) rfl rfl
  | create => exact effect_create rfl
  | attach u created => exact effect_attach h rfl
  | settle u created =>
    cases created with
    | none =>
      obtain ⟨w, hw⟩ := Option.isSome_iff_exists.mp h
      have hrun : runStatement db ⟨args, .settle u none⟩ = (db, ⟨args, .done w⟩) := by
        rw [run_settle, hw, Option.getD_some, afterSettle]
      exact .of_read hrun (fun _ => hw) rfl rfl
    | some c =>
      obtain ⟨hmem, hsome, hor⟩ := h
      obtain ⟨w, hw⟩ := Option.isSome_iff_exists.mp hsome
      by_cases hwc : w = c
      · have hrun : runStatement db ⟨args, .settle u (some c)⟩ = (db, ⟨args, .done w⟩) := by
          rw [run_settle, hw, Option.getD_some, afterSettle, if_neg (not_not.mpr hwc)]
        refine .of_same hrun (fun _ => rfl) (fun _ => Iff.rfl) (fun _ => hw) (by simp [made]) ?_
        intro c' hc'
        obtain rfl := Option.some.inj hc'
        exact .inr ⟨_, hwc ▸ hw⟩
      · have hrun : runStatement db ⟨args, .settle u (some c)⟩ = (db, ⟨args, .discard w c⟩) := by
          rw [run_settle, hw, Option.getD_some, afterSettle, if_pos hwc]
        refine .of_same hrun (fun _ => rfl) (fun _ => Iff.rfl) (fun _ => ⟨hw, hmem, ?_⟩)
          (fun _ hc => hc) (fun _ hc => .inl hc)
        refine hor.resolve_left fun hown => hwc ?_
        rw [hown] at hw
        exact (Option.some.inj hw).symm
  | discard w c => exact effect_discard h rfl
  | done u => exact .of_same (show _ = (_, UpsertUser.mk args (.done u)) from rfl) (fun _ => rfl) (fun _ => Iff.rfl) (fun _ => h) (by simp [made]) (by simp [made])
  | rejected =>
    exact .of_same (show _ = (_, UpsertUser.mk args .rejected) from rfl) (fun _ => rfl) (fun _ => Iff.rfl)
      (fun _ => trivial) (by simp [made]) (by simp [made])

/-- A row a call has made is in the table until the call settles it. -/
theorem Sound.made_mem (h : call.Sound db) {c : Str} (hc : call.made = some c) : c ∈ db.users := by
  obtain ⟨args, phase⟩ := call
  cases phase with
  | lookup | link | create | rejected | touchIdentity u | touchUser u | done u =>
    exact absurd hc (by simp [made])
  | attach u created =>
    obtain rfl : created = some c := hc
    obtain ⟨rfl, hmem, -⟩ := h
    exact hmem
  | settle u created =>
    obtain rfl : created = some c := hc
    exact h.1
  | discard w c' =>
    obtain rfl := Option.some.inj hc
    exact h.2.1

/-- Two calls have made different rows. -/
def Apart (_ : Accounts) (call other : UpsertUser) : Prop :=
  ∀ c, call.made = some c → other.made ≠ some c

theorem fair (hg : db.Grounded) (h : call.Sound db) :
    Fair runStatement Accounts.Grounded (fun db call => call.Sound db) Apart db call := by
  have he := effect h
  refine ⟨⟨he.grounded hg, he.sound hg⟩, ?_, fun _ _ _ _ hK => hK⟩
  intro other hother hK hK'
  refine ⟨hother.mono he.owner (fun c hc => he.users c (hK' c hc)) (fun c hc => he.bare c (hK' c hc)),
    ?_, ?_⟩
  · intro c hc hoc
    rcases he.made c hc with hm | hnot
    · exact hK c hm hoc
    · exact hnot (hother.made_mem hoc)
  · intro c hoc hc
    rcases he.made c hc with hm | hnot
    · exact hK' c hoc hm
    · exact hnot (hother.made_mem hoc)

/-! ## Attaching -/

end UpsertUser

/-- Some identity of the account asserts the address, verified. -/
def Accounts.Asserted (db : Accounts) (u email : Str) : Prop :=
  ∃ row ∈ db.identities.values, row.userId = u ∧ row.asserts email = true

namespace UpsertUser

variable {db : Accounts} {call : UpsertUser}

/-- Only an insertion gives an identity an owner. -/
theorem gains (h : call.Sound db) {k : IdentityKey} {u : Str} (hnone : db.owner k = none)
    (hsome : (runStatement db call).1.owner k = some u) :
    ∃ created, call.phase = .attach u created ∧ k = call.key ∧
      (runStatement db call).1.identities = db.identities.insert call.key
        { userId := u, email := call.profile.email, emailVerified := call.profile.emailVerified,
          createdAt := call.now, lastLoginAt := call.now } := by
  have hsame : (runStatement db call).1.owner k ≠ db.owner k := by
    rw [hnone, hsome]
    simp
  obtain ⟨args, phase⟩ := call
  cases phase with
  | lookup | link =>
    refine absurd ?_ hsame
    simp only [runStatement]
    split <;> rfl
  | touchIdentity v => exact absurd (Accounts.owner_touchIdentity _ _ _ _) hsame
  | touchUser | settle | done | rejected => exact absurd rfl hsame
  | create =>
    refine absurd ?_ hsame
    simp only [runStatement]
    split
    · next hins => simp only [Accounts.owner, (Accounts.insertUser_eq_some hins).2.1]
    · rfl
  | attach v created =>
    simp only [runStatement] at hsome hsame ⊢
    split at hsome
    · next db' hins =>
      rcases Accounts.insertIdentity_eq_some hins with ⟨-, rfl⟩ | ⟨hnew, -, -, hidentities⟩
      · rw [hnone] at hsome
        exact absurd hsome (by simp)
      · have howner := hsome
        rw [Accounts.owner, hidentities, Table.lookup_insert_eq] at howner
        by_cases hk : k = key ⟨args, .attach v created⟩
        · rw [if_pos hk, Option.map_some] at howner
          obtain rfl := Option.some.inj howner
          exact ⟨created, rfl, hk, hidentities⟩
        · rw [if_neg hk] at howner
          exact absurd (hnone.symm.trans howner) (by simp)
    · rw [hnone] at hsome
      exact absurd hsome (by simp)
  | discard w c => exact absurd (Accounts.owner_deleteUser h.2.2 k) hsame

/-- What an assertion survives: anything but a sign-in under another
address. -/
theorem asserted_runStatement (h : call.Sound db) {u email : Str} (hu : db.Asserted u email)
    (hspares : ∀ v, call.phase = .touchIdentity v →
      (db.touchIdentity call.key call.profile call.now).Asserted u email) :
    (runStatement db call).1.Asserted u email := by
  have hidentities : ∀ db' : Accounts, (∀ k row, db.identities.lookup k = some row →
      db'.identities.lookup k = some row) → db'.Asserted u email := by
    intro db' hkeep
    obtain ⟨row, hrow, hself, hasserts⟩ := hu
    obtain ⟨k, hk⟩ := Table.mem_values.mp hrow
    exact ⟨row, Table.mem_values.mpr ⟨k, hkeep k row hk⟩, hself, hasserts⟩
  obtain ⟨args, phase⟩ := call
  cases phase with
  | lookup | link =>
    simp only [runStatement]
    split <;> exact hu
  | touchIdentity v => exact hspares v rfl
  | touchUser | settle | done | rejected => exact hu
  | create =>
    simp only [runStatement]
    split
    · next hins =>
      exact hidentities _ fun k row hk => by rw [(Accounts.insertUser_eq_some hins).2.1]; exact hk
    · exact hu
  | attach v created =>
    simp only [runStatement]
    split
    · next hins =>
      refine hidentities _ fun k row hk => ?_
      rcases Accounts.insertIdentity_eq_some hins with ⟨-, rfl⟩ | ⟨hnew, -, -, hins'⟩
      · exact hk
      · rw [hins', Table.lookup_insert_eq, if_neg, hk]
        rintro rfl
        exact hnew (AList.lookup_isSome.mp (by rw [hk]; rfl))
    · exact hu
  | discard w c =>
    exact hidentities _ fun k row hk => by
      rw [show runStatement db ⟨args, .discard w c⟩ = (db.deleteUser c, ⟨args, .done w⟩) from rfl,
        Accounts.lookup_deleteUser h.2.2, hk]

/-- A call that found an account to link to found it by its own verified
address, which is asserted there still. -/
structure Linked (db : Accounts) (call : UpsertUser) : Prop where
  link : call.phase = .link → call.profile.emailVerified = true
  attach : ∀ u, call.phase = .attach u none → call.profile.emailVerified = true ∧
    ∃ email, call.profile.email = some email ∧ db.Asserted u email

/-- A statement of the call itself. -/
theorem Linked.own (h : call.Linked db) (hs : call.Sound db) :
    (runStatement db call).2.Linked (runStatement db call).1 := by
  have hidle : ∀ db' args phase, phase ≠ .link → (∀ u, phase ≠ .attach u none) →
      Linked db' ⟨args, phase⟩ := fun db' args phase hl ha =>
    ⟨fun heq => absurd heq hl, fun u heq => absurd heq (ha u)⟩
  obtain ⟨args, phase⟩ := call
  cases phase with
  | lookup =>
    simp only [runStatement]
    split
    · exact hidle _ _ _ (by simp) (by simp)
    · refine ⟨fun hlink => ?_, fun u hattach => ?_⟩
      · simp only [afterLookup] at hlink
        split at hlink
        · next hcond => exact (Bool.and_eq_true _ _ ▸ hcond).1
        · exact absurd hlink (by simp)
      · simp only [afterLookup] at hattach
        split at hattach <;> exact absurd hattach (by simp)
  | touchIdentity | touchUser | discard | done | rejected => exact hidle _ _ _ (by simp) (by simp)
  | link =>
    have hverified := h.link rfl
    simp only [runStatement]
    split
    · next v hfound =>
      refine ⟨fun hlink => absurd hlink (by simp), fun u hattach => ⟨hverified, ?_⟩⟩
      obtain ⟨rfl, -⟩ := UpsertPhase.attach.inj hattach
      obtain ⟨email, hemail, hlinkable⟩ := Option.bind_eq_some_iff.mp hfound
      exact ⟨email, hemail, Accounts.linkable_eq_some hlinkable⟩
    · exact hidle _ _ _ (by simp) (by simp)
  | create | attach =>
    simp only [runStatement]
    split <;> exact hidle _ _ _ (by simp) (by simp)
  | settle v created =>
    simp only [runStatement]
    refine hidle _ _ _ ?_ ?_ <;> unfold afterSettle <;> split <;> try split
    all_goals simp

end UpsertUser

/-! ## Every run -/

/-- Every row has an identity, and every identity a row. -/
def Accounts.Settled (db : Accounts) : Prop :=
  (∀ c ∈ db.users, ∃ k, db.owner k = some c) ∧ db.Grounded

namespace SignIns

/-- A row without an identity is some call's, which has not settled it. -/
def Covered (s : SignIns) : Prop :=
  ∀ c ∈ s.store.users, (∃ k, s.store.owner k = some c) ∨
    ∃ (i : Nat) (call : UpsertUser), s.tasks[i]? = some call ∧ call.made = some c

/-- What holds in every state. -/
structure Good (s : SignIns) : Prop where
  held : Held Accounts.Grounded (fun db call => call.Sound db) UpsertUser.Apart s
  covered : s.Covered

theorem good_start {db : Accounts} (h : db.Settled) : Good ⟨db, []⟩ where
  held :=
    { store := h.2
      each := by simp
      apart := by simp }
  covered c hc := .inl (h.1 c hc)

theorem good_act {s : SignIns} (h : s.Good) (m : Move UpsertArgs) : (s.act m).1.Good := by
  cases m with
  | start args =>
    have hnothing : (UpsertUser.begin args).made = none := rfl
    have hheld : Held Accounts.Grounded (fun db call => call.Sound db) UpsertUser.Apart
        (s.move UpsertUser.begin UpsertUser.runStatement (.start args)) :=
      h.held.start trivial fun u _ => ⟨fun c hc => by simp [hnothing] at hc,
        fun c _ => by simp [hnothing]⟩
    refine ⟨hheld, fun c hc => (h.covered c hc).imp id ?_⟩
    rintro ⟨i, call, hcall, hmade⟩
    exact ⟨i, call, by rw [act, act_fst, tasks_start, List.getElem?_append_left
      (List.getElem?_eq_some_iff.mp hcall).1, hcall], hmade⟩
  | step i =>
    have hheld : Held Accounts.Grounded (fun db call => call.Sound db) UpsertUser.Apart
        (s.move UpsertUser.begin UpsertUser.runStatement (.step i)) :=
      h.held.step fun call hcall => UpsertUser.fair h.held.store (h.held.each i call hcall)
    refine ⟨hheld, ?_⟩
    cases hcall : s.tasks[i]? with
    | none =>
      rw [act, act_fst, move_step_none hcall]
      exact h.covered
    | some call =>
      have heffect := UpsertUser.effect (h.held.each i call hcall)
      rw [act, act_fst, move_step hcall]
      intro c hc
      rcases heffect.kept c hc with ⟨hmem, hnot⟩ | hmade | hown
      · rcases h.covered c hmem with ⟨k, hk⟩ | ⟨j, other, hother, hmade⟩
        · exact .inl ⟨k, heffect.owner k c hk⟩
        · have hji : j ≠ i := by
            rintro rfl
            rw [hcall] at hother
            exact hnot (Option.some.inj hother ▸ hmade)
          exact .inr ⟨j, other, task_kept hji hother, hmade⟩
      · exact .inr ⟨i, _, task_moved hcall, hmade⟩
      · exact .inl hown

/-- A run from some accounts, and its history. -/
def run (db : Accounts) (moves : List (Move UpsertArgs)) :
    SignIns × List (Trace.Entry SignIns (Move UpsertArgs) Unit) :=
  Trace.run act ⟨db, []⟩ moves

theorem good_run {db : Accounts} (h : db.Settled) (moves : List (Move UpsertArgs)) :
    (run db moves).1.Good :=
  Trace.run_invariant (I := fun (s : SignIns) _ => s.Good) (good_start h) (fun _ _ m hs => good_act hs m) moves

/-- An identity that this move attaches to an account with identities
asserts an address, verified, that one of those asserts as well. -/
def AttachesAsserted (e : Trace.Entry SignIns (Move UpsertArgs) Unit) : Prop :=
  ∀ key u, e.state.store.owner key = none → (e.state.act e.call).1.store.owner key = some u →
    (∃ k, e.state.store.owner k = some u) →
    ∃ email new, (e.state.act e.call).1.store.identities.lookup key = some new ∧
      new.asserts email = true ∧ e.state.store.Asserted u email

/-- The move does not take an address off the last identity of an account
that asserts it, where a call has found that account by the address and has
yet to attach its identity. -/
def Spares (e : Trace.Entry SignIns (Move UpsertArgs) Unit) : Prop :=
  ∀ i call v, e.call = .step i → e.state.tasks[i]? = some call → call.phase = .touchIdentity v →
    ∀ (j : Nat) (other : UpsertUser) u email, e.state.tasks[j]? = some other →
      other.phase = .attach u none → other.profile.email = some email →
      e.state.store.Asserted u email →
      (e.state.store.touchIdentity call.key call.profile call.now).Asserted u email

/-- Every call that is to link still has what it found. -/
def AllLinked (s : SignIns) : Prop :=
  ∀ (i : Nat) (call : UpsertUser), s.tasks[i]? = some call → call.Linked s.store

theorem allLinked_act {s : SignIns} (h : s.Good) (hl : s.AllLinked) (m : Move UpsertArgs)
    (hspares : Spares ⟨s, m, ()⟩) : (s.act m).1.AllLinked := by
  cases m with
  | start args =>
    intro i call hcall
    rcases task_start hcall with hcall | ⟨-, rfl⟩
    · exact hl i call hcall
    · exact ⟨by simp [UpsertUser.begin], by simp [UpsertUser.begin]⟩
  | step i =>
    cases hcall : s.tasks[i]? with
    | none =>
      rw [act, act_fst, move_step_none hcall]
      exact hl
    | some call =>
      have hsound := h.held.each i call hcall
      rw [act, act_fst, move_step hcall]
      intro j other hother
      rcases task_set hcall hother with ⟨-, rfl⟩ | ⟨-, hother⟩
      · exact (hl i call hcall).own hsound
      · refine ⟨(hl j other hother).link, fun u hphase => ?_⟩
        obtain ⟨hverified, email, hemail, hasserted⟩ := (hl j other hother).attach u hphase
        exact ⟨hverified, email, hemail, UpsertUser.asserted_runStatement hsound hasserted
          fun v hv => hspares i call v rfl hcall hv j other u email hother hphase hemail hasserted⟩

/-- Attaching where every call still has what it found. -/
theorem attachesAsserted {s : SignIns} (h : s.Good) (hl : s.AllLinked) (m : Move UpsertArgs) :
    AttachesAsserted ⟨s, m, ()⟩ := by
  intro key u hnone hsome hold
  dsimp only at hnone hsome hold ⊢
  cases m with
  | start args =>
    rw [act, act_fst, store_start, hnone] at hsome
    exact absurd hsome (by simp)
  | step i =>
    cases hcall : s.tasks[i]? with
    | none =>
      rw [act, act_fst, move_step_none hcall] at hsome
      rw [hnone] at hsome
      exact absurd hsome (by simp)
    | some call =>
      have hsound := h.held.each i call hcall
      rw [act, act_fst, move_step hcall] at hsome ⊢
      obtain ⟨created, hphase, rfl, hidentities⟩ := UpsertUser.gains hsound hnone hsome
      cases created with
      | some c =>
        -- A row of the call's own has no identity yet.
        have hbare : s.store.Bare u := by
          obtain ⟨args, phase⟩ := call
          obtain rfl := hphase
          exact hsound.2.2
        obtain ⟨k, hk⟩ := hold
        exact absurd hk (hbare k)
      | none =>
        obtain ⟨hverified, email, hemail, hasserted⟩ := (hl i call hcall).attach u hphase
        refine ⟨email, _, by rw [hidentities, AList.lookup_insert], ?_, hasserted⟩
        simp only [IdentityRow.asserts, hemail, hverified, beq_self_eq_true, Bool.and_self]

/-- All calls with one provider and subject are answered alike. In a state
where none is in progress every row has an identity and every identity a
row. And where no sign-in takes an address off an account between a look
for it and the insertion, an identity is attached to an account that has
identities only when both it and one of them assert one address. -/
theorem upsert_one_account (db : Accounts) (h : db.Settled) (moves : List (Move UpsertArgs)) :
    (∀ (i j : Nat) (a b : UpsertUser) u v, (run db moves).1.tasks[i]? = some a →
      (run db moves).1.tasks[j]? = some b → a.key = b.key → a.phase = .done u →
      b.phase = .done v → u = v) ∧
    ((∀ call ∈ (run db moves).1.tasks, call.answered = true) → (run db moves).1.store.Settled) ∧
    ((∀ e ∈ (run db moves).2, Spares e) → ∀ e ∈ (run db moves).2, AttachesAsserted e) := by
  have hgood := good_run h moves
  refine ⟨?_, ?_, ?_⟩
  · intro i j a b u v ha hb hkey hu hv
    have hown : ∀ (i : Nat) (call : UpsertUser) w, (run db moves).1.tasks[i]? = some call →
        call.phase = .done w → (run db moves).1.store.owner call.key = some w := by
      intro i call w hcall hphase
      have hsound := hgood.held.each i call hcall
      obtain ⟨args, phase⟩ := call
      obtain rfl := hphase
      exact hsound
    have hau := hown i a u ha hu
    rw [hkey, hown j b v hb hv] at hau
    exact (Option.some.inj hau).symm
  · intro hidle
    refine ⟨fun c hc => (hgood.covered c hc).resolve_right ?_, hgood.held.store⟩
    rintro ⟨i, call, hcall, hmade⟩
    have hans := hidle call (List.mem_of_getElem? hcall)
    obtain ⟨args, phase⟩ := call
    cases phase <;> simp [UpsertUser.answered, UpsertUser.made] at hans hmade
  · intro hspares
    have hlinked : AllLinked (run db moves).1 ∧ ∀ e ∈ (run db moves).2, AttachesAsserted e := by
      have hinv := Trace.run_invariant_of_each (s := (⟨db, []⟩ : SignIns))
        (I := fun (s : SignIns) hist => s.Good ∧ s.AllLinked ∧ ∀ e ∈ hist, AttachesAsserted e)
        (P := fun _ e => Spares e) ⟨good_start h, by simp [AllLinked], by simp⟩ ?_ moves
        (Trace.each_of_forall hspares)
      · exact hinv.2
      · rintro s hist m ⟨hs, hl, hall⟩ hsp
        refine ⟨good_act hs m, allLinked_act hs hl m hsp, ?_⟩
        rw [List.forall_mem_append, List.forall_mem_singleton]
        exact ⟨hall, attachesAsserted hs hl m⟩
    exact hlinked.2

/-- The first row, whatever the order. -/
def firstRow : AnyOne IdentityRow where
  pick := List.head?
  mem _ _ := List.mem_of_mem_head?
  some_of_ne_nil l h := by
    cases l with
    | nil => exact absurd rfl h
    | cons => rfl

/-- Someone who signs in with `g` under one address. -/
def oneAccount : Accounts where
  users := AList.insert ['u'] ⟨some ['e'], [], none, 0, 0, none⟩ ∅
  identities := AList.insert (['g'], ['1']) ⟨['u'], some ['e'], true, 0, 0⟩ ∅

theorem settled_oneAccount : oneAccount.Settled := by
  have howner : ∀ k, oneAccount.owner k = if k = (['g'], ['1']) then some ['u'] else none := by
    intro k
    by_cases hk : k = (['g'], ['1'])
    · subst hk
      rfl
    · rw [if_neg hk, Accounts.owner, Option.map_eq_none_iff, AList.lookup_eq_none]
      rw [oneAccount, AList.mem_insert]
      exact not_or.mpr ⟨hk, AList.notMem_empty k⟩
  refine ⟨fun c hc => ⟨(['g'], ['1']), ?_⟩, fun k u h => ?_⟩
  · obtain rfl := (AList.mem_insert _).mp hc |>.resolve_right (AList.notMem_empty c)
    rw [howner, if_pos rfl]
  · rw [howner] at h
    split at h
    · obtain rfl := Option.some.inj h
      exact (AList.mem_insert _).mpr (.inl rfl)
    · exact absurd h (by simp)

/-- Someone signs in with `h` under the address `g` has verified. -/
def signIn : UpsertArgs where
  provider := ['h']
  profile := ⟨['2'], some ['e'], true, [], none⟩
  now := 1
  newUserId := ['w']
  limit1 := firstRow

/-- Alone, it is linked. -/
theorem upsert_one_account_link :
    (∀ e ∈ (run oneAccount [.start signIn, .step 0, .step 0, .step 0, .step 0]).2,
      AttachesAsserted e) ∧
    (run oneAccount [.start signIn, .step 0, .step 0, .step 0, .step 0]).1.store.owner
      (['h'], ['2']) = some ['u'] := by
  refine ⟨(upsert_one_account oneAccount settled_oneAccount _).2.2 ?_, by decide⟩
  have hphases : ∀ e ∈ (run oneAccount [.start signIn, .step 0, .step 0, .step 0, .step 0]).2,
      ∀ call ∈ e.state.tasks, call.phase ∈ [.lookup, .link, .attach ['u'] none,
        UpsertPhase.settle ['u'] none] := by decide
  intro e he i call v _ hcall hphase
  have hmem := hphases e he call (List.mem_of_getElem? hcall)
  rw [hphase] at hmem
  simp at hmem

/-- While `g`'s sign-in changes its address, a sign-in with `h` has already
found the account by the old one. It is attached when nothing there asserts
that address any more. -/
theorem attached_unasserted : ¬ ∀ (db : Accounts), db.Settled → ∀ moves : List (Move UpsertArgs),
    ∀ e ∈ (run db moves).2, AttachesAsserted e := by
  intro hall
  let old : UpsertArgs :=
    { provider := ['g'], profile := ⟨['1'], some ['f'], true, [], none⟩, now := 1, newUserId := ['v'],
      limit1 := firstRow }
  let moves : List (Move UpsertArgs) :=
    [.start signIn, .step 0, .step 0, .start old, .step 1, .step 1]
  have hmem : ⟨(run oneAccount moves).1, .step 0, ()⟩ ∈ (run oneAccount (moves ++ [.step 0])).2 := by
    rw [run, run, Trace.run_snoc, Trace.extend]
    exact List.mem_append_right _ (List.mem_singleton.mpr rfl)
  obtain ⟨email, row, hrow, hnew, old, hold, hu, hasserts⟩ :=
    hall oneAccount settled_oneAccount _ _ hmem (['h'], ['2']) ['u'] (by decide)
      (by decide) ⟨(['g'], ['1']), by decide⟩
  have hrows : (run oneAccount moves).1.store.identities.values =
      [⟨['u'], some ['f'], true, 0, 1⟩] := by decide
  have hafter : ((run oneAccount moves).1.act (.step 0)).1.store.identities.lookup (['h'], ['2']) =
      some ⟨['u'], some ['e'], true, 1, 1⟩ := by decide
  dsimp only at hrow hold
  rw [hrows, List.mem_singleton] at hold
  rw [hafter] at hrow
  obtain rfl := Option.some.inj hrow
  subst hold
  simp only [IdentityRow.asserts, Bool.and_true, beq_iff_eq, Option.some.injEq] at hnew hasserts
  rw [← hnew] at hasserts
  exact absurd hasserts (by decide)

end SignIns

end Zesterm.Cloud
