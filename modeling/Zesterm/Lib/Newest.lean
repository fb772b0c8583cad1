/-
Zesterm.Lib.Newest — the newest few of many, each once.

Items are told apart by what they are (`id`), by a key that may be the same
for different items, and by a rank. `firsts` keeps the first item of every
key. Cut to a number after a sort by rank, it is meant to hold the newest of
the items, each once: `Picks` says what that is. `picks_firsts` and
`shielded_of_picks` say exactly when it does: two items under one key are not
both wanted, since newer keys fill the list before the older of the two.

Nothing here is about terminals: items, keys and ranks are any types, the
ranks in a linear order.
-/
import Mathlib.Data.Finset.Card
import Mathlib.Data.List.Dedup
import Mathlib.Tactic

namespace Newest

variable {α β ι κ ρ : Type*}

/-! ## The first item of every key -/

section Firsts

variable [DecidableEq κ] (key : α → κ)
variable (as : List α)

/-- The first item of every key that has not been seen. -/
def firsts : List κ → List α → List α
  | _, [] => []
  | seen, a :: as =>
    if key a ∈ seen then firsts seen as else a :: firsts (key a :: seen) as

theorem firsts_cons (seen : List κ) (a : α) (as : List α) :
    firsts key seen (a :: as) =
      if key a ∈ seen then firsts key seen as else a :: firsts key (key a :: seen) as := rfl

theorem firsts_sublist : ∀ seen, (firsts key seen as).Sublist as := by
  induction as with
  | nil => exact fun _ => .slnil
  | cons a as ih =>
    intro seen
    rw [firsts_cons]
    split
    · exact (ih seen).cons a
    · exact (ih (key a :: seen)).cons_cons a

theorem key_notMem_seen : ∀ seen, ∀ b ∈ firsts key seen as, key b ∉ seen := by
  induction as with
  | nil => exact fun _ b hb => absurd hb List.not_mem_nil
  | cons a as ih =>
    intro seen b hb
    rw [firsts_cons] at hb
    split at hb
    · exact ih seen b hb
    · next hnew =>
      rcases List.mem_cons.mp hb with rfl | hb
      · exact hnew
      · exact fun hseen => ih _ b hb (List.mem_cons_of_mem _ hseen)

theorem nodup_keys_firsts : ∀ seen, ((firsts key seen as).map key).Nodup := by
  induction as with
  | nil => exact fun _ => List.nodup_nil
  | cons a as ih =>
    intro seen
    rw [firsts_cons]
    split
    · exact ih seen
    · rw [List.map_cons, List.nodup_cons]
      refine ⟨fun hmem => ?_, ih _⟩
      obtain ⟨b, hb, hkey⟩ := List.mem_map.mp hmem
      exact key_notMem_seen key as _ b hb (hkey ▸ List.mem_cons_self)

/-- In a sorted list the item that is kept comes before every other of its
key. -/
theorem exists_first {r : α → α → Prop} {as : List α} (hsorted : as.Pairwise r) :
    ∀ seen, ∀ a ∈ as, key a ∉ seen →
      ∃ b ∈ firsts key seen as, key b = key a ∧ (b = a ∨ r b a) := by
  induction hsorted with
  | nil => exact fun _ a ha => absurd ha List.not_mem_nil
  | @cons a as hbefore _ ih =>
    intro seen b hb hnew
    rw [firsts_cons]
    rcases List.mem_cons.mp hb with rfl | hb
    · rw [if_neg hnew]
      exact ⟨b, List.mem_cons_self, rfl, .inl rfl⟩
    · split
      · exact ih seen b hb hnew
      · by_cases hkey : key a = key b
        · exact ⟨a, List.mem_cons_self, hkey, .inr (hbefore b hb)⟩
        · obtain ⟨c, hc, hckey, hcb⟩ := ih (key a :: seen) b hb (by simp [Ne.symm hkey, hnew])
          exact ⟨c, List.mem_cons_of_mem _ hc, hckey, hcb⟩

theorem toFinset_keys_firsts : ((firsts key [] as).map key).toFinset = (as.map key).toFinset := by
  ext k
  rw [List.mem_toFinset, List.mem_toFinset]
  constructor
  · exact fun hk => ((firsts_sublist key as []).map key).mem hk
  · intro hk
    obtain ⟨a, ha, rfl⟩ := List.mem_map.mp hk
    obtain ⟨b, hb, hkey, -⟩ :=
      exists_first key (List.pairwise_of_forall (R := fun _ _ => True) fun _ _ => trivial) [] a ha
        List.not_mem_nil
    exact List.mem_map.mpr ⟨b, hb, hkey⟩

theorem length_firsts : (firsts key [] as).length = (as.map key).toFinset.card := by
  rw [← toFinset_keys_firsts, List.toFinset_card_of_nodup (nodup_keys_firsts key as []),
    List.length_map]

end Firsts

/-- Keeping the first of each key commutes with a map that keeps the keys. -/
theorem firsts_map [DecidableEq κ] (key : β → κ) (f : α → β) (as : List α) :
    ∀ seen, firsts key seen (as.map f) = (firsts (key ∘ f) seen as).map f := by
  induction as with
  | nil => exact fun _ => rfl
  | cons a as ih =>
    intro seen
    rw [List.map_cons, firsts_cons, firsts_cons, Function.comp_apply]
    split
    · exact ih seen
    · rw [ih, List.map_cons]

/-! ## The newest, each once -/

variable [LinearOrder ρ] [DecidableEq ι] {id : α → ι} {rank : α → ρ} {cap : ℕ}
  {pool part picked sorted : List α}

/-- The newest `cap` items of a pool, newest first and each once. Of an item
that is there in several copies the newest copy is meant. -/
structure Picks (id : α → ι) (rank : α → ρ) (cap : ℕ) (pool picked : List α) : Prop where
  mem : ∀ q ∈ picked, q ∈ pool
  once : (picked.map id).Nodup
  sorted : picked.Pairwise fun p q => rank q ≤ rank p
  length : picked.length = min cap (pool.map id).toFinset.card
  newest : ∀ q ∈ picked, ∀ p ∈ pool, id p = id q ∨ id p ∉ picked.map id → rank p ≤ rank q

theorem toFinset_map_subset [DecidableEq κ] (f : α → κ) (hpart : part ⊆ pool) :
    (part.map f).toFinset ⊆ (pool.map f).toFinset := by
  intro k hk
  rw [List.mem_toFinset] at hk ⊢
  exact List.map_subset f hpart hk

theorem card_map_le [DecidableEq κ] (f : α → κ) (hpart : part ⊆ pool) :
    (part.map f).toFinset.card ≤ (pool.map f).toFinset.card :=
  Finset.card_le_card (toFinset_map_subset f hpart)

/-- Of a pool with no copies the first `cap` in order are the newest. -/
theorem picks_take (hperm : sorted.Perm pool)
    (hsorted : sorted.Pairwise fun p q => rank q ≤ rank p) (hnodup : (pool.map id).Nodup) :
    Picks id rank cap pool (sorted.take cap) := by
  refine ⟨fun q hq => hperm.subset (List.take_subset _ _ hq),
    (((hperm.map id).nodup_iff.mpr hnodup).sublist ((List.take_sublist _ _).map id)),
    hsorted.sublist (List.take_sublist _ _), ?_, ?_⟩
  · rw [List.length_take, List.toFinset_card_of_nodup hnodup, List.length_map, hperm.length_eq]
  · intro q hq p hp hor
    have hqpool := hperm.subset (List.take_subset _ _ hq)
    rcases hor with hid | hout
    · exact (List.inj_on_of_nodup_map hnodup hp hqpool hid) ▸ le_rfl
    · rw [← List.take_append_drop cap sorted] at hsorted hperm
      rcases List.mem_append.mp (hperm.symm.subset hp) with hin | hcut
      · exact absurd (List.mem_map_of_mem hin) hout
      · exact (List.pairwise_append.mp hsorted).2.2 q hq p hcut

/-- One is left out where there are more than `cap`. -/
theorem Picks.left_out_iff (h : Picks id rank cap pool picked) :
    (∃ p ∈ pool, id p ∉ picked.map id) ↔ cap < (pool.map id).toFinset.card := by
  have hsub := toFinset_map_subset id h.mem
  have hlen := List.toFinset_card_of_nodup h.once
  rw [List.length_map, h.length] at hlen
  constructor
  · rintro ⟨p, hp, hout⟩
    have hlt := Finset.card_lt_card ((Finset.ssubset_iff_of_subset hsub).mpr
      ⟨id p, List.mem_toFinset.mpr (List.mem_map_of_mem hp), mt List.mem_toFinset.mp hout⟩)
    omega
  · intro hlt
    by_contra! hall
    have heq : (picked.map id).toFinset = (pool.map id).toFinset := by
      refine hsub.antisymm fun i hi => ?_
      obtain ⟨p, hp, rfl⟩ := List.mem_map.mp (List.mem_toFinset.mp hi)
      exact List.mem_toFinset.mpr (hall p hp)
    rw [heq] at hlen
    omega

/-- What is left out is behind `cap` others. -/
theorem Picks.le_card (h : Picks id rank cap pool picked) {p : α} (hp : p ∈ pool)
    (hout : id p ∉ picked.map id) :
    cap ≤ ((picked.filter fun x => rank p ≤ rank x).map id).toFinset.card := by
  have hlt := h.left_out_iff.mp ⟨p, hp, hout⟩
  rw [List.filter_eq_self.mpr fun q hq => decide_eq_true (h.newest q hq p hp (.inr hout)),
    List.toFinset_card_of_nodup h.once, List.length_map, h.length]
  omega

/-- The newest of a part are the newest of all, where `cap` of the part are
as new as any that it lacks. -/
theorem Picks.of_part (h : Picks id rank cap part picked) (hpart : part ⊆ pool)
    (hlacks : ∀ p ∈ pool, p ∉ part →
      cap ≤ ((part.filter fun x => rank p ≤ rank x).map id).toFinset.card) :
    Picks id rank cap pool picked := by
  refine ⟨fun q hq => hpart (h.mem q hq), h.once, h.sorted, ?_, fun q hq p hp hor => ?_⟩
  · rw [h.length]
    have hle := card_map_le id hpart
    by_cases hall : ∀ p ∈ pool, p ∈ part
    · rw [hle.antisymm (card_map_le id hall)]
    · push Not at hall
      obtain ⟨p, hp, hnot⟩ := hall
      have hfull := (hlacks p hp hnot).trans (card_map_le id List.filter_sublist.subset)
      omega
  · by_cases hin : p ∈ part
    · exact h.newest q hq p hin hor
    · by_contra! hlt
      -- They would all be picked, and `q` with them.
      have hnewer : ∀ x ∈ part.filter fun x => rank p ≤ rank x, x ∈ part ∧ rank q < rank x :=
        fun x hx => (List.mem_filter.mp hx).imp_right fun hx => hlt.trans_le (of_decide_eq_true hx)
      have hsub : ((part.filter fun x => rank p ≤ rank x).map id).toFinset ⊂
          (picked.map id).toFinset := by
        refine (Finset.ssubset_iff_of_subset fun i hi => ?_).mpr ⟨id q, ?_, fun hi => ?_⟩
        · rw [List.mem_toFinset] at hi ⊢
          obtain ⟨x, hx, rfl⟩ := List.mem_map.mp hi
          by_contra hout
          exact (h.newest q hq x (hnewer x hx).1 (.inr hout)).not_gt (hnewer x hx).2
        · exact List.mem_toFinset.mpr (List.mem_map_of_mem hq)
        · obtain ⟨x, hx, hid⟩ := List.mem_map.mp (List.mem_toFinset.mp hi)
          exact (h.newest q hq x (hnewer x hx).1 (.inl hid)).not_gt (hnewer x hx).2
      have hfew := (hlacks p hp hin).trans_lt (Finset.card_lt_card hsub)
      rw [List.toFinset_card_of_nodup h.once, List.length_map, h.length] at hfew
      omega
/-- Of two different items under one key, the older one is not wanted: there
are `cap` keys with an item as new as it. -/
def Shielded [DecidableEq κ] (id : α → ι) (key : α → κ) (rank : α → ρ) (cap : ℕ)
    (pool : List α) : Prop :=
  ∀ p ∈ pool, ∀ q ∈ pool, key p = key q → id p ≠ id q → rank p ≤ rank q →
    cap ≤ ((pool.filter fun x => rank p ≤ rank x).map key).toFinset.card

/-- If the first `cap` of a sorted list hold one that is older than `r`, fewer
than `cap` of the list are as new as `r`. -/
theorem length_filter_lt (hsorted : sorted.Pairwise fun p q => rank q ≤ rank p) {q : α} {r : ρ}
    (hq : q ∈ sorted.take cap) (hold : rank q < r) :
    (sorted.filter fun x => r ≤ rank x).length < cap := by
  rw [← List.take_append_drop cap sorted, List.filter_append]
  have hafter : (sorted.drop cap).filter (fun x => decide (r ≤ rank x)) = [] := by
    rw [List.filter_eq_nil_iff]
    intro x hx
    rw [← List.take_append_drop cap sorted] at hsorted
    have hle := (List.pairwise_append.mp hsorted).2.2 q hq x hx
    simpa using lt_of_le_of_lt hle hold
  rw [hafter, List.append_nil]
  have hlt : ((sorted.take cap).filter fun x => decide (r ≤ rank x)).length <
      (sorted.take cap).length := by
    rw [List.length_filter_lt_length_iff_exists]
    exact ⟨q, hq, by simpa using hold⟩
  exact hlt.trans_le (List.length_take_le _ _)

/-! ### Counting -/

/-- Items of a pool with different values take as many of its values. -/
theorem length_le_card [DecidableEq κ] {f : α → κ} (hnodup : (picked.map f).Nodup)
    (hmem : ∀ q ∈ picked, q ∈ pool) : picked.length ≤ (pool.map f).toFinset.card := by
  rw [← List.length_map f, ← List.toFinset_card_of_nodup hnodup]
  exact card_map_le f hmem

section Keys

variable [DecidableEq κ] {key : α → κ}

omit [DecidableEq ι] [DecidableEq κ] in
/-- Items under different keys are different. -/
theorem nodup_ids (hkey : ∀ p ∈ picked, ∀ q ∈ picked, id p = id q → key p = key q)
    (hnodup : (picked.map key).Nodup) : (picked.map id).Nodup := by
  rw [List.Nodup, List.pairwise_map] at hnodup ⊢
  exact hnodup.imp_of_mem fun hp hq hne heq => hne (hkey _ hp _ hq heq)

variable (hkey : ∀ p ∈ pool, ∀ q ∈ pool, id p = id q → key p = key q)
include hkey

theorem card_keys_le : (pool.map key).toFinset.card ≤ (pool.map id).toFinset.card := by
  have hmem : ∀ q ∈ firsts key [] pool, q ∈ pool := (firsts_sublist key pool []).subset
  rw [← length_firsts key pool]
  exact length_le_card (nodup_ids (fun p hp q hq => hkey p (hmem p hp) q (hmem q hq))
    (nodup_keys_firsts key pool [])) hmem

omit [DecidableEq κ] in
/-- Of two different items under one key, a list with no key twice leaves one
out. -/
theorem exists_left_out (hmem : ∀ q ∈ picked, q ∈ pool) (hnodup : (picked.map key).Nodup) {p q : α}
    (hp : p ∈ pool) (hq : q ∈ pool) (hpq : key p = key q) (hne : id p ≠ id q) :
    id p ∉ picked.map id ∨ id q ∉ picked.map id := by
  by_contra! hboth
  obtain ⟨a, ha, hap⟩ := List.mem_map.mp hboth.1
  obtain ⟨b, hb, hbq⟩ := List.mem_map.mp hboth.2
  have hkeys : key a = key b :=
    (hkey a (hmem a ha) p hp hap).trans (hpq.trans (hkey b (hmem b hb) q hq hbq).symm)
  have hab : a = b := List.inj_on_of_nodup_map hnodup ha hb hkeys
  exact hne (hap.symm.trans (hab ▸ hbq))

theorem card_keys_lt {p q : α} (hp : p ∈ pool) (hq : q ∈ pool) (hpq : key p = key q)
    (hne : id p ≠ id q) : (pool.map key).toFinset.card < (pool.map id).toFinset.card := by
  have hmem : ∀ q ∈ firsts key [] pool, q ∈ pool := (firsts_sublist key pool []).subset
  have hnodup := nodup_keys_firsts key pool []
  have hids := nodup_ids (fun p hp q hq => hkey p (hmem p hp) q (hmem q hq)) hnodup
  have hmore (x : α) (hx : x ∈ pool) (hout : id x ∉ (firsts key [] pool).map id) :
      (pool.map key).toFinset.card < (pool.map id).toFinset.card := by
    have hnodup' : ((x :: firsts key [] pool).map id).Nodup := List.nodup_cons.mpr ⟨hout, hids⟩
    have hlen := length_le_card hnodup' (List.forall_mem_cons.mpr ⟨hx, hmem⟩)
    rw [List.length_cons, length_firsts] at hlen
    exact hlen
  rcases exists_left_out hkey hmem hnodup hp hq hpq hne with hout | hout
  · exact hmore p hp hout
  · exact hmore q hq hout

/-! ### When the first of each key are the newest -/

theorem shielded_of_picks (h : Picks id rank cap pool picked) (hnodup : (picked.map key).Nodup)
    (hlen : picked.length = min cap (pool.map key).toFinset.card) :
    Shielded id key rank cap pool := by
  intro p hp q hq hpq hne hle
  -- One of the two is left out, so there was no room for it.
  have hlt := card_keys_lt hkey hp hq hpq hne
  have hfull : picked.length = cap := by
    have hids := h.length
    omega
  have hnew : ∀ x ∈ pool, id x ∉ picked.map id → rank p ≤ rank x →
      cap ≤ ((pool.filter fun x => rank p ≤ rank x).map key).toFinset.card := by
    intro x hx hout hpx
    rw [← hfull]
    refine length_le_card hnodup fun y hy => List.mem_filter.mpr ⟨h.mem y hy, ?_⟩
    exact decide_eq_true (hpx.trans (h.newest y hy x hx (.inr hout)))
  rcases exists_left_out hkey h.mem hnodup hp hq hpq hne with hout | hout
  · exact hnew p hp hout le_rfl
  · exact hnew q hq hout hle

theorem picks_firsts (hperm : sorted.Perm pool)
    (hsorted : sorted.Pairwise fun p q => rank q ≤ rank p) (h : Shielded id key rank cap pool) :
    Picks id rank cap pool ((firsts key [] sorted).take cap) := by
  have hsub := firsts_sublist key sorted []
  have hmem : ∀ q ∈ firsts key [] sorted, q ∈ pool := fun q hq => hperm.subset (hsub.subset hq)
  have hnodup := nodup_keys_firsts key sorted []
  have hdesc : (firsts key [] sorted).Pairwise fun p q => rank q ≤ rank p := hsorted.sublist hsub
  have hfirst (p : α) (hp : p ∈ pool) :
      ∃ b ∈ firsts key [] sorted, key b = key p ∧ rank p ≤ rank b := by
    obtain ⟨b, hb, hbkey, hbrank⟩ :=
      exists_first key hsorted [] p (hperm.symm.subset hp) List.not_mem_nil
    rcases hbrank with rfl | hle
    · exact ⟨b, hb, hbkey, le_rfl⟩
    · exact ⟨b, hb, hbkey, hle⟩
  have hcard : (firsts key [] sorted).length = (pool.map key).toFinset.card := by
    rw [length_firsts, List.toFinset_eq_of_perm _ _ (hperm.map key)]
  refine ⟨fun q hq => hmem q (List.take_subset _ _ hq), ?_, hdesc.sublist (List.take_sublist _ _),
    ?_, fun q hq p hp hor => ?_⟩
  · exact (nodup_ids (fun p hp q hq => hkey p (hmem p hp) q (hmem q hq)) hnodup).sublist
      ((List.take_sublist _ _).map id)
  · rw [List.length_take, hcard]
    have hle := card_keys_le hkey
    by_cases hroom : cap ≤ (pool.map key).toFinset.card
    · omega
    · -- With room to spare no two items share a key.
      have hids : (pool.map id).toFinset.card ≤ (pool.map key).toFinset.card := by
        refine card_keys_le fun p hp q hq hpq => ?_
        by_contra hne
        have hcount (r : ρ) : ((pool.filter fun x => r ≤ rank x).map key).toFinset.card ≤
            (pool.map key).toFinset.card := card_map_le key List.filter_sublist.subset
        rcases le_total (rank p) (rank q) with hpq' | hpq'
        · exact hroom ((h p hp q hq hpq hne hpq').trans (hcount _))
        · exact hroom ((h q hq p hp hpq.symm (Ne.symm hne) hpq').trans (hcount _))
      omega
  · have hqD := List.take_subset _ _ hq
    obtain ⟨b, hb, hbkey, hbrank⟩ := hfirst p hp
    have hcut := (List.take_append_drop cap (firsts key [] sorted)).symm
    rcases List.mem_append.mp (hcut ▸ hb) with hin | hcutoff
    · by_cases hbid : id b = id p
      · rcases hor with hid | hout
        · have hbq := List.inj_on_of_nodup_map hnodup hb hqD (hkey b (hmem b hb) q (hmem q hqD)
            (hbid.trans hid))
          exact hbq ▸ hbrank
        · exact absurd (hbid ▸ List.mem_map_of_mem hin) hout
      · -- Another item is kept for the key: the list was full before this one.
        have hfull := h p hp b (hmem b hb) hbkey.symm (Ne.symm hbid) hbrank
        by_contra! hlt
        have hfew := length_filter_lt hdesc hq hlt
        have hkeys : ((pool.filter fun x => rank p ≤ rank x).map key).toFinset.card ≤
            ((firsts key [] sorted).filter fun x => rank p ≤ rank x).length := by
          rw [← List.length_map key]
          refine le_trans (Finset.card_le_card fun k hk => ?_) (List.toFinset_card_le _)
          rw [List.mem_toFinset] at hk ⊢
          obtain ⟨x, hx, rfl⟩ := List.mem_map.mp hk
          obtain ⟨hxpool, hpx⟩ := List.mem_filter.mp hx
          obtain ⟨c, hc, hckey, hxc⟩ := hfirst x hxpool
          refine List.mem_map.mpr ⟨c, List.mem_filter.mpr ⟨hc, ?_⟩, hckey⟩
          exact decide_eq_true ((of_decide_eq_true hpx).trans hxc)
        omega
    · rw [hcut] at hdesc
      exact hbrank.trans ((List.pairwise_append.mp hdesc).2.2 q hq b hcutoff)

end Keys

end Newest
