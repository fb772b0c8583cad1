/-
Zesterm.Fleet.MatchesTheorems — which blocks a merge of answers keeps.

A host tells its blocks apart by run and number, and an `Answer` holds no
block twice: `exists_answer` says so of what a daemon's own merge returns, and
`searchBlocks_newest` of a search that puts such answers together.
The rows no longer say the run. `merge_matches` tells them apart by session
and number, and for a block of a session that has ended that is the number
alone: `mergeMatches_iff` says exactly when the newest blocks are all there.
-/
import Zesterm.Fleet.Matches

namespace Zesterm

namespace Fleet

/-! ## Blocks and answers -/

/-- A block as its host knows it: the run it belongs to, and its row. -/
structure Known where
  run : Nat
  row : BlockMatch
  deriving DecidableEq

namespace Known

/-- What a block is. -/
def identity (k : Known) : HostId × Nat × BlockId := (k.row.host, k.run, k.row.block)

/-- What its host tells it apart by. -/
def number (k : Known) : Nat × BlockId := (k.run, k.row.block)

def rankOf (k : Known) : Nat ×ₗ Nat := k.row.rankOf

def key (k : Known) : HostId × Option Nat × BlockId := Fleet.key k.row

end Known

variable {live : List (Nat × BlockMatch)} {stored : List StoredBlock}

/-- One host's answer: its own blocks, each once. -/
structure Answer where
  host : HostId
  known : List Known
  own : ∀ k ∈ known, k.row.host = host
  different : (known.map Known.identity).Nodup

/-- An answer as it arrives. -/
def Answer.rows (a : Answer) : HostId × List BlockMatch := (a.host, a.known.map Known.row)

/-- A run is the run of one session, and a replica's rows name it. -/
def OneSession (seed : List Known) : Prop :=
  ∀ p ∈ seed, ∀ q ∈ seed, p.identity = q.identity → p.row.session = q.row.session

/-- The blocks there are: those in an answer, and those held for a host that
has not answered. -/
def pool (answers : List Answer) (seed : List Known) : List Known :=
  answers.flatMap Answer.known ++ seed.filter fun k => k.row.host ∉ answers.map Answer.host

/-- The rows are those of the newest blocks, newest first and each block
once. -/
def LosesNone (answers : List Answer) (seed : List Known) (cap : Nat)
    (out : List BlockMatch) : Prop :=
  ∃ picked, picked.map Known.row = out ∧
    Newest.Picks Known.identity Known.rankOf cap (pool answers seed) picked

/-! ## What a daemon returns -/

/-- Ranking rows ranks the blocks they are of. -/
theorem rank_rows (ks : List Known) :
    BlockMatch.rank (ks.map Known.row) =
      (ks.insertionSort fun a b => b.rankOf ≤ a.rankOf).map Known.row :=
  (List.map_insertionSort _ _ Known.row ks fun _ _ _ _ => Iff.rfl).symm

theorem newest_first (ks : List Known) :
    (ks.insertionSort fun a b => b.rankOf ≤ a.rankOf).Pairwise fun p q => q.rankOf ≤ p.rankOf := by
  have : Std.Total fun a b : Known => b.rankOf ≤ a.rankOf := ⟨fun a b => le_total b.rankOf a.rankOf⟩
  have : IsTrans Known fun a b => b.rankOf ≤ a.rankOf := ⟨fun _ _ _ hab hbc => hbc.trans hab⟩
  exact List.pairwise_insertionSort _ _

local instance : LawfulBEq (Nat × BlockId) := inferInstance

/-- What a daemon holds: its live blocks, and what only its store has. -/
def held (live : List (Nat × BlockMatch)) (stored : List StoredBlock) (host : HostId) :
    List Known :=
  live.map (fun l => ⟨l.1, l.2⟩) ++
    (stored.filter fun s => (s.run, s.id) ∉ live.map fun l => (l.1, l.2.block)).map
      fun s => ⟨s.run, s.toMatch host⟩

theorem rows_held (live : List (Nat × BlockMatch)) (stored : List StoredBlock) (host : HostId)
    (limit : Nat) :
    (BlockStore.merge live stored host limit).1 =
      (((held live stored host).insertionSort fun a b => b.rankOf ≤ a.rankOf).take limit).map
        Known.row := by
  have hrows : (held live stored host).map Known.row = live.map Prod.snd ++
      (stored.filter fun s => (s.run, s.id) ∉ live.map fun l => (l.1, l.2.block)).map
        fun s => s.toMatch host := by
    simp [held, Function.comp_def]
  rw [List.map_take, ← rank_rows, hrows]
  rfl

theorem numbers_held (live : List (Nat × BlockMatch)) (stored : List StoredBlock) (host : HostId) :
    (held live stored host).map Known.number = (live.map fun l => (l.1, l.2.block)) ++
      (stored.filter fun s => (s.run, s.id) ∉ live.map fun l => (l.1, l.2.block)).map
        fun s => (s.run, s.id) := by
  simp [held, Known.number, Function.comp_def, StoredBlock.toMatch]

theorem nodup_numbers (host : HostId) (hlive : (live.map fun l => (l.1, l.2.block)).Nodup)
    (hstored : (stored.map fun s => (s.run, s.id)).Nodup) :
    ((held live stored host).map Known.number).Nodup := by
  rw [numbers_held]
  refine hlive.append (hstored.sublist (List.filter_sublist.map _)) fun n hn hn' => ?_
  obtain ⟨s, hs, rfl⟩ := List.mem_map.mp hn'
  exact of_decide_eq_true (List.mem_filter.mp hs).2 hn

/-- Different live blocks and different stored ones are different blocks. -/
theorem nodup_held (host : HostId) (hlive : (live.map fun l => (l.1, l.2.block)).Nodup)
    (hstored : (stored.map fun s => (s.run, s.id)).Nodup) :
    ((held live stored host).map Known.identity).Nodup :=
  Newest.nodup_ids (fun p _ q _ h => ((Prod.mk.inj h).2 : p.number = q.number))
    (nodup_numbers host hlive hstored)

/-! ### The live and the stored as one -/

/-- The run and number of every block there is, live or stored. -/
def numbers (live : List (Nat × BlockMatch)) (stored : List StoredBlock) : List (Nat × BlockId) :=
  (live.map fun l => (l.1, l.2.block)) ++ stored.map fun s => (s.run, s.id)

/-- The version of a block that stands for it: the live one, or the stored one
of a block that is not live. -/
def Stands (live : List (Nat × BlockMatch)) (stored : List StoredBlock) (host : HostId)
    (k : Known) : Prop :=
  (k.run, k.row) ∈ live ∨
    k.number ∉ live.map (fun l => (l.1, l.2.block)) ∧
      ∃ s ∈ stored, k = ⟨s.run, s.toMatch host⟩

/-- `picked` is the newest `limit` of all blocks, each once, newest first and
in the version that stands for it, and `truncated` says if one was left
out. -/
structure Unites (live : List (Nat × BlockMatch)) (stored : List StoredBlock) (host : HostId)
    (limit : Nat) (picked : List Known) (truncated : Bool) : Prop where
  stands : ∀ k ∈ picked, Stands live stored host k
  once : (picked.map Known.number).Nodup
  sorted : picked.Pairwise fun p q => q.rankOf ≤ p.rankOf
  length : picked.length = min limit (numbers live stored).toFinset.card
  newest : ∀ q ∈ picked, ∀ p, Stands live stored host p → p.number ∉ picked.map Known.number →
    p.rankOf ≤ q.rankOf
  truncated_iff : truncated = true ↔ ∃ n ∈ numbers live stored, n ∉ picked.map Known.number

theorem mem_held {host : HostId} {k : Known} :
    k ∈ held live stored host ↔ Stands live stored host k := by
  unfold held Stands
  rw [List.mem_append]
  refine or_congr ?_ ?_
  · constructor
    · intro h
      obtain ⟨l, hl, rfl⟩ := List.mem_map.mp h
      exact hl
    · exact fun h => List.mem_map.mpr ⟨_, h, rfl⟩
  · constructor
    · intro h
      obtain ⟨s, hs, rfl⟩ := List.mem_map.mp h
      obtain ⟨hs, hnot⟩ := List.mem_filter.mp hs
      exact ⟨of_decide_eq_true hnot, s, hs, rfl⟩
    · rintro ⟨hnot, s, hs, rfl⟩
      exact List.mem_map.mpr ⟨s, List.mem_filter.mpr ⟨hs, decide_eq_true hnot⟩, rfl⟩

/-- What a daemon holds is every block there is. -/
theorem mem_numbers_held (host : HostId) {n : Nat × BlockId} :
    n ∈ (held live stored host).map Known.number ↔ n ∈ numbers live stored := by
  rw [numbers_held, numbers, List.mem_append, List.mem_append]
  constructor
  · rintro (h | h)
    · exact .inl h
    · exact .inr ((List.filter_sublist.map _).subset h)
  · rintro (h | h)
    · exact .inl h
    · by_cases hlive : n ∈ live.map fun l => (l.1, l.2.block)
      · exact .inl hlive
      · obtain ⟨s, hs, rfl⟩ := List.mem_map.mp h
        exact .inr (List.mem_map.mpr ⟨s, List.mem_filter.mpr ⟨hs, decide_eq_true hlive⟩, rfl⟩)

/-- A merge of different live blocks and different stored ones is the newest of
all of them. -/
theorem merge_unites (live : List (Nat × BlockMatch)) (stored : List StoredBlock) (host : HostId)
    (limit : Nat) (hlive : (live.map fun l => (l.1, l.2.block)).Nodup)
    (hstored : (stored.map fun s => (s.run, s.id)).Nodup) :
    ∃ picked, picked.map Known.row = (BlockStore.merge live stored host limit).1 ∧
      Unites live stored host limit picked (BlockStore.merge live stored host limit).2 := by
  let sorted := (held live stored host).insertionSort fun a b => b.rankOf ≤ a.rankOf
  have hperm : sorted.Perm (held live stored host) := List.perm_insertionSort _ _
  have hdesc : sorted.Pairwise fun p q => q.rankOf ≤ p.rankOf :=
    newest_first _
  have hnodup := nodup_numbers host hlive hstored
  have hpicks : Newest.Picks Known.number Known.rankOf limit (held live stored host)
      (sorted.take limit) := Newest.picks_take hperm hdesc hnodup
  have hcard : ((held live stored host).map Known.number).toFinset =
      (numbers live stored).toFinset := by
    ext n
    rw [List.mem_toFinset, List.mem_toFinset, mem_numbers_held]
  refine ⟨sorted.take limit, (rows_held live stored host limit).symm, ?_, hpicks.once,
    hpicks.sorted, ?_, ?_, ?_⟩
  · exact fun k hk => mem_held.mp (hpicks.mem k hk)
  · rw [hpicks.length, hcard]
  · exact fun q hq p hp hout => hpicks.newest q hq p (mem_held.mpr hp) (.inr hout)
  · have hcount : (live.map Prod.snd ++ (stored.filter fun s =>
        (s.run, s.id) ∉ live.map fun l => (l.1, l.2.block)).map fun s => s.toMatch host).length =
          (held live stored host).length := by
      simp [held]
    rw [BlockStore.merge, decide_eq_true_iff, hcount]
    constructor
    · -- The one that comes next was left out.
      intro hlt
      rw [← hperm.length_eq] at hlt
      have hmem : sorted[limit] ∈ held live stored host := hperm.subset (List.getElem_mem hlt)
      refine ⟨_, (mem_numbers_held host).mp (List.mem_map_of_mem hmem), fun hin => ?_⟩
      have hall : (sorted.map Known.number).Nodup := (hperm.map _).nodup_iff.mpr hnodup
      rw [← List.take_append_drop limit sorted, List.map_append, List.nodup_append] at hall
      refine hall.2.2 _ hin _ (List.mem_map_of_mem ?_) rfl
      rw [List.drop_eq_getElem_cons hlt]
      exact List.mem_cons_self
    · rintro ⟨n, hn, hout⟩
      by_contra hle
      rw [not_lt, ← hperm.length_eq] at hle
      rw [List.take_of_length_le hle] at hout
      exact hout ((hperm.map _).symm.subset ((mem_numbers_held host).mpr hn))

/-- The blocks of one host that match. -/
structure Holding where
  host : HostId
  live : List (Nat × BlockMatch)
  stored : List StoredBlock
  own : ∀ l ∈ live, l.2.host = host
  liveOnce : (live.map fun l => (l.1, l.2.block)).Nodup
  storedOnce : (stored.map fun s => (s.run, s.id)).Nodup

namespace Holding

variable (h : Holding) (cap : Nat)

def all : List Known := held h.live h.stored h.host

/-- What its daemon says. -/
def reply : HostId × List BlockMatch × Bool := (h.host, BlockStore.merge h.live h.stored h.host cap)

/-- The blocks it names. -/
def named : List Known := (h.all.insertionSort fun a b => b.rankOf ≤ a.rankOf).take cap

theorem host_all : ∀ k ∈ h.all, k.row.host = h.host := by
  intro k hk
  rcases List.mem_append.mp hk with hk | hk
  · obtain ⟨l, hl, rfl⟩ := List.mem_map.mp hk
    exact h.own l hl
  · obtain ⟨s, -, rfl⟩ := List.mem_map.mp hk
    rfl

theorem nodup_all : (h.all.map Known.identity).Nodup := nodup_held h.host h.liveOnce h.storedOnce

theorem picks_named : Newest.Picks Known.identity Known.rankOf cap h.all (h.named cap) :=
  Newest.picks_take (List.perm_insertionSort _ _) (newest_first _) h.nodup_all

def answer : Answer where
  host := h.host
  known := h.named cap
  own := fun k hk => h.host_all k ((h.picks_named cap).mem k hk)
  different := (h.picks_named cap).once

theorem rows_answer : (h.answer cap).rows = (h.host, (h.reply cap).2.1) :=
  congrArg _ (rows_held ..).symm

theorem length_reply : (h.reply cap).2.1.length = min cap h.all.length := by
  rw [reply, rows_held, List.length_map, List.length_take, List.length_insertionSort]
  rfl

theorem truncated_reply : (h.reply cap).2.2 = decide (cap < h.all.length) := by
  simp [reply, BlockStore.merge, all, held]

end Holding

/-- A daemon's merge of different live blocks and different stored ones is an
answer. -/
theorem exists_answer (live : List (Nat × BlockMatch)) (stored : List StoredBlock) (host : HostId)
    (limit : Nat) (hhost : ∀ l ∈ live, l.2.host = host)
    (hlive : (live.map fun l => (l.1, l.2.block)).Nodup)
    (hstored : (stored.map fun s => (s.run, s.id)).Nodup) :
    ∃ a : Answer, a.rows = (host, (BlockStore.merge live stored host limit).1) :=
  ⟨_, Holding.rows_answer ⟨host, live, stored, hhost, hlive, hstored⟩ limit⟩

/-! ## What a merge of answers keeps -/

/-- In the pool a block has one name. -/
theorem key_of_identity {answers : List Answer} {seed : List Known}
    (hhosts : (answers.map Answer.host).Nodup) (hseed : OneSession seed) :
    ∀ p ∈ pool answers seed, ∀ q ∈ pool answers seed, p.identity = q.identity → p.key = q.key := by
  have hseeded {k : Known} (hk : k ∈ seed.filter fun k => k.row.host ∉ answers.map Answer.host) :
      k ∈ seed ∧ k.row.host ∉ answers.map Answer.host :=
    (List.mem_filter.mp hk).imp_right of_decide_eq_true
  have hown {k : Known} (hk : k ∈ answers.flatMap Answer.known) :
      ∃ a ∈ answers, k ∈ a.known ∧ k.row.host = a.host := by
    obtain ⟨a, ha, hka⟩ := List.mem_flatMap.mp hk
    exact ⟨a, ha, hka, a.own k hka⟩
  intro p hp q hq hpq
  have hhost : p.row.host = q.row.host := congrArg Prod.fst hpq
  rcases List.mem_append.mp hp with hp | hp <;> rcases List.mem_append.mp hq with hq | hq
  · obtain ⟨a, ha, hpa, hpost⟩ := hown hp
    obtain ⟨b, hb, hqb, hqost⟩ := hown hq
    obtain rfl : a = b := List.inj_on_of_nodup_map hhosts ha hb (hpost ▸ hqost ▸ hhost)
    rw [List.inj_on_of_nodup_map a.different hpa hqb hpq]
  · obtain ⟨a, ha, -, hpost⟩ := hown hp
    exact absurd (hhost ▸ hpost ▸ List.mem_map_of_mem ha) (hseeded hq).2
  · obtain ⟨b, hb, -, hqost⟩ := hown hq
    exact absurd (hhost ▸ hqost ▸ List.mem_map_of_mem hb) (hseeded hp).2
  · have hsession := hseed p (hseeded hp).1 q (hseeded hq).1 hpq
    have hblock : p.row.block = q.row.block := congrArg (·.2.2) hpq
    rw [Known.key, Known.key, key, key, hhost, hsession, hblock]

/-- The pool, newest first. -/
def ranked (answers : List Answer) (seed : List Known) : List Known :=
  (pool answers seed).insertionSort fun a b => b.rankOf ≤ a.rankOf

theorem perm_ranked (answers : List Answer) (seed : List Known) :
    (ranked answers seed).Perm (pool answers seed) := List.perm_insertionSort _ _

theorem ranked_sorted (answers : List Answer) (seed : List Known) :
    (ranked answers seed).Pairwise fun p q => q.rankOf ≤ p.rankOf := newest_first _

/-- The merge keeps the newest block of every key, up to the cap. -/
theorem mergeMatches_eq (answers : List Answer) (seed : List Known) (cap : Nat) :
    mergeMatches (answers.map Answer.rows) (seed.map Known.row) cap =
      ((Newest.firsts Known.key [] (ranked answers seed)).take cap).map Known.row := by
  have hhosts : (answers.map Answer.rows).map Prod.fst = answers.map Answer.host := by
    rw [List.map_map]
    rfl
  have hout : (answers.map Answer.rows).flatMap Prod.snd ++
      (seed.map Known.row).filter (fun m => decide (m.host ∉ answers.map Answer.host)) =
        (pool answers seed).map Known.row := by
    rw [pool, List.map_append, List.flatMap_map, List.map_flatMap, List.filter_map]
    rfl
  unfold mergeMatches
  dsimp only
  rw [hhosts, hout, rank_rows, Newest.firsts_map, ← List.map_take]
  rfl

/-- The newest blocks are all there, each once, exactly when of two blocks
under one name the older is not wanted. -/
theorem mergeMatches_iff (answers : List Answer) (seed : List Known) (cap : Nat)
    (hhosts : (answers.map Answer.host).Nodup) (hseed : OneSession seed) :
    LosesNone answers seed cap
        (mergeMatches (answers.map Answer.rows) (seed.map Known.row) cap) ↔
      Newest.Shielded Known.identity Known.key Known.rankOf cap (pool answers seed) := by
  have hkey := key_of_identity hhosts hseed
  have hperm := perm_ranked answers seed
  rw [mergeMatches_eq]
  constructor
  · rintro ⟨picked, hrows, hpicks⟩
    have hlen := congrArg List.length hrows
    rw [List.length_map, List.length_map, List.length_take, Newest.length_firsts,
      List.toFinset_eq_of_perm _ _ (hperm.map Known.key)] at hlen
    have hkeys : picked.map Known.key =
        ((Newest.firsts Known.key [] (ranked answers seed)).take cap).map Known.key := by
      have := congrArg (List.map key) hrows
      rwa [List.map_map, List.map_map] at this
    refine Newest.shielded_of_picks hkey hpicks ?_ hlen
    rw [hkeys]
    exact (Newest.nodup_keys_firsts Known.key _ []).sublist ((List.take_sublist _ _).map _)
  · exact fun h => ⟨_, rfl, Newest.picks_firsts hkey hperm (ranked_sorted answers seed) h⟩

/-! ### A search of the fleet -/

section Search

variable (hosts : List Holding) (cap : Nat)

theorem nodup_hosts (hhosts : (hosts.map Holding.host).Nodup) :
    ((hosts.flatMap Holding.all).map Known.identity).Nodup := by
  rw [List.map_flatMap, List.nodup_flatMap]
  refine ⟨fun h _ => h.nodup_all, (List.pairwise_map.mp hhosts).imp fun {a b} hne i hi hi' => ?_⟩
  obtain ⟨p, hp, rfl⟩ := List.mem_map.mp hi
  obtain ⟨q, hq, hpq⟩ := List.mem_map.mp hi'
  have hhost : q.row.host = p.row.host := congrArg Prod.fst hpq
  exact hne ((a.host_all p hp).symm.trans (hhost.symm.trans (b.host_all q hq)))

/-- A host was cut or the rows are too many where the blocks are too many. -/
theorem searchBlocks_truncated :
    (searchBlocks (hosts.map (·.reply cap)) cap).2 = true ↔
      cap < (hosts.flatMap Holding.all).length := by
  rw [searchBlocks, List.length_flatMap]
  simp only [List.map_map, Function.comp_def, Holding.length_reply, List.any_map,
    Holding.truncated_reply, Bool.or_eq_true, List.any_eq_true, decide_eq_true_eq]
  by_cases hcut : ∃ h ∈ hosts, cap < h.all.length
  · obtain ⟨h, hh, hlt⟩ := hcut
    exact iff_of_true (.inl ⟨h, hh, hlt⟩) (hlt.trans_le (List.le_sum_of_mem (List.mem_map_of_mem hh)))
  · rw [or_iff_right hcut]
    push Not at hcut
    rw [List.map_congr_left fun h hh => min_eq_right (hcut h hh)]

theorem named_subset : hosts.flatMap (·.named cap) ⊆ hosts.flatMap Holding.all := by
  intro k hk
  obtain ⟨h, hh, hk⟩ := List.mem_flatMap.mp hk
  exact List.mem_flatMap.mpr ⟨h, hh, (h.picks_named cap).mem k hk⟩

/-- A block that no host names is behind `cap` others that they name. -/
theorem le_card_named : ∀ k ∈ hosts.flatMap Holding.all, k ∉ hosts.flatMap (·.named cap) →
    cap ≤ (((hosts.flatMap (·.named cap)).filter fun x => k.rankOf ≤ x.rankOf).map
      Known.identity).toFinset.card := by
  intro k hk hnot
  obtain ⟨h, hh, hk⟩ := List.mem_flatMap.mp hk
  refine ((h.picks_named cap).le_card hk fun hin => ?_).trans
    (Newest.card_map_le _ fun x hx => ?_)
  · obtain ⟨x, hx, hid⟩ := List.mem_map.mp hin
    obtain rfl := List.inj_on_of_nodup_map h.nodup_all ((h.picks_named cap).mem x hx) hk hid
    exact hnot (List.mem_flatMap.mpr ⟨h, hh, hx⟩)
  · obtain ⟨hx, hnewer⟩ := List.mem_filter.mp hx
    exact List.mem_filter.mpr ⟨List.mem_flatMap.mpr ⟨h, hh, hx⟩, hnewer⟩

/-- Where of two blocks under one name that the hosts send the older is not
wanted, the search finds the newest of all their blocks, and says if one was
left out. -/
theorem searchBlocks_newest (hhosts : (hosts.map Holding.host).Nodup)
    (hshielded : Newest.Shielded Known.identity Known.key Known.rankOf cap
      (hosts.flatMap (·.named cap))) :
    ∃ picked, picked.map Known.row = (searchBlocks (hosts.map (·.reply cap)) cap).1 ∧
      Newest.Picks Known.identity Known.rankOf cap (hosts.flatMap Holding.all) picked ∧
      ((searchBlocks (hosts.map (·.reply cap)) cap).2 = true ↔
        ∃ k ∈ hosts.flatMap Holding.all, k.identity ∉ picked.map Known.identity) := by
  have hpool : pool (hosts.map (·.answer cap)) [] = hosts.flatMap (·.named cap) := by
    rw [pool, List.flatMap_map, List.filter_nil, List.append_nil]
    rfl
  have hanswered : (hosts.map (·.answer cap)).map Answer.host = hosts.map Holding.host := by
    rw [List.map_map]
    rfl
  have hrows : (hosts.map (·.reply cap)).map (fun a => (a.1, a.2.1)) =
      (hosts.map (·.answer cap)).map Answer.rows := by
    rw [List.map_map, List.map_map]
    exact List.map_congr_left fun h _ => (h.rows_answer cap).symm
  rw [← hpool] at hshielded
  have hfirst := Newest.picks_firsts (key_of_identity (hanswered ▸ hhosts) (by simp [OneSession]))
    (perm_ranked _ []) (ranked_sorted _ []) hshielded
  have hpicks := hfirst.of_part (hpool ▸ named_subset hosts cap) (hpool ▸ le_card_named hosts cap)
  refine ⟨_, ?_, hpicks, ?_⟩
  · rw [searchBlocks]
    dsimp only
    rw [hrows]
    exact (mergeMatches_eq _ [] cap).symm
  · rw [searchBlocks_truncated, hpicks.left_out_iff,
      List.toFinset_card_of_nodup (nodup_hosts hosts hhosts), List.length_map]

end Search

/-! ### Two runs of one host -/

def anyHost : HostId := ⟨Vector.replicate 32 1⟩

/-- The first command of a run, as the store keeps it. -/
def firstOf (run endedMs : Nat) : StoredBlock :=
  { run, session := 1, id := 1, command := "make".toList, commandTruncated := false, cwd := []
    branch := [], exitCode := some 0, startedMs := 0, endedMs, author := none }

/-- An answer with the first commands of two runs. -/
def twoRuns : Answer where
  host := anyHost
  known := [⟨2, (firstOf 2 200).toMatch anyHost⟩, ⟨1, (firstOf 1 100).toMatch anyHost⟩]
  own := by simp [StoredBlock.toMatch]
  different := by decide

/-- A live block that is stored too, and one of an older run. -/
theorem merge_unites_live : ∃ picked,
    picked.map Known.row = (BlockStore.merge [(2, (firstOf 2 200).toMatch anyHost)]
      [firstOf 1 100, firstOf 2 200] anyHost 1).1 ∧
    Unites [(2, (firstOf 2 200).toMatch anyHost)] [firstOf 1 100, firstOf 2 200] anyHost 1 picked
      (BlockStore.merge [(2, (firstOf 2 200).toMatch anyHost)] [firstOf 1 100, firstOf 2 200]
        anyHost 1).2 :=
  merge_unites _ _ _ _ (by decide) (by decide)

/-- With room for one row the newer of the two is the answer. -/
theorem mergeMatches_iff_twoRuns :
    LosesNone [twoRuns] [] 1 (mergeMatches [twoRuns.rows] [] 1) ∧
      Newest.Shielded Known.identity Known.key Known.rankOf 1 (pool [twoRuns] []) := by
  have hiff := mergeMatches_iff [twoRuns] [] 1 (by decide) (by simp [OneSession])
  have hshielded : Newest.Shielded Known.identity Known.key Known.rankOf 1 (pool [twoRuns] []) := by
    unfold Newest.Shielded
    decide
  exact ⟨hiff.mpr hshielded, hshielded⟩

def oneHost : Holding where
  host := anyHost
  live := []
  stored := [firstOf 1 100, firstOf 2 200]
  own := nofun
  liveOnce := List.nodup_nil
  storedOnce := by decide

theorem searchBlocks_newest_oneHost : ∃ picked,
    picked.map Known.row = (searchBlocks [oneHost.reply 1] 1).1 ∧
      Newest.Picks Known.identity Known.rankOf 1 oneHost.all picked := by
  have hshielded : Newest.Shielded Known.identity Known.key Known.rankOf 1
      ([oneHost].flatMap (·.named 1)) := by
    unfold Newest.Shielded
    decide
  obtain ⟨picked, hrows, hpicks, -⟩ := searchBlocks_newest [oneHost] 1 (by decide) hshielded
  exact ⟨picked, hrows, hpicks⟩

/-- With room for more the older is lost: both are called number one of no
session. -/
theorem older_run_lost :
    twoRuns.rows =
        (anyHost, (BlockStore.merge [] [firstOf 1 100, firstOf 2 200] anyHost 50).1) ∧
      ¬∀ (answers : List Answer) (seed : List Known) (cap : Nat),
        (answers.map Answer.host).Nodup → OneSession seed →
          LosesNone answers seed cap
            (mergeMatches (answers.map Answer.rows) (seed.map Known.row) cap) := by
  refine ⟨by decide, fun hall => ?_⟩
  obtain ⟨picked, hrows, hpicks⟩ := hall [twoRuns] [] 10 (by decide) (by simp [OneSession])
  have hout : (mergeMatches ([twoRuns].map Answer.rows) (([] : List Known).map Known.row) 10).length
      = 1 := by decide
  have hblocks : ((pool [twoRuns] []).map Known.identity).toFinset.card = 2 := by decide
  have hlen := hpicks.length
  rw [← List.length_map Known.row, hrows, hout, hblocks] at hlen
  omega

end Fleet

end Zesterm
