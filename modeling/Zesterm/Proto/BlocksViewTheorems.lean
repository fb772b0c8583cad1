/-
Zesterm.Proto.BlocksViewTheorems — the walk of the blocks pane puts every row
where the rule says.

`place_eq_rule` is the one fact about the cursor: with every block before it
passed, and the block at it not, the place of a row is the rule's. The cursor
only ever stands so, for what is passed at a row is passed at every later one
(`passesAt_mono`). `get_foldl` then says of each list of the walk that it is
the rows the rule puts there, in order.
-/
import Zesterm.Proto.BlocksView

namespace Zesterm.Web.BlocksView

variable {blocks : List BlockPayload} {line : Int}

/-! ## The cursor -/

/-- The block at an index is passed. -/
def passesAt (blocks : List BlockPayload) (line : Int) (i : Nat) : Bool :=
  (blocks[i]?).any fun b => passes b blocks[i + 1]? line

theorem passes_mono {b : BlockPayload} {next : Option BlockPayload} {l l' : Int}
    (h : passes b next l = true) (hle : l ≤ l') : passes b next l' = true := by
  unfold passes at h ⊢
  cases hend : b.endLine with
  | some e =>
    simp only [hend, decide_eq_true_eq] at h ⊢
    omega
  | none =>
    cases next with
    | none => simp [hend] at h
    | some n =>
      simp only [hend, Option.any_some, decide_eq_true_eq] at h ⊢
      omega

theorem passesAt_mono {i : Nat} {l l' : Int} (h : passesAt blocks l i = true) (hle : l ≤ l') :
    passesAt blocks l' i = true := by
  unfold passesAt at h ⊢
  cases hb : blocks[i]? with
  | none => simp [hb] at h
  | some b =>
    simp only [hb, Option.any_some] at h ⊢
    exact passes_mono h hle

/-- The loop stops at the first block that is not passed. -/
theorem advance_spec (line : Int) (rest : List BlockPayload) :
    ∀ bi, blocks.drop bi = rest → bi ≤ blocks.length →
      bi ≤ advance line rest bi ∧ advance line rest bi ≤ blocks.length ∧
      (∀ j, bi ≤ j → j < advance line rest bi → passesAt blocks line j = true) ∧
      passesAt blocks line (advance line rest bi) = false := by
  induction rest with
  | nil =>
    intro bi hdrop hle
    have hlen := List.drop_eq_nil_iff.mp hdrop
    refine ⟨Nat.le_refl bi, hle, fun j hj hj' => absurd hj' (Nat.not_lt.mpr hj), ?_⟩
    rw [advance, passesAt, List.getElem?_eq_none hlen]
    rfl
  | cons b rest ih =>
    intro bi hdrop hle
    have hlt : bi < blocks.length := by
      by_contra hge
      rw [List.drop_eq_nil_of_le (Nat.not_lt.mp hge)] at hdrop
      cases hdrop
    have hcons := List.drop_eq_getElem_cons hlt
    rw [hdrop] at hcons
    obtain ⟨hb, hrest⟩ := List.cons.inj hcons
    have hat : passesAt blocks line bi = passes b rest.head? line := by
      rw [passesAt, List.getElem?_eq_getElem hlt, ← hb, hrest, List.head?_drop, Option.any_some]
    rw [advance]
    split
    · next hpass =>
      obtain ⟨hge, hbound, hpassed, hstop⟩ := ih (bi + 1) hrest.symm hlt
      refine ⟨Nat.le_of_succ_le hge, hbound, fun j hj hj' => ?_, hstop⟩
      rcases Nat.eq_or_lt_of_le hj with rfl | hj
      · rw [hat, hpass]
      · exact hpassed j hj hj'
    · next hpass =>
      refine ⟨Nat.le_refl bi, hle, fun j hj hj' => absurd hj' (Nat.not_lt.mpr hj), ?_⟩
      rw [hat]
      exact Bool.eq_false_iff.mpr hpass

/-! ## The rule -/

/-- Where the rule puts a row. -/
def rule (blocks : List BlockPayload) (line : Int) : Place :=
  match home blocks line with
  | some i => if isOutput blocks i line then .output i else .prompt i
  | none => if isEarly blocks line then .preamble else .tail

theorem contains_eq (blocks : List BlockPayload) (line : Int) (i : Nat) :
    contains blocks line i =
      ((blocks[i]?).any (fun b => decide (b.promptLine ≤ line)) && !passesAt blocks line i) := by
  unfold contains passesAt passes
  cases blocks[i]? with
  | none => rfl
  | some b =>
    cases hend : b.endLine with
    | some e => simp [hend, ← decide_not]
    | none => cases blocks[i + 1]? <;> simp [hend, ← decide_not]

theorem home_eq_some {i : Nat} (hi : contains blocks line i = true)
    (hbefore : ∀ j < i, contains blocks line j = false) : home blocks line = some i := by
  have hlt : i < blocks.length := by
    by_contra hge
    rw [contains, List.getElem?_eq_none (Nat.not_lt.mp hge)] at hi
    cases hi
  exact List.find?_range_eq_some.mpr ⟨hi, List.mem_range.mpr hlt, fun j hj => by simp [hbefore j hj]⟩

theorem home_eq_none (h : ∀ j, contains blocks line j = false) : home blocks line = none :=
  List.find?_eq_none.mpr fun j _ => by simp [h j]

theorem home_lt {i : Nat} (h : home blocks line = some i) : i < blocks.length :=
  List.mem_range.mp (List.mem_of_find?_eq_some h)

/-- The first block, with nothing passed before it, is early above its prompt. -/
theorem isEarly_eq (hasc : blocks.Pairwise (·.promptLine ≤ ·.promptLine)) :
    isEarly blocks line =
      ((blocks[0]?).any (fun b => decide (line < b.promptLine)) && !passesAt blocks line 0) := by
  unfold isEarly passesAt passes
  rw [List.head?_eq_getElem?]
  cases hb : blocks[0]? with
  | none => rfl
  | some b =>
    cases hend : b.endLine with
    | some e => simp [hend, ← decide_not]
    | none =>
      cases hn : blocks[0 + 1]? with
      | none => simp [hend]
      | some n =>
        obtain ⟨h0, rfl⟩ := List.getElem?_eq_some_iff.mp hb
        obtain ⟨h1, rfl⟩ := List.getElem?_eq_some_iff.mp hn
        have hle : blocks[0].promptLine ≤ blocks[0 + 1].promptLine :=
          List.pairwise_iff_getElem.mp hasc 0 1 h0 h1 Nat.zero_lt_one
        simp only [hend, Option.any_some, Option.all_none, Bool.and_true, ← decide_not]
        by_cases hlt : line < blocks[0].promptLine
        · have hnot : ¬ blocks[0 + 1].promptLine ≤ line := fun h => by omega
          simp [hlt, hnot]
        · simp [hlt]

/-- With every block before the cursor passed, and the one at it not, a row
goes where the rule says. -/
theorem place_eq_rule {bi : Nat} (hasc : blocks.Pairwise (·.promptLine ≤ ·.promptLine))
    (hpassed : ∀ j < bi, passesAt blocks line j = true) (hstop : passesAt blocks line bi = false) :
    place blocks bi line = rule blocks line := by
  have hbefore : ∀ j < bi, contains blocks line j = false := fun j hj => by
    rw [contains_eq, hpassed j hj, Bool.not_true, Bool.and_false]
  have hearly : 0 < bi → isEarly blocks line = false := fun hpos => by
    rw [isEarly_eq hasc, hpassed 0 hpos, Bool.not_true, Bool.and_false]
  unfold place
  cases hb : blocks[bi]? with
  | none =>
    have hlen := List.getElem?_eq_none_iff.mp hb
    have hnone : home blocks line = none := home_eq_none fun j => by
      by_cases hj : j < bi
      · exact hbefore j hj
      · rw [contains, List.getElem?_eq_none (by omega)]
    have hnot : isEarly blocks line = false := by
      rcases Nat.eq_zero_or_pos bi with rfl | hpos
      · rw [isEarly_eq hasc, hb]
        rfl
      · exact hearly hpos
    rw [rule, hnone, hnot]
    rfl
  | some b =>
    obtain ⟨hlt, hget⟩ := List.getElem?_eq_some_iff.mp hb
    by_cases habove : line < b.promptLine
    · have hnone : home blocks line = none := home_eq_none fun j => by
        by_cases hj : j < bi
        · exact hbefore j hj
        rw [contains_eq]
        cases hbj : blocks[j]? with
        | none => rfl
        | some c =>
          obtain ⟨hjlt, hgetj⟩ := List.getElem?_eq_some_iff.mp hbj
          have hle : b.promptLine ≤ c.promptLine := by
            rcases Nat.eq_or_lt_of_le (Nat.not_lt.mp hj) with rfl | hj
            · rw [← hget, ← hgetj]
            · rw [← hget, ← hgetj]
              exact List.pairwise_iff_getElem.mp hasc bi j hlt hjlt hj
          have hnot : ¬ c.promptLine ≤ line := by omega
          simp [hnot]
      rw [rule, hnone]
      dsimp only
      rw [if_pos habove]
      rcases Nat.eq_zero_or_pos bi with rfl | hpos
      · have hyes : isEarly blocks line = true := by
          rw [isEarly_eq hasc, hb, hstop]
          simp [habove]
        rw [if_pos rfl, if_pos hyes]
      · rw [if_neg (Nat.ne_of_gt hpos), if_neg (by simp [hearly hpos])]
    · have hhome : home blocks line = some bi := by
        refine home_eq_some ?_ hbefore
        rw [contains_eq, hb, hstop]
        simpa using Int.not_lt.mp habove
      rw [rule, hhome]
      dsimp only
      rw [if_neg habove, isOutput, hb, Option.any_some]

/-! ## The run -/

/-- The list of a place. -/
def Walk.get (w : Walk) : Place → List RowPayload
  | .preamble => w.preamble
  | .prompt i => w.prompts.getD i []
  | .output i => w.outputs.getD i []
  | .tail => w.tail

/-- A place that has a list. -/
def Place.Valid (n : Nat) : Place → Prop
  | .prompt i => i < n
  | .output i => i < n
  | _ => True

/-- A list for each block. -/
structure Walk.Sized (w : Walk) (n : Nat) : Prop where
  prompts : w.prompts.length = n
  outputs : w.outputs.length = n

theorem getD_modify {α : Type} (lists : List (List α)) (x : α) {i : Nat} (hi : i < lists.length)
    (j : Nat) : (lists.modify i (· ++ [x])).getD j [] =
      lists.getD j [] ++ if i = j then [x] else [] := by
  rw [List.getD_eq_getElem?_getD, List.getD_eq_getElem?_getD, List.getElem?_modify]
  split
  · next h =>
    subst h
    rw [List.getElem?_eq_getElem hi]
    rfl
  · next h =>
    rw [List.append_nil]
    cases lists[j]? <;> rfl

theorem get_push {w : Walk} {n : Nat} (hw : w.Sized n) (row : RowPayload) {p : Place}
    (hp : p.Valid n) (q : Place) :
    (w.push row p).get q = w.get q ++ if p = q then [row] else [] := by
  cases p with
  | preamble | tail => cases q <;> simp [Walk.push, Walk.get]
  | prompt i =>
    cases q with
    | prompt j =>
      rw [Walk.push, Walk.get, Walk.get, getD_modify _ _ (by rw [hw.prompts]; exact hp)]
      simp
    | _ => simp [Walk.push, Walk.get]
  | output i =>
    cases q with
    | output j =>
      rw [Walk.push, Walk.get, Walk.get, getD_modify _ _ (by rw [hw.outputs]; exact hp)]
      simp
    | _ => simp [Walk.push, Walk.get]

theorem sized_push {w : Walk} {n : Nat} (hw : w.Sized n) (row : RowPayload) (p : Place) :
    (w.push row p).Sized n := by
  cases p with
  | preamble | tail => exact ⟨hw.prompts, hw.outputs⟩
  | prompt i => exact ⟨(List.length_modify ..).trans hw.prompts, hw.outputs⟩
  | output i => exact ⟨hw.prompts, (List.length_modify ..).trans hw.outputs⟩

theorem bi_push (w : Walk) (row : RowPayload) (p : Place) : (w.push row p).bi = w.bi := by
  cases p <;> rfl

theorem valid_rule (blocks : List BlockPayload) (line : Int) :
    (rule blocks line).Valid blocks.length := by
  unfold rule
  cases hhome : home blocks line with
  | some i =>
    have hlt := home_lt hhome
    dsimp only
    split
    · exact hlt
    · exact hlt
  | none =>
    dsimp only
    split
    · exact trivial
    · exact trivial

/-- After the walk each list holds the rows the rule puts there, in order. -/
theorem get_foldl (hasc : blocks.Pairwise (·.promptLine ≤ ·.promptLine)) (rows : List RowPayload) :
    ∀ w : Walk, rows.Pairwise (·.line ≤ ·.line) → w.Sized blocks.length → w.bi ≤ blocks.length →
      (∀ r ∈ rows, ∀ j < w.bi, passesAt blocks r.line j = true) → ∀ q,
      (rows.foldl (Walk.step blocks) w).get q =
        w.get q ++ rows.filter fun r => rule blocks r.line == q := by
  induction rows with
  | nil =>
    intro w _ _ _ _ q
    rw [List.filter_nil, List.append_nil, List.foldl_nil]
  | cons row rows ih =>
    intro w hrows hsized hbound hpassed q
    obtain ⟨hlater, hrows⟩ := List.pairwise_cons.mp hrows
    obtain ⟨hge, hle, hnew, hstop⟩ := advance_spec row.line (blocks.drop w.bi) w.bi rfl hbound
    have hall : ∀ j < advance row.line (blocks.drop w.bi) w.bi, passesAt blocks row.line j = true := by
      intro j hj
      by_cases hold : j < w.bi
      · exact hpassed row List.mem_cons_self j hold
      · exact hnew j (Nat.not_lt.mp hold) hj
    have hstep : Walk.step blocks w row =
        ({ w with bi := advance row.line (blocks.drop w.bi) w.bi } : Walk).push row
          (rule blocks row.line) := by
      rw [Walk.step, place_eq_rule hasc hall hstop]
    have hsized' : ({ w with bi := advance row.line (blocks.drop w.bi) w.bi } : Walk).Sized
        blocks.length := ⟨hsized.prompts, hsized.outputs⟩
    rw [List.foldl_cons, hstep, ih _ hrows (sized_push hsized' _ _) (by rw [bi_push]; exact hle) ?_ q,
      get_push hsized' row (valid_rule blocks row.line), List.append_assoc, List.filter_cons]
    · have hget : ({ w with bi := advance row.line (blocks.drop w.bi) w.bi } : Walk).get q =
          w.get q := by cases q <;> rfl
      rw [hget]
      by_cases hq : rule blocks row.line = q <;> simp [hq]
    · intro r hr j hj
      rw [bi_push] at hj
      exact passesAt_mono (hall j hj) (hlater r hr)

/-! ## Once -/

theorem perm_flatMap_cons {α β : Type} {f g : α → List β} {x : β} {k : α} :
    ∀ {l : List α}, l.Nodup → k ∈ l → (g k).Perm (x :: f k) → (∀ j ∈ l, j ≠ k → g j = f j) →
      (l.flatMap g).Perm (x :: l.flatMap f)
  | j :: l, hnodup, hmem, hk, hother => by
    obtain ⟨hj, hnodup⟩ := List.nodup_cons.mp hnodup
    rw [List.flatMap_cons, List.flatMap_cons]
    by_cases heq : j = k
    · subst heq
      have hrest : l.flatMap g = l.flatMap f := List.flatMap_congr fun i hi =>
        hother i (List.mem_cons_of_mem j hi) fun h => hj (h ▸ hi)
      rw [hrest]
      exact hk.append_right _
    · have hmem := (List.mem_cons.mp hmem).resolve_left (Ne.symm heq)
      have ih := perm_flatMap_cons hnodup hmem hk fun i hi hne =>
        hother i (List.mem_cons_of_mem j hi) hne
      rw [hother j List.mem_cons_self heq]
      exact (ih.append_left (f j)).trans List.perm_middle

theorem perm_around {α : Type} {l l' before after : List α} {x : α} (h : l.Perm (x :: l')) :
    (before ++ l ++ after).Perm (x :: (before ++ l' ++ after)) :=
  ((h.append_left before).append_right after).trans (List.perm_middle.append_right after)

/-- Sorted by their places, the rows are the rows. -/
theorem perm_places {α : Type} (place : α → Place) (n : Nat) (rows : List α)
    (hvalid : ∀ r ∈ rows, (place r).Valid n) :
    (rows.filter (place · == .preamble) ++
      (List.range n).flatMap (fun i =>
        rows.filter (place · == .prompt i) ++ rows.filter (place · == .output i)) ++
      rows.filter (place · == .tail)).Perm rows := by
  induction rows with
  | nil => simp
  | cons row rows ih =>
    have hrow := hvalid row List.mem_cons_self
    have ih := ih fun r hr => hvalid r (List.mem_cons_of_mem row hr)
    simp only [List.filter_cons]
    cases hp : place row with
    | preamble =>
      simp only [beq_self_eq_true, if_true, reduceCtorEq, beq_iff_eq, if_false]
      exact ih.cons row
    | tail =>
      simp only [beq_self_eq_true, if_true, reduceCtorEq, beq_iff_eq, if_false]
      exact List.perm_middle.trans (ih.cons row)
    | prompt k =>
      rw [hp] at hrow
      simp only [reduceCtorEq, beq_iff_eq, if_false, Place.prompt.injEq]
      refine (perm_around (perm_flatMap_cons (f := fun i =>
        rows.filter (place · == .prompt i) ++ rows.filter (place · == .output i))
        List.nodup_range (List.mem_range.mpr hrow) ?_ ?_)).trans (ih.cons row)
      · rw [if_pos rfl]
        exact List.Perm.refl _
      · intro j _ hne
        rw [if_neg (Ne.symm hne)]
    | output k =>
      rw [hp] at hrow
      simp only [reduceCtorEq, beq_iff_eq, if_false, Place.output.injEq]
      refine (perm_around (perm_flatMap_cons (f := fun i =>
        rows.filter (place · == .prompt i) ++ rows.filter (place · == .output i))
        List.nodup_range (List.mem_range.mpr hrow) ?_ ?_)).trans (ih.cons row)
      · rw [if_pos rfl]
        exact List.perm_middle
      · intro j _ hne
        rw [if_neg (Ne.symm hne)]

/-! ## The slices -/

theorem rule_beq_home (blocks : List BlockPayload) (line : Int) (i : Nat) :
    (rule blocks line == .prompt i) = (home blocks line == some i && !isOutput blocks i line) ∧
      (rule blocks line == .output i) = (home blocks line == some i && isOutput blocks i line) := by
  unfold rule
  cases home blocks line with
  | none => cases isEarly blocks line <;> exact ⟨rfl, rfl⟩
  | some k =>
    dsimp only
    by_cases hk : k = i
    · subst hk
      cases hout : isOutput blocks k line <;> simp
    · have hne : (some k == some i) = false := by simp [hk]
      rw [hne, Bool.false_and, Bool.false_and]
      split <;> simp [hk, beq_eq_false_iff_ne]

theorem rule_beq_preamble (blocks : List BlockPayload) (line : Int) :
    (rule blocks line == .preamble) = (home blocks line == none && isEarly blocks line) := by
  unfold rule
  cases home blocks line with
  | none => cases isEarly blocks line <;> rfl
  | some k =>
    dsimp only
    split <;> rfl

theorem rule_beq_tail (blocks : List BlockPayload) (line : Int) :
    (rule blocks line == .tail) = (home blocks line == none && !isEarly blocks line) := by
  unfold rule
  cases home blocks line with
  | none => cases isEarly blocks line <;> rfl
  | some k =>
    dsimp only
    split <;> rfl

theorem filter_rule {rows : List RowPayload} {q : Place} {p : RowPayload → Bool}
    (h : ∀ r, (rule blocks r.line == q) = p r) :
    rows.filter (fun r => rule blocks r.line == q) = rows.filter p :=
  congrArg (rows.filter ·) (funext h)

/-- The rows of every view whose rows and prompts ascend are where the rule
puts them. -/
theorem slices_follow_rule (v : GridView) (hrows : (walk v).Pairwise (·.line < ·.line))
    (hprompts : v.blocks.Pairwise (·.promptLine ≤ ·.promptLine)) : Sliced v (sliceBlocks v) := by
  obtain ⟨start, hstart⟩ : ∃ start : Walk, start =
      { prompts := v.blocks.map fun _ => [], outputs := v.blocks.map fun _ => [] } := ⟨_, rfl⟩
  have hsized : start.Sized v.blocks.length := by
    rw [hstart]
    exact ⟨List.length_map .., List.length_map ..⟩
  have hempty : ∀ q, start.get q = [] := by
    intro q
    have hnil : ∀ i, (v.blocks.map fun _ => ([] : List RowPayload)).getD i [] = [] := fun i => by
      rw [List.getD_eq_getElem?_getD, List.getElem?_map]
      cases v.blocks[i]? <;> rfl
    rw [hstart]
    cases q with
    | prompt i => exact hnil i
    | output i => exact hnil i
    | _ => rfl
  have hget : ∀ q, ((walk v).foldl (Walk.step v.blocks) start).get q =
      (walk v).filter fun r => rule v.blocks r.line == q := by
    intro q
    have hbi : start.bi = 0 := by rw [hstart]
    rw [get_foldl hprompts (walk v) start (hrows.imp Int.le_of_lt) hsized
      (hbi ▸ Nat.zero_le _) (fun r _ j hj => absurd hj (by omega)) q, hempty, List.nil_append]
  have hslice : ∀ i s, (sliceBlocks v).slices[i]? = some s → v.blocks[i]? = some s.block ∧
      s.promptRows = ((walk v).foldl (Walk.step v.blocks) start).get (.prompt i) ∧
      s.outputRows = ((walk v).foldl (Walk.step v.blocks) start).get (.output i) := by
    intro i s hs
    rw [sliceBlocks, List.getElem?_map, List.getElem?_zipIdx, Option.map_map, Nat.zero_add,
      ← hstart] at hs
    obtain ⟨b, hb, rfl⟩ := Option.map_eq_some_iff.mp hs
    exact ⟨hb, rfl, rfl⟩
  have hside : ∀ i s line, (sliceBlocks v).slices[i]? = some s →
      isOutput v.blocks i line = atOutput s.block line := fun i s line hs => by
    rw [isOutput, (hslice i s hs).1, Option.any_some]
  have hpre : (sliceBlocks v).preamble =
      ((walk v).foldl (Walk.step v.blocks) start).get .preamble := by
    rw [hstart]
    rfl
  have htail : (sliceBlocks v).tail = ((walk v).foldl (Walk.step v.blocks) start).get .tail := by
    rw [hstart]
    rfl
  refine ⟨?_, fun i s hs => ?_, fun i s hs => ?_, ?_, ?_, ?_⟩
  · rw [sliceBlocks, List.map_map]
    exact List.zipIdx_map_fst 0 v.blocks
  · rw [(hslice i s hs).2.1, hget]
    exact filter_rule fun r => by rw [(rule_beq_home _ _ _).1, hside i s _ hs]
  · rw [(hslice i s hs).2.2, hget]
    exact filter_rule fun r => by rw [(rule_beq_home _ _ _).2, hside i s _ hs]
  · rw [hpre, hget]
    exact filter_rule fun r => rule_beq_preamble v.blocks r.line
  · rw [htail, hget]
    exact filter_rule fun r => rule_beq_tail v.blocks r.line
  · have hlists : (sliceBlocks v).slices.map (fun s => s.promptRows ++ s.outputRows) =
        (List.range v.blocks.length).map fun i =>
          (walk v).filter (fun r => rule v.blocks r.line == .prompt i) ++
            (walk v).filter (fun r => rule v.blocks r.line == .output i) := by
      refine List.ext_getElem? fun i => ?_
      rw [List.getElem?_map, List.getElem?_map]
      cases hs : (sliceBlocks v).slices[i]? with
      | none =>
        have hlen : (sliceBlocks v).slices.length = v.blocks.length := by simp [sliceBlocks]
        have hge := List.getElem?_eq_none_iff.mp hs
        rw [List.getElem?_eq_none (by rw [List.length_range]; omega)]
        rfl
      | some s =>
        obtain ⟨hb, hp, ho⟩ := hslice i s hs
        have hlt := (List.getElem?_eq_some_iff.mp hb).1
        rw [List.getElem?_range hlt, Option.map_some, Option.map_some, hp, ho, hget, hget]
    rw [List.flatMap_def, hlists, ← List.flatMap_def, hpre, htail, hget, hget]
    exact perm_places (fun r : RowPayload => rule v.blocks r.line) _ _ fun r _ =>
      valid_rule v.blocks r.line

/-- A command's block, and the prompt after it on the line it ended. -/
def twoBlocks : GridView :=
  let blockOf (id : BlockId) (promptLine : Int) (outputLine endLine : Option Int) : BlockPayload :=
    { id, promptLine, outputLine, endLine, state := .prompt, command := [], cwd := [],
      startedMs := none, endedMs := none, context := none, author := none }
  { rows := [⟨5, [], false⟩, ⟨7, [], false⟩, .unseen]
    scrollback := [⟨2, [], false⟩, ⟨4, [], false⟩]
    blocks := [blockOf 0 4 (some 5) (some 5), blockOf 1 5 none none] }

theorem slices_follow_rule_twoBlocks : Sliced twoBlocks (sliceBlocks twoBlocks) :=
  slices_follow_rule twoBlocks (by decide) (by decide)

end Zesterm.Web.BlocksView
