/-
Zesterm.Proto.WebViewTheorems — where the two flat decoders agree.

The web client's decoder and the reference do the same for every delta: an
op that one writes as a loop over an array in place the other reads off the
array as it was, and where the blocks stand in order the bisection puts a
block where the walk does (`flat_applyDelta`).

On keyframes they part in two places. The web client keeps the blocks below
`blocksFrom` and the reference replaces all of them; and the web client
files what a first keyframe displaces, where the reference compares widths
and finds none to compare with. `Keyframe.Agrees` says that neither happens,
and `views_agree` that it is exactly then that the two hold the same after
every message.
-/
import Zesterm.Proto.WebView
import Zesterm.Proto.BlockSyncTheorems
import Zesterm.Lib.InPlace

namespace Zesterm.Web

namespace GridView

variable {blocks : List BlockPayload}
variable (v : GridView)

/-! ## Blocks -/

/-- Walking to a block's place is cutting the list at the ids below. -/
theorem upsertBlock_walk (b : BlockPayload) (blocks : List BlockPayload) :
    Zesterm.GridView.upsertBlock b blocks =
      let below := blocks.takeWhile fun x => decide (x.id < b.id)
      let rest := blocks.dropWhile fun x => decide (x.id < b.id)
      if rest.head?.map BlockPayload.id = some b.id then below ++ b :: rest.tail
      else below ++ b :: rest := by
  induction blocks with
  | nil => rfl
  | cons x xs ih =>
    unfold Zesterm.GridView.upsertBlock
    by_cases hlt : x.id < b.id
    · rw [if_neg hlt.ne, if_neg hlt.le.not_gt, ih, List.takeWhile_cons_of_pos (by simpa using hlt),
        List.dropWhile_cons_of_pos (by simpa using hlt)]
      dsimp only
      split <;> rfl
    · rw [List.takeWhile_cons_of_neg (by simpa using hlt),
        List.dropWhile_cons_of_neg (by simpa using hlt)]
      by_cases heq : x.id = b.id
      · simp [heq]
      · simp [heq, show b.id < x.id from lt_of_le_of_ne (not_lt.mp hlt) (Ne.symm heq)]

/-- Bisection puts a block where the walk does. -/
theorem upsertBlock_eq (h : (blocks.map BlockPayload.id).Pairwise (· < ·)) (b : BlockPayload) :
    upsertBlock blocks b = Zesterm.GridView.upsertBlock b blocks := by
  have hcut := List.takeWhile_append_dropWhile (p := fun x : BlockPayload => decide (x.id < b.id))
    (l := blocks)
  rw [upsertBlock_walk]
  unfold upsertBlock
  rw [Bisect.lower_eq h b.id]
  generalize blocks.takeWhile (fun x => decide (x.id < b.id)) = below at hcut ⊢
  generalize blocks.dropWhile (fun x => decide (x.id < b.id)) = rest at hcut ⊢
  subst hcut
  dsimp only
  rw [List.getElem?_append_right le_rfl, Nat.sub_self, ← List.head?_eq_getElem?, List.take_left,
    List.drop_left]
  split
  · next hhead =>
    cases rest with
    | nil => simp at hhead
    | cons x xs => simp
  · rfl

theorem mem_upsertBlock {b x : BlockPayload} (h : x ∈ Zesterm.GridView.upsertBlock b blocks) :
    x = b ∨ x ∈ blocks := by
  induction blocks with
  | nil => exact Or.inl (by simpa [Zesterm.GridView.upsertBlock] using h)
  | cons y ys ih =>
    unfold Zesterm.GridView.upsertBlock at h
    split at h
    · rcases List.mem_cons.mp h with rfl | h
      · exact Or.inl rfl
      · exact Or.inr (List.mem_cons_of_mem _ h)
    · split at h
      · exact List.mem_cons.mp h
      · rcases List.mem_cons.mp h with rfl | h
        · exact Or.inr List.mem_cons_self
        · exact (ih h).imp id (List.mem_cons_of_mem _)

/-- The list stays in order. -/
theorem ascending_upsertBlock (h : (blocks.map BlockPayload.id).Pairwise (· < ·)) (b : BlockPayload)
    :
    ((Zesterm.GridView.upsertBlock b blocks).map BlockPayload.id).Pairwise (· < ·) := by
  induction blocks with
  | nil => simp [Zesterm.GridView.upsertBlock]
  | cons y ys ih =>
    obtain ⟨hy, hys⟩ := List.pairwise_cons.mp h
    unfold Zesterm.GridView.upsertBlock
    split
    · next heq =>
      rw [List.map_cons, ← heq]
      exact List.pairwise_cons.mpr ⟨hy, hys⟩
    · next hne =>
      split
      · next hlt =>
        refine List.pairwise_cons.mpr ⟨fun i hi => ?_, h⟩
        rcases List.mem_cons.mp hi with rfl | hi
        · exact hlt
        · exact hlt.trans (hy i hi)
      · next hge =>
        refine List.pairwise_cons.mpr ⟨fun i hi => ?_, ih hys⟩
        obtain ⟨x, hx, rfl⟩ := List.mem_map.mp hi
        rcases mem_upsertBlock hx with rfl | hx
        · exact lt_of_le_of_ne (not_lt.mp hge) hne
        · exact hy _ (List.mem_map_of_mem hx)

/-! ## Rows -/

theorem scroll_eq (rows : List RowPayload) {top last n : Nat} (hn : 0 < n) :
    scroll rows top last n = Zesterm.GridView.scrollRows rows top last n := by
  unfold scroll Zesterm.GridView.scrollRows
  rw [InPlace.foldl_ahead hn]
  congr 1
  funext i r
  by_cases hin : top ≤ i ∧ i ≤ last
  · rw [if_pos hin, if_pos (by omega)]
  · rw [if_neg hin, if_neg (by omega)]

/-- Only the last run is looked at. -/
theorem pushCell_cons (run : Run) {rest : List Run} (h : rest ≠ []) (cell : AttrId × Char) :
    pushCell (run :: rest) cell = run :: pushCell rest cell := by
  obtain ⟨front, last, rfl⟩ := List.eq_nil_or_concat rest |>.resolve_left h
  have hlast : (run :: (front ++ [last])).getLast? = some last := by
    rw [← List.cons_append, List.getLast?_concat]
  have hdrop : (run :: (front ++ [last])).dropLast = run :: front := by
    rw [← List.cons_append, List.dropLast_concat]
  unfold pushCell
  rw [List.concat_eq_append, hlast, List.getLast?_concat, hdrop, List.dropLast_concat]
  dsimp only
  split <;> rfl

/-- A cell before no run is a run of its own. -/
theorem coalesce_cons_nil {cs : List (AttrId × Char)} (h : Zesterm.GridView.coalesce cs = [])
    (c : AttrId × Char) :
    Zesterm.GridView.coalesce (c :: cs) =
      [{ attr := c.1, cells := 1, text := [c.2], marks := [] }] := by
  unfold Zesterm.GridView.coalesce at h ⊢
  rw [List.foldr_cons, h]

/-- A cell before a run joins it or stands before it. -/
theorem coalesce_cons_run {cs : List (AttrId × Char)} {run : Run} {rest : List Run}
    (h : Zesterm.GridView.coalesce cs = run :: rest) (c : AttrId × Char) :
    Zesterm.GridView.coalesce (c :: cs) =
      if run.attr = c.1 then { run with cells := run.cells + 1, text := c.2 :: run.text } :: rest
      else { attr := c.1, cells := 1, text := [c.2], marks := [] } :: run :: rest := by
  unfold Zesterm.GridView.coalesce at h ⊢
  rw [List.foldr_cons, h]

/-- A cell after the last run: what coalescing from the right does to the
end of a row. -/
theorem coalesce_snoc (cells : List (AttrId × Char)) (cell : AttrId × Char) :
    Zesterm.GridView.coalesce (cells ++ [cell]) = pushCell (Zesterm.GridView.coalesce cells) cell := by
  induction cells with
  | nil => rfl
  | cons c cs ih =>
    obtain ⟨a, ch⟩ := c
    obtain ⟨b, last⟩ := cell
    rw [List.cons_append]
    cases hcs : Zesterm.GridView.coalesce cs with
    | nil =>
      rw [hcs] at ih
      rw [coalesce_cons_run ih, coalesce_cons_nil hcs]
      by_cases hab : a = b
      · simp [pushCell, hab]
      · simp [pushCell, hab, Ne.symm hab]
    | cons run rest =>
      rw [hcs] at ih
      rw [coalesce_cons_run hcs]
      rcases rest with _ | ⟨run', rest⟩
      · by_cases hrun : run.attr = b
        · have ih : Zesterm.GridView.coalesce (cs ++ [(b, last)]) =
              [{ run with cells := run.cells + 1, text := run.text ++ [last] }] := by
            simp [ih, pushCell, hrun]
          rw [coalesce_cons_run ih]
          by_cases hab : b = a
          · simp [pushCell, hrun, hab]
          · simp [pushCell, hrun, hab]
        · have ih : Zesterm.GridView.coalesce (cs ++ [(b, last)]) =
              [run, { attr := b, cells := 1, text := [last], marks := [] }] := by
            simp [ih, pushCell, hrun]
          rw [coalesce_cons_run ih]
          by_cases hra : run.attr = a
          · have hab : a ≠ b := fun h => hrun (hra.trans h)
            simp [pushCell, hra, hab]
          · simp [pushCell, hrun, hra]
      · have hrest := List.cons_ne_nil run' rest
        rw [pushCell_cons run hrest] at ih
        rw [coalesce_cons_run ih]
        split
        · rw [pushCell_cons _ hrest]
        · rw [pushCell_cons _ (List.cons_ne_nil run (run' :: rest)), pushCell_cons run hrest]

theorem foldl_pushCell (cells : List (AttrId × Char)) :
    cells.foldl pushCell [] = Zesterm.GridView.coalesce cells := by
  induction cells using List.reverseRecOn with
  | nil => rfl
  | append_singleton cells cell ih => rw [List.foldl_concat, ih, coalesce_snoc]

/-- Overwriting an entry is an edit that does not look at it. -/
theorem set_eq_modify {α : Type} (l : List α) (i : Nat) (a : α) : l.set i a = l.modify i fun _ => a := by
  apply List.ext_getElem?
  intro j
  rw [List.getElem?_set, List.getElem?_modify]
  by_cases hi : i = j
  · subst hi
    by_cases hlen : i < l.length
    · simp [hlen]
    · simp [hlen]
  · simp [hi]

theorem eraseSpan_eq (row : RowPayload) (left right : Nat) (attr : AttrId) :
    eraseSpan row left right attr = Zesterm.GridView.eraseSpan row left right attr := by
  unfold eraseSpan Zesterm.GridView.eraseSpan
  have hset : (fun (flat : List (AttrId × Char)) i => flat.set i (attr, ' ')) =
      fun flat i => flat.modify i fun _ => (attr, ' ') := by
    funext flat i
    exact set_eq_modify flat i (attr, ' ')
  have hflat : row.runs.flatMap (fun run =>
      (List.range run.cells).map fun i => (run.attr, run.text[i]?.getD ' ')) =
        Zesterm.GridView.flatten row := rfl
  dsimp only
  rw [foldl_pushCell, hset, InPlace.foldl_modify, hflat]
  congr 3
  funext i c
  by_cases hin : left ≤ i ∧ i ≤ right
  · rw [if_pos hin, if_pos (by omega)]
  · rw [if_neg hin, if_neg (by omega)]

theorem erase_eq (rows : List RowPayload) (top left last right : Nat) (attr : AttrId) :
    erase rows top left last right attr =
      rows.mapIdx fun i r => if top ≤ i ∧ i ≤ last then
        Zesterm.GridView.eraseSpan r left right attr else r := by
  have hstep : eraseRow left right attr = fun rows r =>
      rows.modify r fun row => Zesterm.GridView.eraseSpan row left right attr := by
    funext rows r
    unfold eraseRow
    cases hget : rows[r]? with
    | none => exact (List.modify_eq_self (by simpa using hget)).symm
    | some row =>
      dsimp only
      rw [set_eq_modify, eraseSpan_eq]
      apply List.ext_getElem?
      intro i
      rw [List.getElem?_modify, List.getElem?_modify]
      by_cases hi : r = i
      · subst hi
        simp [hget]
      · simp [hi]
  unfold erase
  rw [hstep, InPlace.foldl_modify]
  congr 1
  funext i r
  by_cases hin : top ≤ i ∧ i ≤ last
  · rw [if_pos hin, if_pos (by omega)]
  · rw [if_neg hin, if_neg (by omega)]

/-! ## Deltas -/

/-- What a view holds, as the reference would hold it. -/
def flat (v : GridView) : Zesterm.GridView :=
  { cols := v.cols
    rows := v.rows
    attrs := v.attrs
    cursor := v.cursor
    altScreen := v.altScreen
    modes := v.modes
    title := v.title
    scrollback := v.scrollback
    blocks := v.blocks
    historyClears := v.historyClears }

@[simp] theorem rows_flat : v.flat.rows = v.rows := rfl

theorem flat_applyOp (op : DeltaOp) : (v.applyOp op).flat = v.flat.applyOp op := by
  cases op with
  | scroll top bottom lines =>
    have hlines : (if lines > 0 then lines.toNat else 0) = lines.toNat := by
      split
      · rfl
      · next h => exact (Int.toNat_eq_zero.mpr (not_lt.mp h)).symm
    unfold applyOp Zesterm.GridView.applyOp
    dsimp only
    rw [hlines, rows_flat]
    by_cases hskip : lines.toNat = 0 ∨ top > bottom ∨ bottom ≥ v.rows.length
    · rw [if_pos hskip, if_pos hskip]
    · rw [if_neg hskip, if_neg hskip, Nat.min_eq_left (by omega), scroll_eq v.rows (by omega)]
      rfl
  | row | cursor | sbPush | altScreen | title | modes => rfl
  | erase top left bottom right attr =>
    unfold applyOp Zesterm.GridView.applyOp
    dsimp only
    rw [rows_flat]
    by_cases hskip : top > bottom ∨ left > right
    · rw [if_pos hskip, if_pos (by omega)]
    · rw [if_neg hskip]
      -- The loop stops at the last row there is; the other reads no further.
      have hrows : (v.rows.mapIdx fun i r => if top ≤ i ∧ i ≤ min bottom (v.rows.length - 1) then
          Zesterm.GridView.eraseSpan r left right attr else r) =
          v.rows.mapIdx fun i r => if top ≤ i ∧ i ≤ bottom then
            Zesterm.GridView.eraseSpan r left right attr else r := by
        apply List.ext_getElem
        · simp
        · intro i hi _
          rw [List.length_mapIdx] at hi
          rw [List.getElem_mapIdx, List.getElem_mapIdx]
          by_cases hin : top ≤ i ∧ i ≤ bottom
          · rw [if_pos hin, if_pos (by omega)]
          · rw [if_neg hin, if_neg (by omega)]
      by_cases hempty : v.rows.length = 0
      · rw [if_pos (Or.inr (Or.inr hempty)), List.length_eq_zero_iff.mp hempty]
        unfold flat
        rw [List.length_eq_zero_iff.mp hempty]
        rfl
      · rw [if_neg (by omega), erase_eq, hrows]
        rfl

theorem flat_applyOps (ops : List DeltaOp) (v : GridView) :
    (ops.foldl applyOp v).flat = ops.foldl Zesterm.GridView.applyOp v.flat := by
  induction ops generalizing v with
  | nil => rfl
  | cons op ops ih => rw [List.foldl_cons, List.foldl_cons, ih, flat_applyOp]

/-- Ops leave the blocks alone. -/
theorem blocks_applyOps (ops : List DeltaOp) (v : GridView) :
    (ops.foldl applyOp v).blocks = v.blocks := by
  induction ops generalizing v with
  | nil => rfl
  | cons op ops ih =>
    rw [List.foldl_cons, ih]
    cases op with
    | scroll top bottom lines =>
      unfold applyOp
      dsimp only
      generalize (if lines > 0 then lines.toNat else 0) = n
      split <;> rfl
    | erase =>
      unfold applyOp
      dsimp only
      split <;> rfl
    | _ => rfl

theorem foldl_upsertBlock (bs : List BlockPayload)
    (h : (blocks.map BlockPayload.id).Pairwise (· < ·)) :
    bs.foldl upsertBlock blocks =
        bs.foldl (fun blocks b => Zesterm.GridView.upsertBlock b blocks) blocks ∧
      ((bs.foldl upsertBlock blocks).map BlockPayload.id).Pairwise (· < ·) := by
  induction bs generalizing blocks with
  | nil => exact ⟨rfl, h⟩
  | cons b bs ih =>
    rw [List.foldl_cons, List.foldl_cons, upsertBlock_eq h b]
    exact ih (ascending_upsertBlock h b)

/-- The blocks stand in order. -/
def Ordered (v : GridView) : Prop := (v.blocks.map BlockPayload.id).Pairwise (· < ·)

/-- The two do the same for a delta. -/
theorem flat_applyDelta {v : GridView} (h : v.Ordered) (d : Delta) :
    (v.applyDelta d).flat = v.flat.applyDelta d ∧ (v.applyDelta d).Ordered := by
  have hops := flat_applyOps d.ops { v with attrs := d.attrs.foldl AttrTable.insert v.attrs }
  have hkept := blocks_applyOps d.ops { v with attrs := d.attrs.foldl AttrTable.insert v.attrs }
  unfold applyDelta Ordered
  dsimp only
  generalize d.ops.foldl applyOp { v with attrs := d.attrs.foldl AttrTable.insert v.attrs } = after
    at hops hkept ⊢
  obtain ⟨hblocks, hordered⟩ := foldl_upsertBlock d.blocks (show (after.blocks.map BlockPayload.id).Pairwise (· < ·) from hkept ▸ h)
  refine ⟨?_, hordered⟩
  have hreference : v.flat.applyDelta d = { after.flat with
      blocks := d.blocks.foldl (fun blocks b => Zesterm.GridView.upsertBlock b blocks)
        after.flat.blocks } := by
    rw [hops]
    rfl
  rw [hreference, hblocks]
  rfl

/-! ## Keyframes -/

/-- A keyframe files nothing of what the view shows and takes nothing back
from its history. -/
def Undisturbed (scrollback rows fresh : List RowPayload) : Prop :=
  ∀ first, (fresh.map RowPayload.line).find? (fun l => l != unseenLine) = some first →
    (∀ r ∈ rows, Zesterm.GridView.isDisplaced first (scrollback.getLast?.map RowPayload.line) r = false) ∧
    ((scrollback.getLast?.map RowPayload.line).any (fun l => decide (first ≤ l)) = true →
      ∀ r ∈ scrollback, r.line ∉ fresh.map RowPayload.line)

theorem carryOver_eq (scrollback rows fresh : List RowPayload) :
    carryOver scrollback rows fresh = Zesterm.GridView.rebank scrollback rows fresh := by
  have hfind : (fresh.map RowPayload.line).find? (fun l => l != unseenLine) =
      (fresh.find? fun r => r.line != unseenLine).map RowPayload.line := by
    rw [List.find?_map]
    rfl
  unfold carryOver Zesterm.GridView.rebank
  rw [hfind]
  cases fresh.find? fun r => r.line != unseenLine with
  | none => rfl
  | some firstRow =>
    simp only [Option.map_some]
    have hdisplaced : (fun r : RowPayload => r.line != unseenLine && decide (r.line < firstRow.line) &&
        ((scrollback.getLast?.map RowPayload.line).isNone ||
          (scrollback.getLast?.map RowPayload.line).any fun l => decide (r.line > l))) =
        Zesterm.GridView.isDisplaced firstRow.line (scrollback.getLast?.map RowPayload.line) := by
      funext r
      unfold Zesterm.GridView.isDisplaced
      cases scrollback.getLast?.map RowPayload.line <;> rfl
    rw [hdisplaced]
    generalize rows.filter (Zesterm.GridView.isDisplaced firstRow.line
      (scrollback.getLast?.map RowPayload.line)) = displaced
    cases displaced with
    | nil => rfl
    | cons => rfl

theorem rebank_eq_self_iff (scrollback rows fresh : List RowPayload) :
    Zesterm.GridView.rebank scrollback rows fresh = scrollback ↔
      Undisturbed scrollback rows fresh := by
  unfold Zesterm.GridView.rebank Undisturbed
  cases (fresh.map RowPayload.line).find? fun l => l != unseenLine with
  | none => simp
  | some first =>
    dsimp only
    have hnone : (rows.filter (Zesterm.GridView.isDisplaced first
        (scrollback.getLast?.map RowPayload.line))) = [] ↔
        ∀ r ∈ rows, Zesterm.GridView.isDisplaced first
          (scrollback.getLast?.map RowPayload.line) r = false := by
      simp [List.filter_eq_nil_iff]
    have hsome {P : Int → Prop} : (∀ f, some first = some f → P f) ↔ P first :=
      ⟨fun h => h first rfl, fun h f hf => Option.some.inj hf ▸ h⟩
    rw [hsome, ← hnone]
    generalize rows.filter (Zesterm.GridView.isDisplaced first
      (scrollback.getLast?.map RowPayload.line)) = displaced
    cases displaced with
    | cons r displaced => simp
    | nil =>
      simp only [List.isEmpty_nil, Bool.not_true, Bool.false_eq_true, if_false, true_and]
      split
      · next htake =>
        rw [List.filter_eq_self]
        exact ⟨fun h _ r hr => by simpa using h r hr, fun h r hr => by simpa using h htake r hr⟩
      · next htake => exact ⟨fun _ h => absurd h htake, fun _ => rfl⟩

/-- What a client shows: the same in both views. -/
structure Same (w : GridView) (v : Zesterm.GridView) : Prop where
  rows : w.rows = v.rows
  scrollback : w.scrollback = v.scrollback
  attrs : w.attrs = v.attrs
  cursor : w.cursor = v.cursor
  modes : w.modes = v.modes
  title : w.title = v.title
  blocks : w.blocks = v.blocks

/-- Neither of the two things in which the views part happens: a first
keyframe files and takes back nothing, and unless the keyframe renumbers no
block is held below the first it speaks for. -/
structure Agrees (v : Zesterm.GridView) (k : Keyframe) : Prop where
  first : v.cols = 0 → k.cols ≠ 0 → k.historyClears ≤ v.historyClears →
    Undisturbed v.scrollback v.rows k.rowsData
  floor : v.cols = 0 ∨ k.cols = v.cols → ∀ b ∈ v.blocks, k.blocksFrom ≤ b.id

theorem altScreen_bits (m : Modes) : (m.bits &&& Modes.altScreen.bits != 0) = m.contains .altScreen := by
  rw [TermState.contains_altScreen]
  show (m.bits &&& BitVec.twoPow 32 7 != 0) = _
  rw [BitVec.and_twoPow]
  cases m.bits.getLsbD 7 with
  | true => decide
  | false => decide

theorem scrollback_applyKeyframe (k : Keyframe) :
    (v.applyKeyframe k).scrollback = (v.flat.applyKeyframe k).scrollback ↔
      (v.cols = 0 → k.cols ≠ 0 → k.historyClears ≤ v.historyClears →
        Undisturbed v.scrollback v.rows k.rowsData) := by
  unfold applyKeyframe Zesterm.GridView.applyKeyframe flat
  dsimp only
  by_cases hcleared : k.historyClears > v.historyClears
  · have hle : ¬ k.historyClears ≤ v.historyClears := not_le.mpr hcleared
    simp [hcleared, hle]
  · have hle : k.historyClears ≤ v.historyClears := not_lt.mp hcleared
    simp only [hcleared, decide_false, Bool.false_eq_true, if_false, Bool.not_false, Bool.and_true,
      Bool.false_or, and_true, hle, forall_const]
    by_cases hcols : v.cols = k.cols
    · simp only [hcols, if_true, bne_self_eq_false, Bool.and_false, Bool.not_false, Bool.false_eq_true,
        if_false, ne_eq, not_true_eq_false, and_false, decide_false, carryOver_eq, true_iff]
      exact fun h h' => absurd h h'
    · rw [if_neg hcols]
      by_cases hzero : v.cols = 0
      · have hk : k.cols ≠ 0 := fun h => hcols (hzero.trans h.symm)
        simp [hzero, hk, carryOver_eq, rebank_eq_self_iff]
      · simp [hzero, Ne.symm hcols]

theorem blocks_applyKeyframe (k : Keyframe) :
    (v.applyKeyframe k).blocks = (v.flat.applyKeyframe k).blocks ↔
      (v.cols = 0 ∨ k.cols = v.cols → ∀ b ∈ v.blocks, k.blocksFrom ≤ b.id) := by
  unfold applyKeyframe Zesterm.GridView.applyKeyframe
  dsimp only
  rw [List.append_left_eq_self]
  by_cases hkept : v.cols = 0 ∨ k.cols = v.cols
  · have hren : (v.cols != 0 && k.cols != v.cols) = false := by
      rcases hkept with h | h <;> simp [h]
    simp [hren, hkept, List.filter_eq_nil_iff]
  · have hren : (v.cols != 0 && k.cols != v.cols) = true := by
      simpa [not_or] using hkept
    simp [hren, hkept]

/-- After a keyframe the views show the same exactly when neither happens. -/
theorem same_applyKeyframe_iff (k : Keyframe) :
    Same (v.applyKeyframe k) (v.flat.applyKeyframe k) ↔ Agrees v.flat k := by
  constructor
  · intro h
    exact ⟨(scrollback_applyKeyframe v k).mp h.scrollback, (blocks_applyKeyframe v k).mp h.blocks⟩
  · intro h
    exact ⟨rfl, (scrollback_applyKeyframe v k).mpr h.first, rfl, rfl, rfl, rfl,
      (blocks_applyKeyframe v k).mpr h.floor⟩

/-- And then they hold the same in everything else. -/
theorem flat_applyKeyframe {v : GridView} {k : Keyframe} (h : Agrees v.flat k) :
    (v.applyKeyframe k).flat = v.flat.applyKeyframe k := by
  have hscrollback := (scrollback_applyKeyframe v k).mpr h.first
  have hblocks := (blocks_applyKeyframe v k).mpr h.floor
  have heq : (v.applyKeyframe k).flat = { v.flat.applyKeyframe k with
      altScreen := k.modes.bits &&& Modes.altScreen.bits != 0
      scrollback := (v.applyKeyframe k).scrollback
      blocks := (v.applyKeyframe k).blocks } := rfl
  rw [heq, hscrollback, hblocks, altScreen_bits]
  rfl

/-! ## Runs -/

end GridView

/-- What a host sends, decoded. -/
inductive Message where
  | keyframe (k : Keyframe)
  | delta (d : Delta)

/-- The web client's view, one message on. -/
def GridView.receive (w : GridView) : Message → GridView
  | .keyframe k => w.applyKeyframe k
  | .delta d => w.applyDelta d

/-- The reference's. -/
def reference (v : Zesterm.GridView) : Message → Zesterm.GridView
  | .keyframe k => v.applyKeyframe k
  | .delta d => v.applyDelta d

/-- A keyframe lists its blocks in order of id, as the field is documented
to and as a search by bisection needs. -/
def Message.Listed : Message → Prop
  | .keyframe k => (k.blocks.map BlockPayload.id).Pairwise (· < ·)
  | .delta _ => True

/-- A host's keyframes do. -/
theorem listed_keyframe {vt : Vt} {t : Terminal vt} (ht : t.Reachable) (e : Encoder) :
    (Message.keyframe (t.keyframe e).1).Listed := by
  obtain ⟨ops, hops⟩ := IndexRun.exists_run_of_reachable ht
  have hsorted : t.state.blocks.ids.Pairwise (· < ·) := by
    rw [← hops]
    exact (IndexRun.floored_run ops).numbered.sorted
  show ((t.state.blocks.blocks.map BlockPayload.fromBlock).map BlockPayload.id).Pairwise _
  rw [Encoder.map_fromBlock_id]
  exact hsorted

/-- Every keyframe of a run finds a view on which the two agree. -/
def Agree : List Message → Zesterm.GridView → Prop
  | [], _ => True
  | .keyframe k :: messages, v => GridView.Agrees v k ∧ Agree messages (v.applyKeyframe k)
  | .delta d :: messages, v => Agree messages (v.applyDelta d)

/-- One message leaves the views the same exactly when it may, and then in
order. -/
theorem flat_receive {w : GridView} (h : w.Ordered) {m : Message} (hm : m.Listed) :
    (GridView.Same (w.receive m) (reference w.flat m) ↔ Agree [m] w.flat) ∧
      (Agree [m] w.flat → (w.receive m).flat = reference w.flat m ∧ (w.receive m).Ordered) := by
  cases m with
  | keyframe k =>
    have hiff := GridView.same_applyKeyframe_iff w k
    refine ⟨hiff.trans ⟨fun h => ⟨h, trivial⟩, fun h => h.1⟩, fun hagree => ?_⟩
    refine ⟨GridView.flat_applyKeyframe hagree.1, ?_⟩
    have hblocks : (w.applyKeyframe k).blocks = k.blocks := (hiff.mpr hagree.1).blocks
    show ((w.applyKeyframe k).blocks.map BlockPayload.id).Pairwise (· < ·)
    rw [hblocks]
    exact hm
  | delta d =>
    obtain ⟨hflat, hordered⟩ := GridView.flat_applyDelta h d
    refine ⟨⟨fun _ => trivial, fun _ => ?_⟩, fun _ => ⟨hflat, hordered⟩⟩
    show GridView.Same (w.applyDelta d) (w.flat.applyDelta d)
    rw [← hflat]
    exact ⟨rfl, rfl, rfl, rfl, rfl, rfl, rfl⟩

theorem same_run_iff (messages : List Message) (hlisted : ∀ m ∈ messages, m.Listed) :
    ∀ w : GridView, w.Ordered →
      ((∀ n, GridView.Same ((messages.take n).foldl GridView.receive w)
          ((messages.take n).foldl reference w.flat)) ↔ Agree messages w.flat) := by
  induction messages with
  | nil =>
    intro w _
    refine ⟨fun _ => trivial, fun _ n => ?_⟩
    rw [List.take_nil]
    exact ⟨rfl, rfl, rfl, rfl, rfl, rfl, rfl⟩
  | cons m messages ih =>
    intro w hw
    obtain ⟨hone, hgoes⟩ := flat_receive hw (hlisted m List.mem_cons_self)
    have hsplit : Agree (m :: messages) w.flat ↔
        Agree [m] w.flat ∧ Agree messages (reference w.flat m) := by
      cases m with
      | keyframe k => exact ⟨fun h => ⟨⟨h.1, trivial⟩, h.2⟩, fun h => ⟨h.1.1, h.2⟩⟩
      | delta d => exact ⟨fun h => ⟨trivial, h⟩, fun h => h.2⟩
    rw [hsplit]
    constructor
    · intro h
      have hagree := hone.mp (h 1)
      obtain ⟨hflat, hordered⟩ := hgoes hagree
      refine ⟨hagree, ?_⟩
      rw [← hflat]
      refine (ih (fun x hx => hlisted x (List.mem_cons_of_mem _ hx)) _ hordered).mp fun n => ?_
      rw [hflat]
      exact h (n + 1)
    · rintro ⟨hagree, hrest⟩ n
      obtain ⟨hflat, hordered⟩ := hgoes hagree
      cases n with
      | zero => exact ⟨rfl, rfl, rfl, rfl, rfl, rfl, rfl⟩
      | succ n =>
        rw [← hflat] at hrest
        have h := (ih (fun x hx => hlisted x (List.mem_cons_of_mem _ hx)) _ hordered).mpr hrest n
        rw [hflat] at h
        exact h

/-- A finished block of a two-column session. -/
def evictedBlock : BlockPayload :=
  { id := 0, promptLine := 0, outputLine := some 1, endLine := some 1, state := .finished (some 0),
    command := [], cwd := [], startedMs := none, endedMs := none, context := none, author := none }

/-- A keyframe of that session with the blocks from an id up. -/
def keyframeFrom (blocksFrom : BlockId) (blocks : List BlockPayload) : Keyframe :=
  { cols := 2, rows := 1, rowsData := [{ line := 5, runs := [], wrapped := false }], attrs := [],
    cursor := CursorState.default, modes := Modes.initial, blocks := blocks, blocksFrom := blocksFrom,
    historyClears := 0, title := [] }

end Zesterm.Web
