/-
Zesterm.Core.HistoryTheorems — what a replica does to its history.

A replica's scrollback is written from outside: pages of history are put
above the oldest row, and the rows a keyframe is about to deliver again are
struck out. `keepUnnamed` says which rows the walk of `dropScrollbackRows`
leaves, read newest first: everything a keyframe did not name, and
everything from the first row below its floor down. The viewport is never
touched by either.
-/
import Zesterm.Core.GridTheorems

namespace Zesterm

variable {named : List LineId}

/-! ## Rows a keyframe takes back -/

/-- What the walk leaves of the history, newest row first. -/
def keepUnnamed (named : List LineId) (floor : LineId) : List Row → List Row
  | [] => []
  | r :: rs =>
    if floor ≤ r.id then
      if named.contains r.id then keepUnnamed named floor rs
      else r :: keepUnnamed named floor rs
    else r :: rs

theorem keepUnnamed_cons (named : List LineId) (floor : LineId) (r : Row) (rs : List Row) :
    keepUnnamed named floor (r :: rs) =
      if floor ≤ r.id then
        if named.contains r.id then keepUnnamed named floor rs
        else r :: keepUnnamed named floor rs
      else r :: rs := rfl

theorem keepUnnamed_sublist (named : List LineId) (floor : LineId) :
    ∀ rows : List Row, (keepUnnamed named floor rows).Sublist rows
  | [] => List.Sublist.refl _
  | r :: rs => by
    have ih := keepUnnamed_sublist named floor rs
    unfold keepUnnamed
    split
    · split
      · exact ih.cons r
      · exact ih.cons_cons r
    · exact List.Sublist.refl _

/-- Rows no keyframe names are all left. -/
theorem keepUnnamed_of_unnamed (floor : LineId) :
    ∀ {rows : List Row}, (∀ r ∈ rows, r.id ∉ named) → keepUnnamed named floor rows = rows
  | [], _ => rfl
  | r :: rs, h => by
    have hr : ¬named.contains r.id = true := by simpa using h r (by simp)
    unfold keepUnnamed
    rw [if_neg hr, keepUnnamed_of_unnamed floor fun r' hr' => h r' (by simp [hr'])]
    split <;> rfl

/-- The walk ends among the newer rows, or goes on to the older ones. -/
theorem keepUnnamed_append (named : List LineId) (floor : LineId) (older : List Row) :
    ∀ newer : List Row, ∃ kept, kept.Sublist newer ∧
      (keepUnnamed named floor (newer ++ older) = kept ++ older ∨
        keepUnnamed named floor (newer ++ older) = kept ++ keepUnnamed named floor older)
  | [] => ⟨[], List.Sublist.refl _, .inr rfl⟩
  | r :: rs => by
    obtain ⟨kept, hsub, hkept⟩ := keepUnnamed_append named floor older rs
    rw [List.cons_append, keepUnnamed_cons]
    split
    · split
      · exact ⟨kept, hsub.cons r, hkept⟩
      · refine ⟨r :: kept, hsub.cons_cons r, ?_⟩
        rcases hkept with h | h
        · exact .inl (by rw [h]; rfl)
        · exact .inr (by rw [h]; rfl)
    · exact ⟨r :: rs, List.Sublist.refl _, .inl rfl⟩

/-- Of a history newest first and in order, the rows a keyframe does not name
are left. -/
theorem keepUnnamed_eq_filter {floor : LineId} (hfloor : ∀ id ∈ named, floor ≤ id) :
    ∀ {rows : List Row}, rows.Pairwise (fun a b => b.id < a.id) →
      keepUnnamed named floor rows = rows.filter fun r => r.id ∉ named
  | [], _ => rfl
  | r :: rs, hp => by
    have ih := keepUnnamed_eq_filter hfloor (List.pairwise_cons.mp hp).2
    rw [keepUnnamed_cons]
    split
    · split
      · next hin =>
        rw [ih, List.filter_cons_of_neg (by simpa using hin)]
      · next hout =>
        rw [ih, List.filter_cons_of_pos (by simpa using hout)]
    · next hlt =>
      -- From the first row below the floor on, every row is below it.
      refine (List.filter_eq_self.mpr fun r' hr' => ?_).symm
      have hbelow : r'.id ≤ r.id := by
        rcases List.mem_cons.mp hr' with rfl | hr'
        · exact Nat.le_refl _
        · exact Nat.le_of_lt (List.rel_of_pairwise_cons hp hr')
      exact decide_eq_true fun hmem => hlt (le_trans (hfloor _ hmem) hbelow)

/-- What `drop_scrollback_rows` leaves of a history, oldest row first. -/
def unnamed (named : List LineId) (rows : List Row) : List Row :=
  match named.insertionSort (· ≤ ·) with
  | [] => rows
  | floor :: rest => (keepUnnamed (floor :: rest) floor rows.reverse).reverse

/-- The named ids in order: none, or the floor of the walk and the others. -/
theorem unnamed_cases (named : List LineId) (rows : List Row) :
    (named = [] ∧ unnamed named rows = rows) ∨
    ∃ floor sorted, floor ∈ named ∧ (∀ id, id ∈ sorted ↔ id ∈ named) ∧
      (∀ id ∈ sorted, floor ≤ id) ∧
      unnamed named rows = (keepUnnamed sorted floor rows.reverse).reverse := by
  have hperm := List.perm_insertionSort (· ≤ ·) named
  have hsorted := List.pairwise_insertionSort (· ≤ ·) named
  unfold unnamed
  cases hsort : named.insertionSort (· ≤ ·) with
  | nil =>
    rw [hsort] at hperm
    exact .inl ⟨List.length_eq_zero_iff.mp hperm.length_eq.symm, rfl⟩
  | cons floor rest =>
    rw [hsort] at hperm hsorted
    refine .inr ⟨floor, floor :: rest, hperm.mem_iff.mp (by simp), fun _ => hperm.mem_iff, ?_, rfl⟩
    intro id hid
    rcases List.mem_cons.mp hid with rfl | hid
    · exact Nat.le_refl _
    · exact List.rel_of_pairwise_cons hsorted hid

theorem unnamed_sublist (named : List LineId) (rows : List Row) :
    (unnamed named rows).Sublist rows := by
  rcases unnamed_cases named rows with ⟨-, h⟩ | ⟨floor, sorted, -, -, -, h⟩
  · rw [h]
  · rw [h, ← List.reverse_sublist, List.reverse_reverse]
    exact keepUnnamed_sublist _ _ _

/-- Of a history in order, what is left are the rows not named. -/
theorem unnamed_eq_filter {rows : List Row} (hasc : rows.Pairwise fun a b => a.id < b.id)
    (named : List LineId) : unnamed named rows = rows.filter fun r => r.id ∉ named := by
  rcases unnamed_cases named rows with ⟨rfl, h⟩ | ⟨floor, sorted, -, hmem, hfloor, h⟩
  · rw [h]
    simp
  · rw [h, keepUnnamed_eq_filter hfloor (List.pairwise_reverse.mpr hasc), List.filter_reverse,
      List.reverse_reverse]
    simp only [hmem]

/-- Each row stays or is named. -/
theorem length_unnamed {rows : List Row} (hasc : rows.Pairwise fun a b => a.id < b.id)
    (named : List LineId) :
    (unnamed named rows).length + (rows.map Row.id).countP (· ∈ named) = rows.length := by
  have hsum := List.length_eq_countP_add_countP (fun r : Row => decide (r.id ∉ named)) (l := rows)
  rw [unnamed_eq_filter hasc, List.countP_map, ← List.countP_eq_length_filter, hsum]
  simp [Function.comp_def]

/-- Where neither a row nor the rows above it are named, they all stay. -/
theorem unnamed_of_clear {above : List Row} {r : Row} (hr : r.id ∉ named)
    (habove : ∀ a ∈ above, a.id ∉ named) (below : List Row) :
    ∃ kept, kept.Sublist below ∧ unnamed named (above ++ r :: below) = above ++ r :: kept := by
  rcases unnamed_cases named (above ++ r :: below) with ⟨-, h⟩ | ⟨floor, sorted, -, hmem, -, h⟩
  · exact ⟨below, List.Sublist.refl _, h⟩
  · have hold : keepUnnamed sorted floor (r :: above.reverse) = r :: above.reverse := by
      refine keepUnnamed_of_unnamed floor fun a ha => ?_
      rw [hmem]
      rcases List.mem_cons.mp ha with rfl | ha
      · exact hr
      · exact habove a (List.mem_reverse.mp ha)
    obtain ⟨kept, hsub, hkept⟩ := keepUnnamed_append sorted floor (r :: above.reverse) below.reverse
    rw [hold, or_self] at hkept
    refine ⟨kept.reverse, List.reverse_sublist.mp (by simpa using hsub), ?_⟩
    rw [h, List.reverse_append, List.reverse_cons, List.append_assoc, List.singleton_append, hkept]
    simp

/-- A row that is named goes, or the walk ended below it. -/
theorem unnamed_of_named {r : Row} (hr : r.id ∈ named) (above below : List Row) :
    (∃ kept, kept.Sublist below ∧ unnamed named (above ++ r :: below) = above ++ r :: kept) ∨
      (unnamed named (above ++ r :: below)).Sublist (above ++ below) := by
  rcases unnamed_cases named (above ++ r :: below) with ⟨rfl, -⟩ | ⟨floor, sorted, -, hmem, hfloor, h⟩
  · simp at hr
  · obtain ⟨kept, hsub, hkept⟩ := keepUnnamed_append sorted floor (r :: above.reverse) below.reverse
    have hsub' : kept.reverse.Sublist below := List.reverse_sublist.mp (by simpa using hsub)
    rw [h, List.reverse_append, List.reverse_cons, List.append_assoc, List.singleton_append]
    have hin : sorted.contains r.id = true := by simpa using (hmem r.id).mpr hr
    rcases hkept with hkept | hkept
    · exact .inl ⟨kept.reverse, hsub', by rw [hkept]; simp⟩
    · right
      rw [hkept, keepUnnamed_cons, if_pos (hfloor _ ((hmem r.id).mpr hr)), if_pos hin,
        List.reverse_append]
      exact (List.reverse_sublist.mp (by simpa using keepUnnamed_sublist _ _ _)).append hsub'

namespace Grid

/-- The ring and the count once the run in hand, `i` up to `stop`, is out. -/
def flushRun (i : Nat) (stop : Option Nat) (s : Storage) (removed : Nat) : Storage × Nat :=
  match stop with
  | some e => (s.removeRange i (e - i), removed + (e - i))
  | none => (s, removed)

theorem dropWalk_zero (named : List LineId) (floor : LineId) (stop : Option Nat) (s : Storage)
    (removed : Nat) : dropWalk named floor 0 stop s removed = flushRun 0 stop s removed := rfl

theorem dropWalk_succ (named : List LineId) (floor : LineId) (i : Nat) (stop : Option Nat)
    (s : Storage) (removed : Nat) :
    dropWalk named floor (i + 1) stop s removed =
      if floor ≤ (s.row i).id then
        if named.contains (s.row i).id then
          dropWalk named floor i (some (stop.getD (i + 1))) s removed
        else
          dropWalk named floor i none (flushRun (i + 1) stop s removed).1
            (flushRun (i + 1) stop s removed).2
      else flushRun (i + 1) stop s removed := rfl

theorem logical_flushRun {i : Nat} {stop : Option Nat} {s : Storage} (removed : Nat)
    (hie : i ≤ stop.getD i) (he : stop.getD i < s.len) :
    (flushRun i stop s removed).1.logical = s.logical.take i ++ s.logical.drop (stop.getD i) ∧
      (flushRun i stop s removed).1.nextId = s.nextId ∧
      (flushRun i stop s removed).2 + (flushRun i stop s removed).1.len = removed + s.len := by
  cases stop with
  | none => exact ⟨(List.take_append_drop i s.logical).symm, rfl, rfl⟩
  | some e =>
    simp only [Option.getD_some] at hie he ⊢
    have hlog : (s.removeRange i (e - i)).logical = s.logical.take i ++ s.logical.drop e := by
      rw [Storage.logical_removeRange _ _ _ (by omega), Nat.add_sub_cancel' hie]
    refine ⟨hlog, Storage.nextId_removeRange _ _ _, ?_⟩
    have hlen := congrArg List.length hlog
    simp only [Storage.length_logical, List.length_append, List.length_take,
      List.length_drop] at hlen
    show removed + (e - i) + (s.removeRange i (e - i)).len = removed + s.len
    omega

/-- The walk from `i` down strikes out the named rows below `i`, and the run
in hand above it. -/
theorem logical_dropWalk (named : List LineId) (floor : LineId) (i : Nat) (stop : Option Nat)
    (s : Storage) (removed : Nat) (hie : i ≤ stop.getD i) (he : stop.getD i < s.len) :
    (dropWalk named floor i stop s removed).1.logical =
        (keepUnnamed named floor (s.logical.take i).reverse).reverse ++
          s.logical.drop (stop.getD i) ∧
      (dropWalk named floor i stop s removed).1.nextId = s.nextId ∧
      (dropWalk named floor i stop s removed).2 + (dropWalk named floor i stop s removed).1.len =
        removed + s.len := by
  induction i generalizing stop s removed with
  | zero =>
    rw [dropWalk_zero]
    obtain ⟨hlog, hrest⟩ := logical_flushRun removed hie he
    exact ⟨by simpa [keepUnnamed] using hlog, hrest⟩
  | succ i ih =>
    obtain ⟨hlog, hnext, hlen⟩ := logical_flushRun removed hie he
    have hi : i < s.logical.length := by
      rw [Storage.length_logical]
      omega
    have hsucc : s.logical.take (i + 1) = s.logical.take i ++ [s.logical[i]] :=
      List.take_succ_eq_append_getElem hi
    have hrow : s.row i = s.logical[i] := by
      rw [Storage.row_eq s i (by simpa using hi)]
      simp [List.getElem?_eq_getElem hi]
    rw [dropWalk_succ, hrow, hsucc, List.reverse_append, List.reverse_singleton,
      List.singleton_append, keepUnnamed]
    by_cases hfloor : floor ≤ s.logical[i].id
    · rw [if_pos hfloor, if_pos hfloor]
      by_cases hnamed : named.contains s.logical[i].id = true
      · -- The run in hand grows by this row.
        rw [if_pos hnamed, if_pos hnamed]
        exact ih (some (stop.getD (i + 1))) s removed (Nat.le_of_succ_le hie) he
      · -- The run in hand comes out, and this row stays.
        rw [if_neg hnamed, if_neg hnamed]
        generalize flushRun (i + 1) stop s removed = p at hlog hnext hlen
        obtain ⟨s', n⟩ := p
        dsimp only at hlog hnext hlen ⊢
        have hlen' : s'.len = i + 1 + (s.len - stop.getD (i + 1)) := by
          have := congrArg List.length hlog
          simp only [Storage.length_logical, List.length_append, List.length_take,
            List.length_drop] at this
          omega
        obtain ⟨hlog', hnext', hlen''⟩ := ih none s' n (Nat.le_refl i) (by
          show i < s'.len
          omega)
        have hpre : (s.logical.take i).length = i := by
          rw [List.length_take]
          omega
        rw [hsucc, List.append_assoc] at hlog
        have htake : s'.logical.take i = s.logical.take i := by
          rw [hlog, List.take_left' hpre]
        have hdrop : s'.logical.drop i = [s.logical[i]] ++ s.logical.drop (stop.getD (i + 1)) := by
          rw [hlog, List.drop_left' hpre]
        refine ⟨?_, hnext'.trans hnext, hlen''.trans hlen⟩
        rw [hlog', htake, Option.getD_none, hdrop, List.reverse_cons, List.append_assoc]
    · -- Below the floor the walk ends.
      rw [if_neg hfloor, if_neg hfloor]
      refine ⟨?_, hnext, hlen⟩
      rw [hlog, hsucc, List.reverse_cons, List.reverse_reverse]

/-- The rows a keyframe names leave the history; the viewport stays, and the
reader comes down by as many rows as left. -/
theorem dropScrollbackRows_spec (g : Grid) (named : List LineId) (hs : g.Shape)
    (hoff : g.displayOffset ≤ g.scrollbackLen) :
    ∃ s kept, kept = unnamed named (g.lines.take g.scrollbackLen) ∧
      (g.dropScrollbackRows named).1 =
        { g with
          storage := s
          scrollbackLen := kept.length
          displayOffset := min (g.displayOffset - (g.scrollbackLen - kept.length)) kept.length } ∧
      s.logical = kept ++ g.lines.drop g.scrollbackLen ∧ s.nextId = g.storage.nextId := by
  have hlen := hs.len
  have hpos := hs.rows_pos
  have htake : (g.lines.take g.scrollbackLen).length = g.scrollbackLen := by
    simp only [lines, List.length_take, Storage.length_logical]
    omega
  unfold dropScrollbackRows unnamed
  cases hsort : named.insertionSort (· ≤ ·) with
  | nil =>
    refine ⟨g.storage, g.lines.take g.scrollbackLen, rfl, ?_, (List.take_append_drop _ _).symm, rfl⟩
    rw [htake, Nat.sub_self, Nat.sub_zero, Nat.min_eq_left hoff]
  | cons floor rest =>
    obtain ⟨hlog, hnext, hcount⟩ := logical_dropWalk (floor :: rest) floor g.scrollbackLen none
      g.storage 0 (Nat.le_refl _) (by show g.scrollbackLen < g.storage.len; omega)
    dsimp only
    generalize dropWalk (floor :: rest) floor g.scrollbackLen none g.storage 0 = p at hlog hnext hcount
    obtain ⟨s, removed⟩ := p
    dsimp only at hlog hnext hcount ⊢
    refine ⟨s, _, rfl, ?_, hlog, hnext⟩
    have hkept : (keepUnnamed (floor :: rest) floor
        (g.lines.take g.scrollbackLen).reverse).reverse.length = g.scrollbackLen - removed ∧
        removed ≤ g.scrollbackLen := by
      have := congrArg List.length hlog
      simp only [Storage.length_logical, List.length_append, List.length_drop,
        Option.getD_none] at this
      simp only [lines]
      omega
    obtain ⟨hkept, hle⟩ := hkept
    rw [hkept, Nat.sub_sub_self hle]
    split
    · rfl
    · next hnone =>
      have h0 : removed = 0 := by omega
      rw [h0, Nat.sub_zero, Nat.sub_zero, Nat.min_eq_left hoff]

theorem evolves_dropScrollbackRows {g : Grid} (hs : g.Shape)
    (hoff : g.displayOffset ≤ g.scrollbackLen) (named : List LineId) :
    g.Evolves (g.dropScrollbackRows named).1 := by
  obtain ⟨s, kept, hkept, heq, hlog, hnext⟩ := g.dropScrollbackRows_spec named hs hoff
  have hsub : kept.Sublist (g.lines.take g.scrollbackLen) := hkept ▸ unnamed_sublist named _
  have hle : kept.length ≤ g.scrollbackLen := hsub.length_le.trans (List.length_take_le _ _)
  have hall : s.logical.Sublist g.lines := by
    rw [hlog]
    conv => rhs; rw [← List.take_append_drop g.scrollbackLen g.lines]
    exact hsub.append (List.Sublist.refl _)
  rw [heq]
  refine Evolves.of_sublist hall hnext rfl rfl rfl rfl rfl (fun hs => ?_) fun _ hw =>
    { hw with limit := (Nat.add_le_add_right hle _).trans hw.limit, offset := Nat.min_le_right _ _ }
  have hlen := hs.len
  have := congrArg List.length hlog
  simp only [lines, List.length_append, List.length_drop, Storage.length_logical] at this
  show s.len = kept.length + g.rows
  omega

/-! ## History that arrives late -/

/-- A page of history goes above the oldest row, its newest rows first where
the limit leaves no room for them all. -/
theorem pushHistory_spec (g : Grid) (rows : List (LineId × List Cell × Bool)) :
    ∃ s n, g.pushHistory rows = { g with storage := s, scrollbackLen := g.scrollbackLen + n } ∧
      n = min rows.length (g.scrollbackLimit - g.scrollbackLen) ∧
      s.logical = (rows.drop (rows.length - n)).map (Storage.builtRow g.cols) ++ g.lines ∧
      s.nextId = g.storage.nextId := by
  unfold pushHistory
  dsimp only
  split
  · next h =>
    refine ⟨g.storage, 0, rfl, ?_, ?_, rfl⟩
    · rcases h with h | h
      · simp [List.isEmpty_iff.mp h]
      · omega
    · simp [lines]
  · exact ⟨_, _, rfl, rfl, Storage.logical_prepend _ _ _, Storage.nextId_prepend _ _ _⟩

/-- A page of history is built at the grid's width and cut to the room the
limit leaves. -/
theorem shape_pushHistory {g : Grid} (hs : g.Shape) (rows : List (LineId × List Cell × Bool)) :
    (g.pushHistory rows).Shape := by
  obtain ⟨s, n, heq, hn, hlog, -⟩ := g.pushHistory_spec rows
  rw [heq]
  refine ⟨hs.rows_pos, hs.cols_pos, ?_, fun r hr => ?_⟩
  · have hlen := congrArg List.length hlog
    simp only [lines, List.length_append, List.length_map, List.length_drop,
      Storage.length_logical, hs.len] at hlen
    show s.len = g.scrollbackLen + n + g.rows
    omega
  · replace hr : r ∈ s.logical := hr
    rw [hlog] at hr
    rcases List.mem_append.mp hr with hr | hr
    · obtain ⟨row, _, rfl⟩ := List.mem_map.mp hr
      exact Storage.length_builtRow _ _
    · exact hs.width r hr

end Grid

end Zesterm
