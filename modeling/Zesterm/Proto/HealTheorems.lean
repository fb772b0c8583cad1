/-
Zesterm.Proto.HealTheorems — whether a keyframe brings any replica level
with its host.

The replica may hold anything that keyframes and deltas have left in it, at
any size and on either screen; the keyframe is made of a host as any run of
a program leaves it. `restored_iff` is the comparison of one row, marks and
all, `restate_exact` that of the blocks, and `heals_iff` says for which
hosts and replicas the comparison comes out even everywhere (`Healable`).
What falls through is named there: a combining mark on a blank cell at the
end of a row, marks that find the side table of the replica's old row full,
a character under a wide character's spacer, and numbers the wire clamps.
-/
import Zesterm.Proto.KeyframeTheorems
import Zesterm.Proto.ScrollTheorems
import Zesterm.Proto.StyleTheorems
import Zesterm.Proto.BlockSyncTheorems

namespace Zesterm

/-! ## One row -/

/-- A client's row is the host's: its line, its wrap, and of every cell the
character, the marks and the style, up to the foreground of trailing default
blanks. -/
structure Row.Restored (host client : Row) : Prop where
  id : client.id = host.id
  wrapped : client.wrapped = host.wrapped
  cells : ∀ col c, host.cells[col]? = some c → ∃ d, client.cells[col]? = some d ∧
    d.ch = c.ch ∧ d.bg = c.bg ∧ d.flags = c.flags ∧
      (col < (Encoder.sentCells host).length → d.fg = c.fg)
  marks : ∀ col, client.marksAt col = host.marksAt col

/-- What a row must be to arrive whole on a row with `held` entries in its
side table. -/
structure Row.Sendable (host : Row) (held : Nat) : Prop where
  id : (host.id : Int) ≤ i64Max
  spacers : ∀ c ∈ Encoder.sentCells host, c.flags.contains .wideSpacer → c.ch = ' '
  blanks : ∀ c ∈ host.cells.drop (Encoder.sentCells host).length, host.marksOf c = []
  room : (Encoder.sentMarks host).length ≤ noExtra - held

namespace Applier

open Encoder

theorem lineId_wireLine (id : LineId) : lineId (wireLine id) = id ↔ (id : Int) ≤ i64Max := by
  have hnat (n : Nat) : (min (n : Int) (2 ^ 63 - 1)).toNat = n ↔ (n : Int) ≤ 2 ^ 63 - 1 := by omega
  exact hnat id

namespace Painted

variable {host old client : Row}

theorem length (h : Painted host old client) : client.cells.length = host.cells.length := by
  have := congrArg List.length h.look
  simpa using this

/-- Each cell, as the wire carries it. -/
theorem cell (h : Painted host old client) {col : Nat} {c : Cell} (hc : host.cells[col]? = some c) :
    ∃ d, client.cells[col]? = some d ∧
      d.look = (if col < (sentCells host).length then c.onWire else Cell.blank).look := by
  have hlook := congrArg (·[col]?) h.look
  simp only [List.getElem?_map, getElem?_onWire hc, Option.map_some] at hlook
  exact Option.map_eq_some_iff.mp hlook

/-- In every cell the background and the flags are the host's, and where the
cell was sent the foreground is too. -/
theorem style (h : Painted host old client) {col : Nat} {c : Cell}
    (hc : host.cells[col]? = some c) :
    ∃ d, client.cells[col]? = some d ∧
      d.ch = (if col < (sentCells host).length then c.onWire.ch else c.ch) ∧
      d.bg = c.bg ∧ d.flags = c.flags ∧ (col < (sentCells host).length → d.fg = c.fg) := by
  obtain ⟨d, hd, hlook⟩ := h.cell hc
  refine ⟨d, hd, ?_⟩
  unfold Cell.look at hlook
  split at hlook
  · next hsent =>
    simp only [Prod.mk.injEq] at hlook
    exact ⟨by rw [if_pos hsent, hlook.1], hlook.2.2.1, hlook.2.2.2, fun _ => hlook.2.1⟩
  · next hsent =>
    obtain ⟨hch, hbg, hflags⟩ :=
      isTrailing_iff.mp (isTrailing_of_unsent hc (Nat.le_of_not_lt hsent))
    simp only [Prod.mk.injEq] at hlook
    refine ⟨by rw [if_neg hsent, hlook.1, hch]; rfl, by rw [hlook.2.2.1, hbg]; rfl,
      by rw [hlook.2.2.2, hflags]; rfl, fun h => absurd h hsent⟩

theorem wrapped (h : Painted host old client) : client.wrapped = host.wrapped := by
  unfold Row.wrapped
  rw [List.getLast?_eq_getElem?, List.getLast?_eq_getElem?, h.length]
  cases hc : host.cells[host.cells.length - 1]? with
  | none =>
    have hnone := List.getElem?_eq_none_iff.mp hc
    rw [List.getElem?_eq_none (by rw [h.length]; exact hnone)]
  | some c =>
    obtain ⟨d, hd, -, -, hflags, -⟩ := h.style hc
    rw [hd]
    simp only [hflags]

/-- The marks of the cells sent and those of the rest. -/
theorem marks_iff (h : Painted host old client) :
    (∀ col, client.marksAt col = host.marksAt col) ↔
      (sentMarks host).length ≤ noExtra - old.extras.length ∧
        ∀ c ∈ host.cells.drop (sentCells host).length, host.marksOf c = [] := by
  obtain ⟨r, hplain, hextras, hlen, hmarked⟩ := h.marked
  obtain ⟨hcols, hsent⟩ := sentMarks_spec host
  have hfresh : ∀ m ∈ sentMarks host, m.2 ≠ [] ∧ ∃ c, r.cells[m.1]? = some c ∧ c.extra = noExtra := by
    intro m hm
    obtain ⟨c, hc, -, hne⟩ := hsent m hm
    obtain ⟨hlt, _⟩ := List.getElem?_eq_some_iff.mp hc
    have hin : m.1 < r.cells.length := by
      rw [hlen]
      exact hlt.trans_le (length_sentCells_le host)
    exact ⟨hne, _, List.getElem?_eq_getElem hin, hplain _ (List.getElem_mem hin)⟩
  have hall := hmarked.all_iff hcols hfresh
  rw [hextras] at hall
  have hbare (col : Nat) : r.marksAt col = [] := by
    unfold Row.marksAt
    cases hc : r.cells[col]? with
    | none => rfl
    | some c => exact Row.marksOf_noExtra (hplain c (List.mem_of_getElem? hc))
  have hhost (m : Nat × Str) (hm : m ∈ sentMarks host) : host.marksAt m.1 = m.2 := by
    obtain ⟨c, hc, hmarks, -⟩ := hsent m hm
    obtain ⟨hlt, _⟩ := List.getElem?_eq_some_iff.mp hc
    rw [getElem?_sentCells hlt] at hc
    rw [Row.marksAt_eq hc, hmarks]
  have hrest (col : Nat) (hcol : col ∉ (sentMarks host).map Prod.fst) : client.marksAt col = [] := by
    rw [hmarked.rest col fun hin => hcol (List.map_subset _ (List.take_subset _ _) hin)]
    exact hbare col
  constructor
  · intro heq
    refine ⟨hall.mp fun m hm => (heq m.1).trans (hhost m hm), fun c hc => ?_⟩
    obtain ⟨i, hi, rfl⟩ := List.getElem_of_mem hc
    rw [List.length_drop] at hi
    rw [List.getElem_drop]
    have hget : host.cells[(sentCells host).length + i]? =
        some (host.cells[(sentCells host).length + i]) := List.getElem?_eq_getElem (by omega)
    rw [← Row.marksAt_eq hget, ← heq]
    refine hrest _ fun hin => ?_
    obtain ⟨m, hm, hmcol⟩ := List.mem_map.mp hin
    obtain ⟨c, hc, -, -⟩ := hsent m hm
    obtain ⟨hlt, _⟩ := List.getElem?_eq_some_iff.mp hc
    omega
  · rintro ⟨hroom, hblanks⟩ col
    by_cases hcol : col ∈ (sentMarks host).map Prod.fst
    · obtain ⟨m, hm, rfl⟩ := List.mem_map.mp hcol
      rw [hall.mpr hroom m hm, hhost m hm]
    · rw [hrest col hcol]
      unfold Row.marksAt
      cases hc : host.cells[col]? with
      | none => rfl
      | some c =>
        show [] = host.marksOf c
        by_cases hlt : col < (sentCells host).length
        · by_contra hne
          refine hcol (List.mem_map.mpr ⟨(col, host.marksOf c), ?_, rfl⟩)
          refine List.mem_filterMap.mpr ⟨(c, col), ?_, ?_⟩
          · exact List.mem_zipIdx_iff_getElem?.mpr ((getElem?_sentCells hlt).trans hc)
          · rw [if_neg]
            simpa using Ne.symm hne
        · refine (hblanks c ?_).symm
          refine List.mem_of_getElem? (i := col - (sentCells host).length) ?_
          rw [List.getElem?_drop, Nat.add_sub_cancel' (Nat.le_of_not_lt hlt)]
          exact hc

/-- Whether a row arrives whole. -/
theorem restored_iff (h : Painted host old client) :
    host.Restored client ↔ host.Sendable old.extras.length := by
  constructor
  · intro hr
    obtain ⟨hroom, hblanks⟩ := h.marks_iff.mp hr.marks
    refine ⟨(lineId_wireLine host.id).mp (h.id.symm.trans hr.id), fun c hc hspacer => ?_, hblanks,
      hroom⟩
    obtain ⟨col, hcol, hget⟩ := List.getElem_of_mem hc
    have hhost : host.cells[col]? = some c := by
      rw [← getElem?_sentCells hcol, List.getElem?_eq_getElem hcol, hget]
    obtain ⟨d, hd, hch, -⟩ := h.style hhost
    obtain ⟨d', hd', hch', -⟩ := hr.cells col c hhost
    obtain rfl := Option.some.inj (hd.symm.trans hd')
    rw [if_pos hcol] at hch
    rw [← hch', hch, Cell.onWire, if_pos hspacer]
  · intro hs
    refine ⟨h.id.trans ((lineId_wireLine host.id).mpr hs.id), h.wrapped, fun col c hc => ?_,
      h.marks_iff.mpr ⟨hs.room, hs.blanks⟩⟩
    obtain ⟨d, hd, hch, hbg, hflags, hfg⟩ := h.style hc
    refine ⟨d, hd, ?_, hbg, hflags, hfg⟩
    split at hch
    · next hsent =>
      rw [hch, Cell.onWire]
      dsimp only
      split
      · next hspacer =>
        refine (hs.spacers c ?_ hspacer).symm
        exact List.mem_of_getElem? ((getElem?_sentCells hsent).trans hc)
      · rfl
    · exact hch

end Painted

end Applier

/-! ## The blocks -/

namespace BlockIndex

theorem upsertInto_cons (b c : Block) (bs : List Block) :
    upsertInto b (c :: bs) =
      if c.id = b.id then b :: bs
      else if b.id < c.id then b :: c :: bs
      else c :: upsertInto b bs := rfl

/-- Of the blocks from `first` up, an upsert sees only those. -/
theorem filter_upsertInto (first : BlockId) (b : Block) (bs : List Block) :
    (upsertInto b bs).filter (fun c => decide (first ≤ c.id)) =
      if first ≤ b.id then upsertInto b (bs.filter fun c => decide (first ≤ c.id))
      else bs.filter fun c => decide (first ≤ c.id) := by
  induction bs with
  | nil =>
    show [b].filter _ = _
    split <;> simp [upsertInto, *]
  | cons c bs ih =>
    rw [upsertInto_cons]
    by_cases heq : c.id = b.id
    · rw [if_pos heq]
      by_cases hb : first ≤ b.id
      · simp [hb, heq, upsertInto_cons]
      · simp [hb, heq]
    · rw [if_neg heq]
      by_cases hlt : b.id < c.id
      · rw [if_pos hlt]
        by_cases hb : first ≤ b.id
        · have hc : first ≤ c.id := hb.trans (Nat.le_of_lt hlt)
          simp [hb, hc, upsertInto_cons, heq, hlt]
        · simp [hb]
      · rw [if_neg hlt, List.filter_cons, List.filter_cons, ih]
        by_cases hc : first ≤ c.id
        · have hb : first ≤ b.id := hc.trans (Nat.le_of_not_lt hlt)
          simp [hb, hc, upsertInto_cons, heq, hlt]
        · simp [hc]

/-- A newest block goes to the end. -/
theorem upsertInto_newest (b : Block) : ∀ bs : List Block, (∀ c ∈ bs, c.id < b.id) →
    upsertInto b bs = bs ++ [b]
  | [], _ => rfl
  | c :: bs, h => by
    have hc := h c (List.mem_cons_self ..)
    unfold upsertInto
    rw [if_neg (Nat.ne_of_lt hc), if_neg (Nat.not_lt.mpr hc.le),
      upsertInto_newest b bs fun d hd => h d (List.mem_cons_of_mem _ hd)]
    rfl

/-- Restating blocks in order of id over a client that keeps only its older
ones: from the floor up it has what was restated. -/
theorem restate_exact (x : BlockIndex) {k : Keyframe} (hk : (k.blocks.map BlockPayload.id).Pairwise (· < ·)) :
    (x.restate k).blocks.filter (fun b => decide (k.blocksFrom ≤ b.id)) =
      (k.blocks.map BlockPayload.toBlock).filter fun b => decide (k.blocksFrom ≤ b.id) := by
  have hfold : ∀ (bs : List BlockPayload) (y : BlockIndex), (bs.map BlockPayload.id).Pairwise (· < ·) →
      (∀ c ∈ y.blocks.filter (fun b => decide (k.blocksFrom ≤ b.id)), ∀ b ∈ bs, c.id < b.id) →
      (bs.foldl (fun y b => y.upsert b.toBlock) y).blocks.filter
          (fun b => decide (k.blocksFrom ≤ b.id)) =
        y.blocks.filter (fun b => decide (k.blocksFrom ≤ b.id)) ++
          (bs.map BlockPayload.toBlock).filter fun b => decide (k.blocksFrom ≤ b.id) := by
    intro bs
    induction bs with
    | nil => intro y _ _; simp
    | cons b bs ih =>
      intro y hsorted hbelow
      obtain ⟨hfirst, hsorted⟩ := List.pairwise_cons.mp hsorted
      have hone : (y.upsert b.toBlock).blocks.filter (fun b => decide (k.blocksFrom ≤ b.id)) =
          y.blocks.filter (fun b => decide (k.blocksFrom ≤ b.id)) ++
            [b.toBlock].filter fun b => decide (k.blocksFrom ≤ b.id) := by
        show (upsertInto b.toBlock y.blocks).filter _ = _
        rw [filter_upsertInto]
        split
        · next hb =>
          rw [upsertInto_newest _ _ fun c hc => hbelow c hc b (List.mem_cons_self ..)]
          simp [hb]
        · next hb => simp [hb]
      rw [List.foldl_cons, ih _ hsorted, hone, List.append_assoc, List.map_cons]
      · congr 1
        rw [← List.filter_append]
        rfl
      · intro c hc b' hb'
        rw [hone] at hc
        rcases List.mem_append.mp hc with hc | hc
        · exact hbelow c hc b' (List.mem_cons_of_mem _ hb')
        · obtain rfl := List.mem_singleton.mp (List.mem_of_mem_filter hc)
          exact hfirst _ (List.mem_map_of_mem hb')
  have hkept : (x.retainBelow k.blocksFrom).blocks.filter (fun b => decide (k.blocksFrom ≤ b.id)) =
      [] := by
    refine List.filter_eq_nil_iff.mpr fun b hb => ?_
    have hlt : b.id < k.blocksFrom := of_decide_eq_true (List.mem_filter.mp hb).2
    simpa using hlt
  unfold restate
  rw [hfold k.blocks _ hk (by rw [hkept]; simp), hkept, List.nil_append]

end BlockIndex

/-- A block whose lines are no greater than the wire can say. -/
structure Block.Fits (b : Block) : Prop where
  prompt : (b.promptLine : Int) ≤ i64Max
  output : ∀ l ∈ b.outputLine, (l : Int) ≤ i64Max
  stop : ∀ l ∈ b.endLine, (l : Int) ≤ i64Max

theorem Block.toBlock_fromBlock (b : Block) :
    (BlockPayload.fromBlock b).toBlock = b ↔ b.Fits := by
  have hline (o : Option LineId) : (o.map wireLine).map lineId = o ↔ ∀ l ∈ o, (l : Int) ≤ i64Max := by
    cases o with
    | none => simp
    | some l => simp [Applier.lineId_wireLine]
  constructor
  · intro h
    refine ⟨(Applier.lineId_wireLine _).mp (congrArg Block.promptLine h),
      (hline _).mp (congrArg Block.outputLine h), (hline _).mp (congrArg Block.endLine h)⟩
  · intro h
    have hprompt := (Applier.lineId_wireLine _).mpr h.prompt
    have houtput := (hline _).mpr h.output
    have hstop := (hline _).mpr h.stop
    unfold BlockPayload.toBlock BlockPayload.fromBlock
    dsimp only
    rw [hprompt, houtput, hstop]

/-! ## The property -/

/-- A replica is level with a host. -/
structure Heals (host client : TermState) : Prop where
  cols : client.activeGrid.cols = host.activeGrid.cols
  rows : client.activeGrid.rows = host.activeGrid.rows
  screen : client.altGrid.isSome = host.altGrid.isSome
  modes : client.modes = host.modes
  cursor : client.activeGrid.cursor.row = host.activeGrid.cursor.row ∧
    client.activeGrid.cursor.col = host.activeGrid.cursor.col
  lines : List.Forall₂ Row.Restored (Encoder.activeRows host.activeGrid)
    (Encoder.activeRows client.activeGrid)
  blocks : (client.blocks.blocks.filter fun b => decide (host.blocks.authoritativeFrom ≤ b.id)) =
    host.blocks.blocks.filter fun b => decide (host.blocks.authoritativeFrom ≤ b.id)

/-- What a host must be, and the rows a keyframe of it will be written over,
for the keyframe to bring a client level with it. -/
structure Healable (host : TermState) (c : Client) (k : Keyframe) : Prop where
  cols : host.activeGrid.cols ≤ 65535
  rows : host.activeGrid.rows ≤ 65535
  lines : List.Forall₂ (fun row old => row.Sendable old.extras.length)
    (Encoder.activeRows host.activeGrid)
    (Encoder.activeRows (Applier.prepared c.applier c.replica k).activeGrid)
  blocks : ∀ b ∈ host.blocks.blocks, host.blocks.authoritativeFrom ≤ b.id → b.Fits

/-! ## The encoder -/

namespace Look

/-- The styles an encoder meets in its looks. -/
theorem ledgered_encode {styles : List AttrKey} (looks : List Look)
    (hsub : ∀ l ∈ looks, l.styles ⊆ styles) {e : Encoder} (h : e.Ledgered styles) :
    (looks.foldl encode e).Ledgered styles := by
  induction looks generalizing e with
  | nil => exact h
  | cons l looks ih =>
    refine ih (fun l' hl' => hsub l' (List.mem_cons_of_mem _ hl')) ?_
    have hl := hsub l (List.mem_cons_self ..)
    unfold encode
    split
    · have hk := (Encoder.interned_encodeRows l.rows e).2 styles hl h
      exact ⟨hk.counted, hk.next, hk.met⟩
    · have hd := (Encoder.interned_encodeRows l.rows { e with modes := l.host.modes }).2 styles hl
        ⟨h.counted, h.next, h.met⟩
      exact ⟨hd.counted, hd.next, hd.met⟩

/-- A client that takes in the keyframe of a look can name every style in
it. -/
theorem names_keyframe (l : Look) {e : Encoder} {styles : List AttrKey} (h : e.Ledgered styles)
    (hroom : styles.length ≤ 65536) (hsub : l.styles ⊆ styles) (t : AttrTable) :
    ∃ ids : AttrKey → AttrId, (l.keyframe e).1.rowsData = l.rows.map (Encoder.payloadOf ids) ∧
      ∀ row ∈ l.rows, Names (t.absorb (l.keyframe e).1.attrs) row (Encoder.payloadOf ids row) := by
  obtain ⟨-, hknows, hrows⟩ := Encoder.encodeRows_spec l.rows e
  have hledger := (Encoder.interned_encodeRows l.rows e).2 styles hsub h
  have hholds := Mirror.holds_absorb_all (hledger.nodup hroom) t
  exact ⟨_, hrows, fun row hrow => Encoder.names_payloadOf hholds (hknows row hrow)⟩

end Look

/-- Setting a mode to what it is. -/
theorem Modes.set_showCursor_self (m : Modes) : m.set .showCursor (m.contains .showCursor) = m := by
  have hbit : Modes.showCursor.bits = BitVec.twoPow 32 4 := by decide
  have hcontains : m.contains .showCursor = m.bits.getLsbD 4 := by
    unfold contains
    rw [hbit, BitVec.and_twoPow]
    cases m.bits.getLsbD 4 <;> decide
  obtain ⟨bits⟩ := m
  rw [hcontains]
  cases h : bits.getLsbD 4 <;>
    simp only [set, union, remove, hbit, if_true, if_false, Bool.false_eq_true, mk.injEq]
  all_goals
    ext i hi
    by_cases h4 : i = 4
    · subst h4
      simp_all [← BitVec.getLsbD_eq_getElem]
    · simp_all [← BitVec.getLsbD_eq_getElem, Ne.symm h4]

/-- Comparing a list with what it was painted over. -/
theorem forall₂_zipWith {α β γ : Type} {R : α → γ → Prop} {f : α → β → γ} :
    ∀ {l : List α} {m : List β}, l.length = m.length →
      (List.Forall₂ R l (List.zipWith f l m) ↔ List.Forall₂ (fun a b => R a (f a b)) l m)
  | [], [], _ => by simp
  | a :: l, b :: m, h => by
    rw [List.zipWith_cons_cons, List.forall₂_cons, List.forall₂_cons,
      forall₂_zipWith (by simpa using h)]

/-! ## A keyframe of a host, applied -/

namespace Client

variable {host : TermState} {c : Client}

/-- The keyframe of a whole look. -/
def keyframeOf (e : Encoder) (host : TermState) : Keyframe :=
  (({ whole := true, host := host } : Look).keyframe e).1

theorem length_rowsData (e : Encoder) (host : TermState) :
    (keyframeOf e host).rowsData.length = host.activeGrid.rows :=
  Encoder.length_freshRows e host.activeGrid

/-- The size of the replica says whether the wire could say the host's. -/
theorem size_deliver (e : Encoder) (seq : Nat) {cols rows : Nat} (h : c.replica.Replica cols rows)
    {hcols hrows : Nat} (hs : host.Sound hcols hrows) :
    (c.deliver (.keyframe (keyframeOf e host) seq)).replica.Replica (wireU16 hcols)
      (wireU16 hrows) := by
  have hc := hs.active.cols
  have hr := hs.active.rows
  have hcpos := hs.active.shape.cols_pos
  have hrpos := hs.active.shape.rows_pos
  have hwire {n : Nat} (hn : 0 < n) : max (wireU16 n) 1 = wireU16 n := by
    unfold wireU16
    omega
  have hk := Applier.replica_applyKeyframe c.applier h (keyframeOf e host) seq
  show (c.applier.applyKeyframe c.replica (keyframeOf e host) seq).2.Replica _ _
  rw [show (keyframeOf e host).cols = wireU16 host.activeGrid.cols from rfl,
    show (keyframeOf e host).rows = wireU16 host.activeGrid.rows from rfl, hwire hcpos,
    hwire hrpos, hc, hr] at hk
  exact hk

/-- The rows, the cursor, the modes and the screen, where the wire can say
the host's size. -/
theorem lines_deliver {e : Encoder} (seq : Nat) {cols rows : Nat} (h : c.replica.Replica cols rows)
    {hcols hrows : Nat} (hs : host.Sound hcols hrows) (hc : hcols ≤ 65535) (hr : hrows ≤ 65535)
    {styles : List AttrKey} (he : e.Ledgered styles) (hroom : styles.length ≤ 65536)
    (hsub : Encoder.stylesOf (Encoder.activeRows host.activeGrid) ⊆ styles) :
    let k := keyframeOf e host
    let s := (c.deliver (.keyframe k seq)).replica
    s.altGrid.isSome = host.altGrid.isSome ∧ s.modes = host.modes ∧
      (s.activeGrid.cursor.row = host.activeGrid.cursor.row ∧
        s.activeGrid.cursor.col = host.activeGrid.cursor.col) ∧
      (List.Forall₂ Row.Restored (Encoder.activeRows host.activeGrid)
          (Encoder.activeRows s.activeGrid) ↔
        List.Forall₂ (fun row old => row.Sendable old.extras.length)
          (Encoder.activeRows host.activeGrid)
          (Encoder.activeRows (Applier.prepared c.applier c.replica k).activeGrid)) := by
  intro k s
  have hsize := size_deliver e seq h hs
  have hprep := Applier.replica_prepared c.applier h k
  have hactive := hs.active
  have hcpos := hactive.shape.cols_pos
  have hrpos := hactive.shape.rows_pos
  have hkcols : max k.cols 1 = hcols := by
    show max (wireU16 host.activeGrid.cols) 1 = hcols
    rw [hactive.cols] at hcpos ⊢
    unfold wireU16
    omega
  have hkrows : max k.rows 1 = hrows := by
    show max (wireU16 host.activeGrid.rows) 1 = hrows
    rw [hactive.rows] at hrpos ⊢
    unfold wireU16
    omega
  rw [hkcols, hkrows] at hprep
  have hwc : wireU16 hcols = hcols := by
    unfold wireU16
    omega
  have hwr : wireU16 hrows = hrows := by
    unfold wireU16
    omega
  rw [hwc, hwr] at hsize
  have hlen : k.rowsData.length = hrows := (length_rowsData e host).trans hactive.rows
  have hshows := Applier.shows_applyKeyframe c.applier h k (by rw [hlen, hkrows]) seq
  have hcursor := hactive.within
  obtain ⟨ids, hrows', hnames⟩ :=
    ({ whole := true, host := host } : Look).names_keyframe he hroom hsub c.applier.attrs
  refine ⟨?_, ?_, ⟨?_, ?_⟩, ?_⟩
  · have hflag := hs.flag
    unfold TermState.AltFlag at hflag
    exact hshows.alt.trans hflag
  · exact hshows.modes.trans host.modes.set_showCursor_self
  · have hrow : (cursorOf host).row = host.activeGrid.cursor.row := by
      have := hcursor.row
      rw [hactive.rows] at this
      unfold cursorOf
      dsimp only
      rw [if_pos (by omega)]
    have := hcursor.row
    rw [hactive.rows] at this
    rw [show s.activeGrid.cursor.row = min (cursorOf host).row (s.activeGrid.rows - 1) from
      hshows.cursorRow, hrow, hsize.active.rows]
    omega
  · have hcol : (cursorOf host).col = host.activeGrid.cursor.col := by
      have := hcursor.col
      rw [hactive.cols] at this
      unfold cursorOf
      dsimp only
      rw [if_pos (by omega)]
    have := hcursor.col
    rw [hactive.cols] at this
    rw [show s.activeGrid.cursor.col = min (cursorOf host).col (s.activeGrid.cols - 1) from
      hshows.cursorCol, hcol, hsize.active.cols]
    omega
  · have hold := hprep.active.shape.length_screen.trans hprep.active.rows
    have hscreen : Encoder.activeRows s.activeGrid =
        List.zipWith (fun (row : Row) old =>
          Applier.paint (c.applier.attrs.absorb k.attrs) (Encoder.payloadOf ids row) old)
          (Encoder.activeRows host.activeGrid)
          (Encoder.activeRows (Applier.prepared c.applier c.replica k).activeGrid) := by
      rw [Grid.activeRows_eq _ hsize.active.shape, Grid.activeRows_eq _ hprep.active.shape]
      refine hshows.screen.trans ?_
      rw [List.drop_of_length_le (by rw [hlen, hold]), List.append_nil,
        show k.rowsData = _ from hrows', List.zipWith_map_left]
      rfl
    rw [hscreen]
    have hboth : (Encoder.activeRows host.activeGrid).length =
        (Encoder.activeRows (Applier.prepared c.applier c.replica k).activeGrid).length := by
      rw [Encoder.length_activeRows, Encoder.length_activeRows, hactive.rows, hprep.active.rows]
    have hpaint (i : Nat) (row old : Row) (hrow : (Encoder.activeRows host.activeGrid)[i]? = some row)
        (hold : (Encoder.activeRows (Applier.prepared c.applier c.replica k).activeGrid)[i]? =
          some old) :
        Applier.Painted row old
          (Applier.paint (c.applier.attrs.absorb k.attrs) (Encoder.payloadOf ids row) old) := by
      have hmem := List.mem_of_getElem? hrow
      have hmem' := List.mem_of_getElem? hold
      have hwidth : row.cells.length = hcols := by
        rw [Grid.activeRows_eq _ hactive.shape] at hmem
        exact (hactive.shape.width row (List.mem_of_mem_drop hmem)).trans hactive.cols
      have hwidth' : old.cells.length = hcols := by
        rw [Grid.activeRows_eq _ hprep.active.shape] at hmem'
        exact (hprep.active.shape.width old (List.mem_of_mem_drop hmem')).trans hprep.active.cols
      exact Applier.painted_paint (hnames row hmem) (by omega) (hwidth'.trans hwidth.symm)
    rw [forall₂_zipWith hboth]
    constructor
    · intro hall
      obtain ⟨hl, hget⟩ := List.forall₂_iff_get.mp hall
      exact List.forall₂_iff_get.mpr ⟨hl, fun i h₁ h₂ =>
        (hpaint i _ _ (List.getElem?_eq_getElem h₁) (List.getElem?_eq_getElem h₂)).restored_iff.mp
          (hget i h₁ h₂)⟩
    · intro hall
      obtain ⟨hl, hget⟩ := List.forall₂_iff_get.mp hall
      exact List.forall₂_iff_get.mpr ⟨hl, fun i h₁ h₂ =>
        (hpaint i _ _ (List.getElem?_eq_getElem h₁) (List.getElem?_eq_getElem h₂)).restored_iff.mpr
          (hget i h₁ h₂)⟩

/-- The blocks are restated from the host's floor up, as the wire can say
them. -/
theorem blocks_deliver (e : Encoder) (host : TermState) (c : Client) (seq : Nat)
    (hsorted : host.blocks.ids.Pairwise (· < ·)) :
    ((c.deliver (.keyframe (keyframeOf e host) seq)).replica.blocks.blocks.filter fun b =>
        decide (host.blocks.authoritativeFrom ≤ b.id)) =
      (host.blocks.blocks.filter fun b => decide (host.blocks.authoritativeFrom ≤ b.id)) ↔
      ∀ b ∈ host.blocks.blocks, host.blocks.authoritativeFrom ≤ b.id → b.Fits := by
  have hids : ((keyframeOf e host).blocks.map BlockPayload.id).Pairwise (· < ·) := by
    show ((host.blocks.blocks.map BlockPayload.fromBlock).map BlockPayload.id).Pairwise _
    rw [Encoder.map_fromBlock_id]
    exact hsorted
  have hblocks : (keyframeOf e host).blocks.map BlockPayload.toBlock =
      host.blocks.blocks.map fun b => (BlockPayload.fromBlock b).toBlock := by
    show (host.blocks.blocks.map BlockPayload.fromBlock).map BlockPayload.toBlock = _
    rw [List.map_map]
    rfl
  have hexact := BlockIndex.restate_exact
    (if c.replica.activeGrid.cols ≠ (keyframeOf e host).cols ∨
        c.replica.activeGrid.rows ≠ (keyframeOf e host).rows then
      RemoteWriter.resize c.replica (keyframeOf e host).cols (keyframeOf e host).rows
    else c.replica).blocks hids
  rw [← Applier.blocks_applyKeyframe c.applier c.replica (keyframeOf e host) seq, hblocks] at hexact
  show (c.applier.applyKeyframe c.replica (keyframeOf e host) seq).2.blocks.blocks.filter (fun b =>
    decide ((keyframeOf e host).blocksFrom ≤ b.id)) = _ ↔ _
  rw [hexact, show (keyframeOf e host).blocksFrom = host.blocks.authoritativeFrom from rfl,
    List.filter_map]
  have hmap (l : List Block) : l.map (fun b => (BlockPayload.fromBlock b).toBlock) = l ↔
      ∀ b ∈ l, b.Fits := by
    induction l with
    | nil => simp
    | cons b l ih => simp [ih, Block.toBlock_fromBlock]
  refine (hmap (host.blocks.blocks.filter _)).trans ?_
  constructor
  · intro hall b hb hle
    exact hall b (List.mem_filter.mpr ⟨hb, decide_eq_true hle⟩)
  · intro hall b hb
    obtain ⟨hb, hle⟩ := List.mem_filter.mp hb
    exact hall b hb (of_decide_eq_true hle)

/-- A keyframe brings a replica level with its host, whatever keyframes and
deltas left in the replica, if and only if the host is `Healable`. -/
theorem heals_iff {vt : Vt} {t : Terminal vt} (ht : t.Reachable) (earlier : List Look)
    (hstyles : (earlier.flatMap Look.styles ++
      Encoder.stylesOf (Encoder.activeRows t.state.activeGrid)).dedup.length < 65536)
    (cols rows limit : Nat) (messages : List Delivery) (seq : Nat) :
    Heals t.state (((Client.mk {} (TermState.new cols rows limit)).after messages).deliver
        (.keyframe (keyframeOf (earlier.foldl Look.encode Encoder.new) t.state) seq)).replica ↔
      Healable t.state ((Client.mk {} (TermState.new cols rows limit)).after messages)
        (keyframeOf (earlier.foldl Look.encode Encoder.new) t.state) := by
  obtain ⟨hcols, hrows, hs⟩ := ht.sound
  obtain ⟨c₀, r₀, h⟩ := Client.replica_after messages
    (c := Client.mk {} (TermState.new cols rows limit)) (TermState.replica_new cols rows limit)
  have hledger : (earlier.foldl Look.encode Encoder.new).Ledgered (earlier.flatMap Look.styles ++
      Encoder.stylesOf (Encoder.activeRows t.state.activeGrid)).dedup :=
    Look.ledgered_encode earlier
      (fun l hl key hkey => List.mem_dedup.mpr
        (List.mem_append_left _ (List.mem_flatMap.mpr ⟨l, hl, hkey⟩)))
      (Encoder.ledgered_new _)
  generalize (Client.mk {} (TermState.new cols rows limit)).after messages = c at h ⊢
  generalize earlier.foldl Look.encode Encoder.new = e at hledger ⊢
  have hsub : Encoder.stylesOf (Encoder.activeRows t.state.activeGrid) ⊆
      (earlier.flatMap Look.styles ++
        Encoder.stylesOf (Encoder.activeRows t.state.activeGrid)).dedup := fun key hkey =>
    List.mem_dedup.mpr (List.mem_append_right _ hkey)
  have hsorted : t.state.blocks.ids.Pairwise (· < ·) := by
    obtain ⟨ops, hops⟩ := IndexRun.exists_run_of_reachable ht
    rw [← hops]
    exact (IndexRun.floored_run ops).numbered.sorted
  have hsize := size_deliver e seq h hs
  have hblocks := blocks_deliver e t.state c seq hsorted
  have hcpos := hs.active.shape.cols_pos
  have hrpos := hs.active.shape.rows_pos
  constructor
  · intro heals
    have hc : hcols ≤ 65535 := by
      have := hsize.active.cols.symm.trans (heals.cols.trans hs.active.cols)
      unfold wireU16 at this
      omega
    have hr : hrows ≤ 65535 := by
      have := hsize.active.rows.symm.trans (heals.rows.trans hs.active.rows)
      unfold wireU16 at this
      omega
    obtain ⟨-, -, -, hlines⟩ :=
      lines_deliver seq h hs hc hr hledger (by omega) hsub
    exact ⟨hs.active.cols.trans_le hc, hs.active.rows.trans_le hr, hlines.mp heals.lines,
      hblocks.mp heals.blocks⟩
  · intro hable
    have hc : hcols ≤ 65535 := hs.active.cols ▸ hable.cols
    have hr : hrows ≤ 65535 := hs.active.rows ▸ hable.rows
    obtain ⟨hscreen, hmodes, hcursor, hlines⟩ :=
      lines_deliver seq h hs hc hr hledger (by omega) hsub
    have hwc : wireU16 hcols = hcols := by
      unfold wireU16
      omega
    have hwr : wireU16 hrows = hrows := by
      unfold wireU16
      omega
    exact ⟨(hsize.active.cols.trans hwc).trans hs.active.cols.symm,
      (hsize.active.rows.trans hwr).trans hs.active.rows.symm, hscreen, hmodes, hcursor,
      hlines.mpr hable.lines, hblocks.mpr hable.blocks⟩

/-- A letter on a screen of one row. -/
def lettered : Terminal asciiVt := (Terminal.new asciiVt 4 1 0).advance [0x61]

theorem heals_lettered :
    Heals lettered.state (((Client.mk {} (TermState.new 6 2 10)).after []).deliver
      (.keyframe (keyframeOf Encoder.new lettered.state) 1)).replica := by
  have hreachable : lettered.Reachable := (Terminal.Reachable.new 4 1 0).call (.advance [0x61])
  refine (heals_iff hreachable [] (by decide) 6 2 10 [] 1).mpr ⟨?_, ?_, ?_, ?_⟩
  · decide
  · decide
  · have hrows : Encoder.activeRows lettered.state.activeGrid =
        [{ cells := [{ Cell.blank with ch := 'a' }, Cell.blank, Cell.blank, Cell.blank],
           extras := [], id := 0 }] := by decide
    have hold : (Encoder.activeRows (Applier.prepared {} (TermState.new 6 2 10)
        (keyframeOf Encoder.new lettered.state)).activeGrid).map (fun r => r.extras.length) =
          [0] := by decide
    obtain ⟨old, hold', hheld⟩ := List.map_eq_singleton_iff.mp hold
    rw [hrows]
    show List.Forall₂ _ _ (Encoder.activeRows (Applier.prepared {} (TermState.new 6 2 10)
        (keyframeOf Encoder.new lettered.state)).activeGrid)
    rw [hold']
    refine List.Forall₂.cons ?_ List.Forall₂.nil
    rw [hheld]
    exact ⟨by decide, by decide, by decide, by decide⟩
  · have hblocks : lettered.state.blocks.blocks = [] := by decide
    rw [hblocks]
    simp

/-- A blank with an acute accent on a screen of one row. -/
def accented : Terminal utf8Vt := (Terminal.new utf8Vt 4 1 0).advance [0x20, 0xcc, 0x81]

/-- The accent stays behind: the blank it is on is not sent. -/
theorem not_heals_accented :
    ¬ ∀ (vt : Vt) (t : Terminal vt), t.Reachable → ∀ earlier : List Look,
      (earlier.flatMap Look.styles ++
        Encoder.stylesOf (Encoder.activeRows t.state.activeGrid)).dedup.length < 65536 →
      ∀ (cols rows limit : Nat) (messages : List Delivery) (seq : Nat),
        Heals t.state (((Client.mk {} (TermState.new cols rows limit)).after messages).deliver
          (.keyframe (keyframeOf (earlier.foldl Look.encode Encoder.new) t.state) seq)).replica := by
  intro hall
  have hreachable : accented.Reachable :=
    (Terminal.Reachable.new 4 1 0).call (.advance [0x20, 0xcc, 0x81])
  have heals := hall utf8Vt accented hreachable [] (by decide) 4 1 0 [] 1
  have hhost : (Encoder.activeRows accented.state.activeGrid).map (fun r => r.marksAt 0) =
      [[Char.ofNat 0x301]] := by decide
  have hclient : (Encoder.activeRows ((Client.mk {} (TermState.new 4 1 0)).deliver
      (.keyframe (keyframeOf Encoder.new accented.state) 1)).replica.activeGrid).map
        (fun r => r.marksAt 0) = [[]] := by decide
  have hsame {l m : List Row} (h : List.Forall₂ Row.Restored l m) :
      m.map (fun r => r.marksAt 0) = l.map fun r => r.marksAt 0 := by
    induction h with
    | nil => rfl
    | cons h _ ih => rw [List.map_cons, List.map_cons, ih, h.marks 0]
  have hmarks := hclient.symm.trans ((hsame heals.lines).trans hhost)
  exact absurd hmarks (by decide)

end Client

end Zesterm
