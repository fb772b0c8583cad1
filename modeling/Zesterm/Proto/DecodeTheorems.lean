/-
Zesterm.Proto.DecodeTheorems — the flat decoder shows what the encoder
believes it shows.

`flatReceiver` makes a `GridView` a receiver in the sense of `Shadow`. A
delta moves the encoder's shadow and the view's rows the same way
(`rows_scroll`), and its row ops bring the rest level, so the view's rows
are the shadow after every delta (`rows_applyDelta`). The shadow in turn is
what a keyframe of the same encoder would carry (`rowsData_keyframe_delta`).
-/
import Zesterm.Proto.EncodeTheorems
import Zesterm.Proto.Session
import Zesterm.Core.AsciiVt

namespace Zesterm

namespace GridView

variable (v : GridView)
variable (seen : List RowPayload)

/-! ## Ops that leave the rows alone -/

/-- Apply ops in order. -/
def applyOps (v : GridView) (ops : List DeltaOp) : GridView := ops.foldl applyOp v

theorem applyOps_append (xs ys : List DeltaOp) :
    v.applyOps (xs ++ ys) = (v.applyOps xs).applyOps ys := List.foldl_append

/-- Whether an op can change a row of the viewport. -/
def touchesRows : DeltaOp → Bool
  | .scroll .. => true
  | .row .. => true
  | .erase .. => true
  | _ => false

theorem rows_applyOp (op : DeltaOp) (h : touchesRows op = false) :
    (v.applyOp op).rows = v.rows := by
  cases op with
  | scroll | row | erase => simp [touchesRows] at h
  | _ => rfl

theorem rows_applyOps :
    ∀ (ops : List DeltaOp) (v : GridView), (∀ op ∈ ops, touchesRows op = false) →
      (v.applyOps ops).rows = v.rows
  | [], _, _ => rfl
  | op :: ops, v, h => by
    have htail := rows_applyOps ops (v.applyOp op) fun o ho => h o (by simp [ho])
    exact htail.trans (rows_applyOp v op (h op (by simp)))

theorem touchesRows_switchOps (old new : Modes) :
    ∀ op ∈ Encoder.switchOps old new, touchesRows op = false := by
  intro op hop
  unfold Encoder.switchOps at hop
  rcases List.mem_append.mp hop with h | h
  · split at h
    · rw [List.mem_singleton.mp h]; rfl
    · simp at h
  · split at h
    · rw [List.mem_singleton.mp h]; rfl
    · simp at h

theorem touchesRows_closingOps (e : Encoder) (cursor : CursorState) (title : Str) :
    ∀ op ∈ Encoder.closingOps e cursor title, touchesRows op = false := by
  intro op hop
  unfold Encoder.closingOps at hop
  rcases List.mem_append.mp hop with h | h
  · split at h
    · rw [List.mem_singleton.mp h]; rfl
    · simp at h
  · split at h
    · rw [List.mem_singleton.mp h]; rfl
    · simp at h

/-! ## The scroll -/

/-- Scrolling a whole list is what the encoder does to its shadow. -/
theorem scrollRows_all (rows : List RowPayload) (n : Nat) :
    scrollRows rows 0 (rows.length - 1) n = Encoder.resizeSeen (rows.drop n) rows.length := by
  apply List.ext_getElem
  · simp [scrollRows]
  · intro i h₁ h₂
    have hi : i < rows.length := by simpa [scrollRows] using h₁
    simp only [scrollRows, List.getElem_mapIdx, Encoder.resizeSeen]
    rw [if_pos ⟨Nat.zero_le _, by omega⟩]
    split
    · next hin =>
      rw [List.getElem_append_left (by simp; omega), List.getElem_take, List.getElem_drop,
        List.getD_eq_getElem?_getD, List.getElem?_eq_getElem (by omega), Option.getD_some]
      congr 1
      omega
    · next hout =>
      rw [List.getElem_append_right (by simp; omega), List.getElem_replicate]

/-- A scroll op moves the view's rows as the encoder moved its shadow. -/
theorem rows_scroll (n : Nat) (hrows : v.rows = seen) (hn : 0 < n) (hlt : n < seen.length)
    (hsmall : seen.length < 32768) :
    (v.applyOps (Encoder.scrollOps seen n)).rows = Encoder.resizeSeen (seen.drop n) seen.length := by
  have hpush : ∀ op ∈ (seen.take n).map DeltaOp.sbPush, touchesRows op = false := by
    intro op hop
    obtain ⟨p, _, rfl⟩ := List.mem_map.mp hop
    rfl
  have hlines : (wireI16 n).toNat = n := by
    unfold wireI16
    rw [if_neg (by omega)]
    rfl
  have hbottom : wireU16 (seen.length - 1) = seen.length - 1 := by
    unfold wireU16
    omega
  unfold Encoder.scrollOps
  rw [show v.applyOps (_ :: _) = (v.applyOp _).applyOps _ from rfl, rows_applyOps _ _ hpush]
  unfold applyOp
  dsimp only
  rw [hlines, hbottom, if_neg (by rw [hrows]; omega)]
  dsimp only
  rw [hrows, scrollRows_all]

/-! ## The rows -/

/-- A `GridView` receives rows: what it shows is what was sent. -/
def flatReceiver : Shadow.Receiver RowPayload RowPayload GridView where
  put v i p := v.applyOp (.row (wireU16 i) p)
  view := GridView.rows
  Ok v := v.rows.length ≤ 65536
  Shows := Eq
  ok_put := by
    intro v i p hok hi
    have hu : wireU16 i = i := by unfold wireU16; omega
    simp only [applyOp, putRow, hu, hi, if_true, List.length_set]
    exact hok
  length_put := by
    intro v i p hok hi
    have hu : wireU16 i = i := by unfold wireU16; omega
    simp only [applyOp, putRow, hu, hi, if_true, List.length_set]
  put_self := by
    intro v i p hok hi
    have hu : wireU16 i = i := by unfold wireU16; omega
    refine ⟨p, ?_, rfl⟩
    simp only [applyOp, putRow, hu, hi, if_true, List.getElem?_set_self]
  put_other := by
    intro v i j p hok hi hne
    have hu : wireU16 i = i := by unfold wireU16; omega
    simp only [applyOp, putRow, hu, hi, if_true, List.getElem?_set_ne hne]

/-- Applying a delta's row ops is sending the receiver the difference. -/
theorem applyOps_rowOps (fresh : List RowPayload) :
    v.applyOps (Encoder.rowOps seen fresh) = flatReceiver.puts v (Shadow.diff seen fresh) := by
  rw [Encoder.rowOps_eq, applyOps, List.foldl_map]
  rfl

theorem rows_rowOps (fresh : List RowPayload) (hrows : v.rows = seen)
    (hlen : fresh.length = seen.length) (hsmall : seen.length < 32768) :
    (v.applyOps (Encoder.rowOps seen fresh)).rows = fresh := by
  rw [applyOps_rowOps]
  have hok : flatReceiver.Ok v := by
    show v.rows.length ≤ 65536
    rw [hrows]; omega
  obtain ⟨_, hshows⟩ := flatReceiver.shows_diff hok seen fresh (by
    show fresh.length = v.rows.length
    rw [hrows, hlen]) (by
    intro i a b hs _ hb
    have hb' : v.rows[i]? = some b := hb
    rw [hrows, hs] at hb'
    exact Option.some.inj hb')
  exact (List.forall₂_eq_eq_eq ▸ hshows).symm

/-! ## A whole delta -/

theorem rows_applyDelta (d : Delta) :
    (v.applyDelta d).rows = (({ v with attrs := v.attrs.absorb d.attrs }).applyOps d.ops).rows := rfl

/-- The ops before the rows move a view that shows the shadow as the
encoder moves the shadow. -/
theorem rows_scrolledOps (grid : Grid) (hrows : v.rows = seen) (hlen : seen.length = grid.rows)
    (hsmall : grid.rows < 32768) :
    (v.applyOps (Encoder.scrolledOps seen grid)).rows = Encoder.shiftedSeen seen grid := by
  unfold Encoder.scrolledOps Encoder.shiftedSeen
  cases hmoved : Encoder.scrollDistance seen grid with
  | none => simp [applyOps, hrows, hlen]
  | some n =>
    obtain ⟨hpos, hlt, _⟩ := Encoder.scrollDistance_eq_some hmoved
    have hscroll := rows_scroll v seen n hrows hpos hlt (by omega)
    simp only [Encoder.length_resizeSeen, ne_eq, not_true_eq_false, if_false]
    rw [hscroll, hlen]

theorem length_shiftedSeen (grid : Grid) : (Encoder.shiftedSeen seen grid).length = grid.rows := by
  have hfit (rows : List RowPayload) :
      (if grid.rows ≠ rows.length then Encoder.resizeSeen rows grid.rows else rows).length =
        grid.rows := by
    split
    · exact Encoder.length_resizeSeen _ _
    · next h => exact (not_not.mp h).symm
  exact hfit _

/-- The rows of a view that shows the shadow are the new shadow after a
delta, whatever the host did in between, as long as the number of rows is
the same. -/
theorem rows_applyDelta_delta (e : Encoder) (grid : Grid) (cursor : CursorState) (modes : Modes)
    (title : Str) (blocks : BlockIndex) (hrows : v.rows = e.seen) (hlen : e.seen.length = grid.rows)
    (hsmall : grid.rows < 32768) :
    (v.applyDelta (e.delta grid cursor modes title blocks).1).rows =
      (e.delta grid cursor modes title blocks).2.seen := by
  rw [rows_applyDelta, Encoder.ops_delta, applyOps_append, applyOps_append, applyOps_append,
    rows_applyOps _ _ (touchesRows_closingOps e cursor title), Encoder.seen_delta]
  refine rows_rowOps _ _ _ (rows_scrolledOps _ _ _ ?_ hlen hsmall) ?_ ?_
  · exact (rows_applyOps _ _ (touchesRows_switchOps _ _)).trans hrows
  · rw [Encoder.length_freshRows, length_shiftedSeen]
  · rw [length_shiftedSeen]; exact hsmall

end GridView

/-! ## Runs -/

namespace FlatSession

variable {vt : Vt}
variable {rows : Nat} {s : FlatSession vt}

/-- What ties a flat client to its host: it shows the shadow, and the
shadow is what the encoder would send of the live screen. -/
structure Level (rows : Nat) (s : FlatSession vt) : Prop where
  view : s.view.rows = s.encoder.seen
  seen : s.encoder.seen = (s.host.keyframe s.encoder).1.rowsData
  rows : s.host.state.activeGrid.rows = rows

theorem level_keyframe (s : FlatSession vt) : s.keyframe.Level s.host.state.activeGrid.rows :=
  ⟨rfl, (Encoder.freshRows_again s.encoder s.keyframe.encoder s.host.state.activeGrid rfl).symm, rfl⟩

/-- One look keeps a client level, whatever reached the host before it and
whichever screen is live. -/
theorem level_delta (hview : s.view.rows = s.encoder.seen) (hlen : s.encoder.seen.length = rows)
    (hrows : s.host.state.activeGrid.rows = rows) (hsmall : rows < 32768) : s.delta.Level rows := by
  refine ⟨?_, (Encoder.freshRows_again { s.encoder with modes := s.host.state.modes }
    s.delta.encoder s.host.state.activeGrid rfl).symm, hrows⟩
  exact GridView.rows_applyDelta_delta _ _ _ _ _ _ _ hview (hlen.trans hrows.symm)
    (by rw [hrows]; exact hsmall)

theorem Level.length_seen (h : s.Level rows) : s.encoder.seen.length = rows := by
  rw [h.seen, ← h.rows]
  exact Encoder.length_freshRows _ _

/-- Output changes neither screen's number of rows. -/
theorem level_feed {cols : Nat} (hs : s.host.state.Sound cols rows) (h : s.Level rows)
    (hsmall : rows < 32768) (bytes : List UInt8) :
    (s.feed bytes).host.state.Sound cols rows ∧ (s.feed bytes).Level rows := by
  have hs' : (s.host.advance bytes).state.Sound cols rows := hs.steps (s.host.steps_advance bytes)
  exact ⟨hs', level_delta h.view h.length_seen hs'.active.rows hsmall⟩

theorem level_run {cols : Nat} (hsmall : rows < 32768) :
    ∀ (chunks : List (List UInt8)) (s : FlatSession vt), s.host.state.Sound cols rows →
      s.Level rows → (chunks.foldl feed s).Level rows
  | [], _, _, h => h
  | bytes :: chunks, s, hs, h =>
    level_run hsmall chunks (s.feed bytes) (level_feed hs h hsmall bytes).1
      (level_feed hs h hsmall bytes).2

/-- **The flat decoder mirrors the host.** After one keyframe and a delta
for every chunk, the view's rows are those the same encoder's keyframe of
the host would carry at that instant, whichever screens were entered and
left in between. -/
theorem rows_run (t : Terminal vt) (e : Encoder) (v : GridView) (chunks : List (List UInt8))
    (ht : t.Reachable) (hsmall : t.state.activeGrid.rows < 32768) :
    (run ⟨t, e, v⟩ chunks).view.rows =
      ((run ⟨t, e, v⟩ chunks).host.keyframe (run ⟨t, e, v⟩ chunks).encoder).1.rowsData := by
  obtain ⟨cols, rows, hs⟩ := ht.sound
  have hrows : t.state.activeGrid.rows = rows := hs.active.rows
  have hstart : (keyframe ⟨t, e, v⟩).Level rows := hrows ▸ level_keyframe ⟨t, e, v⟩
  have hlevel := level_run (hrows ▸ hsmall) chunks (keyframe ⟨t, e, v⟩) hs hstart
  exact hlevel.view.trans hlevel.seen

/-- The alternate screen entered, drawn on and left again. -/
theorem rows_run_alt :
    (Terminal.new asciiVt 4 2 10).state.activeGrid.rows < 32768 ∧
      ∃ s : FlatSession asciiVt,
        s = run ⟨Terminal.new asciiVt 4 2 10, Encoder.new, GridView.new⟩
          [[0x61, 0x0d, 0x0a, 0x0a], [0x1b, 0x5b, 0x3f, 0x31, 0x30, 0x34, 0x39, 0x68, 0x62],
            [0x1b, 0x5b, 0x3f, 0x31, 0x30, 0x34, 0x39, 0x6c]] ∧
        s.view.rows = (s.host.keyframe s.encoder).1.rowsData :=
  ⟨by decide, _, rfl, rows_run _ _ _ _ (Terminal.Reachable.new 4 2 10) (by decide)⟩

end FlatSession

end Zesterm
