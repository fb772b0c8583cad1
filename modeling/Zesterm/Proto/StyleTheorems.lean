/-
Zesterm.Proto.StyleTheorems — a run names the style of the cells it encodes,
as far as 65536 styles go.

Both clients learn the definitions of every message they take, so after
each one their tables hold the encoder's ledger and every run of it reads
back as the style of its cells (`refs_exact`), the rows a delta files as
history included. The ledger's ids are counted in 16 bits: with one style
more, two styles share an id, and whichever definition a client learns last
is wrong for the other (`refs_ambiguous`).
-/
import Zesterm.Proto.AttrTheorems
import Zesterm.Proto.Mirror
import Zesterm.Lib.Trace
import Zesterm.Core.AsciiVt

namespace Zesterm

namespace Mirror

/-- A run of looks with what each sent. -/
abbrev History := List (Trace.Entry Mirror Look Message)

end Mirror

namespace Look

/-- The rows a look encodes. -/
def rows (l : Look) : List Row := Encoder.activeRows l.host.activeGrid

/-- The styles it sends. -/
def styles (l : Look) : List AttrKey := Encoder.stylesOf l.rows

end Look

/-! ## The property -/

/-- An op's runs name the styles of the rows they are of: a row op's those of
a row the host shows now, a filed line's those of a row it showed before. -/
def OpNamed (t : AttrTable) (now before : List Row) : DeltaOp → Prop
  | .row i p => ∃ j row, now[j]? = some row ∧ i = wireU16 j ∧ Names t row p
  | .sbPush p => ∃ row ∈ before, Names t row p
  | .erase .. => False
  | _ => True

/-- The same of every run of a message. -/
def Message.Named (t : AttrTable) (now before : List Row) : Message → Prop
  | .keyframe k => List.Forall₂ (Names t) now k.rowsData
  | .delta d _ => ∀ op ∈ d.ops, OpNamed t now before op

namespace Mirror

/-- The rows of the last look. -/
def shown (h : History) : List Row := (h.getLast?.map fun e => e.call.rows).getD []

/-- The applier takes what a look sends: a keyframe always, a delta where it
holds its base. -/
def Accepts (m : Mirror) (l : Look) : Prop := l.whole = true ∨ m.applier.applied = m.seq

/-- At one look, every run sent reads back in each client's table, as it is
once the message has been taken in, as the style of its cells. -/
def RefsExact (before : History) (e : Trace.Entry Mirror Look Message) : Prop :=
  e.reply.Named (e.state.look e.call).1.view.attrs e.call.rows (shown before) ∧
    (e.state.Accepts e.call →
      e.reply.Named (e.state.look e.call).1.applier.attrs e.call.rows (shown before))

/-! ## What the tables hold -/

/-- The encoder's ledger of styles, its shadow, and both tables. -/
structure Tables (styles : List AttrKey) (m : Mirror) (rows : List Row) : Prop where
  ledger : m.encoder.Ledgered styles
  pending : m.encoder.pendingAttrs = []
  knows : ∀ r ∈ rows, m.encoder.Knows r
  seen : m.encoder.seen = rows.map (Encoder.payloadOf m.encoder.keyId)
  view : Interning.Holds m.view.attrs.key m.encoder.attrs
  level : m.applier.applied ≤ m.seq
  applier : m.applier.applied = m.seq → Interning.Holds m.applier.attrs.key m.encoder.attrs

theorem tables_new (styles : List AttrKey) (replica : TermState) :
    Tables styles { replica := replica } [] :=
  ⟨Encoder.ledgered_new styles, rfl, by simp, rfl, by simp [Interning.Holds, Encoder.new],
    Nat.le_refl _, fun _ => by simp [Interning.Holds, Encoder.new]⟩

variable {styles : List AttrKey} {m : Mirror} {rows : List Row} {host : TermState}

end Mirror

namespace Encoder

/-- A row op or a filed line reads back where the table holds the ledger the
delta leaves. -/
theorem named_of_sends {e e' : Encoder} {t : AttrTable} {grid : Grid} {now before : List Row}
    (hext : e.Extends e') (hholds : Interning.Holds t.key e'.attrs)
    (hknows : ∀ r ∈ before, e.Knows r) (hseen : e.seen = before.map (payloadOf e.keyId))
    (hknows' : ∀ r ∈ now, e'.Knows r) {op : DeltaOp}
    (hop : Sends e grid (now.map (payloadOf e'.keyId)) op) : OpNamed t now before op := by
  cases hop with
  | switch h => cases op <;> trivial
  | scroll | cursor | title => trivial
  | push h =>
    rw [hseen] at h
    obtain ⟨row, hrow, rfl⟩ := List.mem_map.mp h
    refine ⟨row, hrow, ?_⟩
    rw [← hext.payloadOf (hknows row hrow)]
    exact names_payloadOf hholds (hext.knows (hknows row hrow))
  | row h =>
    rw [List.getElem?_map] at h
    obtain ⟨row, hrow, rfl⟩ := Option.map_eq_some_iff.mp h
    exact ⟨_, row, hrow, rfl, names_payloadOf hholds (hknows' row (List.mem_of_getElem? hrow))⟩

end Encoder

namespace Mirror

variable {styles : List AttrKey} {m : Mirror} {rows : List Row}

/-- What encoding the rows of a look does to the ledger. -/
theorem Tables.encode (h : m.Tables styles rows) (l : Look) (hsub : l.styles ⊆ styles)
    (e : Encoder) (hattrs : e.attrs = m.encoder.attrs) (hnext : e.nextAttr = m.encoder.nextAttr)
    (hpending : e.pendingAttrs = []) :
    (Encoder.encodeRows l.rows e).2.Ledgered styles ∧
      ∃ more, (Encoder.encodeRows l.rows e).2.attrs = m.encoder.attrs ++ more ∧
        (Encoder.encodeRows l.rows e).2.pendingAttrs = more.map AttrDef.ofEntry := by
  have hledger : e.Ledgered styles :=
    ⟨hattrs ▸ h.ledger.counted, by rw [hnext, hattrs]; exact h.ledger.next, hattrs ▸ h.ledger.met⟩
  obtain ⟨⟨more, hmore, hpend⟩, hl⟩ := Encoder.interned_encodeRows l.rows e
  refine ⟨hl styles hsub hledger, more, ?_, ?_⟩
  · rw [hmore, hattrs]
  · rw [hpend, hpending, List.nil_append]

/-- Learning the new end of the ledger. -/
theorem holds_absorb_pending {t : AttrTable} {attrs more : List (AttrKey × AttrId)}
    (h : Interning.Holds t.key attrs) (hnames : ((attrs ++ more).map Prod.snd).Nodup) :
    Interning.Holds (t.absorb (more.map AttrDef.ofEntry)).key (attrs ++ more) := by
  rw [AttrTable.key_absorb, List.map_map,
    show more.map (AttrDef.entry ∘ AttrDef.ofEntry) = more from List.map_id more]
  exact h.append hnames

/-- Learning a keyframe's restatement of the whole ledger. -/
theorem holds_absorb_all {e : Encoder} (hnames : (e.attrs.map Prod.snd).Nodup) (t : AttrTable) :
    Interning.Holds (t.absorb e.allAttrs).key e.attrs := by
  rw [AttrTable.key_absorb]
  exact Interning.holds_restated hnames e.allAttrs_perm _

end Mirror

namespace GridView

theorem attrs_applyOp (v : GridView) (op : DeltaOp) : (v.applyOp op).attrs = v.attrs := by
  cases op <;> unfold applyOp <;> dsimp only <;> split <;> rfl

theorem attrs_applyDelta (v : GridView) (d : Delta) :
    (v.applyDelta d).attrs = v.attrs.absorb d.attrs := by
  have hops (ops : List DeltaOp) (v : GridView) : (ops.foldl applyOp v).attrs = v.attrs := by
    induction ops generalizing v with
    | nil => rfl
    | cons op ops ih => exact (ih _).trans (attrs_applyOp v op)
  exact hops d.ops _

end GridView

namespace Applier

variable (a : Applier) (s : TermState) (d : Delta) (base seq : Nat)

theorem attrs_applyKeyframe (k : Keyframe) :
    (a.applyKeyframe s k seq).1.attrs = a.attrs.absorb k.attrs := by
  unfold applyKeyframe
  dsimp only
  split <;> rfl

theorem applyDelta_refused (h : base ≠ a.applied) :
    a.applyDelta s d base seq = ((a, s), .needsKeyframe) := by
  unfold applyDelta
  rw [if_pos h]

theorem attrs_applyDelta (h : base = a.applied) :
    (a.applyDelta s d base seq).1.1.attrs = a.attrs.absorb d.attrs := by
  unfold applyDelta
  rw [if_neg (not_not.mpr h)]
  dsimp only
  split <;> rfl

/-- A delta advances the sequence held exactly where it answers `Ok`. -/
theorem applied_applyDelta (h : base = a.applied) :
    (a.applyDelta s d base seq).1.1.applied =
      if (a.applyDelta s d base seq).2 = .ok then seq else a.applied := by
  unfold applyDelta
  rw [if_neg (not_not.mpr h)]
  dsimp only
  split <;> rfl

end Applier

namespace Mirror

variable {styles : List AttrKey} {m : Mirror} {rows : List Row}

theorem look_whole {l : Look} (h : l.whole = true) :
    m.look l =
      ({ encoder := (l.keyframe m.encoder).2
         view := m.view.applyKeyframe (l.keyframe m.encoder).1
         applier := (m.applier.applyKeyframe m.replica (l.keyframe m.encoder).1 (m.seq + 1)).1
         replica := (m.applier.applyKeyframe m.replica (l.keyframe m.encoder).1 (m.seq + 1)).2
         seq := m.seq + 1 }, .keyframe (l.keyframe m.encoder).1) := by
  unfold look
  rw [if_pos h]

theorem look_change {l : Look} (h : l.whole ≠ true) :
    m.look l =
      ({ encoder := (l.delta m.encoder).2
         view := m.view.applyDelta (l.delta m.encoder).1
         applier := (m.applier.applyDelta m.replica (l.delta m.encoder).1 m.seq (m.seq + 1)).1.1
         replica := (m.applier.applyDelta m.replica (l.delta m.encoder).1 m.seq (m.seq + 1)).1.2
         seq := m.seq + 1 },
        .delta (l.delta m.encoder).1
          (m.applier.applyDelta m.replica (l.delta m.encoder).1 m.seq (m.seq + 1)).2) := by
  unfold look
  rw [if_neg h]

/-- A whole look: both tables hold the ledger it leaves. -/
theorem Tables.keyframe (h : m.Tables styles rows) (hroom : styles.length ≤ 65536) {l : Look}
    (hwhole : l.whole = true) (hsub : l.styles ⊆ styles) :
    (m.look l).1.Tables styles l.rows ∧
      (m.look l).2.Named (m.look l).1.view.attrs l.rows rows ∧
      (m.look l).2.Named (m.look l).1.applier.attrs l.rows rows := by
  obtain ⟨hledger, -⟩ := h.encode l hsub m.encoder rfl rfl h.pending
  obtain ⟨-, hknows, hrows⟩ := Encoder.encodeRows_spec l.rows m.encoder
  have hnames := hledger.nodup hroom
  have hview := holds_absorb_all hnames m.view.attrs
  have happlier := holds_absorb_all hnames m.applier.attrs
  have hnamed {t : AttrTable}
      (ht : Interning.Holds t.key (Encoder.encodeRows l.rows m.encoder).2.attrs) :
      List.Forall₂ (Names t) l.rows (Encoder.encodeRows l.rows m.encoder).1 := by
    rw [hrows, List.forall₂_map_right_iff, List.forall₂_same]
    exact fun row hrow => Encoder.names_payloadOf ht (hknows row hrow)
  have hattrs := Applier.attrs_applyKeyframe m.applier m.replica (m.seq + 1)
    (l.keyframe m.encoder).1
  rw [look_whole hwhole]
  refine ⟨⟨⟨hledger.counted, hledger.next, hledger.met⟩, rfl, hknows, hrows, hview, Nat.le_refl _,
    fun _ => ?_⟩, hnamed hview, hnamed ?_⟩
  · dsimp only
    rw [hattrs]
    exact happlier
  · dsimp only
    rw [hattrs]
    exact happlier

/-- A look at what changed: the flat view's table holds the ledger it leaves,
the applier's too if it takes the delta. -/
theorem Tables.delta (h : m.Tables styles rows) (hroom : styles.length ≤ 65536) {l : Look}
    (hpart : l.whole ≠ true) (hsub : l.styles ⊆ styles) :
    (m.look l).1.Tables styles l.rows ∧
      (m.look l).2.Named (m.look l).1.view.attrs l.rows rows ∧
      (m.applier.applied = m.seq →
        (m.look l).2.Named (m.look l).1.applier.attrs l.rows rows) := by
  obtain ⟨hledger, more, hmore, hpend⟩ :=
    h.encode l hsub { m.encoder with modes := l.host.modes } rfl rfl h.pending
  obtain ⟨-, hknows, hrows⟩ :=
    Encoder.encodeRows_spec l.rows { m.encoder with modes := l.host.modes }
  generalize he : (Encoder.encodeRows l.rows { m.encoder with modes := l.host.modes }).2 = e
    at hledger hmore hpend hknows hrows
  have hnames := hledger.nodup hroom
  rw [hmore] at hnames
  have hsent : (l.delta m.encoder).1.attrs = more.map AttrDef.ofEntry := by
    rw [← hpend, ← he]
    rfl
  have hlearn {t : AttrTable} (ht : Interning.Holds t.key m.encoder.attrs) :
      Interning.Holds (t.absorb (l.delta m.encoder).1.attrs).key e.attrs := by
    rw [hsent, hmore]
    exact holds_absorb_pending ht hnames
  have hnamed {t : AttrTable} (ht : Interning.Holds t.key e.attrs) :
      ∀ op ∈ (l.delta m.encoder).1.ops, OpNamed t l.rows rows op := by
    intro op hop
    have hsends := Encoder.sends_of_mem_delta _ _ _ _ _ _ hop
    rw [show (({ m.encoder with modes := l.host.modes } : Encoder).freshRows l.host.activeGrid).1 =
      l.rows.map (Encoder.payloadOf e.keyId) from hrows] at hsends
    exact Encoder.named_of_sends ⟨more, hmore⟩ ht h.knows h.seen hknows hsends
  have hsame : (l.delta m.encoder).2.attrs = e.attrs ∧ (l.delta m.encoder).2.nextAttr = e.nextAttr := by
    rw [← he]
    exact ⟨rfl, rfl⟩
  have hkeyId : (l.delta m.encoder).2.keyId = e.keyId := by
    funext key
    unfold Encoder.keyId Encoder.lookup
    rw [hsame.1]
  have hview : Interning.Holds (m.view.applyDelta (l.delta m.encoder).1).attrs.key e.attrs := by
    rw [GridView.attrs_applyDelta]
    exact hlearn h.view
  have happlier (happlied : m.applier.applied = m.seq) : Interning.Holds
      (m.applier.applyDelta m.replica (l.delta m.encoder).1 m.seq (m.seq + 1)).1.1.attrs.key
        e.attrs := by
    rw [Applier.attrs_applyDelta _ _ _ _ _ happlied.symm]
    exact hlearn (h.applier happlied)
  rw [look_change hpart]
  refine ⟨⟨⟨?_, ?_, ?_⟩, rfl, ?_, ?_, ?_, ?_, ?_⟩, hnamed hview, fun happlied =>
    hnamed (happlier happlied)⟩
  · exact hsame.1 ▸ hledger.counted
  · rw [hsame.2, hsame.1]
    exact hledger.next
  · exact hsame.1 ▸ hledger.met
  · intro r hr
    exact (Encoder.Extends.of_eq hsame.1).knows (hknows r hr)
  · dsimp only
    rw [hkeyId]
    exact hrows
  · dsimp only
    rw [hsame.1]
    exact hview
  · show (m.applier.applyDelta m.replica _ m.seq (m.seq + 1)).1.1.applied ≤ m.seq + 1
    by_cases happlied : m.seq = m.applier.applied
    · rw [Applier.applied_applyDelta _ _ _ _ _ happlied]
      split <;> omega
    · rw [Applier.applyDelta_refused _ _ _ _ _ happlied]
      exact h.level.trans (Nat.le_succ _)
  · intro hlevel
    dsimp only at hlevel ⊢
    rw [hsame.1]
    by_cases happlied : m.seq = m.applier.applied
    · exact happlier happlied.symm
    · -- A refused delta leaves the applier behind the stream.
      rw [Applier.applyDelta_refused _ _ _ _ _ happlied] at hlevel
      have := h.level
      dsimp only at hlevel
      omega

/-! ## Every run -/

theorem shown_snoc (h : History) (e : Trace.Entry Mirror Look Message) :
    shown (h ++ [e]) = e.call.rows := by
  simp [shown]

/-- One look keeps the tables and names its styles. -/
theorem Tables.look (h : m.Tables styles rows) (hroom : styles.length ≤ 65536) {l : Look}
    (hsub : l.styles ⊆ styles) :
    (m.look l).1.Tables styles l.rows ∧
      (m.look l).2.Named (m.look l).1.view.attrs l.rows rows ∧
      (m.Accepts l → (m.look l).2.Named (m.look l).1.applier.attrs l.rows rows) := by
  by_cases hwhole : l.whole = true
  · obtain ⟨htables, hview, happlier⟩ := h.keyframe hroom hwhole hsub
    exact ⟨htables, hview, fun _ => happlier⟩
  · obtain ⟨htables, hview, happlier⟩ := h.delta hroom hwhole hsub
    refine ⟨htables, hview, fun hacc => ?_⟩
    rcases hacc with hacc | hacc
    · exact absurd hacc hwhole
    · exact happlier hacc

/-- Where the looks of a run send no more than 65536 styles between them,
every run of every message names in both clients' tables exactly the style of
the cells it encodes. -/
theorem refs_exact (replica : TermState) (looks : List Look)
    (hstyles : (looks.flatMap Look.styles).dedup.length ≤ 65536) :
    Trace.Each RefsExact (Trace.run Mirror.look { replica := replica } looks).2 := by
  have hsub (l : Look) (hl : l ∈ looks) : l.styles ⊆ (looks.flatMap Look.styles).dedup :=
    fun key hkey => List.mem_dedup.mpr (List.mem_flatMap.mpr ⟨l, hl, hkey⟩)
  have hcalls : Trace.Each (fun _ e => e.call ∈ looks)
      (Trace.run Mirror.look { replica := replica } looks).2 := by
    intro before e after hsplit
    rw [← Trace.map_call_run Mirror.look { replica := replica } looks]
    exact List.mem_map_of_mem (hsplit ▸ by simp)
  have hinv := Trace.run_invariant_of_each
    (I := fun m h => m.Tables (looks.flatMap Look.styles).dedup (shown h) ∧ Trace.Each RefsExact h)
    ⟨tables_new _ replica, Trace.each_nil _⟩ ?_ looks hcalls
  · exact hinv.2
  · intro m h l hi hl
    obtain ⟨htables, hview, happlier⟩ := hi.1.look hstyles (hsub l hl)
    refine ⟨?_, Trace.each_snoc.mpr ⟨hi.2, hview, happlier⟩⟩
    rw [shown_snoc]
    exact htables

/-- Two looks at a line: plain, then with a red word after it. -/
def plainThenRed : List Look :=
  let t := (Terminal.new asciiVt 4 1 0).advance [0x61]
  [{ whole := true, host := t.state },
    { whole := false, host := (t.advance [0x1b, 0x5b, 0x33, 0x31, 0x6d, 0x62]).state }]

theorem refs_exact_two :
    (plainThenRed.flatMap Look.styles).dedup.length = 2 ∧
      Trace.Each RefsExact
        (Trace.run Mirror.look { replica := TermState.new 4 1 0 } plainThenRed).2 :=
  ⟨by decide, refs_exact (TermState.new 4 1 0) plainThenRed (by decide)⟩

/-! ## One style too many -/

end Mirror

namespace Encoder

/-- What reads back right from a table is held by it. -/
theorem holds_of_names {e : Encoder} {t : AttrTable} {rows : List Row}
    (hl : e.Ledgered (stylesOf rows)) (hknows : ∀ r ∈ rows, e.Knows r)
    (hnames : ∀ r ∈ rows, Names t r (payloadOf e.keyId r)) : Interning.Holds t.key e.attrs := by
  intro p hp
  obtain ⟨row, hrow, hmem⟩ := List.mem_flatMap.mp (hl.met (List.mem_map_of_mem hp))
  obtain ⟨c, hc, hkey⟩ := List.mem_map.mp hmem
  rw [← (splitRuns_spec (sentCells row)).1] at hc
  obtain ⟨run, hrun, hc⟩ := List.mem_flatten.mp hc
  have hnamed := hnames row hrow
  unfold Names payloadOf at hnamed
  rw [List.forall₂_map_right_iff, List.forall₂_same] at hnamed
  obtain ⟨d, hget, hd⟩ := hnamed run hrun
  obtain ⟨id, hid⟩ := Option.isSome_iff_exists.mp (hknows row hrow run hrun)
  have huniform := (splitRuns_spec (sentCells row)).2 run hrun
  have hhead : (run.headD Cell.blank).attrKey = p.1 := by
    rw [← hd _ (headD_mem_of_uniform huniform), hd c hc, hkey]
  have hkeyId : e.keyId (run.headD Cell.blank).attrKey = id := by
    unfold keyId
    rw [hid]
    rfl
  have hp' : p = (p.1, id) :=
    List.inj_on_of_nodup_map hl.counted.keys hp (hhead ▸ mem_of_lookup hid) rfl
  have hsnd : p.2 = id := congrArg Prod.snd hp'
  have hget' : t.get id = some d := hkeyId ▸ hget
  unfold AttrTable.key
  rw [hsnd, hget', Option.map_some, hd c hc, hkey]

/-- Every style of the rows it knows is in an encoder's ledger. -/
theorem styles_subset {e : Encoder} {rows : List Row} (hknows : ∀ r ∈ rows, e.Knows r) :
    stylesOf rows ⊆ e.attrs.map Prod.fst := by
  intro key hkey
  obtain ⟨row, hrow, hmem⟩ := List.mem_flatMap.mp hkey
  obtain ⟨c, hc, rfl⟩ := List.mem_map.mp hmem
  rw [← (splitRuns_spec (sentCells row)).1] at hc
  obtain ⟨run, hrun, hc⟩ := List.mem_flatten.mp hc
  obtain ⟨d, rest, rfl, hsame⟩ := (splitRuns_spec (sentCells row)).2 run hrun
  obtain ⟨id, hid⟩ := Option.isSome_iff_exists.mp (hknows row hrow _ hrun)
  rw [hsame c hc]
  exact List.mem_map_of_mem (mem_of_lookup hid)

end Encoder

namespace Mirror

/-- Of a subscriber's first look the condition is exact: its runs read back
right if and only if it shows no more than 65536 styles. -/
theorem first_named_iff (replica : TermState) {l : Look} (hwhole : l.whole = true) :
    (({ replica := replica } : Mirror).look l).2.Named
        (({ replica := replica } : Mirror).look l).1.view.attrs l.rows [] ↔
      l.styles.dedup.length ≤ 65536 := by
  constructor
  · intro hnamed
    have hl := (Encoder.interned_encodeRows l.rows Encoder.new).2 l.styles
      (List.Subset.refl _) (Encoder.ledgered_new _)
    obtain ⟨-, hknows, hrows⟩ := Encoder.encodeRows_spec l.rows Encoder.new
    rw [look_whole hwhole] at hnamed
    replace hnamed : List.Forall₂ (Names _) l.rows (Encoder.encodeRows l.rows Encoder.new).1 :=
      hnamed
    rw [hrows, List.forall₂_map_right_iff, List.forall₂_same] at hnamed
    have hholds := Encoder.holds_of_names hl hknows hnamed
    have hshort : (Encoder.encodeRows l.rows Encoder.new).2.attrs.length ≤ 65536 := by
      by_contra hlong
      exact hl.counted.not_holds (by decide) (by omega) _ hholds
    have hmet : l.styles.dedup ⊆
        (Encoder.encodeRows l.rows Encoder.new).2.attrs.map Prod.fst := fun key hkey =>
      Encoder.styles_subset hknows (List.mem_dedup.mp hkey)
    have := (List.subperm_of_subset (List.nodup_dedup _) hmet).length_le
    rw [List.length_map] at this
    exact this.trans hshort
  · intro hroom
    exact ((tables_new l.styles.dedup replica).look hroom
      (fun key hkey => List.mem_dedup.mpr hkey)).2.1

/-- The `n`-th of 2²⁴ colours. -/
def paint (n : Nat) : Cell :=
  { Cell.blank with
    ch := 'x'
    fg := .rgb (UInt8.ofNat (n / 65536)) (UInt8.ofNat (n / 256)) (UInt8.ofNat n) }

/-- A screen of 257 rows and 256 columns, each cell in a colour of its own. -/
def painted : TermState :=
  { grid := { Grid.new 256 257 0 with
      storage :=
        { rows := (List.range 257).map fun r =>
            { cells := (List.range 256).map fun c => paint (256 * r + c), extras := [], id := r }
          origin := 0
          nextId := 257 } }
    tabs := [] }

theorem paint_inj {m n : Nat} (hm : m < 65792) (hn : n < 65792)
    (h : (paint m).attrKey = (paint n).attrKey) : m = n := by
  have hrgb := congrArg Prod.fst h
  simp only [Cell.attrKey, paint, Color.rgb.injEq] at hrgb
  obtain ⟨h₁, h₂, h₃⟩ := hrgb
  have hbyte {a b : Nat} (hab : UInt8.ofNat a = UInt8.ofNat b) : a % 256 = b % 256 := by
    simpa using congrArg UInt8.toNat hab
  have := hbyte h₁
  have := hbyte h₂
  have := hbyte h₃
  omega

/-- A whole look at that screen sends 65792 styles. -/
theorem many_styles : 65536 < (({ whole := true, host := painted } : Look).styles).dedup.length := by
  have hrow (r : Nat) (hr : r < 257) : painted.grid.activeRow r =
      { cells := (List.range 256).map fun c => paint (256 * r + c), extras := [], id := r } := by
    have hbase : painted.grid.activeBase = 0 := by
      simp [painted, Grid.activeBase, Storage.len, Grid.new]
    unfold Grid.activeRow Storage.row Storage.physical
    rw [hbase]
    simp [painted, hr, Nat.mod_eq_of_lt hr]
  have hsent (r : Nat) : (List.range 256).map (fun c => paint (256 * r + c)) =
      Encoder.sentCells
        { cells := (List.range 256).map fun c => paint (256 * r + c), extras := [], id := r } := by
    refine (List.rdropWhile_eq_self_iff.mpr fun hne => ?_).symm
    obtain ⟨c, _, hc⟩ := List.mem_map.mp (List.getLast_mem hne)
    rw [← hc]
    simp [Encoder.isTrailing, paint]
  have hsub : (List.range 65792).map (fun n => (paint n).attrKey) ⊆
      (({ whole := true, host := painted } : Look).styles).dedup := by
    intro key hkey
    obtain ⟨n, hn, rfl⟩ := List.mem_map.mp hkey
    have hn := List.mem_range.mp hn
    have hrowMem : painted.grid.activeRow (n / 256) ∈
        ({ whole := true, host := painted } : Look).rows :=
      List.mem_map_of_mem (List.mem_range.mpr (show n / 256 < 257 by omega))
    refine List.mem_dedup.mpr (Encoder.mem_stylesOf hrowMem ?_)
    rw [hrow (n / 256) (by omega), ← hsent]
    refine List.mem_map.mpr ⟨n % 256, List.mem_range.mpr (Nat.mod_lt _ (by omega)), ?_⟩
    rw [Nat.div_add_mod]
  have hnodup : ((List.range 65792).map (fun n => (paint n).attrKey)).Nodup :=
    List.Nodup.map_on (fun a ha b hb hab =>
      paint_inj (List.mem_range.mp ha) (List.mem_range.mp hb) hab) List.nodup_range
  have := (List.subperm_of_subset hnodup hsub).length_le
  rw [List.length_map, List.length_range] at this
  omega

/-- A first look at too many styles reads back wrong. -/
theorem not_refsExact {l : Look} (hwhole : l.whole = true) (hmany : 65536 < l.styles.dedup.length)
    (replica : TermState) :
    ¬ Trace.Each RefsExact (Trace.run Mirror.look { replica := replica } [l]).2 := by
  intro h
  rw [Trace.run_single] at h
  have hnamed := (h [] _ [] rfl).1
  exact absurd ((first_named_iff replica hwhole).mp hnamed) (Nat.not_le.mpr hmany)

/-- A screen in more colours than there are ids: its first keyframe already
gives one id to two styles. -/
theorem refs_ambiguous :
    ¬ ∀ (replica : TermState) (looks : List Look),
      Trace.Each RefsExact (Trace.run Mirror.look { replica := replica } looks).2 :=
  fun h => not_refsExact rfl many_styles painted (h painted [{ whole := true, host := painted }])

end Mirror

end Zesterm
