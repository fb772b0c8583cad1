/-
Zesterm.Proto.AttrTheorems — what the ids of styles mean.

An encoder's attribute table is a ledger in the sense of `Interning`: the
`i`-th style it met has the id `i % 65536` (`Encoder.Ledgered`). A client's
table learns the definitions of every message. While no more than 65536
styles have been met the client holds the ledger (`Interning.Holds`), and a
payload read in its table names the styles of the cells it was made from
(`Names`).
-/
import Zesterm.Proto.EncodeTheorems
import Zesterm.Lib.Interning

namespace Zesterm

/-! ## Stretches -/

namespace Encoder

/-- A stretch is not empty, and its cells share a style. -/
def Uniform (run : List Cell) : Prop :=
  ∃ d rest, run = d :: rest ∧ ∀ c ∈ run, c.attrKey = d.attrKey

/-- The stretches of a row are its cells in order, and each is uniform. -/
theorem splitRuns_spec : ∀ cells : List Cell,
    (splitRuns cells).flatten = cells ∧ ∀ run ∈ splitRuns cells, Uniform run
  | [] => ⟨rfl, by simp [splitRuns]⟩
  | c :: cells => by
    obtain ⟨hflat, huniform⟩ := splitRuns_spec cells
    have hsingle : Uniform [c] := ⟨c, [], rfl, by simp⟩
    unfold splitRuns
    split
    · next d run runs heq =>
      rw [heq] at hflat huniform
      obtain ⟨d', rest, hrun, hsame⟩ := huniform (d :: run) (List.mem_cons_self ..)
      obtain ⟨rfl, rfl⟩ := List.cons.inj hrun
      by_cases hkey : c.attrKey = d.attrKey
      · rw [if_pos hkey]
        refine ⟨by simpa using hflat, fun r hr => ?_⟩
        rcases List.mem_cons.mp hr with rfl | hr
        · refine ⟨c, d :: run, rfl, fun x hx => ?_⟩
          rcases List.mem_cons.mp hx with rfl | hx
          · rfl
          · rw [hsame x hx, hkey]
        · exact huniform r (List.mem_cons_of_mem _ hr)
      · rw [if_neg hkey]
        refine ⟨by simpa using hflat, fun r hr => ?_⟩
        rcases List.mem_cons.mp hr with rfl | hr
        · exact hsingle
        · exact huniform r hr
    · next hno =>
      cases hs : splitRuns cells with
      | nil =>
        rw [hs] at hflat
        subst hflat
        exact ⟨rfl, by simpa using hsingle⟩
      | cons run runs =>
        obtain ⟨d, rest, rfl, _⟩ := huniform run (hs ▸ List.mem_cons_self ..)
        exact absurd hs (hno d rest runs)

theorem headD_mem_of_uniform {run : List Cell} (h : Uniform run) : run.headD Cell.blank ∈ run := by
  obtain ⟨d, rest, rfl, _⟩ := h
  exact List.mem_cons_self ..

/-- The cell a stretch is interned under is one of the row's. -/
theorem headD_mem_cells {cells run : List Cell} (h : run ∈ splitRuns cells) :
    run.headD Cell.blank ∈ cells := by
  obtain ⟨hflat, huniform⟩ := splitRuns_spec cells
  rw [← hflat]
  exact List.mem_flatten.mpr ⟨run, h, headD_mem_of_uniform (huniform run h)⟩

/-! ## Interning, one attribute at a time -/

section Induct

variable {P : Encoder → Prop}

/-- What interning the cells of a row keeps, encoding the row keeps. -/
theorem encodeRuns_induct {row : Row} {runs : List (List Cell)} (e : Encoder)
    (hattr : ∀ e, ∀ run ∈ runs, P e → P (e.attr (run.headD Cell.blank)).2) (h : P e) :
    P (encodeRuns row runs e).2 := by
  induction runs generalizing e with
  | nil => exact h
  | cons run runs ih =>
    exact ih _ (fun e r hr => hattr e r (List.mem_cons_of_mem _ hr))
      (hattr e run (List.mem_cons_self ..) h)

theorem encodeRows_induct {rows : List Row} (e : Encoder)
    (hattr : ∀ e, ∀ row ∈ rows, ∀ c ∈ sentCells row, P e → P (e.attr c).2) (h : P e) :
    P (encodeRows rows e).2 := by
  induction rows generalizing e with
  | nil => exact h
  | cons row rows ih =>
    refine ih (e.encodeRow row).2 (fun e r hr => hattr e r (List.mem_cons_of_mem _ hr)) ?_
    exact encodeRuns_induct e (fun e run hrun =>
      hattr e row (List.mem_cons_self ..) _ (headD_mem_cells hrun)) h

end Induct

/-- The styles that encoding rows sends. -/
def stylesOf (rows : List Row) : List AttrKey :=
  rows.flatMap fun row => (sentCells row).map Cell.attrKey

theorem mem_stylesOf {rows : List Row} {row : Row} (hrow : row ∈ rows) {c : Cell}
    (hc : c ∈ sentCells row) : c.attrKey ∈ stylesOf rows :=
  List.mem_flatMap.mpr ⟨row, hrow, List.mem_map_of_mem hc⟩

end Encoder

/-- A definition as an entry of a ledger. -/
def AttrDef.entry (a : AttrDef) : AttrKey × AttrId := (a.key, a.id)

/-- An entry of an encoder's table as a definition. -/
def AttrDef.ofEntry (p : AttrKey × AttrId) : AttrDef :=
  { id := p.2, fg := p.1.1, bg := p.1.2.1, flags := p.1.2.2 }

namespace Encoder

/-- The styles an encoder has met are counted out and are among `styles`. -/
structure Ledgered (styles : List AttrKey) (e : Encoder) : Prop where
  counted : Interning.Counted 65536 e.attrs
  next : e.nextAttr = e.attrs.length % 65536
  met : e.attrs.map Prod.fst ⊆ styles

/-- `e'` has met more styles than `e`, and owes a client their
definitions. -/
def Interned (e e' : Encoder) : Prop :=
  ∃ more, e'.attrs = e.attrs ++ more ∧ e'.pendingAttrs = e.pendingAttrs ++ more.map AttrDef.ofEntry

theorem Interned.refl (e : Encoder) : e.Interned e := ⟨[], by simp, by simp⟩

theorem Interned.trans {e e' e'' : Encoder} (h : e.Interned e') (h' : e'.Interned e'') :
    e.Interned e'' := by
  obtain ⟨more, hattrs, hpending⟩ := h
  obtain ⟨more', hattrs', hpending'⟩ := h'
  exact ⟨more ++ more', by rw [hattrs', hattrs, List.append_assoc],
    by rw [hpending', hpending, List.map_append, List.append_assoc]⟩

theorem notMem_of_lookup {e : Encoder} {key : AttrKey} (h : e.lookup key = none) :
    key ∉ e.attrs.map Prod.fst := by
  intro hmem
  obtain ⟨p, hp, rfl⟩ := List.mem_map.mp hmem
  have := List.find?_eq_none.mp (Option.map_eq_none_iff.mp h) p hp
  simp at this

/-- Interning one style counts on where it is new, and changes nothing where
it is not. -/
theorem interned_attr (e : Encoder) (c : Cell) :
    e.Interned (e.attr c).2 ∧
      ∀ styles, c.attrKey ∈ styles → e.Ledgered styles → (e.attr c).2.Ledgered styles := by
  cases h : e.lookup c.attrKey with
  | some id =>
    rw [attr_of_lookup h]
    exact ⟨Interned.refl e, fun _ _ hl => hl⟩
  | none =>
    unfold attr
    rw [show (e.attrs.find? fun p => p.1 == c.attrKey).map Prod.snd = none from h]
    refine ⟨⟨[(c.attrKey, e.nextAttr)], rfl, rfl⟩, fun styles hmem hl => ⟨?_, ?_, ?_⟩⟩
    · show Interning.Counted 65536 (e.attrs ++ [(c.attrKey, e.nextAttr)])
      rw [hl.next]
      exact hl.counted.snoc (notMem_of_lookup h)
    · show (e.nextAttr + 1) % 65536 = (e.attrs ++ [(c.attrKey, e.nextAttr)]).length % 65536
      rw [hl.next, List.length_append, List.length_singleton, Nat.mod_add_mod]
    · show (e.attrs ++ [(c.attrKey, e.nextAttr)]).map Prod.fst ⊆ styles
      rw [List.map_append]
      refine List.append_subset.mpr ⟨hl.met, ?_⟩
      simpa using hmem

theorem interned_encodeRows (rows : List Row) (e : Encoder) :
    e.Interned (encodeRows rows e).2 ∧
      ∀ styles, stylesOf rows ⊆ styles → e.Ledgered styles → (encodeRows rows e).2.Ledgered styles :=
  ⟨encodeRows_induct (P := fun e' => e.Interned e') e
      (fun e' _ _ c _ h => h.trans (interned_attr e' c).1) (Interned.refl e),
    fun styles hsub hl => encodeRows_induct (P := Ledgered styles) e
      (fun e' _ hrow c hc h => (interned_attr e' c).2 styles (hsub (mem_stylesOf hrow hc)) h) hl⟩

theorem ledgered_new (styles : List AttrKey) : new.Ledgered styles :=
  ⟨Interning.counted_nil _, rfl, by simp [new]⟩

/-- Until 65536 styles have been met, no id is given twice. -/
theorem Ledgered.nodup {styles : List AttrKey} {e : Encoder} (h : e.Ledgered styles)
    (hroom : styles.length ≤ 65536) : (e.attrs.map Prod.snd).Nodup :=
  h.counted.nodup ((h.counted.length_le h.met).trans hroom)

theorem mem_of_lookup {e : Encoder} {key : AttrKey} {id : AttrId} (h : e.lookup key = some id) :
    (key, id) ∈ e.attrs := by
  obtain ⟨p, hp, rfl⟩ := Option.map_eq_some_iff.mp h
  have hkey : p.1 = key := by simpa using List.find?_some hp
  rw [← hkey]
  exact List.mem_of_find?_eq_some hp

/-- A keyframe restates the whole ledger. -/
theorem allAttrs_perm (e : Encoder) : (e.allAttrs.map AttrDef.entry).Perm e.attrs := by
  have hsort := List.perm_insertionSort (fun a b : AttrDef => a.id ≤ b.id)
    (e.attrs.map AttrDef.ofEntry)
  have hmap := hsort.map AttrDef.entry
  rw [List.map_map] at hmap
  have hback : e.attrs.map (AttrDef.entry ∘ AttrDef.ofEntry) = e.attrs := List.map_id e.attrs
  rw [hback] at hmap
  exact hmap

end Encoder

/-! ## A client's table -/

namespace AttrTable

/-- What an id means to a client. -/
def key (t : AttrTable) (id : AttrId) : Option AttrKey := (t.get id).map AttrDef.key

theorem key_insert (t : AttrTable) (a : AttrDef) :
    (t.insert a).key = Interning.learn t.key a.entry := by
  funext id
  by_cases h : a.id = id
  · subst h
    simp [key, get, insert, Interning.learn, AttrDef.entry]
  · have hfind : (t.insert a).get id = t.get id := by
      unfold get insert
      rw [List.find?_cons_of_neg (by simpa using h), List.find?_filter]
      congr 1
      funext b
      by_cases hb : b.id = id
      · simp [hb, Ne.symm h]
      · simp [hb]
    have hne : ¬ id = a.entry.2 := fun heq => h heq.symm
    rw [key, hfind, Interning.learn, if_neg hne, key]

/-- Absorbing a batch is learning its definitions in order. -/
theorem key_absorb (attrs : List AttrDef) (t : AttrTable) :
    (t.absorb attrs).key = Interning.learnAll t.key (attrs.map AttrDef.entry) := by
  induction attrs generalizing t with
  | nil => rfl
  | cons a attrs ih =>
    have hstep : t.absorb (a :: attrs) = (t.insert a).absorb attrs := rfl
    rw [hstep, ih, key_insert]
    rfl

end AttrTable

/-! ## Reading a payload -/

/-- In a client's table every run of a payload means the style of every cell
of the stretch it stands for. -/
def Names (t : AttrTable) (row : Row) (p : RowPayload) : Prop :=
  List.Forall₂ (fun (cells : List Cell) (run : Run) =>
      ∃ d, t.get run.attr = some d ∧ ∀ c ∈ cells, d.key = c.attrKey)
    (Encoder.splitRuns (Encoder.sentCells row)) p.runs

namespace Encoder

theorem key_of_knows {e : Encoder} {t : AttrTable} (hholds : Interning.Holds t.key e.attrs)
    {c : Cell} (hk : (e.lookup c.attrKey).isSome) :
    ∃ d, t.get (e.keyId c.attrKey) = some d ∧ d.key = c.attrKey := by
  obtain ⟨id, hid⟩ := Option.isSome_iff_exists.mp hk
  have hkey : e.keyId c.attrKey = id := by
    unfold keyId
    rw [hid]
    rfl
  have := hholds _ (mem_of_lookup hid)
  rw [hkey]
  exact Option.map_eq_some_iff.mp this

/-- A client that holds the ledger reads a payload as it was meant. -/
theorem names_payloadOf {e : Encoder} {t : AttrTable} (hholds : Interning.Holds t.key e.attrs)
    {row : Row} (hk : e.Knows row) : Names t row (payloadOf e.keyId row) := by
  unfold Names payloadOf
  rw [List.forall₂_map_right_iff, List.forall₂_same]
  intro run hrun
  obtain ⟨d, rest, rfl, hsame⟩ := (splitRuns_spec (sentCells row)).2 run hrun
  obtain ⟨def', hget, hdef⟩ := key_of_knows hholds (hk (d :: rest) hrun)
  exact ⟨def', hget, fun c hc => hdef.trans (hsame c hc).symm⟩

end Encoder

end Zesterm
