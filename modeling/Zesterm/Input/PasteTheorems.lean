/-
Zesterm.Input.PasteTheorems — what a program reads of a bracketed paste.

The end marker does not overlap itself and the start marker cannot begin it,
so a program that reads up to the first end marker reads the whole paste as
long as the body does not hold the marker. The body is the text but for its
line ends, and neither these nor the bytes of a character make or break a
marker: the paste is sealed exactly when the text does not hold one
(`sealed_iff`). `encode_paste` takes no marker out.
-/
import Zesterm.Core.AsciiVt
import Zesterm.Mcp.Plan
import Zesterm.Lib.Marker

namespace Zesterm

open Marker

/-! ## What a sealed paste is -/

/-- The end marker as text. -/
def endText : Str := "\x1b[201~".toList

/-- The second text is the first with nothing changed but markers, each taken
out or broken. -/
inductive OnlyMarkers (m : List UInt8) : List UInt8 → List UInt8 → Prop
  | same (s : List UInt8) : OnlyMarkers m s s
  | mended (before broken : List UInt8) {s s' : List UInt8} (h : OnlyMarkers m s s') :
      OnlyMarkers m (before ++ m ++ s) (before ++ broken ++ s')

/-- A paste that cannot be left early: the end marker stands at its end only,
and what a program reads up to the first one is all of the text. -/
def Sealed (text : Str) (out : List UInt8) : Prop :=
  ∃ body, out = pasteStart ++ body ++ pasteEnd ∧
    OnlyMarkers pasteEnd (toUtf8 (replaceLf (replaceCrlf text))) body ∧
    (∀ before after, out = before ++ pasteEnd ++ after → after = []) ∧
    ∀ more, upTo pasteEnd (body ++ pasteEnd ++ more) = some (body, more)

theorem unbordered_pasteEnd : Unbordered pasteEnd := by decide

theorem apart_pasteStart : Apart pasteStart pasteEnd := by decide

/-- Between the markers a text is sealed when it does not hold the end
marker. -/
theorem sealed_iff {text : Str} {body : List UInt8}
    (hbody : body = toUtf8 (replaceLf (replaceCrlf text))) :
    Sealed text (pasteStart ++ body ++ pasteEnd) ↔ ¬pasteEnd <:+: body := by
  constructor
  · rintro ⟨body', hout, -, honly, -⟩ ⟨before, after, rfl⟩
    have hlen := congrArg List.length hout
    have := honly (pasteStart ++ before) (after ++ pasteEnd) (by simp)
    simp [pasteEnd] at this
  · intro hfree
    have houter : ¬pasteEnd <:+: pasteStart ++ body := fun h =>
      hfree (apart_pasteStart.infix_append h)
    refine ⟨body, rfl, ?_, fun before after heq => ?_, fun more => ?_⟩
    · rw [← hbody]
      exact .same body
    · exact unbordered_pasteEnd.only_at_end houter heq.symm
    · exact upTo_append unbordered_pasteEnd (by decide) hfree more

/-! ## Where the text holds a marker -/

theorem prefix_replaceCrlf (text : Str) :
    ∀ m : Str, '\r' ∉ m → '\n' ∉ m → (m <+: replaceCrlf text ↔ m <+: text) := by
  fun_induction replaceCrlf text with
  | case1 cs ih =>
    intro m hr _
    cases m with
    | nil => simp
    | cons c m =>
      have hc : c ≠ '\r' := fun h => hr (h ▸ List.mem_cons_self)
      simp [List.cons_prefix_cons, hc]
  | case2 c cs _ ih =>
    intro m hr hn
    cases m with
    | nil => simp
    | cons d m =>
      rw [List.cons_prefix_cons, List.cons_prefix_cons,
        ih m (fun h => hr (List.mem_cons_of_mem d h)) fun h => hn (List.mem_cons_of_mem d h)]
  | case3 => exact fun _ _ _ => Iff.rfl

/-- A text and the text with its line ends shortened hold the same words that
have no line end. -/
theorem infix_replaceCrlf {c : Char} {m : Str} (hr : '\r' ∉ c :: m) (hn : '\n' ∉ c :: m)
    (text : Str) : c :: m <:+: replaceCrlf text ↔ c :: m <:+: text := by
  have hcr : c ≠ '\r' := fun h => hr (h ▸ List.mem_cons_self)
  have hlf : c ≠ '\n' := fun h => hn (h ▸ List.mem_cons_self)
  fun_induction replaceCrlf text with
  | case1 cs ih =>
    have hshort : c ∉ ['\r'] := by simp [hcr]
    have hlong : c ∉ ['\r', '\n'] := by simp [hcr, hlf]
    exact (infix_append_of_notMem hshort).trans (ih.trans (infix_append_of_notMem hlong).symm)
  | case2 d cs hcrlf ih =>
    have hpre := prefix_replaceCrlf (d :: cs) (c :: m) hr hn
    rw [replaceCrlf] at hpre
    · rw [List.infix_cons_iff, List.infix_cons_iff]
      exact or_congr hpre ih
    · exact hcrlf
  | case3 => rfl

theorem infix_replaceLf {m : Str} (hr : '\r' ∉ m) (hn : '\n' ∉ m) (text : Str) :
    m <:+: replaceLf text ↔ m <:+: text := by
  have hmap : replaceLf text = text.flatMap fun c => [if c = '\n' then '\r' else c] := by
    rw [replaceLf, List.map_eq_flatMap]
  rw [hmap]
  refine infix_flatMap_iff (fun _ => List.cons_ne_nil _ _) ?_ text
  rw [List.forall₂_same]
  intro c hc
  have hcn : c ≠ '\n' := fun h => hn (h ▸ hc)
  have hcr : c ≠ '\r' := fun h => hr (h ▸ hc)
  refine ⟨by dsimp only; rw [if_neg hcn], fun d hd => ?_⟩
  rw [List.mem_singleton] at hd
  split at hd
  · exact absurd hd hcr
  · exact hd.symm

/-- A byte below 0x80 is the code of its character and part of no other. -/
theorem alone_ascii {c : Char} (h : c.toNat < 128) :
    Alone String.utf8EncodeChar c (UInt8.ofNat c.toNat) := by
  have hbyte : (UInt8.ofNat c.toNat).toNat = c.toNat := by
    rw [UInt8.toNat_ofNat']
    omega
  have hhigh {n k : Nat} (heq : UInt8.ofNat c.toNat = UInt8.ofNat (n + k)) (hk : 128 ≤ k)
      (hlow : n + k < 256) : False := by
    have := congrArg UInt8.toNat heq
    rw [hbyte, UInt8.toNat_ofNat', Nat.mod_eq_of_lt hlow] at this
    omega
  refine ⟨?_, fun a ha => ?_⟩
  · unfold String.utf8EncodeChar
    exact if_pos (Nat.lt_succ_iff.mp h)
  · unfold String.utf8EncodeChar at ha
    dsimp only at ha
    split at ha
    · next hle =>
      rw [List.mem_singleton] at ha
      have := congrArg UInt8.toNat ha
      rw [hbyte, UInt8.toNat_ofNat', Nat.mod_eq_of_lt (by omega)] at this
      exact Char.toNat_inj.mp this.symm
    · split at ha
      · simp only [List.mem_cons, List.not_mem_nil, or_false] at ha
        rcases ha with ha | ha
        · exact (hhigh ha (by omega) (by omega)).elim
        · exact (hhigh ha (by omega) (by omega)).elim
      · split at ha
        · simp only [List.mem_cons, List.not_mem_nil, or_false] at ha
          rcases ha with ha | ha | ha
          · exact (hhigh ha (by omega) (by omega)).elim
          · exact (hhigh ha (by omega) (by omega)).elim
          · exact (hhigh ha (by omega) (by omega)).elim
        · simp only [List.mem_cons, List.not_mem_nil, or_false] at ha
          rcases ha with ha | ha | ha | ha
          · exact (hhigh ha (by omega) (by omega)).elim
          · exact (hhigh ha (by omega) (by omega)).elim
          · exact (hhigh ha (by omega) (by omega)).elim
          · exact (hhigh ha (by omega) (by omega)).elim

/-- The bytes of a text hold the end marker where the text does. -/
theorem infix_toUtf8 (text : Str) : pasteEnd <:+: toUtf8 text ↔ endText <:+: text := by
  have hcode : pasteEnd = endText.map fun c => UInt8.ofNat c.toNat := by decide
  refine infix_flatMap_iff (fun _ => String.utf8EncodeChar_ne_nil) ?_ text
  rw [hcode, List.forall₂_map_right_iff, List.forall₂_same]
  have hascii : (endText.all fun c => decide (c.toNat < 128)) = true := by decide
  exact fun c hc => alone_ascii (of_decide_eq_true (List.all_eq_true.mp hascii c hc))

theorem infix_normalized (text : Str) :
    pasteEnd <:+: toUtf8 (replaceLf (replaceCrlf text)) ↔ endText <:+: text := by
  have hr : '\r' ∉ endText := by decide
  have hn : '\n' ∉ endText := by decide
  rw [infix_toUtf8, infix_replaceLf hr hn]
  exact infix_replaceCrlf hr hn text

/-! ## The two ways a paste goes out -/

/-- A paste into a terminal that asked for markers is sealed, and so is a
paste that a call of `input` makes into it. -/
def PastesSealed {vt : Vt} (t : Terminal vt) (text : Str) : Prop :=
  Sealed text (t.encodePaste text) ∧
    ∀ (Chord : Type) (keys : Mcp.Keys Chord) (plan : Mcp.Plan Chord), plan.paste = some text →
      ∃ paste, plan.input keys t = (plan.text.map toUtf8).toList ++ [paste] ++
          plan.keys.map (fun c => keys.encode c t.state.modes) ∧ Sealed text paste

/-- What `input` hands over is the terminal's own encoding. -/
theorem input_paste {vt : Vt} {Chord : Type} (keys : Mcp.Keys Chord) {plan : Mcp.Plan Chord}
    (t : Terminal vt) {text : Str} (h : plan.paste = some text) :
    plan.input keys t = (plan.text.map toUtf8).toList ++ [t.encodePaste text] ++
      plan.keys.map fun c => keys.encode c t.state.modes := by
  simp [Mcp.Plan.input, Mcp.Plan.needsModes, Mcp.Plan.writes, h]

theorem encodePaste_bracketed {vt : Vt} {t : Terminal vt}
    (hmode : t.state.modes.contains Modes.bracketedPaste = true) (text : Str) :
    t.encodePaste text = pasteStart ++ toUtf8 (replaceLf (replaceCrlf text)) ++ pasteEnd :=
  if_pos hmode

/-- A paste cannot be left early exactly when its text does not hold the end
marker. -/
theorem pastesSealed_iff {vt : Vt} (t : Terminal vt)
    (hmode : t.state.modes.contains Modes.bracketedPaste = true) (text : Str) :
    PastesSealed t text ↔ ¬endText <:+: text := by
  have hsealed : Sealed text (t.encodePaste text) ↔ ¬endText <:+: text := by
    rw [encodePaste_bracketed hmode, sealed_iff rfl, infix_normalized]
  refine ⟨fun h => hsealed.mp h.1, fun h => ⟨hsealed.mpr h, fun Chord keys plan hpaste => ?_⟩⟩
  exact ⟨t.encodePaste text, input_paste keys t hpaste, hsealed.mpr h⟩

/-- A terminal whose program asked for bracketed paste. -/
def asked : Terminal asciiVt :=
  (Terminal.new asciiVt 4 1 0).advance [0x1b, 0x5b, 0x3f, 0x32, 0x30, 0x30, 0x34, 0x68]

/-- A line that is all text. -/
theorem pastesSealed_line : PastesSealed asked "ls\n".toList :=
  (pastesSealed_iff asked (by decide) _).mpr (by decide)

/-- A text with the end marker in it and a command behind. -/
def escaping : Str := "\x1b[201~rm\n".toList

/-- What the marker of the text leaves behind is typed. -/
theorem paste_escapes :
    upTo pasteEnd ((asked.encodePaste escaping).drop pasteStart.length) =
        some ([], toUtf8 "rm\r".toList ++ pasteEnd) ∧
      ¬∀ (vt : Vt) (t : Terminal vt) (text : Str),
        t.state.modes.contains Modes.bracketedPaste = true → PastesSealed t text := by
  have hmode : asked.state.modes.contains Modes.bracketedPaste = true := by decide
  refine ⟨by decide, fun hall => ?_⟩
  obtain ⟨⟨body, hout, -, honly, -⟩, -⟩ := hall asciiVt asked escaping hmode
  rw [encodePaste_bracketed hmode] at honly
  have := honly pasteStart (toUtf8 "rm\r".toList ++ pasteEnd) (by decide)
  exact absurd this (by decide)

end Zesterm
