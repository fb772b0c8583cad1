/-
Zesterm.Lib.Lossy — UTF-8 read with replacement characters.

`lossy` reads bytes as UTF-8 and puts one replacement character in the place
of each maximal subpart that is no character: the longest run of bytes that
begins a character and is not continued as one, or a single byte that begins
none. A text is kept as its bytes. The reader is a machine that holds the
bytes of a character it has begun (`Held`); the invariant of what it holds is
`Held.Sound`, kept by every byte (`feed_sound`).

Two facts carry what is proved of texts read this way. An ASCII byte ends
whatever was begun, so the reading of the two sides is independent
(`lossyFrom_append_ascii`), and every ASCII byte of the text is one of the
bytes read (`exists_of_lossyFrom_eq`). No reading is shorter than its bytes
(`length_le_lossy`).
-/
import Mathlib.Tactic

namespace Utf8

variable {b : UInt8} {bytes : List UInt8} {s : Held}

/-! ## The reader -/

/-- The bytes one continuation byte may be; none is ASCII. -/
structure Tail where
  lo : UInt8
  hi : UInt8
  high : 0x80 ≤ lo

def Tail.has (t : Tail) (b : UInt8) : Bool := t.lo ≤ b && b ≤ t.hi

def anyTail : Tail := { lo := 0x80, hi := 0xBF, high := by decide }

/-- The continuation bytes a first byte asks for, if it begins a character. -/
def follow (b : UInt8) : Option (List Tail) :=
  if b < 0x80 then some []
  else if 0xC2 ≤ b ∧ b ≤ 0xDF then some [anyTail]
  else if b = 0xE0 then some [{ lo := 0xA0, hi := 0xBF, high := by decide }, anyTail]
  else if b = 0xED then some [{ lo := 0x80, hi := 0x9F, high := by decide }, anyTail]
  else if 0xE1 ≤ b ∧ b ≤ 0xEF then some [anyTail, anyTail]
  else if b = 0xF0 then some [{ lo := 0x90, hi := 0xBF, high := by decide }, anyTail, anyTail]
  else if 0xF1 ≤ b ∧ b ≤ 0xF3 then some [anyTail, anyTail, anyTail]
  else if b = 0xF4 then some [{ lo := 0x80, hi := 0x8F, high := by decide }, anyTail, anyTail]
  else none

/-- The replacement character, as UTF-8 writes it. -/
def replacement : List UInt8 := [0xEF, 0xBF, 0xBD]

/-- Between characters, or inside one: the bytes held and what is due. -/
inductive Held
  | idle
  | within (bytes : List UInt8) (next : Tail) (due : List Tail)

/-- A byte read between characters: the text it completes, and what is held. -/
def begin (b : UInt8) : List UInt8 × Held :=
  match follow b with
  | none => (replacement, .idle)
  | some [] => ([b], .idle)
  | some (next :: due) => ([], .within [b] next due)

/-- One byte. A byte that is not the one due ends the subpart held, and is
then read as a first byte. -/
def feed : Held → UInt8 → List UInt8 × Held
  | .idle, b => begin b
  | .within bytes next due, b =>
      if next.has b then
        match due with
        | [] => (bytes ++ [b], .idle)
        | next' :: due' => ([], .within (bytes ++ [b]) next' due')
      else (replacement ++ (begin b).1, (begin b).2)

/-- The end of the bytes: a character begun is a subpart. -/
def finish : Held → List UInt8
  | .idle => []
  | .within .. => replacement

def lossyFrom : Held → List UInt8 → List UInt8
  | s, [] => finish s
  | s, b :: bs => (feed s b).1 ++ lossyFrom (feed s b).2 bs

/-- `String::from_utf8_lossy`. -/
def lossy (bytes : List UInt8) : List UInt8 := lossyFrom .idle bytes

-- A character, a subpart of two bytes, a byte that begins nothing.
example : lossy [0xC3, 0xA9, 0xE2, 0x82, 0x41, 0xFF] =
    [0xC3, 0xA9] ++ replacement ++ [0x41] ++ replacement := by decide

@[simp] theorem lossyFrom_nil (s : Held) : lossyFrom s [] = finish s := rfl

theorem lossyFrom_cons (s : Held) (b : UInt8) (bs : List UInt8) :
    lossyFrom s (b :: bs) = (feed s b).1 ++ lossyFrom (feed s b).2 bs := rfl

@[simp] theorem lossy_nil : lossy [] = [] := rfl

/-! ## What is held -/

/-- Nothing held is ASCII, and a character has four bytes at most. -/
def Held.Sound : Held → Prop
  | .idle => True
  | .within bytes _ due => (∀ b ∈ bytes, 0x80 ≤ b) ∧ bytes.length + due.length ≤ 3

/-- How many bytes are held. -/
def Held.size : Held → Nat
  | .idle => 0
  | .within bytes _ _ => bytes.length

theorem follow_ascii (h : b < 0x80) : follow b = some [] := if_pos h

theorem follow_short {tails : List Tail} (h : follow b = some tails) : tails.length ≤ 3 := by
  unfold follow at h
  split_ifs at h <;> cases h <;> decide

theorem begin_ascii (h : b < 0x80) : begin b = ([b], .idle) := by
  rw [begin, follow_ascii h]

theorem begin_sound (h : 0x80 ≤ b) : (begin b).2.Sound := by
  unfold begin
  split
  · trivial
  · trivial
  · next next due hf =>
    have hshort := follow_short hf
    refine ⟨by simpa using h, ?_⟩
    simp only [List.length_cons, List.length_nil] at hshort ⊢
    omega

theorem replacement_high : ∀ c ∈ replacement, 0x80 ≤ c := by
  simp [replacement]

theorem begin_high (h : 0x80 ≤ b) : ∀ c ∈ (begin b).1, 0x80 ≤ c := by
  unfold begin
  split
  · exact replacement_high
  · simpa using h
  · simp

/-- A first byte is in the text or held. -/
theorem length_begin (b : UInt8) : 1 ≤ (begin b).1.length + (begin b).2.size := by
  unfold begin
  split
  · exact Nat.le_add_left 1 2
  · exact Nat.le_refl 1
  · exact Nat.le_refl 1

theorem Tail.not_has_ascii (t : Tail) (h : b < 0x80) : t.has b = false := by
  have hhigh := t.high
  simp only [Tail.has, Bool.and_eq_false_iff, decide_eq_false_iff_not, UInt8.le_iff_toNat_le,
    UInt8.lt_iff_toNat_lt] at *
  omega

theorem feed_last {next : Tail} (h : next.has b = true) :
    feed (.within bytes next []) b = (bytes ++ [b], .idle) := by
  simp [feed, h]

theorem feed_more {next next' : Tail} {due : List Tail} (h : next.has b = true) :
    feed (.within bytes next (next' :: due)) b = ([], .within (bytes ++ [b]) next' due) := by
  simp [feed, h]

theorem feed_other {next : Tail} {due : List Tail} (h : next.has b = false) :
    feed (.within bytes next due) b = (replacement ++ (begin b).1, (begin b).2) := by
  simp [feed, h]

/-- An ASCII byte ends what was begun and stands for itself. -/
theorem feed_ascii (s : Held) (h : b < 0x80) : feed s b = (finish s ++ [b], .idle) := by
  cases s with
  | idle => exact begin_ascii h
  | within bytes next due =>
    rw [feed_other (next.not_has_ascii h), begin_ascii h]
    rfl

theorem mem_snoc_high (hbytes : ∀ c ∈ bytes, 0x80 ≤ c) (hb : 0x80 ≤ b) :
    ∀ c ∈ bytes ++ [b], 0x80 ≤ c := by
  intro c hc
  rcases List.mem_append.mp hc with hc | hc
  · exact hbytes c hc
  · rwa [List.mem_singleton.mp hc]

theorem feed_sound (hs : s.Sound) (b : UInt8) : (feed s b).2.Sound := by
  by_cases h : b < 0x80
  · rw [feed_ascii s h]
    trivial
  have hb : 0x80 ≤ b := UInt8.not_lt.mp h
  cases s with
  | idle => exact begin_sound hb
  | within bytes next due =>
    obtain ⟨hhigh, hroom⟩ := hs
    cases hhas : next.has b with
    | false =>
      rw [feed_other hhas]
      exact begin_sound hb
    | true =>
      cases due with
      | nil =>
        rw [feed_last hhas]
        trivial
      | cons next' due =>
        rw [feed_more hhas]
        refine ⟨mem_snoc_high hhigh hb, ?_⟩
        simp only [List.length_append, List.length_cons, List.length_nil] at hroom ⊢
        omega

/-- What a byte past ASCII completes holds no ASCII. -/
theorem feed_high (hs : s.Sound) (hb : 0x80 ≤ b) : ∀ c ∈ (feed s b).1, 0x80 ≤ c := by
  cases s with
  | idle => exact begin_high hb
  | within bytes next due =>
    cases hhas : next.has b with
    | false =>
      rw [feed_other hhas]
      intro c hc
      rcases List.mem_append.mp hc with hc | hc
      · exact replacement_high c hc
      · exact begin_high hb c hc
    | true =>
      cases due with
      | nil =>
        rw [feed_last hhas]
        exact mem_snoc_high hs.1 hb
      | cons next' due =>
        rw [feed_more hhas]
        simp

/-- No byte is lost: it is in the text, or held with what was. -/
theorem length_feed (hs : s.Sound) (b : UInt8) :
    s.size + 1 ≤ (feed s b).1.length + (feed s b).2.size := by
  cases s with
  | idle => simpa [Held.size, feed] using length_begin b
  | within bytes next due =>
    cases hhas : next.has b with
    | false =>
      have hroom := hs.2
      have hbegin := length_begin b
      rw [feed_other hhas]
      simp only [Held.size, List.length_append, replacement, List.length_cons,
        List.length_nil] at hbegin ⊢
      omega
    | true =>
      cases due with
      | nil => simp [feed_last hhas, Held.size]
      | cons next' due => simp [feed_more hhas, Held.size]

/-! ## Texts -/

theorem length_le_lossyFrom (hs : s.Sound) (bytes : List UInt8) :
    s.size + bytes.length ≤ (lossyFrom s bytes).length := by
  induction bytes generalizing s with
  | nil =>
    cases s with
    | idle => exact Nat.le_refl 0
    | within held next due =>
      have hroom := hs.2
      simp only [Held.size, lossyFrom_nil, finish, replacement, List.length_cons,
        List.length_nil]
      omega
  | cons b bs ih =>
    have hfeed := length_feed hs b
    have hrest := ih (feed_sound hs b)
    simp only [lossyFrom_cons, List.length_append, List.length_cons]
    omega

/-- No text is shorter than the bytes it was read from. -/
theorem length_le_lossy (bytes : List UInt8) : bytes.length ≤ (lossy bytes).length := by
  simpa [Held.size, lossy] using length_le_lossyFrom (s := .idle) trivial bytes

theorem lossy_eq_nil : lossy bytes = [] ↔ bytes = [] := by
  refine ⟨fun h => List.eq_nil_of_length_eq_zero ?_, fun h => by rw [h, lossy_nil]⟩
  have hle := length_le_lossy bytes
  rw [h] at hle
  exact Nat.le_zero.mp hle

/-- The two sides of an ASCII byte are read apart. -/
theorem lossyFrom_append_ascii (s : Held) (before after : List UInt8) (h : b < 0x80) :
    lossyFrom s (before ++ b :: after) = lossyFrom s before ++ b :: lossy after := by
  induction before generalizing s with
  | nil => simp [lossyFrom_cons, feed_ascii s h, lossy]
  | cons a before ih => simp [lossyFrom_cons, ih]

theorem lossy_append_ascii (before after : List UInt8) (h : b < 0x80) :
    lossy (before ++ b :: after) = lossy before ++ b :: lossy after :=
  lossyFrom_append_ascii .idle before after h

/-- What was not in the first part is in the second. -/
theorem append_eq_append_of_notMem {α : Type*} {first rest before after : List α} {c : α}
    (hc : c ∉ first) (h : first ++ rest = before ++ c :: after) :
    ∃ more, before = first ++ more ∧ rest = more ++ c :: after := by
  rcases List.append_eq_append_iff.mp h with ⟨more, hbefore, hrest⟩ | ⟨more, hfirst, hafter⟩
  · exact ⟨more, hbefore, hrest⟩
  · cases more with
    | nil => exact ⟨[], by simpa using hfirst.symm, by simpa using hafter.symm⟩
    | cons d more =>
      have hd : c = d := (List.cons.inj hafter).1
      exact absurd (by rw [hfirst, hd]; simp) hc

theorem finish_high (s : Held) : ∀ c ∈ finish s, 0x80 ≤ c := by
  cases s with
  | idle => simp [finish]
  | within bytes next due => exact replacement_high

theorem notMem_of_high {text : List UInt8} (h : ∀ c ∈ text, 0x80 ≤ c) {c : UInt8}
    (hc : c < 0x80) : c ∉ text :=
  fun hmem => absurd hc (UInt8.not_lt.mpr (h c hmem))

/-- An ASCII byte of the text is one of the bytes read, with the text before
it read from the bytes before it. -/
theorem exists_of_lossyFrom_eq (hs : s.Sound) {before after : List UInt8} {c : UInt8}
    (hc : c < 0x80) (h : lossyFrom s bytes = before ++ c :: after) :
    ∃ a b, bytes = a ++ c :: b ∧ lossyFrom s a = before ∧ lossy b = after := by
  induction bytes generalizing s before with
  | nil =>
    refine absurd ?_ (notMem_of_high (finish_high s) hc)
    rw [← lossyFrom_nil, h]
    simp
  | cons b bs ih =>
    rw [lossyFrom_cons] at h
    by_cases hb : b < 0x80
    · rw [feed_ascii s hb] at h
      have hsplit : finish s ++ b :: lossyFrom .idle bs = before ++ c :: after := by
        simpa using h
      obtain ⟨more, rfl, hmore⟩ :=
        append_eq_append_of_notMem (notMem_of_high (finish_high s) hc) hsplit
      cases more with
      | nil =>
        obtain ⟨rfl, rfl⟩ := List.cons.inj hmore
        exact ⟨[], bs, rfl, by simp, rfl⟩
      | cons d more =>
        obtain ⟨rfl, hrest⟩ := List.cons.inj hmore
        obtain ⟨a, a', rfl, rfl, hafter⟩ := ih (s := .idle) trivial hrest
        refine ⟨b :: a, a', rfl, ?_, hafter⟩
        simp [lossyFrom_cons, feed_ascii s hb]
    · have hhigh : 0x80 ≤ b := UInt8.not_lt.mp hb
      obtain ⟨more, rfl, hmore⟩ :=
        append_eq_append_of_notMem (notMem_of_high (feed_high hs hhigh) hc) h
      obtain ⟨a, a', rfl, rfl, hafter⟩ := ih (feed_sound hs b) hmore
      exact ⟨b :: a, a', rfl, rfl, hafter⟩

theorem exists_of_lossy_eq {before after : List UInt8} {c : UInt8} (hc : c < 0x80)
    (h : lossy bytes = before ++ c :: after) :
    ∃ a b, bytes = a ++ c :: b ∧ lossy a = before ∧ lossy b = after :=
  exists_of_lossyFrom_eq (s := .idle) trivial hc h

/-- A text begins with an ASCII word exactly where the bytes do. -/
theorem isPrefix_lossy {word : List UInt8} (hword : ∀ c ∈ word, c < 0x80) :
    word <+: lossy bytes ↔ word <+: bytes := by
  induction word generalizing bytes with
  | nil => simp
  | cons c word ih =>
    obtain ⟨hc, hword⟩ := List.forall_mem_cons.mp hword
    constructor
    · rintro ⟨after, h⟩
      obtain ⟨a, b, rfl, ha, hb⟩ := exists_of_lossy_eq hc (h.symm.trans (List.nil_append _).symm)
      rw [lossy_eq_nil.mp ha]
      exact (List.prefix_cons_inj c).mpr ((ih hword).mp ⟨after, hb.symm⟩)
    · rintro ⟨after, rfl⟩
      have hread : lossy (c :: word ++ after) = c :: lossy (word ++ after) := by
        simpa using lossy_append_ascii [] (word ++ after) hc
      rw [hread]
      exact (List.prefix_cons_inj c).mpr ((ih hword).mpr (List.prefix_append word after))

end Utf8
