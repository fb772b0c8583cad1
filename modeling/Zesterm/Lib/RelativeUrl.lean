/-
Zesterm.Lib.RelativeUrl — a reference that begins with a slash, resolved
against a base of a special scheme: the WHATWG URL standard from its relative
slash state on.

The host parser is a parameter: `authority` is what stands between the
slashes and the path, as an origin of the base's scheme. A reference that
begins otherwise has no states here and is `none`.

What a URL is read from is the text without its blanks at either end and
without the tabs and line breaks inside: `clean`. A check of the text itself
is blind to those: `clean_eq_slash` says which texts begin, once clean, with
two slashes.
-/
import Mathlib.Data.List.DropRight

namespace RelativeUrl

/-! ## Characters -/

def isTabOrNewline (c : Char) : Bool := c == '\t' || c == '\n' || c == '\r'

/-- C0 control or space. -/
def isBlank (c : Char) : Bool := c.toNat ≤ 0x20

/-- A slash, or what a special scheme takes for one. -/
def isSlash (c : Char) : Bool := c == '/' || c == '\\'

/-- The text a URL is read from. -/
def clean (s : List Char) : List Char :=
  ((s.dropWhile isBlank).rdropWhile isBlank).filter fun c => !isTabOrNewline c

/-! ## Percent encoding -/

def percentByte (b : UInt8) : List Char :=
  ['%', (Nat.digitChar (b.toNat / 16)).toUpper, (Nat.digitChar (b.toNat % 16)).toUpper]

/-- UTF-8 percent-encode, with the characters of a set. -/
def percentEncode (set : Char → Bool) (s : List Char) : List Char :=
  s.flatMap fun c => if set c then (String.utf8EncodeChar c).flatMap percentByte else [c]

def c0Set (c : Char) : Bool := c.toNat < 0x20 || 0x7e < c.toNat

def fragmentSet (c : Char) : Bool := c0Set c || c ∈ [' ', '"', '<', '>', '\x60']

def querySet (c : Char) : Bool := c0Set c || c ∈ [' ', '"', '#', '<', '>']

def specialQuerySet (c : Char) : Bool := querySet c || c == '\''

def pathSet (c : Char) : Bool := querySet c || c ∈ ['?', '^', '\x60', '\x7b', '\x7d']

/-! ## Paths -/

/-- A dot, or its percent encoding. -/
def dots : List Char → Option Nat
  | [] => some 0
  | '.' :: rest => (dots rest).map (· + 1)
  | '%' :: '2' :: e :: rest => if e = 'e' ∨ e = 'E' then (dots rest).map (· + 1) else none
  | _ => none

/-- The segments of a path: a dot is dropped, and two dots drop the segment
before. At the end either leaves an empty segment. -/
def push (path : List (List Char)) : List (List Char) → List (List Char)
  | [] => path
  | [s] =>
    if dots s = some 2 then path.dropLast ++ [[]]
    else if dots s = some 1 then path ++ [[]]
    else path ++ [percentEncode pathSet s]
  | s :: more =>
    if dots s = some 2 then push path.dropLast more
    else if dots s = some 1 then push path more
    else push (path ++ [percentEncode pathSet s]) more

/-! ## URLs -/

/-- A URL of the base's scheme; `O` is its host and port. -/
structure Url (O : Type) where
  origin : O
  path : List (List Char)
  query : Option (List Char)
  fragment : Option (List Char)
  deriving DecidableEq

variable {O : Type}
variable {s rest tail : List Char} {c : Char}

/-- Where a path ends. -/
def endsPath (c : Char) : Bool := c == '?' || c == '#'

/-- Path state, behind the first slash. -/
def pathState (origin : O) (text : List Char) : Url O :=
  let path := push [] ((text.takeWhile fun c => !endsPath c).splitOnP isSlash)
  match text.dropWhile fun c => !endsPath c with
  | [] => { origin, path, query := none, fragment := none }
  | c :: rest =>
    if c = '#' then
      { origin, path, query := none, fragment := some (percentEncode fragmentSet rest) }
    else
      { origin, path
        query := some (percentEncode specialQuerySet (rest.takeWhile (· != '#')))
        fragment :=
          match rest.dropWhile (· != '#') with
          | [] => none
          | _ :: rest => some (percentEncode fragmentSet rest) }

/-- Where an authority ends. -/
def endsAuthority (c : Char) : Bool := isSlash c || endsPath c

/-- What stands between two slashes and the path, and the path. -/
def authorityText (rest : List Char) : List Char :=
  (rest.dropWhile isSlash).takeWhile fun c => !endsAuthority c

/-- Special authority ignore slashes state. -/
def authorityState (authority : List Char → Option O) (rest : List Char) : Option (Url O) :=
  (authority (authorityText rest)).map fun origin =>
    match (rest.dropWhile isSlash).dropWhile fun c => !endsAuthority c with
    | c :: rest => if isSlash c then pathState origin rest else pathState origin (c :: rest)
    | [] => pathState origin []

/-- A reference against a base. -/
def resolve (authority : List Char → Option O) (base : O) (reference : List Char) : Option (Url O) :=
  match clean reference with
  | [] => none
  | c :: rest =>
    if isSlash c then
      match rest with
      | [] => some (pathState base [])
      | d :: rest =>
        if isSlash d then authorityState authority rest else some (pathState base (d :: rest))
    else none

/-! ## What a clean text begins with -/

/-- `clean`, behind a first character that stays. -/
def cleanTail (s : List Char) : List Char :=
  (s.rdropWhile isBlank).filter fun c => !isTabOrNewline c

theorem rdropWhile_cons (p : Char → Bool) (c : Char) (s : List Char) :
    (c :: s).rdropWhile p = if s.all p then if p c then [] else [c] else c :: s.rdropWhile p := by
  induction s using List.reverseRecOn with
  | nil => rw [List.all_nil, if_pos rfl, List.rdropWhile_singleton]
  | append_singleton s d ih =>
    rw [← List.cons_append, List.all_append, List.all_cons, List.all_nil, Bool.and_true]
    by_cases hd : p d = true
    · rw [List.rdropWhile_concat_pos p _ _ hd, List.rdropWhile_concat_pos p _ _ hd, ih, hd, Bool.and_true]
    · rw [List.rdropWhile_concat_neg p _ _ hd, List.rdropWhile_concat_neg p _ _ hd,
        if_neg (by simp [hd])]
      rfl

theorem rdropWhile_all {p : Char → Bool} (h : s.all p = true) : s.rdropWhile p = [] :=
  List.rdropWhile_eq_nil_iff.mpr fun c hc => List.all_eq_true.mp h c hc

theorem cleanTail_tab (h : isTabOrNewline c = true) (s : List Char) :
    cleanTail (c :: s) = cleanTail s := by
  have hblank : isBlank c = true := by
    simp only [isTabOrNewline, Bool.or_eq_true, beq_iff_eq] at h
    rcases h with (rfl | rfl) | rfl <;> rfl
  rw [cleanTail, rdropWhile_cons, hblank, if_pos rfl]
  split
  · next hall => rw [cleanTail, rdropWhile_all hall]
  · rw [List.filter_cons, h]; rfl

theorem cleanTail_solid (h : isBlank c = false) (s : List Char) :
    cleanTail (c :: s) = c :: cleanTail s := by
  have htab : isTabOrNewline c = false := by
    by_contra htab
    simp only [Bool.not_eq_false, isTabOrNewline, Bool.or_eq_true, beq_iff_eq] at htab
    rcases htab with (rfl | rfl) | rfl <;> exact absurd h (by decide)
  rw [cleanTail, rdropWhile_cons, h]
  split
  · next hall =>
    rw [cleanTail, rdropWhile_all hall, if_neg Bool.false_ne_true, List.filter_cons, htab]
    rfl
  · rw [List.filter_cons, htab]; rfl

/-- A blank that is neither a tab nor a line break stays, or nothing does. -/
theorem cleanTail_blank (htab : isTabOrNewline c = false) (s : List Char) :
    cleanTail (c :: s) = [] ∨ ∃ rest, cleanTail (c :: s) = c :: rest := by
  rw [cleanTail, rdropWhile_cons]
  split
  · split
    · exact .inl rfl
    · exact .inr ⟨[], by rw [List.filter_cons, htab]; rfl⟩
  · exact .inr ⟨_, by rw [List.filter_cons, htab]; rfl⟩

theorem isBlank_slash (h : isSlash c = true) : isBlank c = false := by
  simp only [isSlash, Bool.or_eq_true, beq_iff_eq] at h
  rcases h with rfl | rfl <;> rfl

theorem cleanTail_slash {tabs : List Char} (htabs : ∀ t ∈ tabs, isTabOrNewline t = true)
    (hc : isSlash c = true) (rest : List Char) :
    cleanTail (tabs ++ c :: rest) = c :: cleanTail rest := by
  induction tabs with
  | nil => exact cleanTail_solid (isBlank_slash hc) rest
  | cons t tabs ih =>
    rw [List.cons_append, cleanTail_tab (htabs t List.mem_cons_self),
      ih fun u hu => htabs u (List.mem_cons_of_mem _ hu)]

/-- A text begins with a slash, once clean, when nothing but tabs and line
breaks stand ahead of one. -/
theorem exists_of_cleanTail_slash (hc : isSlash c = true) (h : cleanTail s = c :: rest) :
    ∃ tabs after, s = tabs ++ c :: after ∧ (∀ t ∈ tabs, isTabOrNewline t = true) ∧
      rest = cleanTail after := by
  induction s with
  | nil => cases h
  | cons d s ih =>
    by_cases htab : isTabOrNewline d = true
    · rw [cleanTail_tab htab] at h
      obtain ⟨tabs, after, rfl, htabs, hrest⟩ := ih h
      refine ⟨d :: tabs, after, rfl, ?_, hrest⟩
      rintro t (_ | ⟨_, ht⟩)
      · exact htab
      · exact htabs t ht
    · rw [Bool.not_eq_true] at htab
      have hd : d = c := by
        rcases cleanTail_blank htab s with hnil | ⟨more, hmore⟩
        · rw [hnil] at h
          cases h
        · rw [hmore] at h
          exact (List.cons.inj h).1
      subst hd
      rw [cleanTail_solid (isBlank_slash hc)] at h
      exact ⟨[], s, rfl, by simp, (List.cons.inj h).2.symm⟩

theorem clean_cons (h : isBlank c = false) (s : List Char) : clean (c :: s) = c :: cleanTail s := by
  rw [← cleanTail_solid h, clean, List.dropWhile_cons, h]
  rfl

/-- Blanks of any kind may go first. -/
theorem clean_trim {p : Char → Bool} (hp : ∀ c, p c = true → isBlank c = true) (s : List Char) :
    clean ((s.dropWhile p).rdropWhile p) = clean s := by
  have hfront : ∀ t : List Char, (t.dropWhile p).dropWhile isBlank = t.dropWhile isBlank := by
    intro t
    induction t with
    | nil => rfl
    | cons c t ih =>
      rw [List.dropWhile_cons]
      split
      · next h => rw [ih, List.dropWhile_cons, hp c h]; rfl
      · rfl
  have hback : ∀ t : List Char, ((t.rdropWhile p).dropWhile isBlank).rdropWhile isBlank =
      (t.dropWhile isBlank).rdropWhile isBlank := by
    intro t
    induction t using List.reverseRecOn with
    | nil => rfl
    | append_singleton t c ih =>
      by_cases hc : p c = true
      · rw [List.rdropWhile_concat_pos p _ _ hc, ih]
        rw [List.dropWhile_append]
        split
        · next hnone =>
          rw [List.isEmpty_iff.mp hnone, List.dropWhile_cons, hp c hc]
          rfl
        · rw [List.rdropWhile_concat_pos isBlank _ _ (hp c hc)]
      · rw [List.rdropWhile_concat_neg p _ _ hc]
  rw [clean, clean, hback, hfront]

/-! ## Plain paths -/

theorem pathState_origin (origin : O) (text : List Char) : (pathState origin text).origin = origin := by
  unfold pathState
  dsimp only
  split
  · rfl
  · split <;> rfl

theorem pathState_path (origin : O) (text : List Char) : (pathState origin text).path =
    push [] ((text.takeWhile fun c => !endsPath c).splitOnP isSlash) := by
  unfold pathState
  dsimp only
  split
  · rfl
  · split <;> rfl

theorem authorityState_of_some {authority : List Char → Option O} {origin : O}
    (h : authority (authorityText rest) = some origin) :
    ∃ url, authorityState authority rest = some url ∧ url.origin = origin := by
  rw [authorityState, h]
  refine ⟨_, rfl, ?_⟩
  dsimp only
  split
  · split <;> exact pathState_origin origin _
  · exact pathState_origin origin _

/-- An authority is the origin's. -/
theorem authority_of_authorityState {authority : List Char → Option O} {url : Url O}
    (h : authorityState authority rest = some url) :
    authority (authorityText rest) = some url.origin := by
  obtain ⟨origin, horigin, rfl⟩ := Option.map_eq_some_iff.mp h
  rw [horigin]
  congr 1
  split
  · split <;> exact (pathState_origin origin _).symm
  · exact (pathState_origin origin _).symm

theorem resolve_cons (authority : List Char → Option O) (base : O) (s : List Char) :
    resolve authority base ('/' :: s) =
      match cleanTail s with
      | [] => some (pathState base [])
      | d :: rest =>
        if isSlash d then authorityState authority rest else some (pathState base (d :: rest)) := by
  rw [resolve, clean_cons rfl]
  exact if_pos rfl

/-- A character that a path keeps as it is. -/
def isPlain (c : Char) : Bool := c.isAlphanum || c ∈ ['-', '.', '_', '~']

/-- A segment that a path keeps as it is. -/
def Plain (s : List Char) : Prop := (∀ c ∈ s, isPlain c = true) ∧ s ≠ ['.'] ∧ s ≠ ['.', '.']

theorem toNat_lt_of_isPlain (h : isPlain c = true) : c.toNat < 128 := by
  rw [isPlain] at h
  delta Char.isAlphanum Char.isAlpha Char.isUpper Char.isLower Char.isDigit at h
  simp only [Bool.or_eq_true, decide_eq_true_eq, List.mem_cons, List.not_mem_nil, or_false,
    Bool.and_eq_true] at h
  have hle {a : UInt32} (ha : c.val ≤ a) (hlt : a.toNat < 128) : c.toNat < 128 :=
    Nat.lt_of_le_of_lt (UInt32.le_iff_toNat_le.mp ha) hlt
  rcases h with ((⟨-, h⟩ | ⟨-, h⟩) | ⟨-, h⟩) | rfl | rfl | rfl | rfl
  · exact hle h (by decide)
  · exact hle h (by decide)
  · exact hle h (by decide)
  all_goals decide

/-- What a plain character is not. -/
theorem plain_char (h : isPlain c = true) :
    pathSet c = false ∧ isSlash c = false ∧ endsPath c = false ∧ isBlank c = false ∧ c ≠ '%' := by
  have hall : ∀ n < 128, isPlain (Char.ofNat n) = true →
      pathSet (Char.ofNat n) = false ∧ isSlash (Char.ofNat n) = false ∧
        endsPath (Char.ofNat n) = false ∧ isBlank (Char.ofNat n) = false ∧ Char.ofNat n ≠ '%' := by
    decide
  have hc := hall c.toNat (toNat_lt_of_isPlain h)
  rw [Char.ofNat_toNat] at hc
  exact hc h

theorem percentEncode_plain (h : ∀ c ∈ s, isPlain c = true) : percentEncode pathSet s = s := by
  induction s with
  | nil => rfl
  | cons c s ih =>
    rw [percentEncode, List.flatMap_cons, (plain_char (h c List.mem_cons_self)).1,
      if_neg Bool.false_ne_true, List.singleton_append]
    exact congrArg (c :: ·) (ih fun d hd => h d (List.mem_cons_of_mem _ hd))

theorem eq_replicate_of_dots (h : ∀ c ∈ s, c ≠ '%') :
    ∀ {n}, dots s = some n → s = List.replicate n '.' := by
  induction s with
  | nil => intro n hn; cases hn; rfl
  | cons c s ih =>
    intro n hn
    by_cases hc : c = '.'
    · subst hc
      rw [dots, Option.map_eq_some_iff] at hn
      obtain ⟨k, hk, rfl⟩ := hn
      rw [ih (fun d hd => h d (List.mem_cons_of_mem _ hd)) hk]
      rfl
    · have hnone : dots (c :: s) = none := by
        rw [dots.eq_def]
        split
        · next heq => cases heq
        · next heq => exact absurd (List.cons.inj heq).1 hc
        · next heq => exact absurd (List.cons.inj heq).1 (h c List.mem_cons_self)
        · rfl
      rw [hnone] at hn
      cases hn

theorem dots_plain (h : Plain s) : dots s ≠ some 2 ∧ dots s ≠ some 1 := by
  have hplain : ∀ c ∈ s, c ≠ '%' := fun c hc => (plain_char (h.1 c hc)).2.2.2.2
  exact ⟨fun htwo => h.2.2 (eq_replicate_of_dots hplain htwo),
    fun hone => h.2.1 (eq_replicate_of_dots hplain hone)⟩

theorem push_plain {ss : List (List Char)} (h : ∀ s ∈ ss, Plain s) :
    ∀ path, push path ss = path ++ ss := by
  induction ss with
  | nil => intro path; rw [push, List.append_nil]
  | cons s more ih =>
    intro path
    have hs := h s List.mem_cons_self
    obtain ⟨htwo, hone⟩ := dots_plain hs
    cases more with
    | nil => rw [push, if_neg htwo, if_neg hone, percentEncode_plain hs.1]
    | cons t more =>
      rw [push, if_neg htwo, if_neg hone, percentEncode_plain hs.1,
        ih fun u hu => h u (List.mem_cons_of_mem _ hu), List.append_assoc]
      · rfl
      · exact List.cons_ne_nil t more

/-- Segments, each behind a slash. -/
def pathText (segments : List (List Char)) : List Char := segments.flatMap ('/' :: ·)

theorem splitOnP_pathText {first : List Char} {more : List (List Char)}
    (h : ∀ s ∈ first :: more, Plain s) :
    (first ++ pathText more).splitOnP isSlash = first :: more := by
  have hfirst : ∀ c ∈ first, isSlash c = false := fun c hc =>
    (plain_char ((h first List.mem_cons_self).1 c hc)).2.1
  induction more generalizing first with
  | nil => rw [pathText, List.flatMap_nil, List.append_nil, List.splitOnP_eq_singleton hfirst]
  | cons s more ih =>
    have hs : ∀ c ∈ s, isSlash c = false := fun c hc =>
      (plain_char ((h s (by simp)).1 c hc)).2.1
    have hcons : pathText (s :: more) = '/' :: (s ++ pathText more) := rfl
    rw [hcons, List.splitOnP_append_cons _ _ (by decide), List.splitOnP_eq_singleton hfirst,
      ih (fun t ht => h t (List.mem_cons_of_mem _ ht)) hs]
    rfl

/-- A path that is a page's: plain, and with no second slash at its front. -/
structure IsPage (segments : List (List Char)) : Prop where
  plain : ∀ s ∈ segments, Plain s
  some : segments ≠ []
  oneSlash : ∀ more, segments = [] :: more → more = []

/-- A query and a fragment, if any. -/
def IsTail (tail : List Char) : Prop := ∀ c rest, tail = c :: rest → endsPath c = true

theorem isBlank_endsPath (h : endsPath c = true) : isBlank c = false := by
  simp only [endsPath, Bool.or_eq_true, beq_iff_eq] at h
  rcases h with rfl | rfl <;> rfl

theorem cleanTail_append {front : List Char} (h : ∀ c ∈ front, isBlank c = false) (s : List Char) :
    cleanTail (front ++ s) = front ++ cleanTail s := by
  induction front with
  | nil => rfl
  | cons c front ih =>
    rw [List.cons_append, cleanTail_solid (h c List.mem_cons_self),
      ih fun d hd => h d (List.mem_cons_of_mem _ hd)]
    rfl

theorem isTail_cleanTail (h : IsTail tail) : IsTail (cleanTail tail) := by
  cases tail with
  | nil => intro c rest heq; cases heq
  | cons c tail =>
    intro d rest heq
    have hc := h c tail rfl
    rw [cleanTail_solid (isBlank_endsPath hc)] at heq
    exact (List.cons.inj heq).1 ▸ hc

theorem takeWhile_front {front : List Char} (hfront : ∀ c ∈ front, endsPath c = false)
    (htail : IsTail tail) : (front ++ tail).takeWhile (fun c => !endsPath c) = front := by
  rw [List.takeWhile_append_of_pos fun c hc => by rw [hfront c hc]; rfl]
  cases tail with
  | nil => rw [List.takeWhile_nil, List.append_nil]
  | cons c tail => rw [List.takeWhile_cons, htail c tail rfl]; exact List.append_nil _

/-- What follows the first slash of a page is a plain character or the tail. -/
theorem IsPage.front {first : List Char} {more : List (List Char)} (hpage : IsPage (first :: more))
    (htail : IsTail tail) {d : Char} (h : first ++ pathText more ++ tail = d :: rest) :
    isSlash d = false := by
  cases first with
  | nil =>
    obtain rfl := hpage.oneSlash more rfl
    have hends := htail d rest h
    simp only [endsPath, Bool.or_eq_true, beq_iff_eq] at hends
    rcases hends with rfl | rfl <;> rfl
  | cons c first =>
    obtain rfl := (List.cons.inj h).1
    exact (plain_char ((hpage.plain _ List.mem_cons_self).1 c List.mem_cons_self)).2.1

/-- A page's path, with any query and fragment, resolves to that page. -/
theorem resolve_page (authority : List Char → Option O) (base : O) {segments : List (List Char)}
    (hpage : IsPage segments) (htail : IsTail tail) :
    ∃ url, resolve authority base (pathText segments ++ tail) = some url ∧ url.origin = base ∧
      url.path = segments := by
  cases segments with
  | nil => exact absurd rfl hpage.some
  | cons first more =>
    have hpath : ∀ c ∈ first ++ pathText more, endsPath c = false ∧ isBlank c = false := by
      intro c hc
      rcases List.mem_append.mp hc with hc | hc
      · have := plain_char ((hpage.plain first List.mem_cons_self).1 c hc)
        exact ⟨this.2.2.1, this.2.2.2.1⟩
      · obtain ⟨s, hs, hc⟩ := List.mem_flatMap.mp hc
        rcases List.mem_cons.mp hc with rfl | hc
        · exact ⟨rfl, rfl⟩
        · have := plain_char ((hpage.plain s (List.mem_cons_of_mem _ hs)).1 c hc)
          exact ⟨this.2.2.1, this.2.2.2.1⟩
    have hclean : clean (pathText (first :: more) ++ tail) =
        '/' :: (first ++ pathText more ++ cleanTail tail) := by
      have hcons : pathText (first :: more) ++ tail = '/' :: (first ++ pathText more ++ tail) := rfl
      rw [hcons, clean_cons rfl, cleanTail_append fun c hc => (hpath c hc).2]
    have hstate : (pathState base (first ++ pathText more ++ cleanTail tail)).path =
        first :: more := by
      rw [pathState_path, takeWhile_front (fun c hc => (hpath c hc).1) (isTail_cleanTail htail),
        splitOnP_pathText hpage.plain, push_plain hpage.plain, List.nil_append]
    refine ⟨_, ?_, pathState_origin base _, hstate⟩
    rw [resolve, hclean]
    dsimp only
    have hslash : isSlash '/' = true := rfl
    rw [if_pos hslash]
    cases hrest : first ++ pathText more ++ cleanTail tail with
    | nil => rfl
    | cons d rest =>
      have hd : isSlash d = false := hpage.front (isTail_cleanTail htail) hrest
      dsimp only
      rw [hd, if_neg Bool.false_ne_true]

end RelativeUrl
