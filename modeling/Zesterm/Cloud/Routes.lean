/-
Zesterm.Cloud.Routes — where a sign-in ends: `safeNext` of the web app's
`routes.ts`, and what `startLogin` and `finishLogin` make of it.

The state of a login is in a signed cookie between the two, and comes back as
it went; what else it holds is left out. `Headers` is the platform's: a value
loses the blanks at its ends, and one with a line break inside, a zero or a
character that is no byte is refused with a throw. There is no redirect then.
-/
import Zesterm.Core.Text
import Zesterm.Lib.RelativeUrl

namespace Zesterm.Cloud.Routes

open RelativeUrl

/-! ## The routes -/

/-- Where to land after signing in: a path, always. -/
def safeNext : Option Str → Str
  | none => ['/']
  | some raw =>
    if raw.isEmpty then ['/']
    else if ¬ ['/'].isPrefixOf raw then ['/']
    else if ['/', '/'].isPrefixOf raw then ['/']
    -- a backslash is normalised to a slash by some browsers
    else if ['/', '\\'].isPrefixOf raw then ['/']
    else raw

def isHttpSpace (c : Char) : Bool := c == '\t' || c == '\n' || c == '\r' || c == ' '

/-- A header's value without the blanks at its ends. -/
def trimValue (s : Str) : Str := (s.dropWhile isHttpSpace).rdropWhile isHttpSpace

def fitsHeader (c : Char) : Bool :=
  c.toNat ≤ 0xFF && c.toNat != 0 && c != '\n' && c != '\r'

/-- `new Headers({ location })`, or the throw. -/
def redirect (location : Str) : Option Str :=
  if (trimValue location).all fitsHeader then some (trimValue location) else none

/-- What a login keeps of `next`. -/
structure OAuthState where
  n : Str
  deriving DecidableEq

def startLogin (next : Option Str) : OAuthState := { n := safeNext next }

/-- The `Location` of a successful sign-in. -/
def finishLogin (state : OAuthState) : Option Str := redirect (safeNext (some state.n))

/-! ## What gets past the checks -/

/-- A text that a slash begins and no second one, as it stands. -/
def Passes (s : Str) : Prop := ∃ t, s = '/' :: t ∧ ∀ c rest, t = c :: rest → isSlash c = false

theorem safeNext_of_passes {s : Str} (h : Passes s) : safeNext (some s) = s := by
  obtain ⟨t, rfl, ht⟩ := h
  cases t with
  | nil => rfl
  | cons c t =>
    have hc := ht c t rfl
    simp only [isSlash, Bool.or_eq_false_iff, beq_eq_false_iff_ne] at hc
    simp [safeNext, List.isPrefixOf, hc.1.symm, hc.2.symm]

theorem safeNext_of_not_passes {s : Str} (h : ¬ Passes s) : safeNext (some s) = ['/'] := by
  rcases s with _ | ⟨a, _ | ⟨b, rest⟩⟩
  · rfl
  · by_cases ha : a = '/'
    · exact absurd ⟨[], by rw [ha], by simp⟩ h
    · simp [safeNext, List.isPrefixOf, Ne.symm ha]
  · by_cases ha : a = '/'
    · subst ha
      by_cases hb : isSlash b = true
      · simp only [isSlash, Bool.or_eq_true, beq_iff_eq] at hb
        rcases hb with rfl | rfl <;> rfl
      · refine absurd ⟨b :: rest, rfl, ?_⟩ h
        rintro c _ ⟨⟩
        simpa using hb
    · simp [safeNext, List.isPrefixOf, Ne.symm ha]

theorem passes_root : Passes ['/'] := ⟨[], rfl, by simp⟩

/-- The second check changes nothing. -/
theorem finishLogin_startLogin (next : Str) :
    finishLogin (startLogin (some next)) = redirect (safeNext (some next)) := by
  rw [finishLogin, startLogin]
  congr 1
  by_cases h : Passes next
  · rw [safeNext_of_passes h, safeNext_of_passes h]
  · rw [safeNext_of_not_passes h, safeNext_of_passes passes_root]

/-- A text that a header carries. -/
def Carried (s : Str) : Prop := ∀ c ∈ trimValue s, fitsHeader c = true

theorem redirect_of_carried {s : Str} (h : Carried s) : redirect s = some (trimValue s) :=
  if_pos (List.all_eq_true.mpr h)

theorem carried_of_redirect {s loc : Str} (h : redirect s = some loc) :
    Carried s ∧ loc = trimValue s := by
  rw [redirect] at h
  split at h
  · next hall => exact ⟨List.all_eq_true.mp hall, (Option.some.inj h).symm⟩
  · cases h

theorem clean_trimValue (s : Str) : clean (trimValue s) = clean s := by
  refine clean_trim (fun c hc => ?_) s
  simp only [isHttpSpace, Bool.or_eq_true, beq_iff_eq] at hc
  rcases hc with ((rfl | rfl) | rfl) | rfl <;> rfl

/-! ## Signing in -/

section SignIn

variable {O : Type} (authority : Str → Option O) (app : O)

/-- Wherever the sign-in ends, it is at the app's own origin. -/
def Stays (next : Str) : Prop :=
  ∀ loc, finishLogin (startLogin (some next)) = some loc →
    ∃ url, resolve authority app loc = some url ∧ url.origin = app

/-- A page is where the sign-in ends, with the query and the fragment. -/
def Lands (next : Str) : Prop :=
  ∀ page tail, IsPage page → IsTail tail → next = pathText page ++ tail →
    ∃ loc url, finishLogin (startLogin (some next)) = some loc ∧
      resolve authority app loc = some url ∧ resolve authority app next = some url ∧
      url.origin = app ∧ url.path = page

/-- A slash, tabs, a second slash, and an authority that is not the app's. -/
def Leaves (next : Str) : Prop :=
  Carried next ∧ ∃ tabs c rest, next = '/' :: (tabs ++ c :: rest) ∧ tabs ≠ [] ∧
    (∀ t ∈ tabs, t = '\t') ∧ isSlash c = true ∧
    authority (authorityText (cleanTail rest)) ≠ some app

/-- A page, with any query and fragment. -/
def NamesPage (next : Str) : Prop :=
  ∃ page tail, IsPage page ∧ IsTail tail ∧ next = pathText page ++ tail

theorem resolve_trimValue (s : Str) : resolve authority app (trimValue s) = resolve authority app s := by
  rw [resolve, resolve, clean_trimValue]

/-- Whatever stands ahead of a character that stays is carried with it. -/
theorem mem_trimValue {c d : Char} (hc : isHttpSpace c = false) {front : Str} (hd : d ∈ front)
    (rest : Str) : d ∈ (front ++ c :: rest).rdropWhile isHttpSpace := by
  induction rest using List.reverseRecOn with
  | nil => rw [List.rdropWhile_concat_neg isHttpSpace _ _ (by simp [hc])]; simp [hd]
  | append_singleton rest e ih =>
    rw [← List.cons_append, ← List.append_assoc, List.rdropWhile_concat]
    split
    · exact ih
    · simp [hd]

theorem isHttpSpace_slash {c : Char} (h : isSlash c = true) : isHttpSpace c = false := by
  simp only [isSlash, Bool.or_eq_true, beq_iff_eq] at h
  rcases h with rfl | rfl <;> rfl

theorem stays_of_not_leaves {next : Str} (h : ¬ Leaves authority app next) :
    Stays authority app next := by
  intro loc hloc
  rw [finishLogin_startLogin] at hloc
  obtain ⟨hcarried, rfl⟩ := carried_of_redirect hloc
  rw [resolve_trimValue]
  by_cases hpasses : Passes next
  · rw [safeNext_of_passes hpasses] at hcarried ⊢
    obtain ⟨t, rfl, ht⟩ := hpasses
    rw [resolve_cons]
    cases hclean : cleanTail t with
    | nil => exact ⟨_, rfl, pathState_origin app []⟩
    | cons d rest =>
      dsimp only
      by_cases hd : isSlash d = true
      · obtain ⟨tabs, after, rfl, htabs, rfl⟩ := exists_of_cleanTail_slash hd hclean
        rw [if_pos hd]
        have hown : authority (authorityText (cleanTail after)) = some app := by
          by_contra hother
          refine h ⟨hcarried, tabs, d, after, rfl, ?_, ?_, hd, hother⟩
          · rintro rfl
            have := ht d after rfl
            rw [hd] at this
            cases this
          · -- a line break ahead of the second slash would be inside the header
            intro u hu
            have htab := htabs u hu
            have hfits := hcarried u (by
              have hmem : u ∈ '/' :: tabs := List.mem_cons_of_mem _ hu
              exact mem_trimValue (isHttpSpace_slash hd) hmem after)
            simp only [isTabOrNewline, Bool.or_eq_true, beq_iff_eq] at htab
            rcases htab with (htab | rfl) | rfl
            · exact htab
            · cases hfits
            · cases hfits
        exact authorityState_of_some hown
      · rw [if_neg hd]
        exact ⟨_, rfl, pathState_origin app _⟩
  · rw [safeNext_of_not_passes hpasses]
    exact ⟨pathState app [], rfl, pathState_origin app []⟩

theorem not_leaves_of_stays {next : Str} (h : Stays authority app next) :
    ¬ Leaves authority app next := by
  rintro ⟨hcarried, tabs, c, rest, rfl, hne, htabs, hc, hother⟩
  have hpasses : Passes ('/' :: (tabs ++ c :: rest)) := by
    refine ⟨_, rfl, fun d more heq => ?_⟩
    obtain ⟨u, tabs, rfl⟩ := List.exists_cons_of_ne_nil hne
    obtain rfl := (List.cons.inj heq).1
    rw [htabs u List.mem_cons_self]
    rfl
  have htabsBlank : ∀ t ∈ tabs, isTabOrNewline t = true := fun t ht => by rw [htabs t ht]; rfl
  have hloc := finishLogin_startLogin ('/' :: (tabs ++ c :: rest))
  rw [safeNext_of_passes hpasses, redirect_of_carried hcarried] at hloc
  obtain ⟨url, hurl, horigin⟩ := h _ hloc
  rw [resolve_trimValue, resolve_cons, cleanTail_slash htabsBlank hc] at hurl
  dsimp only at hurl
  rw [if_pos hc] at hurl
  exact hother (horigin ▸ authority_of_authorityState hurl)

theorem passes_page {page : List Str} (hpage : IsPage page) {tail : Str} (htail : IsTail tail) :
    Passes (pathText page ++ tail) := by
  cases page with
  | nil => exact absurd rfl hpage.some
  | cons first more => exact ⟨first ++ pathText more ++ tail, rfl, fun _ _ h => hpage.front htail h⟩

theorem lands_iff (next : Str) : Lands authority app next ↔ (NamesPage next → Carried next) := by
  constructor
  · rintro h ⟨page, tail, hpage, htail, hnext⟩
    obtain ⟨loc, -, hloc, -⟩ := h page tail hpage htail hnext
    rw [finishLogin_startLogin, safeNext_of_passes (hnext ▸ passes_page hpage htail)] at hloc
    exact (carried_of_redirect hloc).1
  · intro h page tail hpage htail hnext
    obtain ⟨url, hurl, horigin, hpath⟩ := resolve_page authority app hpage htail
    have hcarried := h ⟨page, tail, hpage, htail, hnext⟩
    refine ⟨trimValue next, url, ?_, ?_, ?_, horigin, hpath⟩
    · rw [finishLogin_startLogin, safeNext_of_passes (hnext ▸ passes_page hpage htail),
        redirect_of_carried hcarried]
    · rw [resolve_trimValue, hnext, hurl]
    · rw [hnext, hurl]

/-- A sign-in stays at the app and lands on its pages, exactly when `next`
does not leave by tabs and, for a page, is a text that a header carries. -/
theorem signIn_iff (next : Str) :
    (Stays authority app next ∧ Lands authority app next) ↔
      ¬ Leaves authority app next ∧ (NamesPage next → Carried next) := by
  rw [lands_iff]
  constructor
  · rintro ⟨hstays, hlands⟩
    exact ⟨not_leaves_of_stays authority app hstays, hlands⟩
  · rintro ⟨hleaves, hlands⟩
    exact ⟨stays_of_not_leaves authority app hleaves, hlands⟩

end SignIn

/-- A slash, a tab, and somewhere else. -/
def elsewhere : Str := "/\t/evil.example".toList

/-- It passes every check, and what the browser makes of it is another site. -/
theorem elsewhere_leaves :
    finishLogin (startLogin (some elsewhere)) = some elsewhere ∧
      resolve some "app.example".toList elsewhere =
        some { origin := "evil.example".toList, path := [[]], query := none, fragment := none } ∧
      ¬ Stays some "app.example".toList elsewhere := by
  have hloc : finishLogin (startLogin (some elsewhere)) = some elsewhere := by decide
  have hurl : resolve some "app.example".toList elsewhere =
      some { origin := "evil.example".toList, path := [[]], query := none, fragment := none } := by
    decide
  refine ⟨hloc, hurl, fun h => ?_⟩
  obtain ⟨url, heq, horigin⟩ := h _ hloc
  rw [hurl] at heq
  obtain rfl := Option.some.inj heq
  exact absurd horigin (by decide)

end Zesterm.Cloud.Routes
