/-
Zesterm.Cloud.HttpTheorems — when one call is one HTTP request.

What an exchange writes is the writing of the request it means
(`toUtf8_requestText`), so it reads as that request exactly if every part of
it may be written. The names of headers are checked to be names. Of their
values only CR, LF and NUL are refused, and the path and the authority of an
accepted URL are written unchecked.
-/
import Zesterm.Cloud.Http
import Zesterm.Core.Utf8Theorems

namespace Zesterm

variable {headers : List (Str × Str)} {method : HttpMethod} {body : Option Str}

/-! ## What is meant -/

def headerField (header : Str × Str) : Http.Field := ⟨toUtf8 header.1, toUtf8 header.2⟩

/-- The two headers of a body. -/
def bodyFields : Option Str → List Http.Field
  | some body => [⟨Http.ascii "content-type", Http.ascii "application/json"⟩,
      ⟨Http.ascii "content-length", toUtf8 (showNat (utf8Len body))⟩]
  | none => []

/-- The request a call means. -/
def intended (authority : Str) (method : HttpMethod) (path : Str) (headers : List (Str × Str))
    (body : Option Str) : Http.Request where
  method := toUtf8 method.asStr
  target := toUtf8 path
  fields := ⟨Http.ascii "host", toUtf8 authority⟩ :: (headers.map headerField ++ bodyFields body ++
    [⟨Http.ascii "connection", Http.ascii "close"⟩])
  body := toUtf8 (body.getD [])

/-- `bytes` are that request, and no other. -/
def OneRequest (bytes : List UInt8) (r : Http.Request) : Prop :=
  Http.Reads bytes r ∧ ∀ r', Http.Reads bytes r' → r' = r

/-- The path is made of target characters, no value has a control character in
it or a blank at either end, and no header gives the body another length. -/
structure Sendable (authority path : Str) (headers : List (Str × Str)) (body : Option Str) :
    Prop where
  path : Http.TargetText (toUtf8 path)
  authority : Http.Value (toUtf8 authority)
  values : ∀ h ∈ headers, Http.Value (toUtf8 h.2)
  framing : ∀ h ∈ headers, Http.lower (toUtf8 h.1) ≠ Http.ascii "transfer-encoding"
  length : ∀ h ∈ headers, Http.lower (toUtf8 h.1) = Http.ascii "content-length" →
    Http.Decimal (toUtf8 h.2) (utf8Len (body.getD []))

/-! ## What is written -/

theorem toUtf8_append (s t : Str) : toUtf8 (s ++ t) = toUtf8 s ++ toUtf8 t := List.flatMap_append

/-- The bytes of an ASCII text. -/
theorem toUtf8_eq_map {cs : Str} (h : ∀ c ∈ cs, c.toNat < 0x80) :
    toUtf8 cs = cs.map fun c => UInt8.ofNat c.toNat := by
  induction cs with
  | nil => rfl
  | cons c cs ih =>
    rw [List.forall_mem_cons] at h
    rw [toUtf8_cons, encode_one h.1, ih h.2]
    rfl

theorem toUtf8_ascii {text : String} (h : text.toList.all (fun c => c.toNat < 0x80) = true) :
    toUtf8 text.toList = Http.ascii text :=
  toUtf8_eq_map fun c hc => of_decide_eq_true (List.all_eq_true.mp h c hc)

theorem toUtf8_headerLine (name value : Str) :
    toUtf8 (headerLine name value) = Http.Field.line ⟨toUtf8 name, toUtf8 value⟩ := by
  have hcolon : toUtf8 (':' :: ' ' :: (value ++ ['\r', '\n'])) =
      Http.ascii ": " ++ (toUtf8 value ++ [13, 10]) := by
    rw [toUtf8_cons, toUtf8_cons, toUtf8_append]
    rfl
  rw [headerLine, toUtf8_append, hcolon, Http.Field.line]
  simp only [List.append_assoc]

/-- A name that is let through is a name. -/
theorem token_of_checked {name : Str}
    (h : ¬ (name.isEmpty || !(toUtf8 name).all isHeaderNameByte) = true) :
    Http.Token (toUtf8 name) := by
  simp only [Bool.or_eq_true, not_or, Bool.not_eq_true, Bool.not_eq_false', List.isEmpty_eq_false_iff,
    List.all_eq_true] at h
  refine ⟨?_, h.2⟩
  obtain ⟨c, cs, rfl⟩ := List.exists_cons_of_ne_nil h.1
  rw [toUtf8_cons]
  simp [String.utf8EncodeChar_ne_nil]

theorem headerLines_ok {lines : Str} (h : headerLines headers = .ok lines) :
    toUtf8 lines = (headers.map headerField).flatMap Http.Field.line ∧
      ∀ h ∈ headers, Http.Token (toUtf8 h.1) := by
  induction headers generalizing lines with
  | nil =>
    obtain rfl := Except.ok.inj h
    exact ⟨rfl, nofun⟩
  | cons header headers ih =>
    obtain ⟨name, value⟩ := header
    rw [headerLines] at h
    split at h
    · cases h
    · next hname =>
      split at h
      · cases h
      · split at h
        · next rest hrest =>
          obtain rfl := Except.ok.inj h
          obtain ⟨hlines, htokens⟩ := ih hrest
          refine ⟨?_, List.forall_mem_cons.mpr ⟨token_of_checked hname, htokens⟩⟩
          rw [List.map_cons, List.flatMap_cons, toUtf8_append, toUtf8_headerLine, hlines]
          rfl
        · cases h

theorem toUtf8_bodyLines (body : Option Str) :
    toUtf8 (bodyLines body) = (bodyFields body).flatMap Http.Field.line := by
  cases body with
  | none => rfl
  | some body =>
    rw [bodyLines, toUtf8_append, toUtf8_headerLine, toUtf8_headerLine,
      toUtf8_ascii (by decide), toUtf8_ascii (by decide), toUtf8_ascii (by decide)]
    simp only [bodyFields, List.flatMap_cons, List.flatMap_nil, List.append_nil]

/-- An exchange writes the request it means. -/
theorem toUtf8_requestText {authority path text : Str}
    (h : requestText authority method path headers body = .ok text) :
    toUtf8 text = (intended authority method path headers body).write := by
  unfold requestText at h
  cases hlines : headerLines headers with
  | error e =>
    rw [hlines] at h
    cases h
  | ok lines =>
    rw [hlines] at h
    obtain rfl := Except.ok.inj h
    obtain ⟨hlines, -⟩ := headerLines_ok hlines
    have hspace : ∀ s : Str, toUtf8 (' ' :: s) = [32] ++ toUtf8 s := fun s => rfl
    have hend : ∀ s : Str, toUtf8 ('\r' :: '\n' :: s) = [13, 10] ++ toUtf8 s := fun s => rfl
    have hfields : (intended authority method path headers body).fields.flatMap Http.Field.line =
        toUtf8 (headerLine "host".toList authority) ++ (toUtf8 lines ++ (toUtf8 (bodyLines body) ++
          toUtf8 (headerLine "connection".toList "close".toList))) := by
      rw [hlines, toUtf8_bodyLines, toUtf8_headerLine, toUtf8_headerLine, toUtf8_ascii (by decide),
        toUtf8_ascii (by decide), toUtf8_ascii (by decide)]
      simp only [intended, List.flatMap_cons, List.flatMap_append, List.flatMap_nil, List.append_nil,
        List.append_assoc]
    rw [Http.Request.write, hfields]
    simp only [toUtf8_append, hspace, hend, List.append_assoc, intended]
    rw [@toUtf8_ascii "HTTP/1.1" (by decide)]

/-! ## When it is one request -/

theorem mem_bodyFields {f : Http.Field} (h : f ∈ bodyFields body) :
    f = ⟨Http.ascii "content-type", Http.ascii "application/json"⟩ ∨
      ∃ text, body = some text ∧
        f = ⟨Http.ascii "content-length", toUtf8 (showNat (utf8Len text))⟩ := by
  cases body with
  | none => cases h
  | some text =>
    simp only [bodyFields, List.mem_cons, List.not_mem_nil, or_false] at h
    rcases h with rfl | rfl
    · exact .inl rfl
    · exact .inr ⟨text, rfl, rfl⟩

theorem digit_bounds {n : Nat} {c : Char} (h : c ∈ showNat n) : 48 ≤ c.toNat ∧ c.toNat ≤ 57 := by
  have hdigit : c.isDigit = true := Nat.isDigit_of_mem_toDigits (by decide) (by decide) h
  simp only [Char.isDigit, Bool.and_eq_true, decide_eq_true_eq] at hdigit
  exact ⟨UInt32.le_iff_toNat_le.mp hdigit.1, UInt32.le_iff_toNat_le.mp hdigit.2⟩

theorem toNat_ascii {c : Char} (h : c.toNat < 0x80) : (UInt8.ofNat c.toNat).toNat = c.toNat := by
  rw [UInt8.toNat_ofNat', Nat.mod_eq_of_lt (by omega)]

theorem toUtf8_showNat (n : Nat) : toUtf8 (showNat n) = (showNat n).map fun c => UInt8.ofNat c.toNat :=
  toUtf8_eq_map fun c hc => by
    have := (digit_bounds hc).2
    omega

theorem digits_showNat {n : Nat} {b : UInt8} (h : b ∈ toUtf8 (showNat n)) :
    48 ≤ b.toNat ∧ b.toNat ≤ 57 := by
  rw [toUtf8_showNat] at h
  obtain ⟨c, hc, rfl⟩ := List.mem_map.mp h
  have hbounds := digit_bounds hc
  rw [toNat_ascii (by omega)]
  exact hbounds

/-- A printed number is a number. -/
theorem decimal_showNat (n : Nat) : Http.Decimal (toUtf8 (showNat n)) n := by
  have hne : showNat n ≠ [] := Nat.toDigits_ne_nil
  refine ⟨?_, fun b hb => digits_showNat hb, ?_⟩
  · rw [toUtf8_showNat]
    simpa using hne
  · have hdigits : (showNat n).map (fun c => (UInt8.ofNat c.toNat).toNat - 48) =
        (showNat n).map fun c => c.toNat - '0'.toNat := by
      refine List.map_congr_left fun c hc => ?_
      have hbounds := digit_bounds hc
      rw [toNat_ascii (by omega)]
      rfl
    have hfold := Nat.ofDigitChars_ten_toDigits (n := n)
    rw [Nat.ofDigitChars_eq_foldl] at hfold
    rw [toUtf8_showNat, List.foldl_map,
      ← List.foldl_map (f := fun c : Char => (UInt8.ofNat c.toNat).toNat - 48)
        (g := fun acc d => 10 * acc + d), hdigits, List.foldl_map]
    exact hfold

theorem length_toUtf8 (s : Str) : (toUtf8 s).length = utf8Len s := by
  induction s with
  | nil => rfl
  | cons c s ih =>
    rw [toUtf8_cons, List.length_append, ih, String.length_utf8EncodeChar]
    rfl

theorem value_showNat (n : Nat) : Http.Value (toUtf8 (showNat n)) := by
  have hbyte : ∀ b ∈ toUtf8 (showNat n), Http.IsValueByte b = true ∧ Http.IsBlank b = false := by
    intro b hb
    have hbounds := digits_showNat hb
    refine ⟨?_, ?_⟩
    · simp only [Http.IsValueByte, Bool.or_eq_true, Bool.and_eq_true, decide_eq_true_eq]
      exact .inl (.inl ⟨by omega, by omega⟩)
    · simp only [Http.IsBlank, Bool.or_eq_false_iff, beq_eq_false_iff_ne]
      refine ⟨?_, ?_⟩ <;>
      · rintro rfl
        exact absurd hbounds.1 (by decide)
  exact ⟨fun b hb => (hbyte b hb).1, fun b hb => (hbyte b (List.mem_of_mem_head? hb)).2,
    fun b hb => (hbyte b (List.mem_of_getLast? hb)).2⟩

/-- The request that is meant may be written exactly if its parts may. -/
theorem plain_intended_iff {authority path : Str} (hpath : path.head? = some '/')
    (htokens : ∀ h ∈ headers, Http.Token (toUtf8 h.1)) :
    Http.Plain (intended authority method path headers body) ↔
      Sendable authority path headers body := by
  have hheader : ∀ h ∈ headers,
      headerField h ∈ (intended authority method path headers body).fields := by
    intro h hh
    simp only [intended, List.mem_cons, List.mem_append]
    exact .inr (.inl (.inl (List.mem_map_of_mem hh)))
  have hlength : (intended authority method path headers body).body.length =
      utf8Len (body.getD []) := length_toUtf8 _
  constructor
  · intro h
    refine ⟨h.target.2, (h.fields _ List.mem_cons_self).2, fun hd hhd => (h.fields _ (hheader hd hhd)).2,
      fun hd hhd => h.framed.1 _ (hheader hd hhd), fun hd hhd hname => ?_⟩
    rw [← hlength]
    exact h.framed.2.1 _ (hheader hd hhd) hname
  · intro h
    have hfields : ∀ {P : Http.Field → Prop}, P ⟨Http.ascii "host", toUtf8 authority⟩ →
        (∀ hd ∈ headers, P (headerField hd)) →
        P ⟨Http.ascii "content-type", Http.ascii "application/json"⟩ →
        (∀ text, body = some text →
          P ⟨Http.ascii "content-length", toUtf8 (showNat (utf8Len text))⟩) →
        P ⟨Http.ascii "connection", Http.ascii "close"⟩ →
          ∀ f ∈ (intended authority method path headers body).fields, P f := by
      intro P hhost hheaders htype hlen hclose f hf
      simp only [intended, List.mem_cons, List.mem_append, List.mem_map, List.not_mem_nil,
        or_false] at hf
      rcases hf with rfl | (⟨hd, hhd, rfl⟩ | hf) | rfl
      · exact hhost
      · exact hheaders hd hhd
      · rcases mem_bodyFields hf with rfl | ⟨text, htext, rfl⟩
        · exact htype
        · exact hlen text htext
      · exact hclose
    refine ⟨?_, ⟨?_, h.path⟩, hfields ?_ ?_ ?_ ?_ ?_, hfields ?_ ?_ ?_ ?_ ?_, hfields ?_ ?_ ?_ ?_ ?_, ?_⟩
    · cases method with
      | get =>
        exact (Http.token_of_all (by decide) (by decide) : Http.Token (toUtf8 (HttpMethod.asStr .get)))
      | post =>
        exact (Http.token_of_all (by decide) (by decide) : Http.Token (toUtf8 (HttpMethod.asStr .post)))
    · obtain ⟨rest, rfl⟩ : ∃ rest, path = '/' :: rest := by
        cases path with
        | nil => cases hpath
        | cons c rest => exact ⟨rest, by rw [Option.some.inj hpath]⟩
      rfl
    · exact ⟨(Http.token_of_all (by decide) (by decide) : Http.Token (Http.ascii "host")), h.authority⟩
    · exact fun hd hhd => ⟨htokens hd hhd, h.values hd hhd⟩
    · exact ⟨Http.token_of_all (by decide) (by decide),
        Http.value_of_all (by decide) (by decide) (by decide)⟩
    · exact fun text _ =>
        ⟨(Http.token_of_all (by decide) (by decide) : Http.Token (Http.ascii "content-length")),
          value_showNat _⟩
    · exact ⟨Http.token_of_all (by decide) (by decide),
        Http.value_of_all (by decide) (by decide) (by decide)⟩
    · exact (by decide : Http.lower (Http.ascii "host") ≠ Http.ascii "transfer-encoding")
    · exact h.framing
    · exact (by decide : Http.lower (Http.ascii "content-type") ≠ Http.ascii "transfer-encoding")
    · exact fun _ _ => (by decide : Http.lower (Http.ascii "content-length") ≠
        Http.ascii "transfer-encoding")
    · exact (by decide : Http.lower (Http.ascii "connection") ≠ Http.ascii "transfer-encoding")
    · exact fun hname => absurd hname
        (by decide : Http.lower (Http.ascii "host") ≠ Http.ascii "content-length")
    · intro hd hhd hname
      rw [hlength]
      exact h.length hd hhd hname
    · exact fun hname => absurd hname
        (by decide : Http.lower (Http.ascii "content-type") ≠ Http.ascii "content-length")
    · intro text htext _
      rw [hlength, htext]
      exact decimal_showNat _
    · exact fun hname => absurd hname
        (by decide : Http.lower (Http.ascii "connection") ≠ Http.ascii "content-length")
    · intro hnone
      cases body with
      | none => rfl
      | some text =>
        refine absurd rfl (hnone ⟨Http.ascii "content-length", toUtf8 (showNat (utf8Len text))⟩ ?_)
        simp [intended, bodyFields]

theorem head_dropWhile {rest : Str} (h : '/' ∈ rest) :
    (rest.dropWhile (· != '/')).head? = some '/' := by
  induction rest with
  | nil => cases h
  | cons c rest ih =>
    by_cases hc : c = '/'
    · rw [List.dropWhile_cons_of_neg (by simp [hc]), hc]
      rfl
    · rw [List.dropWhile_cons_of_pos (by simp [hc])]
      exact ih ((List.mem_cons.mp h).resolve_left (Ne.symm hc))

/-- The path of an accepted URL begins with a slash. -/
theorem path_of_parse {url : Str} {e : HttpEndpoint} (h : HttpEndpoint.parse url = .ok e) :
    e.path.head? = some '/' := by
  have hpath : ∀ rest : Str,
      (if rest.contains '/' then rest.dropWhile (· != '/') else ['/']).head? = some '/' := by
    intro rest
    split
    · next hmem => exact head_dropWhile (by simpa using hmem)
    · rfl
  unfold HttpEndpoint.parse at h
  split at h
  · cases h
  · next rest _ =>
    dsimp only at h
    split at h
    · cases h
    split at h
    · cases h
    split at h
    · cases h
    split at h
    · cases h
    split at h
    · cases h
    split at h
    · cases h
    split at h
    · cases h
    obtain rfl := Except.ok.inj h
    exact hpath rest

/-- A call is one request exactly if its parts may be written. -/
theorem oneRequest_iff {url : Str} {e : HttpEndpoint} (hurl : HttpEndpoint.parse url = .ok e)
    {text : Str}
    (htext : requestText (HttpEndpoint.authority e.host e.port) method e.path headers body = .ok
      text) :
    OneRequest (toUtf8 text)
        (intended (HttpEndpoint.authority e.host e.port) method e.path headers body) ↔
      Sendable (HttpEndpoint.authority e.host e.port) e.path headers body := by
  have htokens : ∀ h ∈ headers, Http.Token (toUtf8 h.1) := by
    unfold requestText at htext
    cases hlines : headerLines headers with
    | error err =>
      rw [hlines] at htext
      cases htext
    | ok lines => exact (headerLines_ok hlines).2
  rw [toUtf8_requestText htext, ← plain_intended_iff (path_of_parse hurl) htokens,
    ← Http.reads_write_iff]
  exact ⟨fun h => h.1, fun h => ⟨h, fun r hr => hr.unique h⟩⟩

/-- What an accepted URL and an accepted call are written as is the one request
that is meant exactly if the target is made of target characters, and the
authority and the values have no control character in them and no blank at
either end, and no header frames the body otherwise. -/
theorem one_call_one_request (url : Str) (e : HttpEndpoint) (hurl : HttpEndpoint.parse url = .ok e)
    (method : HttpMethod) (headers : List (Str × Str)) (body : Option Str) (text : Str)
    (htext : requestText (HttpEndpoint.authority e.host e.port) method e.path headers body = .ok text) :
    OneRequest (toUtf8 text)
        (intended (HttpEndpoint.authority e.host e.port) method e.path headers body) ↔
      Sendable (HttpEndpoint.authority e.host e.port) e.path headers body :=
  oneRequest_iff hurl htext

/-- A bearer's POST. -/
theorem one_call_one_request_post : ∃ text,
    requestText ['h'] .post ['/', 'b'] [(['a'], ['B', ' ', 'c'])] (some ['x']) = .ok text ∧
      OneRequest (toUtf8 text)
        (intended ['h'] .post ['/', 'b'] [(['a'], ['B', ' ', 'c'])] (some ['x'])) := by
  have hurl : HttpEndpoint.parse "https://h/b".toList = .ok ⟨['h'], 443, ['/', 'b']⟩ := by decide
  have hsendable : Sendable ['h'] ['/', 'b'] [(['a'], ['B', ' ', 'c'])] (some ['x']) := by
    refine ⟨.byte (by decide) (.byte (by decide) .nil),
      Http.value_of_all (by decide) (by decide) (by decide), ?_, ?_, ?_⟩
    all_goals
      rw [List.forall_mem_singleton]
    · exact Http.value_of_all (by decide) (by decide) (by decide)
    · decide
    · exact fun hname => absurd hname (by decide)
  exact ⟨_, rfl, (one_call_one_request _ _ hurl .post _ _ _ rfl).mpr hsendable⟩

/-- A URL with a request in it. -/
def smuggling : Str := "https://h/a HTTP/1.1\r\nhost: h\r\n\r\nGET /b".toList

theorem smuggled : ∃ e, HttpEndpoint.parse smuggling = .ok e ∧
    ¬ ∀ (url : Str) (e : HttpEndpoint), HttpEndpoint.parse url = .ok e →
      ∀ (method : HttpMethod) (headers : List (Str × Str)) (body : Option Str) (text : Str),
        requestText (HttpEndpoint.authority e.host e.port) method e.path headers body = .ok text →
          OneRequest (toUtf8 text)
            (intended (HttpEndpoint.authority e.host e.port) method e.path headers body) := by
  have hurl : HttpEndpoint.parse smuggling =
      .ok ⟨['h'], 443, "/a HTTP/1.1\r\nhost: h\r\n\r\nGET /b".toList⟩ := by decide
  refine ⟨_, hurl, fun hall => ?_⟩
  have hone := hall smuggling _ hurl .get [] none _ rfl
  have hpath := ((oneRequest_iff hurl rfl).mp hone).path
  exact absurd (by decide) hpath.space_notMem

end Zesterm
