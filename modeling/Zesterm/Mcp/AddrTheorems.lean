/-
Zesterm.Mcp.AddrTheorems — an address and the machine it names.

`host` asks the labels first and the hex after, and each of the two answers
only with a sole match (`host_eq_ok_iff`). What falls between them is a label
that spells the hex of another machine: it is matched first, and alone.
`names_iff` says that this is the only way an address goes wrong, for the
addresses this server prints and for any string.
-/
import Zesterm.Mcp.Addr

namespace Zesterm.Mcp

/-! ## Numbers and hex -/

theorem digitValue_digitChar {n : Nat} (h : n < 10) : digitValue 10 (Nat.digitChar n) = some n := by
  interval_cases n <;> rfl

theorem parseDigits_showNat (n : Nat) : parseDigits 10 (showNat n) = some n := by
  induction n using Nat.strongRecOn with
  | ind n ih =>
    unfold showNat parseDigits at *
    rw [Nat.toDigits_eq_if (by decide)]
    split
    · next hlt => simp [digitValue_digitChar hlt]
    · next hge =>
      have hdiv : n / 10 < n := by omega
      have hmod : n % 10 < 10 := by omega
      rw [List.foldlM_append, ih (n / 10) hdiv]
      simp only [Option.bind_eq_bind, Option.bind_some, List.foldlM_cons, List.foldlM_nil,
        digitValue_digitChar hmod, Option.map_some, Option.pure_def]
      congr 1
      omega

theorem isDigit_showNat {n : Nat} {c : Char} (h : c ∈ showNat n) : c.isDigit = true :=
  Nat.isDigit_of_mem_toDigits (by decide) (by decide) h

/-- What is printed is read back. -/
theorem parseUnsigned_showNat {n bound : Nat} (h : n ≤ bound) :
    parseUnsigned bound (showNat n) = some n := by
  have hplain : ∀ rest, showNat n ≠ '+' :: rest := by
    intro rest heq
    have hdigit := isDigit_showNat (n := n) (heq ▸ List.mem_cons_self)
    exact absurd hdigit (by decide)
  have hne : showNat n ≠ [] := Nat.toDigits_ne_nil
  have hread := parseDigits_showNat n
  unfold parseUnsigned parseRadix
  generalize showNat n = digits at *
  cases digits with
  | nil => exact absurd rfl hne
  | cons c cs =>
    have hc : c ≠ '+' := fun hc => hplain cs (hc ▸ rfl)
    simp [hread, h]

theorem rsplitOnce_append {sep : Char} {after : Str} (h : sep ∉ after) (before : Str) :
    rsplitOnce sep (before ++ sep :: after) = some (before, after) := by
  have hnone : rsplitOnce sep after = none := by
    induction after with
    | nil => rfl
    | cons c cs ih =>
      have hc : c ≠ sep := fun hc => h (hc ▸ List.mem_cons_self)
      rw [rsplitOnce, ih fun hmem => h (List.mem_cons_of_mem c hmem)]
      simp [hc]
  induction before with
  | nil => simp [rsplitOnce, hnone]
  | cons c before ih => rw [List.cons_append, rsplitOnce, ih]

theorem short_begins (host : HostId) : host.short <+: hex32 host :=
  (List.take_prefix 4 host.bytes.toList).flatMap _

theorem toLower_digitChar {n : Nat} (h : n < 16) : (Nat.digitChar n).toLower = Nat.digitChar n := by
  interval_cases n <;> rfl

theorem toAsciiLowercase_hex (bytes : List UInt8) :
    toAsciiLowercase (hexEncode bytes) = hexEncode bytes := by
  unfold toAsciiLowercase hexEncode
  rw [List.map_flatMap]
  congr 1
  funext b
  have hb := b.toNat_lt
  rw [List.map_cons, List.map_cons, List.map_nil, toLower_digitChar (by omega),
    toLower_digitChar (by omega)]

/-! ## What is known -/

namespace Resolver

variable {r : Resolver} {host : HostId}

/-- A host this process has listed. -/
def Learned (r : Resolver) (host : HostId) : Prop := ∃ label, r.known.lookup host = some label

/-- A host whose label is what was asked, case aside. -/
def Labelled (r : Resolver) (asked : Str) (host : HostId) : Prop :=
  ∃ label, r.known.lookup host = some label ∧ toAsciiLowercase label = toAsciiLowercase asked

/-- A host whose hex begins with what was asked. -/
def Begins (r : Resolver) (asked : Str) (host : HostId) : Prop :=
  r.Learned host ∧ toAsciiLowercase asked <+: hex32 host

/-- The only one of its kind. -/
def Sole (p : HostId → Prop) (host : HostId) : Prop := p host ∧ ∀ other, p other → other = host

theorem mem_values {label : Str} : (host, label) ∈ r.values ↔ r.known.lookup host = some label := by
  unfold values
  rw [(List.perm_insertionSort _ _).mem_iff, ← Option.mem_def, AList.mem_lookup_iff, List.mem_map]
  constructor
  · rintro ⟨⟨h, l⟩, hmem, heq⟩
    obtain ⟨rfl, rfl⟩ := Prod.mk.inj heq
    exact hmem
  · exact fun hmem => ⟨⟨host, label⟩, hmem, rfl⟩

theorem nodup_values (r : Resolver) : (r.values.map Prod.fst).Nodup := by
  unfold values
  refine (((List.perm_insertionSort _ _).map Prod.fst).nodup_iff).mpr ?_
  rw [List.map_map]
  exact r.known.nodupKeys

/-- No host, one host, or two that are not the same. -/
inductive Hits (r : Resolver) (p : HostId → Prop) : List (HostId × Str) → Prop
  | none (h : ∀ host, ¬p host) : Hits r p []
  | sole (hit : HostId × Str) (h : Sole p hit.1) : Hits r p [hit]
  | many (first second : HostId × Str) (rest : List (HostId × Str)) (h : p first.1) (h' : p second.1)
      (hne : first.1 ≠ second.1) : Hits r p (first :: second :: rest)

theorem hits {p : HostId → Prop} {test : HostId × Str → Bool}
    (h : ∀ host, p host ↔ ∃ label, r.known.lookup host = some label ∧ test (host, label) = true) :
    Hits r p (r.values.filter test) := by
  have hmem (host : HostId) : p host ↔ ∃ label, (host, label) ∈ r.values.filter test := by
    rw [h host]
    simp only [List.mem_filter, mem_values]
  have hnodup : ((r.values.filter test).map Prod.fst).Nodup :=
    (List.filter_sublist.map Prod.fst).nodup r.nodup_values
  generalize r.values.filter test = found at hmem hnodup
  rcases found with _ | ⟨first, _ | ⟨second, rest⟩⟩
  · refine .none fun host hp => ?_
    obtain ⟨label, hlabel⟩ := (hmem host).mp hp
    exact List.not_mem_nil hlabel
  · refine .sole first ⟨(hmem first.1).mpr ⟨first.2, List.mem_cons_self⟩, fun other hp => ?_⟩
    obtain ⟨label, hlabel⟩ := (hmem other).mp hp
    exact congrArg Prod.fst (List.mem_singleton.mp hlabel)
  · refine .many first second rest ((hmem _).mpr ⟨first.2, by simp⟩)
      ((hmem _).mpr ⟨second.2, by simp⟩) fun heq => ?_
    rw [List.map_cons, List.map_cons, heq] at hnodup
    simp at hnodup

/-! ## What is answered -/

theorem labels (asked : Str) : Hits r (r.Labelled asked)
    (r.values.filter fun h => toAsciiLowercase h.2 = toAsciiLowercase asked) :=
  hits fun host => by simp [Labelled]

theorem prefixes (asked : Str) : Hits r (r.Begins asked)
    (r.values.filter fun h => (toAsciiLowercase asked).isPrefixOf (hex32 h.1)) :=
  hits fun host => by simp [Begins, Learned]

/-- A host is answered when it is the only one of its label, or no label fits
and it is the only one of its hex. -/
theorem host_eq_ok_iff {asked : Str} :
    r.host asked = .ok host ↔ Sole (r.Labelled asked) host ∨
      (∀ other, ¬r.Labelled asked other) ∧ Sole (r.Begins asked) host := by
  have hlabels := labels (r := r) asked
  have hprefixes := prefixes (r := r) asked
  unfold Resolver.host
  dsimp only
  generalize (r.values.filter fun h => toAsciiLowercase h.2 = toAsciiLowercase asked) = byLabel
    at hlabels
  generalize (r.values.filter fun h => (toAsciiLowercase asked).isPrefixOf (hex32 h.1)) = byHex
    at hprefixes
  cases hlabels with
  | none hno =>
    have hsole : ¬Sole (r.Labelled asked) host := fun h => hno host h.1
    rw [or_iff_right hsole, and_iff_right hno]
    cases hprefixes with
    | none hno => simp [Sole, hno]
    | sole hit hhit =>
      dsimp only
      rw [Except.ok.injEq]
      constructor
      · rintro rfl
        exact hhit
      · exact fun h => (h.2 hit.1 hhit.1)
    | many first second rest h h' hne =>
      refine iff_of_false (by simp) fun hs => hne ?_
      rw [hs.2 _ h, hs.2 _ h']
  | sole hit hhit =>
    have hsome : ¬∀ other, ¬r.Labelled asked other := fun hno => hno hit.1 hhit.1
    dsimp only
    rw [or_iff_left fun h => hsome h.1, Except.ok.injEq]
    constructor
    · rintro rfl
      exact hhit
    · exact fun h => (h.2 hit.1 hhit.1)
  | many first second rest h h' hne =>
    refine iff_of_false (by simp) ?_
    rintro (hs | hs)
    · exact hne ((hs.2 _ h).trans (hs.2 _ h').symm)
    · exact hs.1 first.1 h

/-- When it is not, some hosts fit or none does. -/
theorem host_cases (r : Resolver) (asked : Str) :
    (∃ host, r.host asked = .ok host) ∨
      (∃ count candidates, r.host asked = .error (.ambiguousHost asked count candidates)) ∨
      (∃ known, r.host asked = .error (.unknownHost asked known)) ∧
        ∀ host, ¬r.Labelled asked host ∧ ¬r.Begins asked host := by
  have hlabels := labels (r := r) asked
  have hprefixes := prefixes (r := r) asked
  unfold Resolver.host
  dsimp only
  generalize (r.values.filter fun h => toAsciiLowercase h.2 = toAsciiLowercase asked) = byLabel
    at hlabels
  generalize (r.values.filter fun h => (toAsciiLowercase asked).isPrefixOf (hex32 h.1)) = byHex
    at hprefixes
  cases hlabels with
  | none hno =>
    cases hprefixes with
    | none hno' => exact .inr (.inr ⟨⟨_, rfl⟩, fun host => ⟨hno host, hno' host⟩⟩)
    | sole hit hhit => exact .inl ⟨_, rfl⟩
    | many first second rest h h' hne => exact .inr (.inl ⟨_, _, rfl⟩)
  | sole hit hhit => exact .inl ⟨_, rfl⟩
  | many first second rest h h' hne => exact .inr (.inl ⟨_, _, rfl⟩)

/-! ## Addresses -/

/-- What an address asks for, its session number being one. -/
def Asks (s hostPart : Str) (session : Nat) : Prop :=
  ∃ sessionPart, rsplitOnce ':' s = some (hostPart, sessionPart) ∧ hostPart ≠ [] ∧
    parseUnsigned u64Max sessionPart = some session

theorem resolve_of_asks {s hostPart : Str} {session : Nat} (h : Asks s hostPart session) :
    r.resolve s = (r.host hostPart).map fun host => ⟨host, UInt64.ofNat session⟩ := by
  obtain ⟨sessionPart, hsplit, hne, hparse⟩ := h
  have hempty : ¬hostPart.isEmpty = true := by simpa using hne
  unfold resolve
  rw [hsplit]
  dsimp only
  rw [if_neg hempty, hparse]
  cases r.host hostPart <;> rfl

theorem asks_of_resolve {s : Str} {addr : SessionAddr} (h : r.resolve s = .ok addr) :
    ∃ hostPart session, Asks s hostPart session ∧ r.host hostPart = .ok addr.host := by
  unfold resolve at h
  split at h
  · exact absurd h (by simp)
  · next hostPart sessionPart hsplit =>
    split at h
    · exact absurd h (by simp)
    · next hempty =>
      split at h
      · exact absurd h (by simp)
      · next session hparse =>
        split at h
        · exact absurd h (by simp)
        · next host hhost =>
          have haddr := Except.ok.inj h
          subst haddr
          exact ⟨hostPart, session, ⟨sessionPart, hsplit, by simpa using hempty, hparse⟩, hhost⟩

theorem short_ne_nil (host : HostId) : host.short ≠ [] := by
  intro h
  have hlen := congrArg List.length h
  simp [HostId.short, hexEncode] at hlen

theorem asks_format (addr : SessionAddr) :
    Asks (format addr) addr.host.short addr.session.toNat := by
  have hcolon : ':' ∉ showNat addr.session.toNat := fun hmem =>
    absurd (isDigit_showNat hmem) (by decide)
  have hbound : addr.session.toNat ≤ u64Max := Nat.le_sub_one_of_lt addr.session.toNat_lt
  exact ⟨_, rsplitOnce_append hcolon _, short_ne_nil addr.host, parseUnsigned_showNat hbound⟩

/-- The address that was printed, or a question which was meant. -/
def RoundTrips (r : Resolver) (addr : SessionAddr) : Prop :=
  r.resolve (format addr) = .ok addr ∨
    ∃ asked count candidates,
      r.resolve (format addr) = .error (.ambiguousHost asked count candidates)

/-- A host that is answered fits what was asked, and no other does. -/
def Names (r : Resolver) (s : Str) : Prop :=
  ∀ addr, r.resolve s = .ok addr → ∃ hostPart sessionPart,
    rsplitOnce ':' s = some (hostPart, sessionPart) ∧
      Sole (fun host => r.Labelled hostPart host ∨ r.Begins hostPart host) addr.host

theorem begins_short (h : r.Learned host) : r.Begins host.short host := by
  refine ⟨h, ?_⟩
  rw [HostId.short, toAsciiLowercase_hex]
  exact short_begins host

theorem roundTrips_iff {addr : SessionAddr} (hlearned : r.Learned addr.host) :
    RoundTrips r addr ↔ ∀ host, Sole (r.Labelled addr.host.short) host → host = addr.host := by
  have hresolve := resolve_of_asks (r := r) (asks_format addr)
  have hsession : UInt64.ofNat addr.session.toNat = addr.session := UInt64.ofNat_toNat
  rw [hsession] at hresolve
  unfold RoundTrips
  rw [hresolve]
  constructor
  · rintro (hok | ⟨asked, count, candidates, herror⟩) host hsole
    · rw [host_eq_ok_iff.mpr (.inl hsole)] at hok
      exact congrArg SessionAddr.host (Except.ok.inj hok)
    · rw [host_eq_ok_iff.mpr (.inl hsole)] at herror
      exact absurd herror (by simp [Except.map])
  · intro hall
    rcases host_cases r addr.host.short with ⟨host, hhost⟩ | ⟨count, candidates, herror⟩ | ⟨-, hnone⟩
    · refine .inl ?_
      have hsame : host = addr.host := by
        rcases host_eq_ok_iff.mp hhost with hsole | ⟨-, hsole⟩
        · exact hall host hsole
        · exact (hsole.2 _ (begins_short hlearned)).symm
      rw [hhost, hsame]
      rfl
    · exact .inr ⟨_, count, candidates, by rw [herror]; rfl⟩
    · exact absurd (begins_short hlearned) (hnone addr.host).2

theorem names_of_sole {s : Str}
    (h : ∀ hostPart session, Asks s hostPart session → ∀ host, Sole (r.Labelled hostPart) host →
      ∀ other, r.Begins hostPart other → other = host) : Names r s := by
  intro addr hok
  obtain ⟨hostPart, session, hasks, hhost⟩ := asks_of_resolve hok
  obtain ⟨sessionPart, hsplit, -⟩ := id hasks
  refine ⟨hostPart, sessionPart, hsplit, ?_⟩
  rcases host_eq_ok_iff.mp hhost with hsole | ⟨hno, hsole⟩
  · refine ⟨.inl hsole.1, fun other hother => ?_⟩
    rcases hother with hother | hother
    · exact hsole.2 other hother
    · exact h hostPart session hasks _ hsole other hother
  · refine ⟨.inr hsole.1, fun other hother => ?_⟩
    rcases hother with hother | hother
    · exact absurd hother (hno other)
    · exact hsole.2 other hother

theorem sole_of_names {s : Str} (h : Names r s) {hostPart : Str} {session : Nat}
    (hasks : Asks s hostPart session) (hsole : Sole (r.Labelled hostPart) host) {other : HostId}
    (hother : r.Begins hostPart other) : other = host := by
  have hok : r.resolve s = .ok ⟨host, UInt64.ofNat session⟩ := by
    rw [resolve_of_asks hasks, host_eq_ok_iff.mpr (.inl hsole)]
    rfl
  obtain ⟨hostPart', sessionPart, hsplit, -, honly⟩ := h _ hok
  obtain ⟨sessionPart', hsplit', -⟩ := hasks
  obtain ⟨rfl, -⟩ := Prod.mk.inj (Option.some.inj (hsplit'.symm.trans hsplit))
  exact honly other (.inr hother)

/-- What the machines of a list call themselves. -/
def learnAll (calls : List (HostId × Str)) : Resolver :=
  calls.foldl (fun r call => r.learn call.1 call.2) {}

/-- A printed address names its machine unless its short id is the label of
another alone; and any address names what it says unless a machine that
alone has the label is answered where the hex of another fits. -/
theorem names_iff (calls : List (HostId × Str)) :
    (∀ addr : SessionAddr, (learnAll calls).Learned addr.host →
      (RoundTrips (learnAll calls) addr ↔
        ∀ host, Sole ((learnAll calls).Labelled addr.host.short) host → host = addr.host)) ∧
    ∀ s, Names (learnAll calls) s ↔ ∀ hostPart session, Asks s hostPart session →
      ∀ host, Sole ((learnAll calls).Labelled hostPart) host →
        ∀ other, (learnAll calls).Begins hostPart other → other = host := by
  refine ⟨fun addr hlearned => roundTrips_iff hlearned, fun s => ⟨fun h => ?_, names_of_sole⟩⟩
  exact fun hostPart session hasks host hsole other hother => sole_of_names h hasks hsole hother

def andyWin : HostId := ⟨Vector.replicate 32 0x2e⟩
def andyMac : HostId := ⟨Vector.replicate 32 0xab⟩

/-- A machine alone. -/
theorem names_andyWin :
    RoundTrips (learnAll [(andyWin, "andy-win".toList)]) ⟨andyWin, 7⟩ := by
  have hlearned : (learnAll [(andyWin, "andy-win".toList)]).Learned andyWin :=
    ⟨"andy-win".toList, by decide⟩
  refine ((names_iff [(andyWin, "andy-win".toList)]).1 ⟨andyWin, 7⟩ hlearned).mpr
    fun host hsole => ?_
  obtain ⟨label, hlabel, -⟩ := hsole.1
  by_contra hne
  have hnone : (learnAll [(andyWin, "andy-win".toList)]).known.lookup host = none :=
    AList.lookup_insert_ne hne
  rw [hnone] at hlabel
  exact absurd hlabel (by simp)

/-- A machine that calls itself by the short id of another. -/
theorem label_takes_address :
    (learnAll [(andyWin, "andy-win".toList), (andyMac, "2e2e2e2e".toList)]).resolve
        (format ⟨andyWin, 7⟩) = .ok ⟨andyMac, 7⟩ ∧
      ¬∀ (calls : List (HostId × Str)) (addr : SessionAddr), (learnAll calls).Learned addr.host →
        RoundTrips (learnAll calls) addr ∧ ∀ s, Names (learnAll calls) s := by
  have hmac : (learnAll [(andyWin, "andy-win".toList), (andyMac, "2e2e2e2e".toList)]).resolve
      (format ⟨andyWin, 7⟩) = .ok ⟨andyMac, 7⟩ := by decide
  refine ⟨hmac, fun hall => ?_⟩
  have hlearned : (learnAll [(andyWin, "andy-win".toList), (andyMac, "2e2e2e2e".toList)]).Learned
      andyWin := ⟨"andy-win".toList, by decide⟩
  rcases (hall _ ⟨andyWin, 7⟩ hlearned).1 with hok | ⟨asked, count, candidates, herror⟩
  · rw [hmac] at hok
    exact absurd hok (by decide)
  · rw [hmac] at herror
    exact absurd herror (by simp)

end Resolver

end Zesterm.Mcp
