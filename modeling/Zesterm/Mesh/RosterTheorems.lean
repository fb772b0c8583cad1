/-
Zesterm.Mesh.RosterTheorems — when a host is shown as gone.

A row that is away has no endpoints, and a row that was unreachable comes
back only on a successful dial or a changed claim (`awayEmpty_step`,
`returns_step`). The index of names remembers every name a host ever
announced under: `Indexed` says that a name leads to the host that last
announced under it, whatever name that host has announced under since. So a
goodbye for a name its host has left takes the host down, unless the row is
down already, and `shown_iff` says that a run shows hosts as gone only when
they are exactly when every such goodbye finds the row away.
-/
import Zesterm.Mesh.Roster

namespace Zesterm

/-! ## What was announced -/

/-- The host and the name of an announcement that is taken in. -/
def RosterCall.announces (localHost : HostId) : RosterCall → Option (HostId × Str)
  | .apply (.resolved record) _ =>
    (record.claim.filter fun peer => peer.host ≠ localHost).map fun peer =>
      (peer.host, record.fullname)
  | _ => none

/-- The announcements among the calls, the latest first. -/
def announcements (localHost : HostId) (calls : List RosterCall) : List (HostId × Str) :=
  calls.reverse.filterMap (RosterCall.announces localHost)

/-- The name a host last announced under. -/
def nameOf (localHost : HostId) (calls : List RosterCall) (host : HostId) : Option Str :=
  ((announcements localHost calls).find? fun a => a.1 = host).map Prod.snd

/-- The host that last announced under a name. -/
def announcerOf (localHost : HostId) (calls : List RosterCall) (name : Str) : Option HostId :=
  ((announcements localHost calls).find? fun a => a.2 = name).map Prod.fst

/-- The host announced under the name and has announced under another one
since. -/
def Left (localHost : HostId) (calls : List RosterCall) (name : Str) (host : HostId) : Prop :=
  (host, name) ∈ announcements localHost calls ∧ nameOf localHost calls host ≠ some name

instance (localHost : HostId) (calls : List RosterCall) (name : Str) (host : HostId) :
    Decidable (Left localHost calls name host) :=
  inferInstanceAs (Decidable (_ ∧ _))

theorem announcements_snoc (localHost : HostId) (calls : List RosterCall) (c : RosterCall) :
    announcements localHost (calls ++ [c]) =
      (c.announces localHost).toList ++ announcements localHost calls := by
  unfold announcements
  rw [List.reverse_append, List.reverse_singleton, List.singleton_append, List.filterMap_cons]
  cases c.announces localHost <;> rfl

theorem announcerOf_snoc (localHost : HostId) (calls : List RosterCall) (c : RosterCall)
    (name : Str) :
    announcerOf localHost (calls ++ [c]) name =
      match c.announces localHost with
      | some a => if a.2 = name then some a.1 else announcerOf localHost calls name
      | none => announcerOf localHost calls name := by
  unfold announcerOf
  rw [announcements_snoc]
  cases c.announces localHost with
  | none => rfl
  | some a =>
    simp only [Option.toList_some, List.singleton_append, List.find?_cons]
    by_cases hname : a.2 = name <;> simp [hname]

/-! ## What a call does -/

namespace Roster

variable (r : Roster)

/-- A host's row. -/
def row (r : Roster) (host : HostId) : Option PeerRecord := r.byHost.lookup host

@[simp] theorem row_setRow (host : HostId) (record : PeerRecord) (h : HostId) :
    (r.setRow host record).row h = if h = host then some record else r.row h :=
  Table.lookup_insert_eq host h record r.byHost

/-- What an announcement of a host leaves in its row. -/
def announcedRow (before : Option PeerRecord) (peer : Peer) (now : Instant) : PeerRecord :=
  match before with
  | some existing =>
    if existing.presence = .unreachable ∧ existing.peer = peer then
      { existing with lastSeen := some now }
    else { peer, presence := .online, lastSeen := some now }
  | none => { peer, presence := .online, lastSeen := some now }

/-- What a dial leaves in a row. -/
def dialledRow (record : PeerRecord) (connected : Bool) (now : Instant) : PeerRecord :=
  if connected then
    { record with
      presence := if record.presence = .unreachable then .online else record.presence
      lastSeen := some now }
  else { record with presence := if record.presence = .online then .unreachable else record.presence }

/-- A row after a call: what each call does to the row of one host. -/
def rowAfter (r : Roster) (host : HostId) : RosterCall → Option PeerRecord
  | .apply (.resolved record) now =>
    match record.claim with
    | some peer =>
      if peer.host ≠ r.localHost ∧ host = peer.host then
        some (announcedRow (r.row host) peer now)
      else r.row host
    | none => r.row host
  | .apply (.removed name) _ =>
    if r.byFullname.lookup name = some host then (r.row host).map PeerRecord.gone else r.row host
  | .sweep now maxAge =>
    (r.row host).map fun record => if record.stale now maxAge then record.gone else record
  | .reportDial dialled connected now =>
    if host = dialled then (r.row host).map fun record => dialledRow record connected now
    else r.row host

theorem gone_of_away {record : PeerRecord} (haway : record.presence = .away)
    (hempty : record.peer.endpoints = []) : record.gone = record := by
  obtain ⟨⟨host, label, endpoints⟩, presence, lastSeen⟩ := record
  obtain rfl : presence = .away := haway
  obtain rfl : endpoints = [] := hempty
  rfl

theorem row_resolved (record : ResolvedRecord) (now : Instant) (host : HostId) :
    (r.resolved record now).1.row host = r.rowAfter host (.apply (.resolved record) now) := by
  simp only [resolved, rowAfter]
  cases record.claim with
  | none => rfl
  | some peer =>
    dsimp only
    by_cases hself : peer.host = r.localHost
    · simp only [hself, if_true, ne_eq, not_true_eq_false, false_and, if_false]
      rfl
    · simp only [hself, if_false, ne_eq, not_false_eq_true, true_and]
      by_cases hhost : host = peer.host
      · subst hhost
        simp only [if_true, row, announcedRow]
        cases hrow : r.byHost.lookup peer.host with
        | none => exact (row_setRow _ _ _ _).trans (if_pos rfl)
        | some existing =>
          dsimp only
          split
          · exact (row_setRow _ _ _ _).trans (if_pos rfl)
          · exact (row_setRow _ _ _ _).trans (if_pos rfl)
      · rw [if_neg hhost]
        cases hrow : r.byHost.lookup peer.host with
        | none => exact (row_setRow _ _ _ _).trans (if_neg hhost)
        | some existing =>
          dsimp only
          split
          · exact (row_setRow _ _ _ _).trans (if_neg hhost)
          · exact (row_setRow _ _ _ _).trans (if_neg hhost)

theorem row_removed (name : Str) (now : Instant) (host : HostId) :
    (r.removed name).1.row host = r.rowAfter host (.apply (.removed name) now) := by
  simp only [removed, rowAfter]
  cases hname : r.byFullname.lookup name with
  | none => rfl
  | some named =>
    simp only [Option.some.injEq]
    by_cases hhost : named = host
    · subst hhost
      rw [if_pos rfl]
      simp only [row]
      cases hrow : r.byHost.lookup named with
      | none => exact hrow
      | some record =>
        dsimp only [Option.map_some]
        split
        · next haway => rw [gone_of_away haway.1 haway.2]; exact hrow
        · exact (row_setRow _ _ _ _).trans (if_pos rfl)
    · rw [if_neg hhost]
      cases hrow : r.byHost.lookup named with
      | none => rfl
      | some record =>
        dsimp only
        split
        · rfl
        · exact (row_setRow _ _ _ _).trans (if_neg (Ne.symm hhost))

theorem row_reportDial (dialled : HostId) (connected : Bool) (now : Instant) (host : HostId) :
    (r.reportDial dialled connected now).1.row host =
      r.rowAfter host (.reportDial dialled connected now) := by
  simp only [reportDial, rowAfter]
  by_cases hhost : host = dialled
  · subst hhost
    rw [if_pos rfl]
    simp only [row]
    cases hrow : r.byHost.lookup host with
    | none => exact hrow
    | some record =>
      cases connected with
      | true | false =>
        refine (row_setRow _ _ _ _).trans ((if_pos rfl).trans ?_)
        simp [dialledRow]
  · rw [if_neg hhost]
    cases hrow : r.byHost.lookup dialled with
    | none => rfl
    | some record =>
      cases connected with
      | true | false => exact (row_setRow _ _ _ _).trans (if_neg hhost)

theorem row_step (c : RosterCall) (host : HostId) : (r.step c).1.row host = r.rowAfter host c := by
  cases c with
  | apply observation now =>
    cases observation with
    | resolved record => exact row_resolved r record now host
    | removed name => exact row_removed r name now host
  | sweep now maxAge => exact Table.lookup_mapWithKey _ _ _
  | reportDial dialled connected now => exact row_reportDial r dialled connected now host

theorem localHost_step (c : RosterCall) : (r.step c).1.localHost = r.localHost := by
  cases c with
  | apply observation now =>
    cases observation with
    | resolved record =>
      simp only [step, apply, resolved]
      cases record.claim with
      | none => rfl
      | some peer =>
        dsimp only
        split
        · rfl
        · split
          · split <;> rfl
          · rfl
    | removed name =>
      simp only [step, apply, removed]
      split
      · rfl
      · split
        · rfl
        · split <;> rfl
  | sweep now maxAge => rfl
  | reportDial dialled connected now =>
    simp only [step, reportDial]
    split
    · rfl
    · split <;> rfl

/-- Only an announcement that is taken in is put in the index. -/
theorem byFullname_step (c : RosterCall) (name : Str) :
    (r.step c).1.byFullname.lookup name =
      match c.announces r.localHost with
      | some a => if a.2 = name then some a.1 else r.byFullname.lookup name
      | none => r.byFullname.lookup name := by
  cases c with
  | apply observation now =>
    cases observation with
    | resolved record =>
      simp only [step, apply, resolved, RosterCall.announces]
      cases record.claim with
      | none => rfl
      | some peer =>
        by_cases hself : peer.host = r.localHost
        · simp [hself, Option.filter_some]
        · have hinsert := Table.lookup_insert_eq record.fullname name peer.host r.byFullname
          simp only [hself, if_false, ne_eq, not_false_eq_true, decide_true, Option.filter_some,
            if_true, Option.map_some, eq_comm (a := record.fullname)]
          rw [← hinsert]
          split
          · split <;> rfl
          · rfl
    | removed name' =>
      simp only [step, apply, removed, RosterCall.announces]
      split
      · rfl
      · split
        · rfl
        · split <;> rfl
  | sweep now maxAge => rfl
  | reportDial dialled connected now =>
    simp only [step, reportDial, RosterCall.announces]
    split
    · rfl
    · split <;> rfl

/-! ## The laws -/

/-- A row that is away has no endpoints. -/
def AwayEmpty (r : Roster) : Prop :=
  ∀ host record, r.row host = some record → record.presence = .away → record.peer.endpoints = []

/-- A call that brings an unreachable row back online is a successful dial,
or an announcement of another claim than the row holds. -/
def Returns (r : Roster) (c : RosterCall) : Prop :=
  ∀ host before after, r.row host = some before → (r.step c).1.row host = some after →
    before.presence = .unreachable → after.presence = .online →
    (∃ now, c = .reportDial host true now) ∨
      ∃ record peer now, c = .apply (.resolved record) now ∧ record.claim = some peer ∧
        peer.host = host ∧ peer ≠ before.peer

/-- What a row shows: how present the host is and how to reach it. -/
def shown (r : Roster) (host : HostId) : Option (Presence × List Endpoint) :=
  (r.row host).map fun record => (record.presence, record.peer.endpoints)

/-- A goodbye for a name changes nothing that is shown of a host that has
left the name. -/
def Harmless (before : List RosterCall) (r : Roster) (c : RosterCall) : Prop :=
  ∀ name now, c = .apply (.removed name) now →
    ∀ host, Left r.localHost before name host → (r.step c).1.shown host = r.shown host

/-- A goodbye for a name whose last announcer has left it finds that host
away. -/
def FindsAway (before : List RosterCall) (r : Roster) (c : RosterCall) : Prop :=
  ∀ name now, c = .apply (.removed name) now →
    ∀ host, Left r.localHost before name host → announcerOf r.localHost before name = some host →
      ∀ record, r.row host = some record → record.presence = .away

/-- A name leads to the host that last announced under it. -/
def Indexed (calls : List RosterCall) (r : Roster) : Prop :=
  ∀ name, r.byFullname.lookup name = announcerOf r.localHost calls name

theorem indexed_step {calls : List RosterCall} {r : Roster} (h : Indexed calls r)
    (c : RosterCall) : Indexed (calls ++ [c]) (r.step c).1 := by
  intro name
  rw [byFullname_step, localHost_step, announcerOf_snoc, h name]

theorem awayEmpty_gone (record : PeerRecord) : record.gone.peer.endpoints = [] := rfl

theorem presence_announcedRow (before : Option PeerRecord) (peer : Peer) (now : Instant) :
    (announcedRow before peer now).presence = .online ∨
      (announcedRow before peer now).presence = .unreachable := by
  unfold announcedRow
  split
  · split
    · next hsame => exact .inr hsame.1
    · exact .inl rfl
  · exact .inl rfl

theorem away_dialledRow {record : PeerRecord} {connected : Bool} {now : Instant}
    (h : (dialledRow record connected now).presence = .away) : record.presence = .away := by
  unfold dialledRow at h
  cases connected <;> cases hp : record.presence <;> simp_all

theorem awayEmpty_step {r : Roster} (h : r.AwayEmpty) (c : RosterCall) : (r.step c).1.AwayEmpty := by
  intro host record hrow haway
  rw [row_step] at hrow
  cases c with
  | apply observation now =>
    cases observation with
    | resolved announced =>
      simp only [rowAfter] at hrow
      split at hrow
      · next peer hclaim =>
        split at hrow
        · obtain rfl := Option.some.inj hrow
          rcases presence_announcedRow (r.row host) peer now with hp | hp
          · rw [hp] at haway; cases haway
          · rw [hp] at haway; cases haway
        · exact h host record hrow haway
      · exact h host record hrow haway
    | removed name =>
      simp only [rowAfter] at hrow
      split at hrow
      · obtain ⟨before, -, rfl⟩ := Option.map_eq_some_iff.mp hrow
        exact awayEmpty_gone before
      · exact h host record hrow haway
  | sweep now maxAge =>
    obtain ⟨before, hbefore, rfl⟩ := Option.map_eq_some_iff.mp hrow
    split at haway
    · rw [if_pos ‹_›]
      exact awayEmpty_gone before
    · rw [if_neg ‹_›]
      exact h host before hbefore haway
  | reportDial dialled connected now =>
    simp only [rowAfter] at hrow
    split at hrow
    · obtain ⟨before, hbefore, rfl⟩ := Option.map_eq_some_iff.mp hrow
      have hempty := h host before hbefore (away_dialledRow haway)
      unfold dialledRow
      split <;> exact hempty
    · exact h host record hrow haway

theorem returns_step (c : RosterCall) : r.Returns c := by
  intro host before after hbefore hafter hunreachable honline
  rw [row_step] at hafter
  have hsame : r.row host ≠ some after := by
    rw [hbefore]
    intro hx
    obtain rfl := Option.some.inj hx
    rw [hunreachable] at honline
    cases honline
  cases c with
  | apply observation now =>
    cases observation with
    | resolved announced =>
      simp only [rowAfter] at hafter
      split at hafter
      · next peer hclaim =>
        split at hafter
        · next htaken =>
          obtain rfl := Option.some.inj hafter
          refine .inr ⟨announced, peer, now, rfl, hclaim, htaken.2.symm, fun hpeer => ?_⟩
          -- The same claim again leaves the row unreachable.
          rw [hbefore] at honline
          simp [announcedRow, hunreachable, hpeer] at honline
        · exact absurd hafter hsame
      · exact absurd hafter hsame
    | removed name =>
      simp only [rowAfter, hbefore] at hafter
      split at hafter
      · obtain rfl := Option.some.inj hafter
        cases honline
      · exact absurd (hbefore.trans hafter) hsame
  | sweep now maxAge =>
    simp only [rowAfter, hbefore, Option.map_some, Option.some.injEq] at hafter
    split at hafter
    · subst hafter
      cases honline
    · exact absurd (hbefore.trans (congrArg some hafter)) hsame
  | reportDial dialled connected now =>
    simp only [rowAfter] at hafter
    split at hafter
    · next hhost =>
      subst hhost
      cases connected with
      | true => exact .inl ⟨now, rfl⟩
      | false =>
        rw [hbefore] at hafter
        obtain rfl := Option.some.inj hafter
        simp [dialledRow, hunreachable] at honline
    · exact absurd hafter hsame

theorem shown_removed (name : Str) (now : Instant) (host : HostId) :
    (r.step (.apply (.removed name) now)).1.shown host =
      if r.byFullname.lookup name = some host then
        (r.row host).map fun _ => (Presence.away, [])
      else r.shown host := by
  unfold shown
  rw [row_step]
  simp only [rowAfter]
  split
  · rw [Option.map_map]
    rfl
  · rfl

/-- A goodbye is harmless exactly when it finds away the host its name leads
to, if that host has left the name. -/
theorem harmless_iff {calls : List RosterCall} {r : Roster} (hindex : Indexed calls r)
    (hempty : r.AwayEmpty) (c : RosterCall) : r.Harmless calls c ↔ r.FindsAway calls c := by
  constructor
  · rintro h name now rfl host hleft hnamed record hrow
    have hshown := h name now rfl host hleft
    rw [shown_removed, hindex name, if_pos hnamed, shown, hrow] at hshown
    exact (congrArg Prod.fst (Option.some.inj hshown)).symm
  · rintro h name now rfl host hleft
    rw [shown_removed, hindex name]
    split
    · next hnamed =>
      unfold shown
      cases hrow : r.row host with
      | none => rfl
      | some record =>
        have haway := h name now rfl host hleft hnamed record hrow
        rw [Option.map_some, Option.map_some, haway, hempty host record hrow haway]
    · rfl

/-! ## Runs -/

/-- A call, the roster it found and whether a viewer would notice. -/
abbrev Called := Trace.Entry Roster RosterCall Bool

/-- The run of a roster for the host `localHost`. -/
def run (localHost : HostId) (calls : List RosterCall) :
    Roster × List Called :=
  Trace.run Roster.step (Roster.new localHost) calls

/-- A run in which a host is shown as gone only when it is. -/
structure Shown (localHost : HostId) (calls : List RosterCall) : Prop where
  away : (run localHost calls).1.AwayEmpty ∧
    ∀ e ∈ (run localHost calls).2, e.state.AwayEmpty
  returns : ∀ e ∈ (run localHost calls).2, e.state.Returns e.call
  goodbye : Trace.Each (fun before (e : Called) => e.state.Harmless (before.map (·.call)) e.call)
    (run localHost calls).2

theorem awayEmpty_new (localHost : HostId) : (Roster.new localHost).AwayEmpty := by
  intro host record hrow
  simp [row, new] at hrow

theorem indexed_new (localHost : HostId) : Indexed [] (Roster.new localHost) := by
  intro name
  simp [new, announcerOf, announcements]

/-- What holds of the roster along every run. -/
theorem kept_run (localHost : HostId) (calls : List RosterCall) :
    Trace.Each (fun before (e : Called) => Indexed (before.map (·.call)) e.state ∧ e.state.AwayEmpty)
        (run localHost calls).2 ∧ (run localHost calls).1.AwayEmpty := by
  have hstep : ∀ (r : Roster) (h : List Called) (c : RosterCall),
      (Indexed (h.map (·.call)) r ∧ r.AwayEmpty) →
      Indexed ((h ++ [(⟨r, c, (r.step c).2⟩ : Called)]).map (·.call)) (r.step c).1 ∧
        (r.step c).1.AwayEmpty := by
    intro r h c hr
    rw [List.map_append]
    exact ⟨indexed_step hr.1 c, awayEmpty_step hr.2 c⟩
  have hnew : Indexed [] (Roster.new localHost) ∧ (Roster.new localHost).AwayEmpty :=
    ⟨indexed_new localHost, awayEmpty_new localHost⟩
  exact ⟨Trace.each_run hnew hstep (fun _ _ _ hr => hr) calls,
    (Trace.run_invariant (I := fun r h => Indexed (h.map (·.call)) r ∧ r.AwayEmpty)
      hnew hstep calls).2⟩

/-- In a run a host is shown as gone only when it is, exactly when every
goodbye for a name that its last announcer has left finds that host away. -/
theorem shown_iff (localHost : HostId) (calls : List RosterCall) :
    Shown localHost calls ↔
      Trace.Each (fun before (e : Called) => e.state.FindsAway (before.map (·.call)) e.call)
        (run localHost calls).2 := by
  obtain ⟨hkept, hlast⟩ := kept_run localHost calls
  constructor
  · rintro ⟨-, -, hgoodbye⟩ before e after hsplit
    obtain ⟨hindex, hempty⟩ := hkept before e after hsplit
    exact (harmless_iff hindex hempty e.call).mp (hgoodbye before e after hsplit)
  · intro h
    refine ⟨⟨hlast, fun e he => ?_⟩, fun e _ => returns_step e.state e.call, ?_⟩
    · obtain ⟨before, after, hsplit⟩ := List.append_of_mem he
      exact (hkept before e after hsplit).2
    · intro before e after hsplit
      obtain ⟨hindex, hempty⟩ := hkept before e after hsplit
      exact (harmless_iff hindex hempty e.call).mpr (h before e after hsplit)

/-! ## A renamed host -/

/-- The record of a host whose id is a byte repeated, under a label. -/
def labelled (digits label : String) : ResolvedRecord :=
  { fullname := label.toList ++ "._zesterm._tcp.local.".toList
    txt := [(keyHostId, (List.replicate 32 digits.toList).flatten), (keyLabel, label.toList)]
    port := 7717
    addresses := [.v4 #v[10, 0, 0, 5]] }

/-- A host that announces as `mac`, then as `studio`; the goodbye for `mac`
comes last. -/
def renamed : List RosterCall :=
  [.apply (.resolved (labelled "09" "mac")) 0, .apply (.resolved (labelled "09" "studio")) 1,
    .apply (.removed "mac._zesterm._tcp.local.".toList) 2]

/-- The host is online under its new name when the goodbye takes it down. -/
theorem not_shown_renamed :
    ¬Shown ⟨Vector.replicate 32 0xaa⟩ renamed := by
  intro h
  have hgoodbye := h.goodbye _ _ [] (by rfl : (run ⟨Vector.replicate 32 0xaa⟩ renamed).2 =
    (run ⟨Vector.replicate 32 0xaa⟩ (renamed.take 2)).2 ++ _ :: [])
  have hshown := hgoodbye "mac._zesterm._tcp.local.".toList 2 rfl ⟨Vector.replicate 32 9⟩
    (by decide)
  revert hshown
  decide

end Roster

end Zesterm
