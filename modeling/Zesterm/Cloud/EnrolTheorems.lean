/-
Zesterm.Cloud.EnrolTheorems — a code or a link grant enrols at most once, and
into the right account.

Spending is one conditional statement, so a code that has been spent is spent
for good (`Spent`), and so is a grant while its id is its own: the ids drawn
for grants are taken to be fresh. Before it spends, a claim has only read: it
has found the row, its signature has verified under the row's role or over the
grant, and the key's incumbent has been looked at. A claim refused by then has
written nothing. What is spent is spent even if the enrolment is refused
afterwards, when the key is revoked in between.

The account is read once, with the row. The account of a code never changes,
and the approver of a grant is the first who approved it (`Granted`).
-/
import Zesterm.Cloud.RegistryTheorems

namespace Zesterm.Cloud

open Interleave

/-- The standing of a key in the registry of one kind. -/
def Registry.existing (db : Registry) : EnrollKind → Str → Option Incumbent
  | .host => db.existingHost
  | .device => db.existingDevice

namespace Service

variable {out : Outside} {s : Service} {m : Move Call} {h : List Entry}

/-! ## Events -/

/-- Claim `i` spends a code. -/
def SpendsCode (i : Nat) (code : Str) (e : Entry) : Prop :=
  e.call = .step i ∧ ∃ args row owner, e.state.tasks[i]? = some (.claimCode args (.spend row owner)) ∧
    args.code = code ∧ (e.state.store.spendEnrollCode args.code args.id args.now).2.isSome

/-- Claim `i` spends a link grant. -/
def SpendsGrant (i : Nat) (grant : Str) (e : Entry) : Prop :=
  e.call = .step i ∧ ∃ args row owner, e.state.tasks[i]? = some (.claimLink args (.spend row owner)) ∧
    args.grant = grant ∧ (e.state.store.claimLinkGrant args.grant args.id args.now).2.isSome

/-- A person approves a live grant. -/
def Approves (out : Outside) (grant userId : Str) (e : Entry) : Prop :=
  ∃ now, e.written out = some (.approveLinkGrant grant userId now) ∧
    (e.state.store.findLiveLinkGrant grant now).isSome

/-- The first to approve a grant. -/
def FirstApproved (out : Outside) (h : List Entry) (grant userId : Str) : Prop :=
  ∃ before e after, h = before ++ e :: after ∧ Approves out grant userId e ∧
    ∀ f ∈ before, ∀ u, ¬Approves out grant u f

/-- A grant is stored under an id. -/
def Starts (out : Outside) (grant : Str) (e : Entry) : Prop :=
  ∃ device label kind platform now,
    e.written out = some (.startLinkGrant grant device label kind platform now)

/-- The ids drawn for grants are fresh. -/
def Fresh (out : Outside) (h : List Entry) (e : Entry) : Prop :=
  ∀ grant, Starts out grant e → ∀ f ∈ h, ¬Starts out grant f

/-- A key is enrolled in an account. -/
def Enrols (out : Outside) (kind : EnrollKind) (id owner : Str) (e : Entry) : Prop :=
  match kind with
  | .host => ∃ label platform now, e.written out = some (.enrolHost id owner label platform now) ∧
      (e.state.store.enrolHost id owner label platform now).2.isSome
  | .device => ∃ label kind now, e.written out = some (.enrolDevice id owner label kind now) ∧
      (e.state.store.enrolDevice id owner label kind now).2.isSome

/-! ## The laws -/

/-- A code is spent once, by a claim whose signature verified under the role
its row asks for. -/
structure CodeOnce (out : Outside) (h : List Entry) (e : Entry) : Prop where
  once : ∀ i code, SpendsCode i code e → ∀ f ∈ h, ∀ j, ¬SpendsCode j code f
  verified : ∀ i args row owner, e.call = .step i →
    e.state.tasks[i]? = some (.claimCode args (.spend row owner)) →
    ∃ codeRow, e.state.store.enrollCodes.lookup args.code = some codeRow ∧
      args.verifyEnrollment out codeRow.kind.role = true

/-- A grant is spent once, by a claim whose signature verified over the grant
and the key the grant was asked for with. -/
structure GrantOnce (out : Outside) (h : List Entry) (e : Entry) : Prop where
  once : ∀ i grant, SpendsGrant i grant e → ∀ f ∈ h, ∀ j, ¬SpendsGrant j grant f
  verified : ∀ i args row owner, e.call = .step i →
    e.state.tasks[i]? = some (.claimLink args (.spend row owner)) →
    args.verifyLinkClaim out = true ∧ row.deviceId = args.id

/-- Up to and with the statement at which its signature and its incumbent are
checked, a claim writes nothing, so one refused there leaves the code or the
grant as it was. -/
def ChecksFirst (out : Outside) (h : List Entry) (e : Entry) : Prop :=
  ∀ i r, e.call = .step i → e.state.tasks[i]? = some r →
    (∃ args, r = .claimCode args .find ∨ ∃ row, r = .claimCode args (.incumbent row)) ∨
      (∃ args, r = .claimLink args .find ∨ ∃ row, r = .claimLink args (.incumbent row)) →
    ∀ f ∈ h ++ [e], f.call = .step i → Entry.written out f = none

/-- A key is enrolled by a claim that has spent its code, in the account the
code is of and the registry it names, or by one that has spent its grant, in
the account that first approved it; and it was not there, or was that
account's and live. -/
def EnrolsRightly (out : Outside) (h : List Entry) (e : Entry) : Prop :=
  ∀ kind id owner, Enrols out kind id owner e →
    (∀ was, e.state.store.existing kind id = some was → was = ⟨owner, none⟩) ∧
    (e.state.act out e.call).1.store.existing kind id = some ⟨owner, none⟩ ∧
    ∃ i, e.call = .step i ∧
      ((∃ args row codeRow, e.state.tasks[i]? = some (.claimCode args (.enrol row owner)) ∧
        args.id = id ∧ e.state.store.enrollCodes.lookup args.code = some codeRow ∧
        codeRow.userId = owner ∧ codeRow.kind = kind ∧ ∃ f ∈ h, SpendsCode i args.code f) ∨
      (∃ args row, e.state.tasks[i]? = some (.claimLink args (.enrol row owner)) ∧
        args.id = id ∧ kind = .device ∧ FirstApproved out h args.grant owner ∧
        ∃ f ∈ h, SpendsGrant i args.grant f))

/-! ## Codes -/

/-- A code that has been spent is marked so, for good. -/
def Spent (h : List Entry) (db : Registry) : Prop :=
  ∀ f ∈ h, ∀ i code, SpendsCode i code f →
    ∃ row, db.enrollCodes.lookup code = some row ∧ row.usedAt.isSome

variable (out m) in
/-- A code's row after a move: the account and the kind stay, and so does the
mark. -/
theorem code_act {code : Str} {row : EnrollCodeRow}
    (hrow : s.store.enrollCodes.lookup code = some row) :
    ∃ row', (s.act out m).1.store.enrollCodes.lookup code = some row' ∧
      row'.userId = row.userId ∧ row'.kind = row.kind ∧
      (row.usedAt.isSome → row'.usedAt.isSome) := by
  rw [store_act]
  cases Entry.written out ⟨s, m, ()⟩ with
  | none => exact ⟨row, hrow, rfl, rfl, id⟩
  | some w =>
    rw [Option.map_some, Option.getD_some]
    cases w.code s.store code with
    | same hsame => exact ⟨row, hsame.trans hrow, rfl, rfl, id⟩
    | minted new hold => exact absurd (hrow.symm.trans hold) (by simp)
    | spent old by' now hold hnew =>
      obtain rfl := Option.some.inj (hrow.symm.trans hold)
      exact ⟨_, hnew, rfl, rfl, fun _ => rfl⟩

variable (out) in
/-- Spending marks the row. -/
theorem SpendsCode.spent {i : Nat} {code : Str} (hs : SpendsCode i code ⟨s, m, ()⟩) :
    (∃ row, s.store.enrollCodes.lookup code = some row ∧ row.usedAt = none) ∧
      ∃ row, (s.act out m).1.store.enrollCodes.lookup code = some row ∧ row.usedAt.isSome := by
  obtain ⟨hcall, args, row, owner, htask, rfl, hanswer⟩ := hs
  obtain ⟨kind, hkind⟩ := Option.isSome_iff_exists.mp hanswer
  obtain ⟨new, hnew, -⟩ := Option.map_eq_some_iff.mp hkind
  obtain ⟨old, hold, hlive, rfl⟩ := Table.updated_eq_some.mp hnew
  have hunused : old.usedAt = none :=
    Option.isNone_iff_eq_none.mp (Bool.and_eq_true_iff.mp hlive).1
  refine ⟨⟨old, hold, hunused⟩, ?_⟩
  have hm : m = .step i := hcall
  subst hm
  have hstore : (s.act out (.step i)).1.store =
      (s.store.spendEnrollCode args.code args.id args.now).1 := by
    rw [store_act]
    simp [Entry.written, Entry.request, show s.tasks[i]? = _ from htask, Request.writes, Write.run]
  refine ⟨{ old with usedAt := some args.now, usedBy := some args.id }, ?_, rfl⟩
  rw [hstore, Registry.spendEnrollCode, Table.lookup_updateWhere, hold, Option.map_some,
    if_pos ⟨rfl, hlive⟩]

theorem spent_act (hs : Spent h s.store) :
    Spent (h ++ [⟨s, m, ()⟩]) (s.act out m).1.store := by
  intro f hf i code hspends
  rcases List.mem_append.mp hf with hf | hf
  · obtain ⟨row, hrow, hused⟩ := hs f hf i code hspends
    obtain ⟨row', hrow', -, -, hused'⟩ := code_act out m hrow
    exact ⟨row', hrow', hused' hused⟩
  · obtain rfl := List.mem_singleton.mp hf
    exact (hspends.spent out).2

/-! ## Grants -/

/-- What the rows of the grants say of the history. -/
structure Granted (out : Outside) (h : List Entry) (db : Registry) : Prop where
  started : ∀ grant, grant ∈ db.linkGrants → ∃ f ∈ h, Starts out grant f
  approvedStarted : ∀ f ∈ h, ∀ grant u, Approves out grant u f → ∃ g ∈ h, Starts out grant g
  spentStarted : ∀ f ∈ h, ∀ i grant, SpendsGrant i grant f → ∃ g ∈ h, Starts out grant g
  both : ∀ grant row, db.linkGrants.lookup grant = some row →
    (row.approvedAt.isSome ↔ row.approvedByUser.isSome)
  first : ∀ grant row u, db.linkGrants.lookup grant = some row → row.approvedByUser = some u →
    FirstApproved out h grant u
  unapproved : ∀ grant row, db.linkGrants.lookup grant = some row → row.approvedByUser = none →
    ∀ f ∈ h, ∀ u, ¬Approves out grant u f
  unspent : ∀ grant row, db.linkGrants.lookup grant = some row → row.claimedAt = none →
    ∀ f ∈ h, ∀ i, ¬SpendsGrant i grant f

theorem granted_nil {db : Registry} (hempty : db.linkGrants = ∅) : Granted out [] db where
  started grant hmem := by simp [hempty] at hmem
  approvedStarted := by simp
  spentStarted := by simp
  both grant row hrow := by simp [hempty] at hrow
  first grant row u hrow := by simp [hempty] at hrow
  unapproved := by simp
  unspent := by simp

theorem FirstApproved.snoc {grant u : Str} {e : Entry} (hf : FirstApproved out h grant u) :
    FirstApproved out (h ++ [e]) grant u := by
  obtain ⟨before, f, after, rfl, happroves, hfirst⟩ := hf
  exact ⟨before, f, after ++ [e], by simp, happroves, hfirst⟩

/-- A grant that is approved is there. -/
theorem Approves.mem {grant u : Str} {e : Entry} (ha : Approves out grant u e) :
    grant ∈ e.state.store.linkGrants := by
  obtain ⟨now, -, hlive⟩ := ha
  obtain ⟨row, hrow⟩ := Option.isSome_iff_exists.mp hlive
  exact AList.lookup_isSome.mp (Option.isSome_iff_exists.mpr
    ⟨row, (Option.filter_eq_some_iff.mp hrow).1⟩)

/-- A grant that is spent is there, approved and not spent. -/
theorem SpendsGrant.row {i : Nat} {grant : Str} {e : Entry} (hs : SpendsGrant i grant e) :
    ∃ row, e.state.store.linkGrants.lookup grant = some row ∧ row.approvedAt.isSome ∧
      row.claimedAt = none := by
  obtain ⟨-, args, row, owner, -, rfl, hanswer⟩ := hs
  obtain ⟨new, hnew⟩ := Option.isSome_iff_exists.mp hanswer
  obtain ⟨old, hold, hcond, -⟩ := Table.updated_eq_some.mp hnew
  simp only [Bool.and_eq_true, Option.isNone_iff_eq_none] at hcond
  exact ⟨old, hold, hcond.1.1.2, hcond.1.2⟩

variable (out) in
theorem SpendsGrant.written {i : Nat} {grant : Str} {e : Entry} (hs : SpendsGrant i grant e) :
    ∃ device now, Entry.written out e = some (.claimLinkGrant grant device now) ∧
      (e.state.store.claimLinkGrant grant device now).2.isSome := by
  obtain ⟨hcall, args, row, owner, htask, rfl, hanswer⟩ := hs
  exact ⟨args.id, args.now, by simp [Entry.written, Entry.request, hcall, htask, Request.writes],
    hanswer⟩

/-- What a move leaves of a grant's row. -/
inductive GrantLeft (out : Outside) (s : Service) (m : Move Call) (grant : Str)
    (row : LinkGrantRow) : Prop where
  | same (hold : s.store.linkGrants.lookup grant = some row)
      (happrove : ∀ u, ¬Approves out grant u ⟨s, m, ()⟩)
      (hspend : ∀ i, ¬SpendsGrant i grant ⟨s, m, ()⟩)
  | started (hstart : Starts out grant ⟨s, m, ()⟩) (happrovedAt : row.approvedAt = none)
      (happroved : row.approvedByUser = none)
  | approved (u : Str) (now : Int) (old : LinkGrantRow)
      (happroves : Approves out grant u ⟨s, m, ()⟩)
      (hw : Entry.written out ⟨s, m, ()⟩ = some (.approveLinkGrant grant u now))
      (hold : s.store.linkGrants.lookup grant = some old)
      (hrow : row = { old with
        approvedAt := some (old.approvedAt.getD now)
        approvedByUser := some (old.approvedByUser.getD u) })
  | claimed (d : Str) (now : Int) (old : LinkGrantRow)
      (hw : Entry.written out ⟨s, m, ()⟩ = some (.claimLinkGrant grant d now))
      (hold : s.store.linkGrants.lookup grant = some old)
      (hrow : row = { old with claimedAt := some now })

theorem grant_left {grant : Str} {row : LinkGrantRow}
    (hrow : (s.act out m).1.store.linkGrants.lookup grant = some row) :
    GrantLeft out s m grant row := by
  rw [store_act] at hrow
  cases hw : Entry.written out ⟨s, m, ()⟩ with
  | none =>
    rw [hw] at hrow
    refine .same hrow ?_ ?_
    · rintro u ⟨now, hw', -⟩
      exact absurd (hw.symm.trans hw') (by simp)
    · intro i hs
      obtain ⟨d, now, hw', -⟩ := hs.written out
      exact absurd (hw.symm.trans hw') (by simp)
  | some w =>
    rw [hw, Option.map_some, Option.getD_some] at hrow
    cases w.grant s.store grant with
    | same hsame happrove hclaim =>
      refine .same (hsame.symm.trans hrow) ?_ ?_
      · rintro u ⟨now, hw', hlive⟩
        have hlive' : (s.store.findLiveLinkGrant grant now).isSome := hlive
        rw [happrove u now (Option.some.inj (hw.symm.trans hw'))] at hlive'
        exact absurd hlive' (by simp)
      · intro i hs
        obtain ⟨d, now, hw', hanswer⟩ := hs.written out
        have hanswer' : (s.store.claimLinkGrant grant d now).2.isSome := hanswer
        rw [hclaim d now (Option.some.inj (hw.symm.trans hw'))] at hanswer'
        exact absurd hanswer' (by simp)
    | started d label kind platform now new hw' hnew happrovedAt happroved =>
      obtain rfl := Option.some.inj (hrow.symm.trans hnew)
      exact .started ⟨d, label, kind, platform, now, hw.trans (congrArg some hw')⟩ happrovedAt
        happroved
    | gone hnew => exact absurd (hrow.symm.trans hnew) (by simp)
    | approved u now old hw' hlive hold hnew =>
      have happroves : Entry.written out ⟨s, m, ()⟩ = some (.approveLinkGrant grant u now) :=
        hw.trans (congrArg some hw')
      exact .approved u now old ⟨now, happroves, hlive⟩ happroves hold
        (Option.some.inj (hrow.symm.trans hnew))
    | claimed d now old hw' hold hnew =>
      exact .claimed d now old (hw.trans (congrArg some hw')) hold
        (Option.some.inj (hrow.symm.trans hnew))

/-- An entry of a longer history is one of the shorter, or the last. -/
theorem forall_mem_snoc {P : Entry → Prop} {e : Entry} (hall : ∀ f ∈ h, P f) (he : P e) :
    ∀ f ∈ h ++ [e], P f := by
  rw [List.forall_mem_append, List.forall_mem_singleton]
  exact ⟨hall, he⟩

/-- Under a fresh id nothing has been approved or spent. -/
theorem Granted.new (hg : Granted out h s.store) (hfresh : Fresh out h ⟨s, m, ()⟩) {grant : Str}
    (hstart : Starts out grant ⟨s, m, ()⟩) :
    (∀ f ∈ h ++ [⟨s, m, ()⟩], ∀ u, ¬Approves out grant u f) ∧
      ∀ f ∈ h ++ [⟨s, m, ()⟩], ∀ i, ¬SpendsGrant i grant f := by
  have hnot : grant ∉ s.store.linkGrants := by
    intro hmem
    obtain ⟨f, hf, hstarts⟩ := hg.started grant hmem
    exact hfresh grant hstart f hf hstarts
  refine ⟨forall_mem_snoc (fun f hf u happroves => ?_) fun u happroves => hnot happroves.mem,
    forall_mem_snoc (fun f hf i hspends => ?_) fun i hspends => ?_⟩
  · obtain ⟨g, hmem, hstarts⟩ := hg.approvedStarted f hf grant u happroves
    exact hfresh grant hstart g hmem hstarts
  · obtain ⟨g, hmem, hstarts⟩ := hg.spentStarted f hf i grant hspends
    exact hfresh grant hstart g hmem hstarts
  · obtain ⟨row, hrow, -⟩ := hspends.row
    exact hnot (AList.lookup_isSome.mp (Option.isSome_iff_exists.mpr ⟨row, hrow⟩))

theorem mem_of_lookup {grant : Str} {row : LinkGrantRow} {db : Registry}
    (hrow : db.linkGrants.lookup grant = some row) : grant ∈ db.linkGrants :=
  AList.lookup_isSome.mp (Option.isSome_iff_exists.mpr ⟨row, hrow⟩)

theorem granted_act (hg : Granted out h s.store) (hfresh : Fresh out h ⟨s, m, ()⟩) :
    Granted out (h ++ [⟨s, m, ()⟩]) (s.act out m).1.store where
  started := by
    intro grant hmem
    obtain ⟨row, hrow⟩ := Option.isSome_iff_exists.mp (AList.lookup_isSome.mpr hmem)
    have hold : ∀ old, s.store.linkGrants.lookup grant = some old →
        ∃ f ∈ h ++ [⟨s, m, ()⟩], Starts out grant f := fun old hold =>
      let ⟨f, hf, hstarts⟩ := hg.started grant (mem_of_lookup hold)
      ⟨f, List.mem_append_left _ hf, hstarts⟩
    cases grant_left hrow with
    | same hrow' => exact hold _ hrow'
    | started hstart => exact ⟨_, by simp, hstart⟩
    | approved u now old _ _ hrow' => exact hold _ hrow'
    | claimed d now old _ hrow' => exact hold _ hrow'
  approvedStarted := by
    refine forall_mem_snoc (fun f hf grant u happroves => ?_) fun grant u happroves => ?_
    · obtain ⟨g, hmem, hstarts⟩ := hg.approvedStarted f hf grant u happroves
      exact ⟨g, List.mem_append_left _ hmem, hstarts⟩
    · obtain ⟨g, hmem, hstarts⟩ := hg.started grant happroves.mem
      exact ⟨g, List.mem_append_left _ hmem, hstarts⟩
  spentStarted := by
    refine forall_mem_snoc (fun f hf i grant hspends => ?_) fun i grant hspends => ?_
    · obtain ⟨g, hmem, hstarts⟩ := hg.spentStarted f hf i grant hspends
      exact ⟨g, List.mem_append_left _ hmem, hstarts⟩
    · obtain ⟨row, hrow, -⟩ := hspends.row
      obtain ⟨g, hmem, hstarts⟩ := hg.started grant (mem_of_lookup hrow)
      exact ⟨g, List.mem_append_left _ hmem, hstarts⟩
  both := by
    intro grant row hrow
    cases grant_left hrow with
    | same hold => exact hg.both grant row hold
    | started _ happrovedAt happroved => simp [happrovedAt, happroved]
    | approved u now old _ _ _ hrow' =>
      subst hrow'
      exact ⟨fun _ => rfl, fun _ => rfl⟩
    | claimed d now old _ hold hrow' =>
      subst hrow'
      exact hg.both grant old hold
  first := by
    intro grant row u hrow happroved
    cases grant_left hrow with
    | same hold => exact (hg.first grant row u hold happroved).snoc
    | started _ _ hnone => exact absurd (hnone.symm.trans happroved) (by simp)
    | approved v now old happroves _ hold hrow' =>
      subst hrow'
      cases hby : old.approvedByUser with
      | some w =>
        obtain rfl : w = u := by simpa [hby] using happroved
        exact (hg.first grant old w hold hby).snoc
      | none =>
        obtain rfl : v = u := by simpa [hby] using happroved
        exact ⟨h, _, [], rfl, happroves, hg.unapproved grant old hold hby⟩
    | claimed d now old _ hold hrow' =>
      subst hrow'
      exact (hg.first grant old u hold happroved).snoc
  unapproved := by
    intro grant row hrow hnone
    cases grant_left hrow with
    | same hold happrove => exact forall_mem_snoc (hg.unapproved grant row hold hnone) happrove
    | started hstart => exact (hg.new hfresh hstart).1
    | approved v now old _ _ _ hrow' =>
      subst hrow'
      exact absurd hnone (by simp)
    | claimed d now old hw hold hrow' =>
      subst hrow'
      refine forall_mem_snoc (hg.unapproved grant old hold hnone) ?_
      rintro u ⟨now', hw', -⟩
      exact absurd (hw.symm.trans hw') (by simp)
  unspent := by
    intro grant row hrow hnone
    cases grant_left hrow with
    | same hold _ hspend => exact forall_mem_snoc (hg.unspent grant row hold hnone) hspend
    | started hstart => exact (hg.new hfresh hstart).2
    | approved v now old _ hw hold hrow' =>
      subst hrow'
      refine forall_mem_snoc (hg.unspent grant old hold hnone) fun i hspends => ?_
      obtain ⟨d, now', hw', -⟩ := hspends.written out
      exact absurd (hw.symm.trans hw') (by simp)
    | claimed d now old _ _ hrow' =>
      subst hrow'
      exact absurd hnone (by simp)

/-! ## Claims -/

/-- Request `i` has written nothing yet. -/
def NoWrites (out : Outside) (h : List Entry) (i : Nat) : Prop :=
  ∀ f ∈ h, f.call = .step i → Entry.written out f = none

/-- The code's row a claim has read is still the code's, and its signature has
verified under the row's role. -/
structure CodeRead (out : Outside) (db : Registry) (args : ClaimCode) (row : EnrollCodeRow) : Prop
    where
  verified : args.verifyEnrollment out row.kind.role = true
  row : ∃ codeRow, db.enrollCodes.lookup args.code = some codeRow ∧ codeRow.userId = row.userId ∧
    codeRow.kind = row.kind

/-- What a claim knows between two statements. -/
def Read (out : Outside) (h : List Entry) (db : Registry) (i : Nat) : Request → Prop
  | .claimCode _ .find => NoWrites out h i
  | .claimCode args (.incumbent row) => NoWrites out h i ∧ CodeRead out db args row
  | .claimCode args (.spend row owner) => CodeRead out db args row ∧ row.userId = owner
  | .claimCode args (.enrol row owner) => CodeRead out db args row ∧ row.userId = owner ∧
      ∃ f ∈ h, SpendsCode i args.code f
  | .claimLink args .find => NoWrites out h i ∧ args.verifyLinkClaim out = true
  | .claimLink args (.incumbent row) => NoWrites out h i ∧ args.verifyLinkClaim out = true ∧
      row.deviceId = args.id ∧
      ∀ u, row.approvedByUser = some u → FirstApproved out h args.grant u
  | .claimLink args (.spend row owner) => args.verifyLinkClaim out = true ∧
      row.deviceId = args.id ∧ FirstApproved out h args.grant owner
  | .claimLink args (.enrol _ owner) => FirstApproved out h args.grant owner ∧
      ∃ f ∈ h, SpendsGrant i args.grant f
  | _ => True

theorem CodeRead.act {args : ClaimCode} {row : EnrollCodeRow}
    (hr : CodeRead out s.store args row) : CodeRead out (s.act out m).1.store args row := by
  obtain ⟨hverified, codeRow, hrow, huser, hkind⟩ := hr
  obtain ⟨codeRow', hrow', huser', hkind', -⟩ := code_act out m hrow
  exact ⟨hverified, codeRow', hrow', huser'.trans huser, hkind'.trans hkind⟩

theorem NoWrites.snoc {i : Nat} {e : Entry} (hn : NoWrites out h i)
    (he : e.call = .step i → Entry.written out e = none) : NoWrites out (h ++ [e]) i :=
  forall_mem_snoc hn he

/-- A claim whose turn it was not knows what it did. -/
theorem Read.other {i : Nat} {r : Request} (hm : m ≠ .step i) (hr : Read out h s.store i r) :
    Read out (h ++ [⟨s, m, ()⟩]) (s.act out m).1.store i r := by
  have hskip : NoWrites out h i → NoWrites out (h ++ [⟨s, m, ()⟩]) i := fun hn =>
    hn.snoc fun hcall => absurd hcall hm
  unfold Read at hr ⊢
  split at hr
  · exact hskip hr
  · exact ⟨hskip hr.1, hr.2.act⟩
  · exact ⟨hr.1.act, hr.2⟩
  · obtain ⟨hread, howner, f, hf, hspends⟩ := hr
    exact ⟨hread.act, howner, f, List.mem_append_left _ hf, hspends⟩
  · exact ⟨hskip hr.1, hr.2⟩
  · exact ⟨hskip hr.1, hr.2.1, hr.2.2.1, fun u hu => (hr.2.2.2 u hu).snoc⟩
  · exact ⟨hr.1, hr.2.1, hr.2.2.snoc⟩
  · obtain ⟨hfirst, f, hf, hspends⟩ := hr
    exact ⟨hfirst.snoc, f, List.mem_append_left _ hf, hspends⟩
  · trivial

/-- A claim that begins has written nothing. -/
theorem read_begin {db : Registry} {i : Nat} (hn : NoWrites out h i) (a : Call) :
    Read out h db i (Request.begin out a) := by
  cases a with
  | claimCode args => exact hn
  | claimLink args =>
    simp only [Request.begin]
    split
    · next hverified => exact ⟨hn, hverified⟩
    · trivial
  | _ => trivial

/-- The next statement of a code claim. -/
theorem read_claimCode {i : Nat} {args : ClaimCode} {phase : ClaimPhase EnrollCodeRow}
    (htask : s.tasks[i]? = some (.claimCode args phase))
    (hr : Read out h s.store i (.claimCode args phase)) :
    Read out (h ++ [⟨s, .step i, ()⟩]) (s.act out (.step i)).1.store i
      (.claimCode args (claimCodeResume out s.store args phase)) := by
  have hwritten : Entry.written out ⟨s, .step i, ()⟩ = (Request.claimCode args phase).writes out := by
    simp [Entry.written, Entry.request, htask]
  cases phase with
  | find =>
    have hn : NoWrites out (h ++ [⟨s, .step i, ()⟩]) i := hr.snoc fun _ => hwritten
    have hstore : (s.act out (.step i)).1.store = s.store := by
      rw [store_act, hwritten]
      rfl
    simp only [claimCodeResume]
    split
    · trivial
    · next row hfound =>
      unfold ClaimCode.found
      split
      · next hverified =>
        refine ⟨hn, hverified, row, ?_, rfl, rfl⟩
        rw [hstore]
        exact (Option.filter_eq_some_iff.mp hfound).1
      · dsimp only
        repeat' split
        all_goals trivial
  | incumbent row =>
    simp only [claimCodeResume, ClaimPhase.admitted]
    split
    · trivial
    · exact ⟨hr.2.act, rfl⟩
  | spend row owner =>
    simp only [claimCodeResume]
    split
    · trivial
    · next kind hspent =>
      refine ⟨hr.1.act, hr.2, ⟨s, .step i, ()⟩, by simp, rfl, args, row, owner, htask, rfl, ?_⟩
      rw [hspent]
      rfl
  | enrol row owner =>
    simp only [claimCodeResume]
    repeat' split
    all_goals trivial
  | revokeTokens | answered => trivial
  | insertToken row owner =>
    simp only [claimCodeResume]
    split <;> trivial

/-- The next statement of a link claim. -/
theorem read_claimLink {i : Nat} {args : ClaimLink} {phase : ClaimPhase LinkGrantRow}
    (hg : Granted out h s.store) (htask : s.tasks[i]? = some (.claimLink args phase))
    (hr : Read out h s.store i (.claimLink args phase)) :
    Read out (h ++ [⟨s, .step i, ()⟩]) (s.act out (.step i)).1.store i
      (.claimLink args (claimLinkResume out s.store args phase)) := by
  have hwritten : Entry.written out ⟨s, .step i, ()⟩ = (Request.claimLink args phase).writes out := by
    simp [Entry.written, Entry.request, htask]
  cases phase with
  | find =>
    have hn : NoWrites out (h ++ [⟨s, .step i, ()⟩]) i := hr.1.snoc fun _ => hwritten
    simp only [claimLinkResume]
    split
    · trivial
    · next row hfound =>
      split
      · trivial
      · next hdevice =>
        split
        · trivial
        · refine ⟨hn, hr.2, not_not.mp hdevice, fun u hu => ?_⟩
          exact (hg.first _ row u (Option.filter_eq_some_iff.mp hfound).1 hu).snoc
  | incumbent row =>
    simp only [claimLinkResume]
    split
    · trivial
    · next owner howner =>
      unfold ClaimPhase.admitted
      split
      · trivial
      · exact ⟨hr.2.1, hr.2.2.1, (hr.2.2.2 owner howner).snoc⟩
  | spend row owner =>
    simp only [claimLinkResume]
    split
    · trivial
    · next new hspent =>
      refine ⟨hr.2.2.snoc, ⟨s, .step i, ()⟩, by simp, rfl, args, row, owner, htask, rfl, ?_⟩
      rw [hspent]
      rfl
  | enrol | insertToken =>
    simp only [claimLinkResume]
    split <;> trivial
  | revokeTokens | answered => trivial

/-! ## Every run -/

/-- What holds in every state of a run. -/
structure Enrolling (out : Outside) (h : List Entry) (s : Service) : Prop where
  spent : Spent h s.store
  granted : Granted out h s.store
  each : ∀ (i : Nat) (r : Request), s.tasks[i]? = some r → Read out h s.store i r
  grown : ∀ f ∈ h, f.state.tasks.length ≤ s.tasks.length

theorem enrolling_act (he : Enrolling out h s) (hfresh : Fresh out h ⟨s, m, ()⟩) :
    Enrolling out (h ++ [⟨s, m, ()⟩]) (s.act out m).1 where
  spent := spent_act he.spent
  granted := granted_act he.granted hfresh
  each := by
    intro i r hr
    cases m with
    | start a =>
      rcases task_start hr with hr | ⟨rfl, rfl⟩
      · exact (he.each i r hr).other (by simp)
      · refine read_begin (forall_mem_snoc (fun f hf hcall => ?_) (by simp)) a
        -- No move named this request before there was one.
        have hnone : f.state.tasks[s.tasks.length]? = none :=
          List.getElem?_eq_none (he.grown f hf)
        simp [Entry.written, Entry.request, hcall, hnone]
    | step j =>
      cases ht : s.tasks[j]? with
      | none =>
        rw [act_none ht] at hr
        refine (he.each i r hr).other fun heq => ?_
        obtain rfl := Move.step.inj heq
        exact absurd (ht.symm.trans hr) (by simp)
      | some t =>
        have htasks : (s.act out (.step j)).1.tasks = s.tasks.set j (t.resume out s.store) := by
          rw [act_step ht]
        rw [htasks] at hr
        rcases task_set ht hr with ⟨rfl, rfl⟩ | ⟨hij, hr⟩
        · cases t with
          | claimCode args phase => exact read_claimCode ht (he.each i _ ht)
          | claimLink args phase => exact read_claimLink he.granted ht (he.each i _ ht)
          | _ => trivial
        · exact (he.each i r hr).other fun heq => hij (Move.step.inj heq).symm
  grown := by
    have hmore : s.tasks.length ≤ (s.act out m).1.tasks.length := by
      cases m with
      | start a => simp [act, tasks_start]
      | step j =>
        cases ht : s.tasks[j]? with
        | none => rw [act_none ht]
        | some t => simp [act_step ht]
    exact forall_mem_snoc (fun f hf => (he.grown f hf).trans hmore) hmore

/-- What a successful enrolment finds and leaves. -/
theorem Enrols.standing {kind : EnrollKind} {id owner : Str}
    (he : Enrols out kind id owner ⟨s, m, ()⟩) :
    (∀ was, s.store.existing kind id = some was → was = ⟨owner, none⟩) ∧
      (s.act out m).1.store.existing kind id = some ⟨owner, none⟩ := by
  have hours : ∀ (u : Str) (revokedAt : Option Int), (u == owner && revokedAt.isNone) = true →
      (⟨u, revokedAt⟩ : Incumbent) = ⟨owner, none⟩ := by
    intro u revokedAt hcond
    simp only [Bool.and_eq_true, beq_iff_eq, Option.isNone_iff_eq_none] at hcond
    rw [hcond.1, hcond.2]
  cases kind with
  | host =>
    obtain ⟨label, platform, now, hw, hanswer⟩ := he
    rw [store_act, hw, Option.map_some, Option.getD_some]
    exact Standing.of_upserted (fun row : HostRow => ⟨row.userId, row.revokedAt⟩) rfl
      (fun _ => rfl) (fun row hrow => hours _ _ hrow) hanswer
  | device =>
    obtain ⟨label, deviceKind, now, hw, hanswer⟩ := he
    rw [store_act, hw, Option.map_some, Option.getD_some]
    exact Standing.of_upserted (fun row : DeviceRow => ⟨row.userId, row.revokedAt⟩) rfl
      (fun _ => rfl) (fun row hrow => hours _ _ hrow) hanswer

/-- The key a statement enrols, and the account. -/
def enrolledBy : Write → Option (EnrollKind × Str × Str)
  | .enrolHost id owner _ _ _ => some (.host, id, owner)
  | .enrolDevice id owner _ _ _ => some (.device, id, owner)
  | _ => none

/-- Only a claim enrols. -/
theorem of_writes_enrol {r : Request} {kind : EnrollKind} {id owner : Str} {w : Write}
    (hw : r.writes out = some w) (he : enrolledBy w = some (kind, id, owner)) :
    (∃ args row, r = .claimCode args (.enrol row owner) ∧ args.id = id ∧ row.kind = kind) ∨
      ∃ args row, r = .claimLink args (.enrol row owner) ∧ args.id = id ∧ kind = .device := by
  unfold Request.writes at hw
  split at hw
  case h_10 args row owner' =>
    obtain rfl := Option.some.inj hw
    cases hkind : row.kind with
    | host | device =>
      simp only [hkind, enrolledBy, Option.some.injEq, Prod.mk.injEq] at he
      obtain ⟨rfl, rfl, rfl⟩ := he
      exact .inl ⟨args, row, rfl, rfl, hkind⟩
  case h_17 args row owner' =>
    obtain rfl := Option.some.inj hw
    simp only [enrolledBy, Option.some.injEq, Prod.mk.injEq] at he
    obtain ⟨rfl, rfl, rfl⟩ := he
    exact .inr ⟨args, row, rfl, rfl, rfl⟩
  all_goals first
    | obtain rfl := Option.some.inj hw
      exact absurd he (by simp [enrolledBy])
    | obtain ⟨code, -, rfl⟩ := Option.map_eq_some_iff.mp hw
      exact absurd he (by simp [enrolledBy])
    | exact absurd hw (by simp)

theorem Enrols.enrolledBy {kind : EnrollKind} {id owner : Str} {e : Entry}
    (he : Enrols out kind id owner e) :
    ∃ w, e.written out = some w ∧ Service.enrolledBy w = some (kind, id, owner) := by
  cases kind with
  | host =>
    obtain ⟨label, platform, now, hw, -⟩ := he
    exact ⟨_, hw, rfl⟩
  | device =>
    obtain ⟨label, deviceKind, now, hw, -⟩ := he
    exact ⟨_, hw, rfl⟩

/-- Each code and each link grant enrols at most once, after its claim's
signature has verified and its incumbent has been looked at, into the account
it is of; and only a key that is nobody's there, or that account's and live. -/
structure EnrolsOnce (out : Outside) (h : List Entry) (e : Entry) : Prop where
  code : CodeOnce out h e
  grant : GrantOnce out h e
  checksFirst : ChecksFirst out h e
  enrols : EnrolsRightly out h e

theorem enrolsOnce (he : Enrolling out h s) : EnrolsOnce out h ⟨s, m, ()⟩ where
  code :=
    { once := by
        intro i code hspends f hf j hspent
        obtain ⟨⟨row, hrow, hunused⟩, -⟩ := hspends.spent out
        obtain ⟨row', hrow', hused⟩ := he.spent f hf j code hspent
        rw [Option.some.inj (hrow'.symm.trans hrow), hunused] at hused
        exact absurd hused (by simp)
      verified := by
        intro i args row owner hcall htask
        obtain ⟨⟨hverified, codeRow, hrow, huser, hkind⟩, -⟩ := he.each i _ htask
        exact ⟨codeRow, hrow, by rw [hkind]; exact hverified⟩ }
  grant :=
    { once := by
        intro i grant hspends f hf j hspent
        obtain ⟨row, hrow, -, hunspent⟩ := hspends.row
        exact he.granted.unspent grant row hrow hunspent f hf j hspent
      verified := fun i args row owner hcall htask =>
        ⟨(he.each i _ htask).1, (he.each i _ htask).2.1⟩ }
  checksFirst := by
    intro i r hcall htask hphase
    have hm : m = .step i := hcall
    have htask' : s.tasks[i]? = some r := htask
    have hread := he.each i r htask'
    have hnow : r.writes out = none → Entry.written out ⟨s, m, ()⟩ = none := fun hnone => by
      simp [Entry.written, Entry.request, hm, htask', hnone]
    rcases hphase with ⟨args, rfl | ⟨row, rfl⟩⟩ | ⟨args, rfl | ⟨row, rfl⟩⟩
    · exact NoWrites.snoc hread fun _ => hnow rfl
    · exact NoWrites.snoc hread.1 fun _ => hnow rfl
    · exact NoWrites.snoc hread.1 fun _ => hnow rfl
    · exact NoWrites.snoc hread.1 fun _ => hnow rfl
  enrols := by
    intro kind id owner henrols
    refine ⟨henrols.standing.1, henrols.standing.2, ?_⟩
    obtain ⟨w, hw, hby⟩ := henrols.enrolledBy
    cases m with
    | start a => exact absurd hw (by simp [Entry.written, Entry.request])
    | step i =>
      obtain ⟨r, hr, hwrites⟩ := Option.bind_eq_some_iff.mp hw
      have htask : s.tasks[i]? = some r := hr
      have hread := he.each i r htask
      refine ⟨i, rfl, ?_⟩
      rcases of_writes_enrol hwrites hby with ⟨args, row, rfl, rfl, rfl⟩ | ⟨args, row, rfl, rfl, rfl⟩
      · obtain ⟨⟨-, codeRow, hrow, huser, hkind⟩, howner, hspent⟩ := hread
        exact .inl ⟨args, row, codeRow, htask, rfl, hrow, huser.trans howner, hkind, hspent⟩
      · exact .inr ⟨args, row, htask, rfl, rfl, hread.1, hread.2⟩

/-- The law of the two enrolment paths, in every run. -/
theorem enrols_once (out : Outside) (db : Registry) (hempty : db.linkGrants = ∅)
    (moves : List (Move Call)) (hfresh : Trace.Each (Fresh out) (run out db moves).2) :
    Trace.Each (EnrolsOnce out) (run out db moves).2 := by
  have hinv := Trace.run_invariant_of_each (s := (⟨db, []⟩ : Service))
    (I := fun s h => Enrolling out h s ∧ Trace.Each (EnrolsOnce out) h) (P := Fresh out)
    ⟨⟨by simp [Spent], granted_nil hempty, by simp, by simp⟩, Trace.each_nil _⟩ ?_ moves hfresh
  · exact hinv.2
  · rintro s h m ⟨he, heach⟩ hf
    exact ⟨enrolling_act he hf, Trace.each_snoc.mpr ⟨heach, enrolsOnce he⟩⟩

/-- The id a move stores a grant under. -/
def started (out : Outside) (e : Entry) : Option Str :=
  match e.written out with
  | some (.startLinkGrant grant _ _ _ _ _) => some grant
  | _ => none

/-- Ids that are all different are fresh. -/
theorem fresh_of_nodup (hnodup : (h.filterMap (started out)).Nodup) : Trace.Each (Fresh out) h := by
  have hstarted : ∀ e grant, Starts out grant e → started out e = some grant := by
    rintro e grant ⟨device, label, kind, platform, now, hw⟩
    unfold started
    rw [hw]
  rintro before e after rfl grant hstart f hf hstart'
  rw [List.filterMap_append, List.nodup_append] at hnodup
  refine hnodup.2.2 grant (List.mem_filterMap.mpr ⟨f, hf, hstarted f grant hstart'⟩) grant ?_ rfl
  exact List.mem_filterMap.mpr ⟨e, by simp, hstarted e grant hstart⟩

/-- A device asks for a grant, `u` approves it, and the device claims it. -/
def linking : List (Move Call) :=
  [.start (.startLink ⟨claim.key, [], none, none, claim.signature, 1, ['g']⟩), .step 0,
    .start (.approveLink ['g'] ['u'] 1), .step 1,
    .start (.claimLink ⟨['g'], claim.key, claim.signature, 1, ['t']⟩), .step 2, .step 2, .step 2,
    .step 2]

/-- It is enrolled in the account of `u`. -/
theorem enrols_once_linked :
    (run anySignature oneCode linking).1.store.existing .device claim.id = some ⟨['u'], none⟩ ∧
      Trace.Each (EnrolsOnce anySignature) (run anySignature oneCode linking).2 := by
  refine ⟨by decide, enrols_once anySignature oneCode rfl linking (fresh_of_nodup ?_)⟩
  decide

/-- A key that is revoked after its claim has looked at the incumbent is
refused with the code spent; and a key that is revoked as a host is enrolled
as a device. -/
theorem spent_and_refused :
    (¬∀ (out : Outside) (db : Registry), db.linkGrants = ∅ → ∀ moves (i : Nat) args detail,
      (run out db moves).1.tasks[i]? = some (.claimCode args (.answered (.alreadyEnrolled detail))) →
      ∀ row, (run out db moves).1.store.enrollCodes.lookup args.code = some row →
        row.usedAt = none) ∧
    ¬∀ (out : Outside) (db : Registry), db.linkGrants = ∅ → ∀ moves, ∀ e ∈ (run out db moves).2,
      ∀ kind id owner, Enrols out kind id owner e → ∀ kind' was,
        e.state.store.existing kind' id = some was → was.revokedAt = none := by
  constructor
  · intro hall
    let enrolled : Registry := { oneCode with
      devices := AList.insert claim.id
        { userId := ['u'], label := [], kind := .desktop, enrolledAt := 0 } ∅ }
    let moves : List (Move Call) := [.start (.claimCode claim), .step 0, .step 0, .step 0,
      .start (.revoke .device claim.id ['u'] 2), .step 1, .step 0]
    have hunused := hall anySignature enrolled rfl moves 0 claim "revoked".toList (by decide)
      { userId := ['u'], kind := .device, createdAt := 0, expiresAt := 10, usedAt := some 1,
        usedBy := some claim.id } (by decide)
    exact absurd hunused (by simp)
  · intro hall
    let revoked : Registry := { oneCode with
      hosts := AList.insert claim.id
        { userId := ['u'], label := [], platform := [], enrolledAt := 0, revokedAt := some 0 } ∅ }
    have henrols : ∃ e ∈ (run anySignature revoked claiming).2,
        (e.written anySignature = some (.enrolDevice claim.id ['u'] [] .desktop 1) ∧
          (e.state.store.enrolDevice claim.id ['u'] [] .desktop 1).2.isSome) ∧
        e.state.store.existing .host claim.id = some ⟨['u'], some 0⟩ := by
      decide
    obtain ⟨e, he, ⟨hw, hanswer⟩, hhost⟩ := henrols
    have hlive := hall anySignature revoked rfl claiming e he .device claim.id ['u']
      ⟨[], .desktop, 1, hw, hanswer⟩ .host _ hhost
    exact absurd hlive (by simp)

end Service

end Zesterm.Cloud
