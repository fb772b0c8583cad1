/-
Zesterm.App.TabsTheorems — no session is held twice, and none is lost.

Every operation leaves the tabs as they are, edits one of them, adds one or
takes one away. An edit is said of the tab alone (`Edit`): what it keeps of
the addresses, the live sessions and the focus. Two cases of `adopt` break
the promise, for it looks at the tabs and not at the panes in them.
-/
import Zesterm.App.Tabs

namespace Zesterm

namespace Strip

variable {s : TabStrip} {addr : SessionAddr} {t : Tab} {new gone : List SessionAddr}
  {tabs tabs' : List Tab}

/-! ## What a strip holds -/

/-- The addresses of a tab, its primary's and its panes'. -/
def Tab.addrs (t : Tab) : List SessionAddr := t.addr :: t.panes.map (·.addr)

/-- A pane with a session that lives. -/
def SplitPane.isLive (p : SplitPane) : Bool := p.isSession && !p.dead

/-- A session of the tab that lives. -/
def Tab.Holds (t : Tab) (addr : SessionAddr) : Prop :=
  t.dead = false ∧ t.addr = addr ∨ ∃ p ∈ t.panes, p.isLive = true ∧ p.addr = addr

def addrsOf (tabs : List Tab) : List SessionAddr := tabs.flatMap Tab.addrs

/-- The sessions of a strip that live, one for each tab or pane on one. -/
def TabStrip.live (s : TabStrip) : List SessionAddr :=
  s.tabs.flatMap fun t =>
    (if t.dead then [] else [t.addr]) ++ (t.panes.filter SplitPane.isLive).map (·.addr)

theorem mem_live : addr ∈ s.live ↔ ∃ t ∈ s.tabs, t.Holds addr := by
  unfold TabStrip.live Tab.Holds
  rw [List.mem_flatMap]
  refine exists_congr fun t => and_congr_right fun _ => ?_
  rw [List.mem_append, List.mem_map]
  refine or_congr ?_ ?_
  · cases t.dead <;> simp [eq_comm]
  · refine exists_congr fun p => ?_
    rw [List.mem_filter, and_assoc]

theorem mem_addrs_of_holds (h : t.Holds addr) : addr ∈ t.addrs := by
  obtain ⟨-, rfl⟩ | ⟨p, hp, -, rfl⟩ := h
  · exact List.mem_cons_self
  · exact List.mem_cons_of_mem _ (List.mem_map_of_mem hp)

/-- Distinct addresses are more than distinct live ones. -/
theorem live_nodup (h : (addrsOf s.tabs).Nodup) : s.live.Nodup := by
  refine h.sublist ?_
  unfold TabStrip.live addrsOf
  refine List.Sublist.flatMap_right _ fun t _ => ?_
  have hpanes : ((t.panes.filter SplitPane.isLive).map (·.addr)).Sublist (t.panes.map (·.addr)) :=
    List.filter_sublist.map _
  unfold Tab.addrs
  cases t.dead with
  | true => exact hpanes.trans (List.sublist_cons_self _ _)
  | false => exact hpanes.cons_cons _

/-! ## Editing one tab -/

/-- What an edit of a tab keeps: its addresses but for those in `new`, its live
sessions but for those in `gone`, and a focus on a pane. -/
structure Edit (new gone : List SessionAddr) (t t' : Tab) : Prop where
  distinct : t.addrs.Nodup → (∀ a ∈ new, a ∉ t.addrs) → t'.addrs.Nodup
  addrs : ∀ a ∈ t'.addrs, a ∈ t.addrs ∨ a ∈ new
  live : ∀ a, t.Holds a → t'.Holds a ∨ a ∈ gone
  focus : t.focus < t.paneCount → t'.focus < t'.paneCount

theorem Edit.refl (new gone : List SessionAddr) (t : Tab) : Edit new gone t t :=
  ⟨fun h _ => h, fun _ => .inl, fun _ => .inl, id⟩

/-- Where the lists of tabs differ. -/
def EditedAt (new gone : List SessionAddr) (tabs tabs' : List Tab) : Prop :=
  tabs' = tabs ∨ ∃ before t t' later, tabs = before ++ t :: later ∧
    tabs' = before ++ t' :: later ∧ Edit new gone t t'

theorem addrsOf_append (l l' : List Tab) : addrsOf (l ++ l') = addrsOf l ++ addrsOf l' :=
  List.flatMap_append

theorem addrsOf_cons (t : Tab) (l : List Tab) : addrsOf (t :: l) = t.addrs ++ addrsOf l :=
  List.flatMap_cons

theorem EditedAt.nodup (h : EditedAt new gone tabs tabs') (hnodup : (addrsOf tabs).Nodup)
    (hnew : ∀ a ∈ new, a ∉ addrsOf tabs) : (addrsOf tabs').Nodup := by
  obtain rfl | ⟨before, t, t', later, rfl, rfl, hedit⟩ := h
  · exact hnodup
  · simp only [addrsOf_append, addrsOf_cons, List.nodup_append', List.mem_append, not_or,
      List.disjoint_append_right] at hnodup hnew ⊢
    obtain ⟨hbefore, ⟨ht, hlater, htl⟩, hbt, hbl⟩ := hnodup
    refine ⟨hbefore, ⟨hedit.distinct ht fun a ha => (hnew a ha).2.1, hlater, ?_⟩, ?_, hbl⟩
    · intro a ha hal
      rcases hedit.addrs a ha with hold | hfresh
      · exact htl hold hal
      · exact (hnew a hfresh).2.2 hal
    · intro a hab ha
      rcases hedit.addrs a ha with hold | hfresh
      · exact hbt hab hold
      · exact (hnew a hfresh).1 hab

theorem EditedAt.length (h : EditedAt new gone tabs tabs') : tabs'.length = tabs.length := by
  obtain rfl | ⟨before, t, t', later, rfl, rfl, -⟩ := h
  · rfl
  · simp

theorem EditedAt.focus (h : EditedAt new gone tabs tabs')
    (hfocus : ∀ t ∈ tabs, t.focus < t.paneCount) : ∀ t ∈ tabs', t.focus < t.paneCount := by
  obtain rfl | ⟨before, t, t', later, rfl, rfl, hedit⟩ := h
  · exact hfocus
  · simp only [List.mem_append, List.mem_cons] at hfocus ⊢
    rintro u (hu | rfl | hu)
    · exact hfocus u (.inl hu)
    · exact hedit.focus (hfocus t (.inr (.inl rfl)))
    · exact hfocus u (.inr (.inr hu))

theorem EditedAt.live (h : EditedAt new gone tabs tabs') {a : SessionAddr}
    (ha : ∃ t ∈ tabs, t.Holds a) : (∃ t ∈ tabs', t.Holds a) ∨ a ∈ gone := by
  obtain rfl | ⟨before, t, t', later, rfl, rfl, hedit⟩ := h
  · exact .inl ha
  · obtain ⟨u, hu, hholds⟩ := ha
    simp only [List.mem_append, List.mem_cons] at hu ⊢
    obtain hu | rfl | hu := hu
    · exact .inl ⟨u, .inl hu, hholds⟩
    · exact (hedit.live a hholds).imp_left fun hkept => ⟨t', .inr (.inl rfl), hkept⟩
    · exact .inl ⟨u, .inr (.inr hu), hholds⟩

/-- Editing the first tab looked for edits one tab. -/
theorem editedAt_editFirst {p : Tab → Bool} {f : Tab → Tab}
    (hf : ∀ t, p t = true → Edit new gone t (f t)) (tabs : List Tab) :
    EditedAt new gone tabs (editFirst p f tabs) := by
  induction tabs with
  | nil => exact .inl rfl
  | cons t tabs ih =>
    rw [editFirst]
    split
    · next hp => exact .inr ⟨[], t, f t, tabs, rfl, rfl, hf t hp⟩
    · obtain hsame | ⟨before, u, u', later, hold, hnew, hedit⟩ := ih
      · exact .inl (by rw [hsame])
      · exact .inr ⟨t :: before, u, u', later, by rw [hold]; rfl, by rw [hnew]; rfl, hedit⟩

theorem editedAt_modify {f : Tab → Tab} (tabs : List Tab) (i : Nat)
    (hf : ∀ t, tabs[i]? = some t → Edit new gone t (f t)) :
    EditedAt new gone tabs (tabs.modify i f) := by
  induction tabs generalizing i with
  | nil => exact .inl (by cases i <;> rfl)
  | cons t tabs ih =>
    cases i with
    | zero => exact .inr ⟨[], t, f t, tabs, rfl, rfl, hf t rfl⟩
    | succ i =>
      obtain hsame | ⟨before, u, u', later, hold, hnew, hedit⟩ := ih i fun u hu => hf u hu
      · exact .inl (by rw [List.modify_succ_cons, hsame])
      · refine .inr ⟨t :: before, u, u', later, by rw [hold]; rfl, ?_, hedit⟩
        rw [List.modify_succ_cons, hnew]
        rfl

/-! ## The edits of a tab -/

theorem edit_focus {i : Nat} (hi : t.focus < t.paneCount → i < t.paneCount) :
    Edit new gone t { t with focus := i } :=
  ⟨fun h _ => h, fun _ => .inl, fun _ => .inl, hi⟩

theorem edit_focusPane (new gone : List SessionAddr) (t : Tab) (i : Nat) :
    Edit new gone t (t.focusPane i) := by
  unfold Tab.focusPane
  split
  · exact .refl new gone t
  · next h => exact edit_focus fun _ => by omega

theorem edit_cycleFocus (new gone : List SessionAddr) (t : Tab) (delta : Int) :
    Edit new gone t (t.cycleFocus delta) := by
  unfold Tab.cycleFocus
  split
  · exact .refl new gone t
  · exact edit_focusPane new gone t _

theorem edit_adoptPane (gone : List SessionAddr) (t : Tab) (pane : SplitPane) :
    Edit [pane.addr] gone t (t.adoptPane pane) := by
  have haddrs : (t.adoptPane pane).addrs = t.addrs ++ [pane.addr] := by
    simp [Tab.addrs, Tab.adoptPane]
  refine ⟨fun h hnew => ?_, fun a ha => ?_, fun a ha => ?_, fun _ => ?_⟩
  · rw [haddrs, List.nodup_append']
    refine ⟨h, List.nodup_singleton _, fun a ha hpane => ?_⟩
    rw [List.mem_singleton.mp hpane] at ha
    exact hnew _ (List.mem_singleton_self _) ha
  · rwa [haddrs, List.mem_append] at ha
  · obtain hprimary | ⟨p, hp, hlive⟩ := ha
    · exact .inl (.inl hprimary)
    · exact .inl (.inr ⟨p, List.mem_append_left _ hp, hlive⟩)
  · simp [Tab.adoptPane, Tab.paneCount]

theorem mem_eraseIdx_or {α : Type} {x : α} {l : List α} (h : x ∈ l) (k : Nat) :
    x ∈ l.eraseIdx k ∨ l[k]? = some x := by
  obtain ⟨i, hi⟩ := List.mem_iff_getElem?.mp h
  by_cases hik : i = k
  · exact .inr (hik ▸ hi)
  · exact .inl (List.mem_eraseIdx_iff_getElem?.mpr ⟨i, hik, hi⟩)

/-- Without pane `k` a tab keeps what is not in it. -/
theorem edit_erasePane {k i : Nat} {p : SplitPane} (hp : t.panes[k]? = some p)
    (hi : t.focus < t.paneCount → i < t.panes.length) (new : List SessionAddr) :
    Edit new [p.addr] t { t with panes := t.panes.eraseIdx k, focus := i } := by
  have hsub : ((t.panes.eraseIdx k).map (·.addr)).Sublist (t.panes.map (·.addr)) :=
    (List.eraseIdx_sublist t.panes k).map _
  have hlt : k < t.panes.length := (List.getElem?_eq_some_iff.mp hp).1
  refine ⟨fun h _ => h.sublist (hsub.cons_cons _), fun a ha => .inl ?_, fun a ha => ?_, fun h => ?_⟩
  · exact (hsub.cons_cons t.addr).subset ha
  · obtain hprimary | ⟨q, hq, hlive⟩ := ha
    · exact .inl (.inl hprimary)
    · rcases mem_eraseIdx_or hq k with hkept | hgone
      · exact .inl (.inr ⟨q, hkept, hlive⟩)
      · obtain rfl : p = q := Option.some.inj (hp.symm.trans hgone)
        exact .inr (List.mem_singleton.mpr hlive.2.symm)
  · have hlength := List.length_eraseIdx_of_lt hlt
    show i < 1 + (t.panes.eraseIdx k).length
    have := hi h
    omega

theorem edit_promote {j : Nat} {next : SplitPane} (hnext : t.panes[j]? = some next)
    (hfocus : t.focus = 0) (hsession : next.isSession = true) (new : List SessionAddr) :
    Edit new [t.addr] t
      { t with
        addr := next.addr
        isLocal := next.isLocal
        dead := next.dead
        connecting := next.connecting
        panes := t.panes.eraseIdx j } := by
  have hperm : (next.addr :: (t.panes.eraseIdx j).map (·.addr)).Perm (t.panes.map (·.addr)) := by
    obtain ⟨hlt, rfl⟩ := List.getElem?_eq_some_iff.mp hnext
    exact (List.getElem_cons_eraseIdx_perm hlt).map (·.addr)
  refine ⟨fun h _ => ?_, fun a ha => .inl ?_, fun a ha => ?_, fun _ => ?_⟩
  · exact hperm.nodup_iff.mpr (List.nodup_cons.mp h).2
  · exact List.mem_cons_of_mem _ (hperm.mem_iff.mp ha)
  · obtain ⟨-, hprimary⟩ | ⟨q, hq, hlive, haddr⟩ := ha
    · exact .inr (List.mem_singleton.mpr hprimary.symm)
    · rcases mem_eraseIdx_or hq j with hkept | hgone
      · exact .inl (.inr ⟨q, hkept, hlive, haddr⟩)
      · obtain rfl : next = q := Option.some.inj (hnext.symm.trans hgone)
        refine .inl (.inl ⟨?_, haddr⟩)
        unfold SplitPane.isLive at hlive
        rw [hsession, Bool.true_and, Bool.not_eq_true'] at hlive
        exact hlive
  · show t.focus < 1 + _
    omega

/-- Closing the focused pane takes the focused session and no other. -/
theorem edit_closeFocusedPane (hfocus : t.focus < t.paneCount) (new : List SessionAddr) :
    Edit new [t.focusedAddr] t (t.closeFocusedPane.getD t) := by
  unfold Tab.closeFocusedPane
  split
  · exact .refl _ _ t
  · split
    · next hzero =>
      have haddr : t.focusedAddr = t.addr := by rw [Tab.focusedAddr, hzero]; rfl
      cases hj : t.panes.findIdx? SplitPane.isSession with
      | none => exact .refl _ _ t
      | some j =>
        obtain ⟨hlt, hsession, -⟩ := List.findIdx?_eq_some_iff_getElem.mp hj
        have hnext : t.panes[j]? = some (t.panes.get ⟨j, hlt⟩) := List.getElem?_eq_getElem hlt
        rw [haddr]
        simp only [hnext, Option.map_some, Option.getD_some]
        exact edit_promote hnext hzero hsession new
    · next hne =>
      obtain ⟨k, hk⟩ := Nat.exists_eq_succ_of_ne_zero hne
      have hlt : k < t.panes.length := by
        unfold Tab.paneCount at hfocus
        omega
      have hpane : t.panes[k]? = some (t.panes.get ⟨k, hlt⟩) := List.getElem?_eq_getElem hlt
      have haddr : t.focusedAddr = (t.panes.get ⟨k, hlt⟩).addr := by
        rw [Tab.focusedAddr, hk]
        simp only [Tab.paneAddr, hpane, Option.map_some, Option.getD_some]
      rw [haddr, hk, Nat.succ_sub_one, Option.getD_some]
      exact edit_erasePane hpane (fun _ => hlt) new

theorem edit_removeGonePane (t : Tab) (addr : SessionAddr) (new : List SessionAddr) :
    Edit new [addr] t ((t.removeGonePane addr).getD t) := by
  unfold Tab.removeGonePane
  cases hj : t.panes.findIdx? (fun p => p.addr = addr) with
  | none => exact .refl _ _ t
  | some j =>
    obtain ⟨hlt, haddr, -⟩ := List.findIdx?_eq_some_iff_getElem.mp hj
    have hpane : t.panes[j]? = some (t.panes.get ⟨j, hlt⟩) := List.getElem?_eq_getElem hlt
    have hgone : (t.panes.get ⟨j, hlt⟩).addr = addr := of_decide_eq_true haddr
    rw [Option.map_some, Option.getD_some, ← hgone]
    refine edit_erasePane hpane (fun h => ?_) new
    unfold Tab.paneCount at h
    split <;> omega

/-- A tab whose own session is gone. -/
theorem edit_dead (h : t.addr = addr) (new : List SessionAddr) :
    Edit new [addr] t { t with dead := true } := by
  refine ⟨fun h _ => h, fun _ => .inl, fun a ha => ?_, id⟩
  obtain ⟨-, hprimary⟩ | hpane := ha
  · exact .inr (List.mem_singleton.mpr (hprimary.symm.trans h))
  · exact .inl (.inr hpane)

theorem map_editFirst {α β : Type} {p : α → Bool} {f : α → α} {g : α → β} (h : ∀ x, g (f x) = g x)
    (l : List α) : (editFirst p f l).map g = l.map g := by
  induction l with
  | nil => rfl
  | cons x l ih =>
    rw [editFirst]
    split
    · rw [List.map_cons, List.map_cons, h]
    · rw [List.map_cons, List.map_cons, ih]

theorem mem_editFirst_of_not {α : Type} {p : α → Bool} {f : α → α} {x : α} {l : List α}
    (h : x ∈ l) (hx : p x = false) : x ∈ editFirst p f l := by
  induction l with
  | nil => exact h
  | cons y l ih =>
    rw [editFirst]
    rcases List.mem_cons.mp h with rfl | hmem
    · rw [hx]
      exact List.mem_cons_self
    · split
      · exact List.mem_cons_of_mem _ hmem
      · exact List.mem_cons_of_mem _ (ih hmem)

theorem edit_endPane (t : Tab) (addr : SessionAddr) (new : List SessionAddr) :
    Edit new [addr] t (t.endPane addr) := by
  have hmap : (t.endPane addr).panes.map (·.addr) = t.panes.map (·.addr) := by
    unfold Tab.endPane
    apply map_editFirst
    exact fun _ => rfl
  have haddrs : (t.endPane addr).addrs = t.addrs := by
    unfold Tab.addrs
    rw [hmap]
    rfl
  have hcount : (t.endPane addr).paneCount = t.paneCount := by
    unfold Tab.paneCount
    have hlength := congrArg List.length hmap
    rw [List.length_map, List.length_map] at hlength
    rw [hlength]
  refine ⟨fun h _ => haddrs ▸ h, fun a ha => .inl (haddrs ▸ ha), fun a ha => ?_, fun h => ?_⟩
  · obtain hprimary | ⟨q, hq, hlive, haddr⟩ := ha
    · exact .inl (.inl hprimary)
    · by_cases hgone : q.addr = addr
      · exact .inr (List.mem_singleton.mpr (haddr.symm.trans hgone))
      · refine .inl (.inr ⟨q, ?_, hlive, haddr⟩)
        exact mem_editFirst_of_not hq (decide_eq_false hgone)
  · rw [hcount]
    exact h

/-- A dead tab gives its slot to a new one on its address, and with it what lives
in its panes. -/
theorem edit_revive (addr : SessionAddr) (isLocal : Bool) (haddr : t.addr = addr)
    (hdead : t.dead = true) (hpanes : ∀ p ∈ t.panes, p.isLive = false) (new gone : List SessionAddr)
    :
    Edit new gone t (.daemon addr isLocal) := by
  refine ⟨fun _ _ => List.nodup_singleton _, fun a ha => ?_, fun a ha => ?_, fun _ => Nat.one_pos⟩
  · obtain rfl := List.mem_singleton.mp ha
    exact .inl (List.mem_cons.mpr (.inl haddr.symm))
  · obtain ⟨hlive, -⟩ | ⟨p, hp, hlive, -⟩ := ha
    · rw [hdead] at hlive
      cases hlive
    · rw [hpanes p hp] at hlive
      cases hlive

/-! ## The strip's invariant -/

/-- What holds of a strip at all times. -/
structure Sound (s : TabStrip) : Prop where
  active : s.active ≤ s.tabs.length - 1
  distinct : (addrsOf s.tabs).Nodup
  focus : ∀ t ∈ s.tabs, t.focus < t.paneCount

theorem sound_default : Sound .default := ⟨le_rfl, List.nodup_nil, nofun⟩

/-- An edit of one tab keeps the strip sound. -/
theorem Sound.edited {s' : TabStrip} (h : Sound s) (hedited : EditedAt new gone s.tabs s'.tabs)
    (hnew : ∀ a ∈ new, a ∉ addrsOf s.tabs) (hactive : s'.active ≤ s.tabs.length - 1) : Sound s' :=
  ⟨by rw [hedited.length]; exact hactive, hedited.nodup h.distinct hnew, hedited.focus h.focus⟩

/-- An operation meets the promise: what it adopts is in no pane, and where it
revives a dead tab nothing lives in that tab's panes; what it splits off is new. -/
def Meets (s : TabStrip) : Op → Prop
  | .adopt addr _ _ =>
    (∀ t ∈ s.tabs, ∀ p ∈ t.panes, p.addr ≠ addr) ∧
      ∀ t ∈ s.tabs, t.addr = addr → t.dead = true → ∀ p ∈ t.panes, p.isLive = false
  | .split pane => pane.addr ∉ addrsOf s.tabs
  | _ => True

/-- The sessions an operation closes or reports ended. -/
def closes (s : TabStrip) : Op → List SessionAddr
  | .close addr => ((s.tabs.find? fun t => t.addr = addr).map Tab.addrs).getD []
  | .closeFocusedPane => (s.activeTab.map Tab.focusedAddr).toList
  | .removeGonePane addr => [addr]
  | .sessionGone addr => [addr]
  | _ => []

/-- One operation keeps the strip sound and loses no live session but those it
closes. -/
def Fine (s s' : TabStrip) (gone : List SessionAddr) : Prop :=
  Sound s' ∧ ∀ a ∈ s.live, a ∈ s'.live ∨ a ∈ gone

theorem fine_edited {s' : TabStrip} (h : Sound s) (hedited : EditedAt new gone s.tabs s'.tabs)
    (hnew : ∀ a ∈ new, a ∉ addrsOf s.tabs) (hactive : s'.active ≤ s.tabs.length - 1) :
    Fine s s' gone := by
  refine ⟨h.edited hedited hnew hactive, fun a ha => ?_⟩
  rw [mem_live] at ha ⊢
  exact hedited.live ha

theorem none_new (l : List SessionAddr) : ∀ a ∈ ([] : List SessionAddr), a ∉ l := nofun

/-- Nothing but the keyboard moves. -/
theorem fine_active {s' : TabStrip} (h : Sound s) (htabs : s'.tabs = s.tabs)
    (hactive : s'.active ≤ s.tabs.length - 1) (gone : List SessionAddr) : Fine s s' gone :=
  fine_edited h (Or.inl htabs : EditedAt [] gone s.tabs s'.tabs) (none_new _) hactive

theorem active_activate (s : TabStrip) (index : Nat) :
    (s.activate index).tabs = s.tabs ∧
      (s.active ≤ s.tabs.length - 1 → (s.activate index).active ≤ s.tabs.length - 1) := by
  unfold TabStrip.activate
  split
  · exact ⟨rfl, id⟩
  · exact ⟨rfl, fun _ => by dsimp only; omega⟩

theorem active_activateApp (s : TabStrip) (isOpen : Bool) (tab : AppTab) :
    (s.activateApp isOpen tab).tabs = s.tabs ∧ (s.activateApp isOpen tab).active = s.active := by
  unfold TabStrip.activateApp
  split <;> exact ⟨rfl, rfl⟩

theorem active_activateAddr (s : TabStrip) (addr : SessionAddr) :
    (s.activateAddr addr).tabs = s.tabs ∧
      (s.active ≤ s.tabs.length - 1 → (s.activateAddr addr).active ≤ s.tabs.length - 1) := by
  have happ : ∀ isOpen tab, (s.activateApp isOpen tab).tabs = s.tabs ∧
      (s.active ≤ s.tabs.length - 1 → (s.activateApp isOpen tab).active ≤ s.tabs.length - 1) :=
    fun isOpen tab => ⟨(active_activateApp s isOpen tab).1, fun h => by
      rwa [(active_activateApp s isOpen tab).2]⟩
  unfold TabStrip.activateAddr
  split
  · exact happ _ _
  · split
    · exact happ _ _
    · split
      · exact active_activate s _
      · exact ⟨rfl, id⟩

theorem active_activateDisplay (s : TabStrip) (index : Nat) :
    (s.activateDisplay index).tabs = s.tabs ∧
      (s.active ≤ s.tabs.length - 1 → (s.activateDisplay index).active ≤ s.tabs.length - 1) := by
  unfold TabStrip.activateDisplay
  split
  · exact ⟨rfl, id⟩
  · split
    · split
      · exact active_activateAddr s _
      · split
        · exact active_activateAddr s _
        · exact ⟨rfl, id⟩
    · exact active_activate s index

theorem fine_close (h : Sound s) (addr : SessionAddr) :
    Fine s (s.close addr) (closes s (.close addr)) := by
  unfold TabStrip.close closes
  cases hi : s.tabs.findIdx? (fun t => t.addr = addr) with
  | none => exact fine_active h rfl h.active _
  | some index =>
    obtain ⟨hlt, haddr, hfirst⟩ := List.findIdx?_eq_some_iff_getElem.mp hi
    have hfind : s.tabs.find? (fun t => t.addr = addr) = some (s.tabs.get ⟨index, hlt⟩) := by
      rw [List.find?_eq_some_iff_getElem]
      exact ⟨haddr, index, hlt, rfl, fun j hj => by simpa using hfirst j hj⟩
    have hlength := List.length_eraseIdx_of_lt hlt
    have hactive := h.active
    refine ⟨⟨?_, ?_, fun t ht => ?_⟩, fun a ha => ?_⟩
    · have hle : (if index < s.active ∨ index = s.active ∧ s.active > 0 then s.active - 1
          else s.active) ≤ s.tabs.length - 1 - 1 := by
        split <;> omega
      rwa [← hlength] at hle
    · exact h.distinct.sublist (List.Sublist.flatMap (List.eraseIdx_sublist s.tabs index) _)
    · exact h.focus t ((List.eraseIdx_sublist s.tabs index).subset ht)
    · rw [mem_live] at ha ⊢
      obtain ⟨t, ht, hholds⟩ := ha
      rcases mem_eraseIdx_or ht index with hkept | hgone
      · exact .inl ⟨t, hkept, hholds⟩
      · right
        obtain rfl : s.tabs.get ⟨index, hlt⟩ = t :=
          Option.some.inj ((List.getElem?_eq_getElem hlt).symm.trans hgone)
        show a ∈ ((s.tabs.find? fun t => t.addr = addr).map Tab.addrs).getD []
        rw [hfind, Option.map_some, Option.getD_some]
        exact mem_addrs_of_holds hholds

theorem fine_adopt (h : Sound s) {isLocal focus : Bool}
    (hmeets : Meets s (.adopt addr isLocal focus)) :
    Fine s (s.adopt (.daemon addr isLocal) focus) [] := by
  obtain ⟨hpanes, hdead⟩ := hmeets
  unfold TabStrip.adopt
  cases hi : s.tabs.findIdx? (fun t => t.addr = (Tab.daemon addr isLocal).addr) with
  | some i =>
    obtain ⟨hlt, haddr, -⟩ := List.findIdx?_eq_some_iff_getElem.mp hi
    have hget : s.tabs[i]? = some (s.tabs.get ⟨i, hlt⟩) := List.getElem?_eq_getElem hlt
    have haddr : (s.tabs.get ⟨i, hlt⟩).addr = addr := of_decide_eq_true haddr
    simp only [hget, Option.any_some]
    split
    · next hd =>
      have hedited : EditedAt [] [] s.tabs (s.tabs.set i (.daemon addr isLocal)) := by
        rw [List.set_eq_modify]
        refine editedAt_modify s.tabs i fun t ht => ?_
        obtain rfl : s.tabs.get ⟨i, hlt⟩ = t := Option.some.inj (hget.symm.trans ht)
        exact edit_revive addr isLocal haddr hd
          (hdead _ (List.getElem_mem hlt) haddr hd) [] []
      split
      · obtain ⟨htabs, hactive⟩ :=
          active_activate { s with tabs := s.tabs.set i (.daemon addr isLocal) } i
        rw [List.length_set] at hactive
        exact fine_edited h (by rw [htabs]; exact hedited) (none_new _) (hactive h.active)
      · exact fine_edited h hedited (none_new _) h.active
    · split
      · exact fine_active h (active_activate s i).1 ((active_activate s i).2 h.active) []
      · exact fine_active h rfl h.active []
  | none =>
    have hfresh : addr ∉ addrsOf s.tabs := by
      intro hmem
      obtain ⟨t, ht, hin⟩ := List.mem_flatMap.mp hmem
      rcases List.mem_cons.mp hin with heq | hpane
      · have hne := List.findIdx?_eq_none_iff.mp hi t ht
        exact of_decide_eq_false hne heq.symm
      · obtain ⟨p, hp, heq⟩ := List.mem_map.mp hpane
        exact hpanes t ht p hp heq
    have hpushed : ∀ active, active ≤ s.tabs.length → ∀ settings profiles app,
        Fine s ⟨s.tabs ++ [.daemon addr isLocal], active, settings, profiles, app⟩ [] := by
      intro active hactive settings profiles app
      refine ⟨⟨by simpa using hactive, ?_, ?_⟩, fun a ha => ?_⟩
      · show (addrsOf (s.tabs ++ _)).Nodup
        rw [addrsOf_append, List.nodup_append']
        refine ⟨h.distinct, List.nodup_singleton _, fun a ha hnew => ?_⟩
        rw [show addrsOf [Tab.daemon addr isLocal] = [addr] from rfl] at hnew
        rw [List.mem_singleton.mp hnew] at ha
        exact hfresh ha
      · intro t ht
        rcases List.mem_append.mp ht with hold | hnew
        · exact h.focus t hold
        · rw [List.mem_singleton.mp hnew]
          exact Nat.one_pos
      · rw [mem_live] at ha ⊢
        obtain ⟨t, ht, hholds⟩ := ha
        exact .inl ⟨t, List.mem_append_left _ ht, hholds⟩
    dsimp only
    split
    · exact hpushed _ le_rfl _ _ _
    · exact hpushed _ (h.active.trans (Nat.sub_le _ _)) _ _ _

theorem fine_onActive (h : Sound s) {f : Tab → Tab} (hnew : ∀ a ∈ new, a ∉ addrsOf s.tabs)
    (hf : ∀ t, s.activeTab = some t → Edit new gone t (f t)) : Fine s (s.onActive f) gone :=
  fine_edited h (editedAt_modify s.tabs s.active hf) hnew h.active

/-- What one operation does to a sound strip. -/
theorem fine_step (h : Sound s) {op : Op} (hmeets : Meets s op) :
    Fine s (step s op) (closes s op) := by
  cases op with
  | adopt addr isLocal focus => exact fine_adopt h hmeets
  | activate index => exact fine_active h (active_activate s _).1 ((active_activate s _).2 h.active) _
  | activateAddr addr =>
    exact fine_active h (active_activateAddr s _).1 ((active_activateAddr s _).2 h.active) _
  | activateNext =>
    show Fine s s.activateNext []
    unfold TabStrip.activateNext
    split
    · exact fine_active h rfl h.active _
    · exact fine_active h (active_activateDisplay s _).1
        ((active_activateDisplay s _).2 h.active) _
  | activatePrev =>
    show Fine s s.activatePrev []
    unfold TabStrip.activatePrev
    split
    · exact fine_active h rfl h.active _
    · exact fine_active h (active_activateDisplay s _).1
        ((active_activateDisplay s _).2 h.active) _
  | close addr => exact fine_close h addr
  | openSettings => exact fine_active h (show s.openSettings.tabs = s.tabs from rfl) h.active []
  | closeSettings => exact fine_active h (show s.closeSettings.tabs = s.tabs from rfl) h.active []
  | openProfiles => exact fine_active h (show s.openProfiles.tabs = s.tabs from rfl) h.active []
  | closeProfiles => exact fine_active h (show s.closeProfiles.tabs = s.tabs from rfl) h.active []
  | split pane =>
    refine fine_onActive h (fun a ha => ?_) fun t _ => edit_adoptPane _ t pane
    rw [List.mem_singleton.mp ha]
    exact hmeets
  | focusPane i => exact fine_onActive h (none_new _) fun t _ => edit_focusPane [] _ t i
  | cycleFocus delta => exact fine_onActive h (none_new _) fun t _ => edit_cycleFocus [] _ t delta
  | closeFocusedPane =>
    refine fine_onActive h (none_new _) fun t ht => ?_
    show Edit [] (s.activeTab.map Tab.focusedAddr).toList t _
    rw [ht]
    exact edit_closeFocusedPane (h.focus t (List.mem_of_getElem? ht)) []
  | removeGonePane addr =>
    exact fine_edited h (editedAt_editFirst (fun t _ => edit_removeGonePane t addr []) s.tabs)
      (none_new _) h.active
  | sessionGone addr =>
    show Fine s (s.sessionGone addr) [addr]
    unfold TabStrip.sessionGone
    split
    · exact fine_edited h
        (editedAt_editFirst (fun t ht => edit_dead (of_decide_eq_true ht) []) s.tabs)
        (none_new _) h.active
    · exact fine_edited h (editedAt_editFirst (fun t _ => edit_endPane t addr []) s.tabs)
        (none_new _) h.active

/-! ## The keyboard stays where it was -/

/-- Closing another tab leaves the active one active. -/
theorem activeTab_close (h : Sound s) (ht : s.activeTab = some t) (hother : t.addr ≠ addr) :
    (s.close addr).activeTab = some t := by
  unfold TabStrip.close
  cases hi : s.tabs.findIdx? (fun t => t.addr = addr) with
  | none => exact ht
  | some index =>
    obtain ⟨hlt, haddr, -⟩ := List.findIdx?_eq_some_iff_getElem.mp hi
    have hne : index ≠ s.active := by
      rintro rfl
      obtain rfl : s.tabs.get ⟨s.active, hlt⟩ = t :=
        Option.some.inj ((List.getElem?_eq_getElem hlt).symm.trans ht)
      exact hother (of_decide_eq_true haddr)
    have hactive := h.active
    simp only [TabStrip.activeTab]
    by_cases hbefore : index < s.active
    · rw [if_pos (.inl hbefore), List.getElem?_eraseIdx_of_ge (by omega)]
      have hback : s.active - 1 + 1 = s.active := by omega
      rw [hback]
      exact ht
    · rw [if_neg (by omega), List.getElem?_eraseIdx_of_lt (by omega)]
      exact ht

theorem getElem_editFirst {α : Type} {p : α → Bool} {f : α → α} {l : List α} {i : Nat} {x y : α}
    (hx : l[i]? = some x) (hy : (editFirst p f l)[i]? = some y) : y = x ∨ y = f x := by
  induction l generalizing i with
  | nil => cases hx
  | cons z l ih =>
    rw [editFirst] at hy
    split at hy
    · cases i with
      | zero =>
        rw [List.getElem?_cons_zero] at hx hy
        rw [← Option.some.inj hx, ← Option.some.inj hy]
        exact .inr rfl
      | succ i =>
        rw [List.getElem?_cons_succ] at hx hy
        exact .inl (Option.some.inj (hy.symm.trans hx))
    · cases i with
      | zero =>
        rw [List.getElem?_cons_zero] at hx hy
        exact .inl (Option.some.inj (hy.symm.trans hx))
      | succ i =>
        rw [List.getElem?_cons_succ] at hx hy
        exact ih hx hy

/-- The keyboard stays with its pane when another one goes. -/
theorem focusedAddr_removeGonePane (hother : t.focusedAddr ≠ addr) :
    ((t.removeGonePane addr).getD t).focusedAddr = t.focusedAddr := by
  unfold Tab.removeGonePane
  cases hj : t.panes.findIdx? (fun p => p.addr = addr) with
  | none => rfl
  | some j =>
    obtain ⟨hlt, haddr, -⟩ := List.findIdx?_eq_some_iff_getElem.mp hj
    have haddr : (t.panes.get ⟨j, hlt⟩).addr = addr := of_decide_eq_true haddr
    have hpane : t.panes[j]? = some (t.panes.get ⟨j, hlt⟩) := List.getElem?_eq_getElem hlt
    rw [Option.map_some, Option.getD_some]
    unfold Tab.focusedAddr at *
    dsimp only
    cases hfocus : t.focus with
    | zero => rfl
    | succ k =>
      rw [hfocus] at hother
      simp only [Tab.paneAddr] at hother ⊢
      have hne : k ≠ j := by
        rintro rfl
        rw [hpane, Option.map_some, Option.getD_some] at hother
        exact hother haddr
      by_cases hpast : k + 1 > j
      · obtain ⟨m, rfl⟩ : ∃ m, k = m + 1 := ⟨k - 1, by omega⟩
        rw [if_pos hpast, Nat.add_sub_cancel]
        simp only
        rw [List.getElem?_eraseIdx_of_ge (by omega)]
      · rw [if_neg hpast]
        simp only
        rw [List.getElem?_eraseIdx_of_lt (by omega)]

theorem focusedAddr_endPane (t : Tab) (addr : SessionAddr) :
    (t.endPane addr).focusedAddr = t.focusedAddr := by
  have hmap : (t.endPane addr).panes.map (·.addr) = t.panes.map (·.addr) := by
    unfold Tab.endPane
    apply map_editFirst
    exact fun _ => rfl
  have hfocus : (t.endPane addr).focus = t.focus := rfl
  unfold Tab.focusedAddr
  rw [hfocus]
  cases t.focus with
  | zero => rfl
  | succ k =>
    simp only [Tab.paneAddr]
    rw [← List.getElem?_map, ← List.getElem?_map, hmap]
    rfl

/-- The operations by which a pane goes or its session ends. -/
def Op.takesPane : Op → Bool
  | .closeFocusedPane | .removeGonePane _ | .sessionGone _ => true
  | _ => false

theorem focusedAddr_step {op : Op} (hop : op.takesPane = true) {i : Nat} {t' : Tab}
    (ht : s.tabs[i]? = some t) (ht' : (step s op).tabs[i]? = some t')
    (hother : t.focusedAddr ∉ closes s op) : t'.focusedAddr = t.focusedAddr := by
  cases op with
  | closeFocusedPane =>
    have hmodify : (s.tabs.modify s.active fun t => t.closeFocusedPane.getD t)[i]? = some t' := ht'
    rw [List.getElem?_modify] at hmodify
    split at hmodify
    · next hactive =>
      refine absurd ?_ hother
      have hfocused : s.activeTab = some t := by
        rw [TabStrip.activeTab, hactive]
        exact ht
      show t.focusedAddr ∈ (s.activeTab.map Tab.focusedAddr).toList
      rw [hfocused]
      exact List.mem_singleton_self _
    · rw [ht] at hmodify
      have hsame : t = t' := Option.some.inj hmodify
      rw [hsame]
  | removeGonePane addr =>
    have hne : t.focusedAddr ≠ addr := fun h => hother (List.mem_singleton.mpr h)
    obtain rfl | rfl := getElem_editFirst ht ht'
    · rfl
    · exact focusedAddr_removeGonePane hne
  | sessionGone addr =>
    have hstep : (step s (.sessionGone addr)).tabs = (s.sessionGone addr).tabs := rfl
    rw [hstep, TabStrip.sessionGone] at ht'
    split at ht'
    · obtain rfl | rfl := getElem_editFirst ht ht' <;> rfl
    · obtain rfl | rfl := getElem_editFirst ht ht'
      · rfl
      · exact focusedAddr_endPane t addr
  | _ => cases hop

/-! ## Whole runs -/

/-- The active tab is one of the tabs, a tab's focus one of its panes, and no
session lives in two places. -/
structure Healthy (s : TabStrip) : Prop where
  active : s.tabs ≠ [] → s.active < s.tabs.length
  focus : ∀ t ∈ s.tabs, t.focus < t.paneCount
  unique : s.live.Nodup

/-- An operation loses no live session but what it closes, leaves the active tab
active when it closes another, and every tab's focus on its pane when another
pane goes. -/
structure Keeps (s : TabStrip) (op : Op) (s' : TabStrip) : Prop where
  live : ∀ a ∈ s.live, a ∈ s'.live ∨ a ∈ closes s op
  activeTab : ∀ addr t, op = .close addr → s.activeTab = some t → t.addr ≠ addr →
    s'.activeTab = some t
  focus : op.takesPane = true → ∀ (i : Nat) (t t' : Tab), s.tabs[i]? = some t → s'.tabs[i]? = some t' →
    t.focusedAddr ∉ closes s op → t'.focusedAddr = t.focusedAddr

theorem Sound.healthy (h : Sound s) : Healthy s := by
  refine ⟨fun hne => ?_, h.focus, live_nodup h.distinct⟩
  have hpos := List.length_pos_iff.mpr hne
  have hactive := h.active
  omega

theorem after_snoc (run : List Op) (op : Op) : after (run ++ [op]) = step (after run) op := by
  rw [after, List.foldl_append]
  rfl

theorem sound_after {ops : List Op}
    (h : ∀ run op, run ++ [op] <+: ops → Meets (after run) op) : Sound (after ops) := by
  induction ops using List.reverseRecOn with
  | nil => exact sound_default
  | append_singleton ops op ih =>
    have hbefore := ih fun run op' hrun => h run op' (hrun.trans (List.prefix_append ops [op]))
    rw [after_snoc]
    exact (fine_step hbefore (h ops op List.prefix_rfl)).1

/-- In a run that adopts no session a pane is on, and revives no tab with a live
pane, no session is held twice and none is lost. -/
theorem strip_keeps (ops : List Op)
    (h : ∀ run op, run ++ [op] <+: ops → Meets (after run) op) :
    (∀ run, run <+: ops → Healthy (after run)) ∧
      ∀ run op, run ++ [op] <+: ops → Keeps (after run) op (after (run ++ [op])) := by
  have hsound : ∀ run, run <+: ops → Sound (after run) := fun run hrun =>
    sound_after fun run' op hrun' => h run' op (hrun'.trans hrun)
  refine ⟨fun run hrun => (hsound run hrun).healthy, fun run op hrun => ?_⟩
  have hbefore := hsound run ((List.prefix_append run [op]).trans hrun)
  rw [after_snoc]
  refine ⟨(fine_step hbefore (h run op hrun)).2, ?_, fun hop i t t' ht ht' hother =>
    focusedAddr_step hop ht ht' hother⟩
  rintro addr t rfl ht hne
  exact activeTab_close hbefore ht hne

/-! ## A session adopted from a pane -/

/-- A session of one host. -/
def sessionOn (id : UInt64) : SessionAddr := ⟨⟨Vector.replicate 32 7⟩, id⟩

def paneOn (id : UInt64) : SplitPane := ⟨sessionOn id, .session, true, false, false⟩

/-- One tab, split in two. -/
def splitOnce : List Op := [.adopt (sessionOn 1) true true, .split (paneOn 2)]

/-- A split keeps the strip's promise. -/
theorem strip_keeps_split : Healthy (after splitOnce) := by
  refine (strip_keeps splitOnce fun run op hrun => ?_).1 splitOnce List.prefix_rfl
  cases run with
  | nil =>
    obtain rfl := (List.cons_prefix_cons.mp hrun).1
    exact ⟨nofun, nofun⟩
  | cons first run =>
    obtain ⟨rfl, hrest⟩ := List.cons_prefix_cons.mp hrun
    cases run with
    | nil =>
      obtain rfl := (List.cons_prefix_cons.mp hrest).1
      show (paneOn 2).addr ∉ addrsOf _
      decide
    | cons second run =>
      have htoo := (List.cons_prefix_cons.mp hrest).2
      exact absurd (List.prefix_nil.mp htoo) (by simp)

/-- The session in the pane is opened as a tab, and lives in the strip twice. -/
theorem adopted_twice :
    ¬ (after (splitOnce ++ [.adopt (sessionOn 2) true true])).live.Nodup ∧
      -- the tab's own session is gone and comes back: what lives in its pane is lost
      sessionOn 2 ∈ (after (splitOnce ++ [.sessionGone (sessionOn 1)])).live ∧
      sessionOn 2 ∉ (after (splitOnce ++ [.sessionGone (sessionOn 1),
        .adopt (sessionOn 1) true true])).live := by
  refine ⟨?_, ?_, ?_⟩ <;> decide

end Strip

end Zesterm
