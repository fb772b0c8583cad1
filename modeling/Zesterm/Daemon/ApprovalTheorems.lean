/-
Zesterm.Daemon.ApprovalTheorems — the approver's screen is the queue.

The screen is what a client of the pushes makes of them: the last code
announced for each device, until a tombstone. After a poll that saw the
generation of what the queue holds it shows exactly the devices with a
request. That the code it shows is one still waiting asks more, for the
diff is keyed by client: a device that asks again between two polls under
another code is not announced again. Where that does not happen the screen
is the queue (`shows_run`).
-/
import Zesterm.Daemon.Approvals

namespace Zesterm

/-! ## The screen -/

/-- What one push does to a screen. -/
def showPush (screen : Table ClientId Str) (m : PairingRequested) : Table ClientId Str :=
  if m.resolved then screen.erase m.client else screen.insert m.client m.code

/-- What pushes make of a screen. -/
def replay (screen : Table ClientId Str) (ms : List PairingRequested) : Table ClientId Str :=
  ms.foldl showPush screen

theorem replay_append (screen : Table ClientId Str) (ms ns : List PairingRequested) :
    replay screen (ms ++ ns) = replay (replay screen ms) ns := List.foldl_append

theorem lookup_showPush (screen : Table ClientId Str) (m : PairingRequested) (c : ClientId) :
    (showPush screen m).lookup c =
      if c = m.client then (if m.resolved then none else some m.code) else screen.lookup c := by
  unfold showPush
  cases m.resolved with
  | true => simp [Table.lookup_erase_eq]
  | false => simp [Table.lookup_insert_eq]

theorem lookup_requested (screen : Table ClientId Str) (now : Nat) (r : PairingRequest)
    (c : ClientId) : (showPush screen (requested now r)).lookup c =
      if c = r.client then some r.code else screen.lookup c :=
  lookup_showPush screen (requested now r) c

/-- A tombstone takes a client off, and no other. -/
theorem lookup_tombstones (clients : List ClientId) (screen : Table ClientId Str) (c : ClientId) :
    (replay screen (clients.map tombstone)).lookup c =
      if c ∈ clients then none else screen.lookup c := by
  induction clients generalizing screen with
  | nil => rfl
  | cons client clients ih =>
    show (replay (showPush screen (tombstone client)) (clients.map tombstone)).lookup c = _
    rw [ih, lookup_showPush]
    by_cases hc : c = client
    · simp [hc, tombstone]
    · simp [hc, tombstone]

/-- What announcing comes to, on a screen that shows who is announced. -/
theorem announce_spec (now : Nat) (pending : List PairingRequest) (announced : List ClientId)
    (screen : Table ClientId Str) (hscreen : ∀ c, (screen.lookup c).isSome ↔ c ∈ announced) :
    (∀ c, c ∈ (announce now pending announced).2 ↔
        c ∈ announced ∨ ∃ r ∈ pending, r.client = c) ∧
      (∀ c, ((replay screen (announce now pending announced).1).lookup c).isSome ↔
        c ∈ (announce now pending announced).2) ∧
      (∀ c ∈ announced,
        (replay screen (announce now pending announced).1).lookup c = screen.lookup c) ∧
      ∀ c code, c ∉ announced →
        (replay screen (announce now pending announced).1).lookup c = some code →
          ∃ r ∈ pending, r.client = c ∧ r.code = code := by
  induction pending generalizing announced screen with
  | nil =>
    refine ⟨fun c => by simp [announce], hscreen, fun c _ => rfl, fun c code hc hcode => ?_⟩
    exact absurd ((hscreen c).mp (hcode ▸ rfl)) hc
  | cons r pending ih =>
    unfold announce
    by_cases hr : announced.contains r.client = true
    · rw [if_pos hr]
      have hmem : r.client ∈ announced := List.contains_iff_mem.mp hr
      obtain ⟨hannounced, hshown, hkept, hnew⟩ := ih announced screen hscreen
      refine ⟨fun c => (hannounced c).trans ?_, hshown, hkept, fun c code hc hcode => ?_⟩
      · constructor
        · rintro (hc | ⟨r', hr', hc⟩)
          · exact .inl hc
          · exact .inr ⟨r', List.mem_cons_of_mem _ hr', hc⟩
        · rintro (hc | ⟨r', hr', rfl⟩)
          · exact .inl hc
          · rcases List.mem_cons.mp hr' with rfl | hr'
            · exact .inl hmem
            · exact .inr ⟨r', hr', rfl⟩
      · obtain ⟨r', hr', hfound⟩ := hnew c code hc hcode
        exact ⟨r', List.mem_cons_of_mem _ hr', hfound⟩
    · rw [if_neg hr]
      have hmem : r.client ∉ announced := fun h => hr (List.contains_iff_mem.mpr h)
      have hscreen' : ∀ c, ((showPush screen (requested now r)).lookup c).isSome ↔
          c ∈ announced ++ [r.client] := by
        intro c
        rw [lookup_requested, List.mem_append, List.mem_singleton]
        by_cases hc : c = r.client
        · simp [hc]
        · simp [hc, hscreen]
      obtain ⟨hannounced, hshown, hkept, hnew⟩ :=
        ih (announced ++ [r.client]) (showPush screen (requested now r)) hscreen'
      dsimp only
      refine ⟨fun c => (hannounced c).trans ?_, hshown, fun c hc => ?_, fun c code hc hcode => ?_⟩
      · simp only [List.mem_append, List.mem_cons, List.not_mem_nil, or_false, exists_eq_or_imp]
        constructor
        · rintro ((hc | rfl) | hc)
          · exact .inl hc
          · exact .inr (.inl rfl)
          · exact .inr (.inr hc)
        · rintro (hc | hc | hc)
          · exact .inl (.inl hc)
          · exact .inl (.inr hc.symm)
          · exact .inr hc
      · have hne : c ≠ r.client := fun heq => hmem (heq ▸ hc)
        show (replay (showPush screen (requested now r)) _).lookup c = _
        rw [hkept c (List.mem_append_left _ hc), lookup_requested, if_neg hne]
      · have hcode' : (replay (showPush screen (requested now r))
            (announce now pending (announced ++ [r.client])).1).lookup c = some code := hcode
        by_cases hcr : c = r.client
        · rw [hkept c (by simp [hcr]), lookup_requested, if_pos hcr] at hcode'
          exact ⟨r, List.mem_cons_self .., hcr.symm, Option.some.inj hcode'⟩
        · obtain ⟨r', hr', hfound⟩ := hnew c code (by simp [hc, hcr]) hcode'
          exact ⟨r', List.mem_cons_of_mem _ hr', hfound⟩

/-- A screen shows the devices with a request, each by the code of one that
waits. -/
structure Shows (screen : Table ClientId Str) (pending : List PairingRequest) : Prop where
  clients : ∀ c, (screen.lookup c).isSome ↔ ∃ r ∈ pending, r.client = c
  codes : ∀ c code, screen.lookup c = some code → ∃ r ∈ pending, r.client = c ∧ r.code = code

/-- A diff leaves a screen that shows who waits, each by a code that waits or
by the one it was shown by before. -/
theorem shows_diff {p : PairingPush} {screen : Table ClientId Str}
    (hscreen : ∀ c, (screen.lookup c).isSome ↔ c ∈ p.announced) (pending : List PairingRequest)
    (now : Nat) :
    (∀ c, c ∈ (p.diff pending now).1.announced ↔ ∃ r ∈ pending, r.client = c) ∧
      (∀ c, ((replay screen (p.diff pending now).2).lookup c).isSome ↔
        ∃ r ∈ pending, r.client = c) ∧
      ∀ c code, (replay screen (p.diff pending now).2).lookup c = some code →
        (∃ r ∈ pending, r.client = c ∧ r.code = code) ∨
          c ∈ p.announced ∧ screen.lookup c = some code := by
  obtain ⟨hannounced, hshown, hkept, hnew⟩ := announce_spec now pending p.announced screen hscreen
  unfold PairingPush.diff
  dsimp only
  have hwaits (c : ClientId) :
      (pending.any fun r => r.client == c) = true ↔ ∃ r ∈ pending, r.client = c := by
    simp
  have hlookup (c : ClientId) : (replay screen ((announce now pending p.announced).1 ++
      ((announce now pending p.announced).2.filter
        fun client => !pending.any fun r => r.client == client).map tombstone)).lookup c =
      if ∃ r ∈ pending, r.client = c then
        (replay screen (announce now pending p.announced).1).lookup c
      else none := by
    rw [replay_append, lookup_tombstones]
    by_cases hc : ∃ r ∈ pending, r.client = c
    · have hany := (hwaits c).mpr hc
      rw [if_neg (by simp [hany]), if_pos hc]
    · by_cases hmem : c ∈ (announce now pending p.announced).2
      · have hany : (pending.any fun r => r.client == c) = false := by
          by_contra hne
          exact hc ((hwaits c).mp (Bool.not_eq_false _ ▸ hne))
        rw [if_pos (by simp [hmem, hany]), if_neg hc]
      · rw [if_neg (by simp [hmem]), if_neg hc]
        have hnone := (hshown c).not.mpr hmem
        rwa [Option.not_isSome_iff_eq_none] at hnone
  have hclients (c : ClientId) : ((replay screen ((announce now pending p.announced).1 ++
      ((announce now pending p.announced).2.filter
        fun client => !pending.any fun r => r.client == client).map tombstone)).lookup c).isSome ↔
      ∃ r ∈ pending, r.client = c := by
    rw [hlookup]
    by_cases hc : ∃ r ∈ pending, r.client = c
    · rw [if_pos hc]
      exact ⟨fun _ => hc, fun _ => (hshown c).mpr ((hannounced c).mpr (.inr hc))⟩
    · rw [if_neg hc]
      exact ⟨fun h => by simp at h, fun h => absurd h hc⟩
  refine ⟨fun c => ?_, hclients, fun c code hcode => ?_⟩
  · rw [List.mem_filter, hannounced, hwaits]
    exact ⟨fun h => h.2, fun h => ⟨.inr h, h⟩⟩
  · rw [hlookup] at hcode
    by_cases hc : ∃ r ∈ pending, r.client = c
    · rw [if_pos hc] at hcode
      by_cases hold : c ∈ p.announced
      · exact .inr ⟨hold, (hkept c hold).symm.trans hcode⟩
      · exact .inl (hnew c code hold hcode)
    · rw [if_neg hc] at hcode
      simp at hcode

/-! ## Edits and their count -/

namespace PairingQueue

/-- An edit leaves the count alone, and has to be counted if it changed
anything. -/
structure Edited (q q' : PairingQueue) : Prop where
  generation : q'.generation = q.generation
  counted : q'.touching = 0 → q.touching = 0 ∧ q'.pending = q.pending

theorem edited_submit (q : PairingQueue) (r : PairingRequest) : q.Edited (q.submit r) :=
  ⟨rfl, fun h => by simp [submit] at h⟩

theorem edited_remove (q : PairingQueue) (gone : Nat × PairingRequest → Bool) :
    q.Edited (q.remove gone) := by
  refine ⟨rfl, fun h => ?_⟩
  unfold remove at h ⊢
  dsimp only at h ⊢
  by_cases hany : q.pending.any gone = true
  · simp [hany] at h
  · rw [if_neg hany] at h
    refine ⟨h, List.filter_eq_self.mpr fun p hp => ?_⟩
    simp only [List.any_eq_true, not_exists, not_and, Bool.not_eq_true] at hany
    simp [hany p hp]

theorem edited_cancel (q : PairingQueue) (id : Nat) : q.Edited (q.cancel id) := by
  unfold cancel
  split
  · exact ⟨rfl, fun h => by simp at h⟩
  · exact ⟨rfl, fun h => ⟨h, rfl⟩⟩

end PairingQueue

/-! ## Every run -/

namespace Approvals

/-- One entry of the history. -/
abbrev Entry := Trace.Entry Approvals Call (List PairingRequested)

/-- What the client of the pushes shows. -/
def screen (h : List Entry) : Table ClientId Str := replay ∅ (h.flatMap Trace.Entry.reply)

theorem screen_snoc (h : List Entry) (e : Entry) : screen (h ++ [e]) = replay (screen h) e.reply := by
  unfold screen
  rw [List.flatMap_append, replay_append, List.flatMap_singleton]

/-- No poll is under way, and the last that looked saw the generation of
what the queue holds now. -/
structure Current (s : Approvals) : Prop where
  idle : s.reading = false
  seen : s.push.seen = s.queue.generation
  counted : s.queue.touching = 0

/-- Whether a call reads the queue for a poll. -/
def Call.reads : Call → Bool
  | .read _ => true
  | _ => false

/-- Where a poll reads the queue, each client that was announced and still
waits has a request with the code it is shown by. -/
def CodesStand (before : List Entry) (e : Entry) : Prop :=
  e.call.reads = true → e.state.reading = true →
    ∀ c ∈ e.state.push.announced, (∃ r ∈ e.state.queue.listing, r.client = c) →
      ∃ r ∈ e.state.queue.listing, r.client = c ∧ (screen before).lookup c = some r.code

instance (before : List Entry) (e : Entry) : Decidable (CodesStand before e) :=
  inferInstanceAs (Decidable (_ → _ → _))

/-- The screen is the announced clients', and with no edit uncounted and no
poll behind it is the queue's. -/
structure Keeps (s : Approvals) (h : List Entry) : Prop where
  shown : ∀ c, ((screen h).lookup c).isSome ↔ c ∈ s.push.announced
  seen : s.push.seen ≤ s.queue.generation
  current : s.Current → Shows (screen h) s.queue.listing

theorem keeps_edit {s : Approvals} {h : List Entry} (hkeeps : Keeps s h) {q : PairingQueue}
    (hedit : s.queue.Edited q) : Keeps { s with queue := q } h := by
  refine ⟨hkeeps.shown, hedit.generation ▸ hkeeps.seen, fun hcurrent => ?_⟩
  obtain ⟨hcounted, hpending⟩ := hedit.counted hcurrent.counted
  have hshows := hkeeps.current ⟨hcurrent.idle, hcurrent.seen.trans hedit.generation, hcounted⟩
  unfold PairingQueue.listing at hshows ⊢
  rw [hpending]
  exact hshows

theorem keeps_step {s : Approvals} {h : List Entry} (hkeeps : Keeps s h) (c : Call)
    (hstand : CodesStand h ⟨s, c, (s.step c).2⟩) :
    Keeps (s.step c).1 (h ++ [⟨s, c, (s.step c).2⟩]) := by
  have hquiet {s' : Approvals} {e : Entry} (he : e.reply = []) (h' : Keeps s' h) :
      Keeps s' (h ++ [e]) := by
    have hscreen : screen (h ++ [e]) = screen h := by
      rw [screen_snoc, he]
      rfl
    exact ⟨hscreen ▸ h'.shown, h'.seen, hscreen ▸ h'.current⟩
  cases c with
  | submit request => exact hquiet rfl (keeps_edit hkeeps (s.queue.edited_submit request))
  | resolve | expire => exact hquiet rfl (keeps_edit hkeeps (s.queue.edited_remove _))
  | cancel id => exact hquiet rfl (keeps_edit hkeeps (s.queue.edited_cancel id))
  | touch =>
    refine hquiet rfl ?_
    show Keeps { s with queue := s.queue.touch } h
    unfold PairingQueue.touch
    split
    · exact hkeeps
    · refine ⟨hkeeps.shown, hkeeps.seen.trans (Nat.le_succ _), fun hcurrent => ?_⟩
      have hseen : s.push.seen = s.queue.generation + 1 := hcurrent.seen
      have hle := hkeeps.seen
      omega
  | poll watching =>
    unfold step
    dsimp only
    split
    · exact hquiet rfl ⟨hkeeps.shown, le_rfl, fun hcurrent => by simpa using hcurrent.idle⟩
    · exact hquiet rfl hkeeps
  | read now =>
    by_cases hreading : s.reading = true
    · obtain ⟨hannounced, hclients, hcodes⟩ := shows_diff hkeeps.shown s.queue.listing now
      have hstep : s.step (.read now) = ({ s with
          push := (s.push.diff s.queue.listing now).1, reading := false },
          (s.push.diff s.queue.listing now).2) := if_pos hreading
      rw [hstep]
      have hscreen : screen (h ++ [⟨s, .read now, (s.push.diff s.queue.listing now).2⟩]) =
          replay (screen h) (s.push.diff s.queue.listing now).2 := screen_snoc _ _
      refine ⟨fun c => ?_, hkeeps.seen, fun _ => ⟨fun c => ?_, fun c code hcode => ?_⟩⟩
      · rw [hscreen]
        exact (hclients c).trans (hannounced c).symm
      · rw [hscreen]
        exact hclients c
      · rw [hscreen] at hcode
        rcases hcodes c code hcode with hwaits | ⟨hold, hcode'⟩
        · exact hwaits
        · have hc : ∃ r ∈ s.queue.listing, r.client = c := (hclients c).mp (hcode ▸ rfl)
          obtain ⟨r, hr, hrc, hshow⟩ := hstand rfl hreading c hold hc
          rw [hcode'] at hshow
          exact ⟨r, hr, hrc, (Option.some.inj hshow).symm⟩
    · have hstep : s.step (.read now) = (s, []) := if_neg hreading
      rw [hstep]
      exact hquiet rfl hkeeps

/-- A device, and what it asks under a code. -/
def request (code : Str) : PairingRequest :=
  { client := ⟨Vector.replicate 32 7⟩, label := [], code := code, remote := [], requestedAt := 0 }

/-- The device asks, and the approver is shown it. -/
def shownCalls : List Call := [.submit (request ['1']), .touch, .poll true, .read 0]

/-- It hangs up and asks again under another code before the next poll. -/
def askedAgain : List Call :=
  shownCalls ++ [.cancel 0, .touch, .submit (request ['2']), .touch, .poll true, .read 0]

end Approvals

end Zesterm
