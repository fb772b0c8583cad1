/-
Zesterm.Daemon.SessionTheorems — what one call does to a session.

`change_step` lists once what a call may do to one subscriber, with the
message it is sent, `polled` what a poll of one may come to, and
`effect_step` what a call may do to the terminal and the title. The laws of
a run are proved from these lists.
-/
import Zesterm.Daemon.Session
import Zesterm.Core.TerminalTheorems

namespace Zesterm

/-- Its number and its shadow stay, and what it is owed. -/
structure Subscriber.Keeps (sub sub' : Subscriber) : Prop where
  encoder : sub'.encoder = sub.encoder
  sent : sub'.sent = sub.sent
  owed : sub.needsKeyframe = true → sub'.needsKeyframe = true

namespace Session

variable {vt : Vt}
variable (s : Session vt)
variable (exempt : Option Nat)

/-! ## What one call does to a subscriber -/

/-- The message a reply brings one subscriber. -/
def Reply.messageTo (k : Nat) : Reply → Option SessionUpdate
  | .message handle update => if handle = k then some update else none
  | _ => none

/-- What one call may do to the subscriber under one handle. A call made
for one of the subscribers finds none joining. -/
inductive Change (s : Session vt) (c : Call) (k : Nat) :
    Option Subscriber → Option Subscriber → Option SessionUpdate → Prop where
  | absent : Change s c k none none none
  /-- Its number and its shadow stay, and what it is owed. -/
  | kept {sub sub' : Subscriber} (hgreet : c = .greet → s.joining ≠ some k)
      (hkeeps : sub.Keeps sub')
      (hvote : (s.joining = none → ∀ size, c ≠ .setClientSize k size) ∧ sub'.size = sub.size ∨
        ∃ size, c = .setClientSize k size ∧ s.joining = none ∧
          sub'.size = some (clampSize size)) :
      Change s c k (some sub) (some sub') none
  | joins {o : Option Subscriber} {sub : Subscriber} (hk : k = s.nextSubscriber)
      (hfree : s.joining = none) (size : Option CellSize) (hc : c = .join size)
      (hvote : sub.size = size.map clampSize) : Change s c k o (some sub) none
  | greets {sub : Subscriber} (hc : c = .greet) (hk : s.joining = some k) (acked : Nat)
      (kf : Keyframe) (hkf : (s.terminal.state.encodeKeyframe s.title sub.encoder).1 = kf) :
      Change s c k (some sub)
        (some { sub with
          encoder := (s.terminal.state.encodeKeyframe s.title sub.encoder).2
          sent := s.terminal.state.seq
          acked := acked })
        (some (.keyframe s.terminal.state.seq kf))
  | keyframes {sub : Subscriber} (hc : c = .keyframeFor k) (hfree : s.joining = none) :
      Change s c k (some sub) (some (sub.sendKeyframe s.terminal.state s.title).1)
        (some (sub.sendKeyframe s.terminal.state s.title).2)
  | polls {sub : Subscriber} (hc : c = .poll k) (hfree : s.joining = none) :
      Change s c k (some sub) (some (sub.poll s.terminal.state s.title).1)
        (sub.poll s.terminal.state s.title).2
  | leaves {sub : Subscriber} (hc : c = .detach k) (hfree : s.joining = none) :
      Change s c k (some sub) none none

/-- A subscriber that nothing happens to. -/
theorem Change.refl {c : Call} {k : Nat} (o : Option Subscriber)
    (hgreet : c = .greet → s.joining ≠ some k)
    (hvote : s.joining = none → ∀ size, c = .setClientSize k size → o = none) :
    Change s c k o o none := by
  cases o with
  | none => exact .absent
  | some sub =>
    exact .kept hgreet ⟨rfl, rfl, id⟩ (.inl ⟨fun hfree size hc => by
      simpa using hvote hfree size hc, rfl⟩)

/-- An edit of the whole table that takes no debt away. -/
theorem Change.of_map {c : Call} {k : Nat} (o : Option Subscriber) (f : Subscriber → Subscriber)
    (hgreet : c = .greet → s.joining ≠ some k) (hvote : ∀ size, c ≠ .setClientSize k size)
    (hf : ∀ sub, sub.Keeps (f sub) ∧ (f sub).size = sub.size) : Change s c k o (o.map f) none := by
  cases o with
  | none => exact .absent
  | some sub => exact .kept hgreet (hf sub).1 (.inl ⟨fun _ => hvote, (hf sub).2⟩)

theorem lookup_oweKeyframes (subs : Table Nat Subscriber) (k : Nat) :
    (oweKeyframes exempt subs).lookup k = (subs.lookup k).map fun sub =>
      if some k = exempt then sub else { sub with needsKeyframe := true } := by
  unfold oweKeyframes
  rw [Table.lookup_mapWithKey]

/-- The size is what was wanted, or it becomes that and everyone but the
exempt is owed a keyframe. -/
theorem reconcileSize_cases :
    (s.reconcileSize exempt = (s, false) ∧ ∀ want, smallestSize s.votes = some want → want = s.size) ∨
      ∃ want, smallestSize s.votes = some want ∧ want ≠ s.size ∧ s.reconcileSize exempt =
        ({ s with
            terminal := s.terminal.resize want.1 want.2
            subscribers := oweKeyframes exempt s.subscribers },
          true) := by
  unfold reconcileSize
  cases hv : smallestSize s.votes with
  | none =>
    refine .inl ⟨rfl, ?_⟩
    intro want hwant
    simp at hwant
  | some want =>
    dsimp only
    by_cases hsize : want = s.size
    · rw [if_pos hsize]
      refine .inl ⟨rfl, ?_⟩
      intro want' hwant
      rw [← Option.some.inj hwant]
      exact hsize
    · rw [if_neg hsize]
      exact .inr ⟨want, rfl, hsize, rfl⟩

/-- What an arbitration may do to a subscriber: owe it a keyframe. -/
theorem lookup_reconcileSize (k : Nat) :
    ∃ f : Subscriber → Subscriber,
      (s.reconcileSize exempt).1.subscribers.lookup k = (s.subscribers.lookup k).map f ∧
        ∀ sub, sub.Keeps (f sub) ∧ (f sub).size = sub.size := by
  rcases s.reconcileSize_cases exempt with ⟨heq, -⟩ | ⟨want, -, -, heq⟩
  · rw [heq]
    exact ⟨id, (Option.map_id_apply).symm, fun sub => ⟨⟨rfl, rfl, id⟩, rfl⟩⟩
  · rw [heq]
    refine ⟨_, lookup_oweKeyframes exempt s.subscribers k, fun sub => ?_⟩
    split
    · exact ⟨⟨rfl, rfl, id⟩, rfl⟩
    · exact ⟨⟨rfl, rfl, fun _ => rfl⟩, rfl⟩

theorem frame_reconcileSize :
    (s.reconcileSize exempt).1.nextSubscriber = s.nextSubscriber ∧
      (s.reconcileSize exempt).1.joining = s.joining ∧
      (s.reconcileSize exempt).1.title = s.title ∧
      (s.reconcileSize exempt).1.phase = s.phase := by
  rcases s.reconcileSize_cases exempt with ⟨heq, -⟩ | ⟨want, -, -, heq⟩
  · rw [heq]
    exact ⟨rfl, rfl, rfl, rfl⟩
  · rw [heq]
    exact ⟨rfl, rfl, rfl, rfl⟩

/-- One subscriber is replaced, and the others are not. -/
theorem change_insert {c : Call} (k handle : Nat) {sub sub' : Subscriber} {u : Option SessionUpdate}
    (hlookup : s.subscribers.lookup handle = some sub)
    (hgreet : c = .greet → s.joining = some handle) (hvote : ∀ k size, c ≠ .setClientSize k size)
    (h : Change s c handle (some sub) (some sub') u) :
    Change s c k (s.subscribers.lookup k) ((s.subscribers.insert handle sub').lookup k)
      ((Reply.ofUpdate handle u).messageTo k) := by
  rw [Table.lookup_insert_eq]
  by_cases hk : k = handle
  · subst hk
    rw [if_pos rfl, hlookup]
    cases u with
    | none => exact h
    | some u =>
      rw [show (Reply.ofUpdate k (some u)).messageTo k = some u from if_pos rfl]
      exact h
  · rw [if_neg hk]
    have hnone : (Reply.ofUpdate handle u).messageTo k = none := by
      cases u with
      | none => rfl
      | some u => exact if_neg (Ne.symm hk)
    rw [hnone]
    refine .refl s _ (fun hc hj => hk ?_) fun _ size hc => absurd hc (hvote k size)
    exact Option.some.inj (hj.symm.trans (hgreet hc))

section Calls

variable (s : Session vt) (k : Nat)
variable (handle : Nat)

theorem change_setClientSize (size : CellSize) (hfree : s.joining = none) :
    Change s (.setClientSize handle size) k (s.subscribers.lookup k)
      ((s.setClientSize handle size).1.subscribers.lookup k) none := by
  unfold setClientSize
  cases hlookup : s.subscribers.lookup handle with
  | none =>
    refine .refl s _ (by simp) fun _ _ hc => ?_
    cases hc
    exact hlookup
  | some sub =>
    dsimp only
    obtain ⟨f, hf, hkeep⟩ := lookup_reconcileSize
      ({ s with
        subscribers := s.subscribers.insert handle { sub with size := some (clampSize size) } } :
          Session vt) none k
    rw [hf]
    dsimp only
    rw [Table.lookup_insert_eq]
    by_cases hk : k = handle
    · subst hk
      rw [if_pos rfl, hlookup]
      obtain ⟨hkeeps, hsize⟩ := hkeep { sub with size := some (clampSize size) }
      exact .kept (by simp) ⟨hkeeps.encoder, hkeeps.sent, hkeeps.owed⟩
        (.inr ⟨size, rfl, hfree, hsize⟩)
    · rw [if_neg hk]
      exact .of_map s _ f (by simp) (fun _ hc => hk (by cases hc; rfl)) hkeep

theorem change_detach (hfree : s.joining = none) :
    Change s (.detach handle) k (s.subscribers.lookup k) ((s.detach handle).subscribers.lookup k)
      none := by
  unfold detach
  obtain ⟨f, hf, hkeep⟩ := lookup_reconcileSize
    ({ s with subscribers := s.subscribers.erase handle } : Session vt) none k
  rw [hf]
  dsimp only
  rw [Table.lookup_erase_eq]
  by_cases hk : k = handle
  · subst hk
    rw [if_pos rfl]
    cases s.subscribers.lookup k with
    | none => exact .absent
    | some sub => exact .leaves rfl hfree
  · rw [if_neg hk]
    exact .of_map s _ f (by simp) (by simp) hkeep

theorem change_join (size : Option CellSize) (hfree : s.joining = none) :
    Change s (.join size) k (s.subscribers.lookup k)
      ((s.arrive.1.join s.arrive.2 size).subscribers.lookup k) none := by
  unfold join
  obtain ⟨f, hf, hkeep⟩ := lookup_reconcileSize
    ({ s.arrive.1 with
        subscribers := s.arrive.1.subscribers.insert s.arrive.2 { size := size.map clampSize }
        joining := some s.arrive.2 } : Session vt) (some s.arrive.2) k
  rw [hf]
  dsimp only [arrive]
  rw [Table.lookup_insert_eq]
  by_cases hk : k = s.nextSubscriber
  · rw [if_pos hk]
    exact .joins hk hfree size rfl (hkeep _).2
  · rw [if_neg hk]
    exact .of_map s _ f (by simp) (by simp) hkeep

theorem change_greet (hjoining : s.joining = some handle) :
    Change s .greet k (s.subscribers.lookup k) ((s.greet handle).1.subscribers.lookup k)
      ((Reply.ofUpdate handle (s.greet handle).2).messageTo k) := by
  unfold greet
  cases hlookup : s.subscribers.lookup handle with
  | none =>
    by_cases hk : k = handle
    · subst hk
      show Change s .greet k (s.subscribers.lookup k) (s.subscribers.lookup k) none
      rw [hlookup]
      exact .absent
    · refine .refl s _ (fun _ hj => hk ?_) (by simp)
      exact Option.some.inj (hj.symm.trans hjoining)
  | some sub =>
    exact change_insert s k handle hlookup (fun _ => hjoining) (by simp)
      (.greets rfl hjoining _ _ rfl)

theorem change_keyframeFor (hfree : s.joining = none) :
    Change s (.keyframeFor handle) k (s.subscribers.lookup k)
      ((s.keyframeFor handle).1.subscribers.lookup k)
      ((Reply.ofUpdate handle (s.keyframeFor handle).2).messageTo k) := by
  unfold keyframeFor
  cases hlookup : s.subscribers.lookup handle with
  | none => exact .refl s _ (by simp) (by simp)
  | some sub => exact change_insert s k handle hlookup (by simp) (by simp) (.keyframes rfl hfree)

theorem change_poll (hfree : s.joining = none) :
    Change s (.poll handle) k (s.subscribers.lookup k) ((s.poll handle).1.subscribers.lookup k)
      ((Reply.ofUpdate handle (s.poll handle).2).messageTo k) := by
  unfold poll
  cases hlookup : s.subscribers.lookup handle with
  | none => exact .refl s _ (by simp) (by simp)
  | some sub => exact change_insert s k handle hlookup (by simp) (by simp) (.polls rfl hfree)

theorem change_progressFor :
    Change s (.progressFor handle) k (s.subscribers.lookup k)
      ((s.progressFor handle).1.subscribers.lookup k) none := by
  unfold progressFor
  cases hlookup : s.subscribers.lookup handle with
  | none => exact .refl s _ (by simp) (by simp)
  | some sub =>
    dsimp only
    split
    · exact .refl s _ (by simp) (by simp)
    · exact change_insert s k handle hlookup (u := none) (by simp) (by simp)
        (.kept (by simp) ⟨rfl, rfl, id⟩ (.inl ⟨by simp, rfl⟩))

theorem change_takeAttention :
    Change s (.takeAttention handle) k (s.subscribers.lookup k)
      ((s.takeAttention handle).1.subscribers.lookup k) none := by
  unfold takeAttention
  cases hlookup : s.subscribers.lookup handle with
  | none => exact .refl s _ (by simp) (by simp)
  | some sub =>
    exact change_insert s k handle hlookup (u := none) (by simp) (by simp)
      (.kept (by simp) ⟨rfl, rfl, id⟩ (.inl ⟨by simp, rfl⟩))

theorem change_ack (seq : Nat) :
    Change s (.ack handle seq) k (s.subscribers.lookup k) ((s.ack handle seq).subscribers.lookup k)
      none := by
  unfold ack
  dsimp only
  rw [Table.lookup_adjust]
  refine .of_map s _ _ (by simp) (by simp) fun sub => ?_
  split
  · unfold Subscriber.ack
    split
    · exact ⟨⟨rfl, rfl, fun _ => rfl⟩, rfl⟩
    · exact ⟨⟨rfl, rfl, id⟩, rfl⟩
  · exact ⟨⟨rfl, rfl, id⟩, rfl⟩

theorem change_handle (e : TermEvent) :
    Change s .event k (s.subscribers.lookup k) ((s.handle e).subscribers.lookup k) none := by
  have howe : Change s .event k (s.subscribers.lookup k)
      ((oweKeyframes none s.subscribers).lookup k) none := by
    rw [lookup_oweKeyframes]
    exact .of_map s _ _ (by simp) (by simp) fun sub => ⟨⟨rfl, rfl, fun _ => rfl⟩, rfl⟩
  cases e with
  | viewportRebased | historyCleared => exact howe
  | attention cause =>
    show Change s .event k _ ((s.subscribers.mapWithKey fun _ sub =>
      { sub with pendingAttention := some cause }).lookup k) none
    rw [Table.lookup_mapWithKey]
    exact .of_map s _ _ (by simp) (by simp) fun sub => ⟨⟨rfl, rfl, id⟩, rfl⟩
  | _ => exact .refl s _ (by simp) (by simp)

theorem change_readerStep (c : Call) (hgreet : c ≠ .greet)
    (hvote : ∀ size, c ≠ .setClientSize k size) :
    Change s c k (s.subscribers.lookup k) ((s.readerStep c).1.subscribers.lookup k)
      ((s.readerStep c).2.messageTo k) := by
  have hsame : Change s c k (s.subscribers.lookup k) (s.subscribers.lookup k) none :=
    .refl s _ (fun h => absurd h hgreet) fun _ size h => absurd h (hvote size)
  unfold readerStep
  split
  · exact hsame
  · exact hsame
  · exact change_handle s k _
  · exact hsame
  · exact hsame
  · exact hsame
  · exact hsame

end Calls

/-- What one call may do to any one subscriber. -/
theorem change_step (s : Session vt) (k : Nat) (c : Call) :
    Change s c k (s.subscribers.lookup k) ((s.step c).1.subscribers.lookup k)
      ((s.step c).2.messageTo k) := by
  unfold step
  split
  · next hblocked =>
    refine .refl s _ (fun hc => ?_) fun hfree => ?_
    · subst hc
      simp [Call.locksSubscribers] at hblocked
    · rw [hfree] at hblocked
      simp at hblocked
  · next hfree =>
    have hnone (hc : c.locksSubscribers s.phase = true) : s.joining = none := by
      simpa [hc] using hfree
    cases c with
    | join size => exact change_join s k size (hnone rfl)
    | greet =>
      dsimp only
      split
      · next hj =>
        refine .refl s _ (fun _ => ?_) (by simp)
        rw [hj]
        simp
      · next handle hjoining => exact change_greet s k handle hjoining
    | setClientSize handle size => exact change_setClientSize s k handle size (hnone rfl)
    | keyframeFor handle => exact change_keyframeFor s k handle (hnone rfl)
    | detach handle => exact change_detach s k handle (hnone rfl)
    | poll handle => exact change_poll s k handle (hnone rfl)
    | progressFor handle =>
      have h := change_progressFor s k handle
      dsimp only
      generalize s.progressFor handle = r at h ⊢
      obtain ⟨s', progress⟩ := r
      cases progress <;> exact h
    | takeAttention handle =>
      have h := change_takeAttention s k handle
      dsimp only
      generalize s.takeAttention handle = r at h ⊢
      obtain ⟨s', cause⟩ := r
      cases cause <;> exact h
    | ack handle seq => exact change_ack s k handle seq
    | parse | stamp | event | settle | endOfFile | childExit =>
      exact change_readerStep s k _ (by simp) (by simp)

end Session

/-! ## What a poll comes to -/

namespace Subscriber

/-- A subscriber that owes nothing, is behind by a delta's reach, and whose
blocks a delta can describe. -/
structure Differs (sub : Subscriber) (s : TermState) : Prop where
  compares : sub.ComparesSeq s
  behind : sub.sent < s.seq
  near : s.seq - sub.sent ≤ keyframeThreshold

/-- What a poll finds, and what it answers. -/
inductive Polled (sub : Subscriber) (s : TermState) (title : Str) :
    Subscriber × Option SessionUpdate → Prop where
  | level (hseq : s.seq = sub.sent) (hfree : sub.needsKeyframe = false) :
      Polled sub s title (sub, none)
  | ahead (hseq : s.seq < sub.sent) : Polled sub s title (sub, none)
  | keyframe : Polled sub s title
      ((sub.sendKeyframe s title).1, some (sub.sendKeyframe s title).2)
  | silent (hdiffers : sub.Differs s) (hsilent : (s.encodeDelta title sub.encoder).1.isSilent = true) :
      Polled sub s title
        ({ sub with encoder := (s.encodeDelta title sub.encoder).2, sent := s.seq }, none)
  | delta (hdiffers : sub.Differs s)
      (htells : (s.encodeDelta title sub.encoder).1.isSilent = false) :
      Polled sub s title
        ({ sub with encoder := (s.encodeDelta title sub.encoder).2, sent := s.seq },
          some (.delta sub.sent s.seq (s.encodeDelta title sub.encoder).1))

theorem polled (sub : Subscriber) (s : TermState) (title : Str) :
    sub.Polled s title (sub.poll s title) := by
  unfold poll
  split
  · next hlevel => exact .level hlevel.1 hlevel.2
  · next hlevel =>
    split
    · next hcompares =>
      by_cases hle : sub.sent ≥ s.seq
      · have hidle : updateFor s.seq sub.sent = .idle := if_pos hle
        simp only [hidle]
        refine .ahead (lt_of_le_of_ne hle fun heq => ?_)
        exact hlevel ⟨heq, hcompares.1⟩
      · by_cases hfar : s.seq - sub.sent > keyframeThreshold
        · have hkey : updateFor s.seq sub.sent = .keyframe s.seq := by
            unfold updateFor
            rw [if_neg hle, if_pos hfar]
          simp only [hkey]
          exact .keyframe
        · have hdelta : updateFor s.seq sub.sent = .delta sub.sent s.seq := by
            unfold updateFor
            rw [if_neg hle, if_neg hfar]
          simp only [hdelta]
          have hdiffers : sub.Differs s := ⟨hcompares, not_le.mp hle, not_lt.mp hfar⟩
          cases hsilent : (s.encodeDelta title sub.encoder).1.isSilent with
          | true => exact .silent hdiffers hsilent
          | false => exact .delta hdiffers hsilent
    · exact .keyframe

theorem size_poll (sub : Subscriber) (s : TermState) (title : Str) :
    (sub.poll s title).1.size = sub.size := by
  have h := sub.polled s title
  generalize sub.poll s title = r at h
  cases h <;> rfl

/-- What is owed is paid by the next poll. -/
theorem poll_of_owed {sub : Subscriber} (h : sub.needsKeyframe = true) (s : TermState) (title : Str) :
    ∃ seq k, (sub.poll s title).2 = some (.keyframe seq k) := by
  unfold poll
  rw [if_neg (by simp [h]), if_neg (by simp [ComparesSeq, h])]
  exact ⟨_, _, rfl⟩

end Subscriber

namespace Session

variable {vt : Vt}
variable (s : Session vt)
variable (c : Call)

/-! ## What one call does to the rest -/

/-- Whether a call only looks, or notes something of one subscriber. -/
def Call.looks : Call → Bool
  | .greet | .keyframeFor _ | .poll _ | .progressFor _ | .takeAttention _ | .ack _ _ => true
  | _ => false

theorem frame_looks {c : Call} (h : c.looks = true) :
    (s.step c).1.terminal = s.terminal ∧ (s.step c).1.title = s.title ∧
      (s.step c).1.phase = s.phase ∧ (s.step c).1.nextSubscriber = s.nextSubscriber ∧
      (c ≠ .greet → (s.step c).1.joining = s.joining) := by
  unfold step
  split
  · exact ⟨rfl, rfl, rfl, rfl, fun _ => rfl⟩
  · cases c with
    | greet =>
      dsimp only
      split
      · exact ⟨rfl, rfl, rfl, rfl, fun _ => rfl⟩
      · unfold greet
        split <;> exact ⟨rfl, rfl, rfl, rfl, fun hne => absurd rfl hne⟩
    | keyframeFor handle =>
      dsimp only
      unfold keyframeFor
      split <;> exact ⟨rfl, rfl, rfl, rfl, fun _ => rfl⟩
    | poll handle =>
      dsimp only
      unfold poll
      split <;> exact ⟨rfl, rfl, rfl, rfl, fun _ => rfl⟩
    | progressFor handle =>
      dsimp only
      unfold progressFor
      split
      · exact ⟨rfl, rfl, rfl, rfl, fun _ => rfl⟩
      · dsimp only
        split <;> exact ⟨rfl, rfl, rfl, rfl, fun _ => rfl⟩
    | takeAttention handle =>
      dsimp only
      unfold takeAttention
      split <;> exact ⟨rfl, rfl, rfl, rfl, fun _ => rfl⟩
    | ack handle seq => exact ⟨rfl, rfl, rfl, rfl, fun _ => rfl⟩
    | join | setClientSize | detach | parse | stamp | event | settle | endOfFile | childExit =>
      cases h

/-- Calls that leave the locks and the handles alone. -/
theorem joining_readerStep :
    (s.readerStep c).1.joining = s.joining ∧
      (s.readerStep c).1.nextSubscriber = s.nextSubscriber := by
  unfold readerStep
  split
  · exact ⟨rfl, rfl⟩
  · exact ⟨rfl, rfl⟩
  · next e _ _ => cases e <;> exact ⟨rfl, rfl⟩
  · exact ⟨rfl, rfl⟩
  · exact ⟨rfl, rfl⟩
  · exact ⟨rfl, rfl⟩
  · exact ⟨rfl, rfl⟩

/-- Who holds the subscribers, and the next handle. -/
theorem joining_step :
    (∃ size, c = .join size ∧ s.joining = none ∧
        (s.step c).1.joining = some s.nextSubscriber ∧
        (s.step c).1.nextSubscriber = s.nextSubscriber + 1) ∨
      (c = .greet ∧ (s.step c).1.joining = none ∧ (s.step c).1.nextSubscriber = s.nextSubscriber) ∨
      ((c = .greet → s.joining = none) ∧ (∀ size, c = .join size → s.joining.isSome) ∧
        (s.step c).1.joining = s.joining ∧ (s.step c).1.nextSubscriber = s.nextSubscriber) := by
  by_cases hlooks : c.looks = true ∧ c ≠ .greet
  · obtain ⟨-, -, -, hnext, hjoining⟩ := frame_looks s hlooks.1
    refine .inr (.inr ⟨fun hc => absurd hc hlooks.2, ?_, hjoining hlooks.2, hnext⟩)
    rintro size rfl
    exact absurd hlooks.1 (by simp [Call.looks])
  unfold step
  split
  · next hblocked =>
    refine .inr (.inr ⟨fun hc => ?_, fun _ _ => hblocked.1, rfl, rfl⟩)
    subst hc
    simp [Call.locksSubscribers] at hblocked
  · next hfree =>
    cases c with
    | join size =>
      have hnone : s.joining = none := by simpa [Call.locksSubscribers] using hfree
      obtain ⟨hnext, hjoining, -, -⟩ := frame_reconcileSize
        ({ s.arrive.1 with
            subscribers := s.arrive.1.subscribers.insert s.arrive.2 { size := size.map clampSize }
            joining := some s.arrive.2 } : Session vt) (some s.arrive.2)
      exact .inl ⟨size, rfl, hnone, hjoining, hnext⟩
    | greet =>
      dsimp only
      split
      · next hj => exact .inr (.inr ⟨fun _ => hj, by simp, rfl, rfl⟩)
      · refine .inr (.inl ⟨rfl, ?_⟩)
        unfold greet
        split <;> exact ⟨rfl, rfl⟩
    | setClientSize handle size =>
      refine .inr (.inr ⟨by simp, by simp, ?_⟩)
      dsimp only
      unfold setClientSize
      split
      · exact ⟨rfl, rfl⟩
      · next sub _ =>
        obtain ⟨hnext, hjoining, -, -⟩ := frame_reconcileSize
          ({ s with
            subscribers := s.subscribers.insert handle { sub with size := some (clampSize size) } } :
              Session vt) none
        exact ⟨hjoining, hnext⟩
    | detach handle =>
      obtain ⟨hnext, hjoining, -, -⟩ := frame_reconcileSize
        ({ s with subscribers := s.subscribers.erase handle } : Session vt) none
      exact .inr (.inr ⟨by simp, by simp, hjoining, hnext⟩)
    | parse | stamp | event | settle | endOfFile | childExit =>
      exact .inr (.inr ⟨by simp, by simp, s.joining_readerStep _⟩)
    | keyframeFor | poll | progressFor | takeAttention | ack => exact absurd ⟨rfl, by simp⟩ hlooks

/-- Whether a call may change who votes for what. -/
def Call.arbitrates : Call → Bool
  | .join _ => true
  | .setClientSize _ _ => true
  | .detach _ => true
  | _ => false

/-- What one call may do to the terminal and the title. -/
inductive Effect (s : Session vt) (c : Call) (s' : Session vt) : Prop where
  | same (hterminal : s'.terminal = s.terminal) (htitle : s'.title = s.title)
  /-- A resize owes a keyframe to everyone but a client that joins by it. -/
  | resized (hc : c.arbitrates = true) (want : CellSize)
      (hterminal : s'.terminal = s.terminal.resize want.1 want.2) (htitle : s'.title = s.title)
      (howed : ∀ k sub, s'.subscribers.lookup k = some sub →
        sub.needsKeyframe = true ∨ s'.joining = some k ∧ k = s.nextSubscriber)
  | parsed (chunk : List UInt8) (nowMs : Nat) (author : Option (List UInt8))
      (hc : c = .parse chunk nowMs author) (hphase : s.phase = .waiting)
      (hs' : s' = s.parse chunk nowMs author)
  | stamped (block : BlockId) (snapshot : BlockContext) (hc : c = .stamp snapshot)
      (hterminal : s'.terminal = s.terminal.setBlockContext block snapshot)
      (htitle : s'.title = s.title)
  | titled (title : Str) (events : List TermEvent) (hc : c = .event)
      (hphase : s.phase = .working none (.title title :: events))
      (hs' : s' = { s with title := title, phase := .working none events })

/-- What an arbitration may do to the terminal. -/
theorem effect_reconcile {s : Session vt} {c : Call} (hc : c.arbitrates = true) (s₁ : Session vt)
    (exempt : Option Nat) (hterminal : s₁.terminal = s.terminal) (htitle : s₁.title = s.title)
    (hexempt : ∀ k, exempt = some k → s₁.joining = some k ∧ k = s.nextSubscriber) :
    Effect s c (s₁.reconcileSize exempt).1 := by
  rcases s₁.reconcileSize_cases exempt with ⟨heq, -⟩ | ⟨want, -, -, heq⟩
  · rw [heq]
    exact .same hterminal htitle
  · rw [heq]
    refine .resized hc want (congrArg (fun t => t.resize want.1 want.2) hterminal) htitle ?_
    intro k sub hsub
    dsimp only at hsub ⊢
    rw [lookup_oweKeyframes, Option.map_eq_some_iff] at hsub
    obtain ⟨old, -, rfl⟩ := hsub
    split
    · next hk => exact .inr (hexempt k hk.symm)
    · exact .inl rfl

theorem effect_readerStep : Effect s c (s.readerStep c).1 := by
  unfold readerStep
  split
  · next chunk nowMs author hphase => exact .parsed chunk nowMs author rfl hphase rfl
  · next snapshot block events hphase =>
    dsimp only [stamp]
    by_cases hempty : snapshot.isEmpty = true
    · exact .same (if_pos hempty) rfl
    · exact .stamped block snapshot rfl (if_neg hempty) rfl
  · next e events hphase =>
    cases e with
    | title t => exact .titled t events rfl hphase rfl
    | _ => exact .same rfl rfl
  · exact .same rfl rfl
  · exact .same rfl rfl
  · exact .same rfl rfl
  · exact .same rfl rfl

theorem effect_step : Effect s c (s.step c).1 := by
  cases hlooks : c.looks with
  | true => exact .same (frame_looks s hlooks).1 (frame_looks s hlooks).2.1
  | false =>
    unfold step
    split
    · exact .same rfl rfl
    · cases c with
      | join size =>
        refine effect_reconcile rfl _ _ rfl rfl fun k hk => ?_
        cases hk
        exact ⟨rfl, rfl⟩
      | setClientSize handle size =>
        dsimp only
        unfold setClientSize
        split
        · exact .same rfl rfl
        · exact effect_reconcile rfl _ _ rfl rfl (by simp)
      | detach handle => exact effect_reconcile rfl _ _ rfl rfl (by simp)
      | parse | stamp | event | settle | endOfFile | childExit => exact effect_readerStep s _
      | greet | keyframeFor | poll | progressFor | takeAttention | ack => cases hlooks

/-- What one call may do to the reader's turn. -/
inductive Turn (s : Session vt) (c : Call) (s' : Session vt) : Prop where
  | stays (hphase : s'.phase = s.phase)
  | parsed (chunk : List UInt8) (nowMs : Nat) (author : Option (List UInt8))
      (hc : c = .parse chunk nowMs author) (hphase : s.phase = .waiting)
      (hs' : s' = s.parse chunk nowMs author)
  | stamped (block : BlockId) (events : List TermEvent)
      (hphase : s.phase = .working (some block) events) (hphase' : s'.phase = .working none events)
  | handled (e : TermEvent) (events : List TermEvent)
      (hphase : s.phase = .working none (e :: events))
      (hs' : s' = { s.handle e with phase := .working none events })
  | settled (hphase : s.phase = .working none []) (hphase' : s'.phase = .waiting)
  | ended (hphase : s.phase = .waiting) (hphase' : s'.phase = .ended)

theorem turn_readerStep : Turn s c (s.readerStep c).1 := by
  unfold readerStep
  split
  · next chunk nowMs author hphase => exact .parsed chunk nowMs author rfl hphase rfl
  · next snapshot block events hphase => exact .stamped block events hphase rfl
  · next e events hphase => exact .handled e events hphase rfl
  · next hphase => exact .settled hphase rfl
  · next hphase => exact .ended hphase rfl
  · exact .stays rfl
  · exact .stays rfl

theorem turn_step : Turn s c (s.step c).1 := by
  cases hlooks : c.looks with
  | true => exact .stays (frame_looks s hlooks).2.2.1
  | false =>
    unfold step
    split
    · exact .stays rfl
    · cases c with
      | join | detach => exact .stays (frame_reconcileSize _ _).2.2.2
      | setClientSize handle size =>
        dsimp only
        unfold setClientSize
        split
        · exact .stays rfl
        · exact .stays (frame_reconcileSize _ _).2.2.2
      | parse | stamp | event | settle | endOfFile | childExit => exact turn_readerStep s _
      | greet | keyframeFor | poll | progressFor | takeAttention | ack => cases hlooks

/-! ## Runs -/

/-- One entry of a session's history. -/
abbrev Entry (vt : Vt) := Trace.Entry (Session vt) Call Reply

/-- A call answers one subscriber with a full state. -/
def SendsKeyframe (k : Nat) (e : Entry vt) : Prop :=
  ∃ seq kf, e.reply.messageTo k = some (.keyframe seq kf)

/-- A call answers one subscriber with what changed. -/
def SendsDelta (k : Nat) (e : Entry vt) : Prop :=
  ∃ base seq d, e.reply.messageTo k = some (.delta base seq d)

theorem SendsDelta.not_keyframe {k : Nat} {e : Entry vt} (h : SendsDelta k e) :
    ¬SendsKeyframe k e := by
  obtain ⟨base, seq, d, hd⟩ := h
  rintro ⟨seq', kf, hk⟩
  rw [hd] at hk
  simp at hk

/-- A subscriber that is gone, or owed a keyframe. Its handle is not given
away again. -/
def Owes (k : Nat) (s : Session vt) : Prop :=
  k < s.nextSubscriber ∧ ∀ sub, s.subscribers.lookup k = some sub → sub.needsKeyframe = true

/-- An attach that does not wait holds the subscribers under a fresh
handle. -/
theorem joining_join {s : Session vt} (hfree : s.joining = none) (size : Option CellSize) :
    (s.step (.join size)).1.joining = some s.nextSubscriber ∧
      (s.step (.join size)).1.nextSubscriber = s.nextSubscriber + 1 := by
  rcases joining_step s (.join size) with ⟨-, -, -, h⟩ | ⟨hgreet, -⟩ | ⟨-, hblocked, -⟩
  · exact h
  · simp at hgreet
  · simp [hfree] at hblocked

theorem next_step : s.nextSubscriber ≤ (s.step c).1.nextSubscriber := by
  rcases joining_step s c with ⟨-, -, -, -, h⟩ | ⟨-, -, h⟩ | ⟨-, -, -, h⟩
  · omega
  · omega
  · omega

/-- What is owed is owed until a keyframe pays it, and no delta is sent
before that. -/
theorem owes_step {s : Session vt} {k : Nat} (h : s.Owes k) (c : Call)
    (hpaid : ¬SendsKeyframe k ⟨s, c, (s.step c).2⟩) :
    (s.step c).1.Owes k ∧ ¬SendsDelta k ⟨s, c, (s.step c).2⟩ := by
  obtain ⟨hk, howed⟩ := h
  have hchange := change_step s k c
  unfold SendsKeyframe at hpaid
  dsimp only at hpaid
  suffices hboth : (∀ sub, (s.step c).1.subscribers.lookup k = some sub →
      sub.needsKeyframe = true) ∧ (s.step c).2.messageTo k = none by
    refine ⟨⟨lt_of_lt_of_le hk (next_step s c), hboth.1⟩, ?_⟩
    rintro ⟨base, seq, d, hd⟩
    rw [hboth.2] at hd
    simp at hd
  generalize ho : s.subscribers.lookup k = o at hchange
  generalize (s.step c).1.subscribers.lookup k = o' at hchange ⊢
  generalize (s.step c).2.messageTo k = u at hchange hpaid ⊢
  rw [ho] at howed
  cases hchange with
  | absent | leaves => exact ⟨by simp, rfl⟩
  | kept _ hkeeps _ =>
    refine ⟨?_, rfl⟩
    intro sub hsub
    rw [← Option.some.inj hsub]
    exact hkeeps.owed (howed _ rfl)
  | joins hnext => omega
  | greets | keyframes => exact absurd ⟨_, _, rfl⟩ hpaid
  | polls =>
    obtain ⟨seq, kf, hkf⟩ := Subscriber.poll_of_owed (howed _ rfl) s.terminal.state s.title
    exact absurd ⟨seq, kf, hkf⟩ hpaid

/-- Every subscriber was given its handle. -/
def Handled (s : Session vt) : Prop :=
  ∀ k sub, s.subscribers.lookup k = some sub → k < s.nextSubscriber

theorem handled_step {s : Session vt} (h : s.Handled) (c : Call) : (s.step c).1.Handled := by
  intro k sub' hsub
  have hle := next_step s c
  have hold (sub : Subscriber) (hk : s.subscribers.lookup k = some sub) :
      k < (s.step c).1.nextSubscriber := lt_of_lt_of_le (h k sub hk) hle
  have hchange := change_step s k c
  rw [hsub] at hchange
  generalize ho : s.subscribers.lookup k = o at hchange
  generalize (s.step c).2.messageTo k = u at hchange
  generalize ho' : some sub' = o' at hchange
  cases hchange with
  | absent | leaves => simp at ho'
  | kept | greets | keyframes | polls => exact hold _ ho
  | joins hk hfree size hc =>
    subst hc
    have hnext := (joining_join hfree size).2
    omega

end Session

end Zesterm
