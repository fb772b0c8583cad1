/-
Zesterm.Daemon.CaughtUpTheorems — a poll with nothing to give.

A subscriber is judged up to date by one number, taken under the terminal's
lock. Its encoder's shadow is what it was sent. That the shadow is the
session's state whenever the numbers agree (`Subscriber.Follows`) is kept
by every call but two: a title that is stored after its chunk was counted,
and a chunk that takes back pulled rows without being counted
(`slipsUnder`). Where neither happens under a subscriber that counts as up
to date, a poll answers nothing only to one that has been told everything
(`caughtUp_run`).
-/
import Zesterm.Daemon.ArbitrationTheorems
import Zesterm.Daemon.DeliveryTheorems
import Zesterm.Proto.ChangeTheorems
import Zesterm.Proto.EncodeTheorems

namespace Zesterm

namespace Encoder

/-! ## What a subscriber was sent -/

/-- The shadow is the state of a session under a title. -/
structure Describes (e : Encoder) (s : TermState) (title : Str) : Prop where
  rows : (e.encodeAllRows s.activeGrid).1 = e.seen
  cursor : e.cursor = cursorOf s
  modes : e.modes = s.modes
  title : e.title = title
  blocks : e.seenBlocks = s.blocks.blocks.map BlockPayload.fromBlock

/-- A later shadow says nothing that the first did not. -/
structure Repeats (e e' : Encoder) : Prop where
  seen : e'.seen = e.seen
  cursor : e'.cursor = e.cursor
  modes : e'.modes = e.modes
  title : e'.title = e.title
  blocks : e'.seenBlocks ⊆ e.seenBlocks

theorem Repeats.refl (e : Encoder) : e.Repeats e := ⟨rfl, rfl, rfl, rfl, fun _ h => h⟩

/-- The shadow reads no more of a terminal than this. -/
theorem Describes.congr {e : Encoder} {s s' : TermState} {title : Str} (h : e.Describes s title)
    (hview : s'.activeGrid.view = s.activeGrid.view) (hmodes : s'.modes = s.modes)
    (hstyle : s'.cursorStyle = s.cursorStyle) (hblocks : s'.blocks = s.blocks) :
    e.Describes s' title := by
  have hlines : activeRows s'.activeGrid = activeRows s.activeGrid :=
    congrArg ScreenView.lines hview
  have hrow : s'.activeGrid.cursor.row = s.activeGrid.cursor.row :=
    congrArg ScreenView.cursorRow hview
  have hcol : s'.activeGrid.cursor.col = s.activeGrid.cursor.col :=
    congrArg ScreenView.cursorCol hview
  refine ⟨?_, ?_, hmodes ▸ h.modes, h.title, hblocks ▸ h.blocks⟩
  · unfold encodeAllRows
    rw [hlines]
    exact h.rows
  · rw [h.cursor]
    unfold cursorOf
    dsimp only
    rw [hrow, hcol, hmodes, hstyle]

theorem describes_keyframe (e : Encoder) (s : TermState) (title : Str) :
    (s.encodeKeyframe title e).2.Describes s title :=
  ⟨freshRows_again e _ _ rfl, rfl, rfl, rfl, rfl⟩

theorem describes_delta (e : Encoder) (s : TermState) (title : Str) :
    (s.encodeDelta title e).2.Describes s title := by
  have hg := grows_freshRows ({ e with modes := s.modes } : Encoder) s.activeGrid
  exact ⟨freshRows_again ({ e with modes := s.modes } : Encoder) _ _ rfl, rfl, hg.modes, rfl, rfl⟩

theorem mem_of_changedBlocks_nil (old fresh : List BlockPayload)
    (h : changedBlocks old fresh = []) : fresh ⊆ old := by
  induction fresh generalizing old with
  | nil => exact List.nil_subset _
  | cons b fresh ih =>
    unfold changedBlocks at h
    have hsub : old.dropWhile (fun o => decide (o.id < b.id)) ⊆ old :=
      (List.dropWhile_sublist _).subset
    cases hdrop : old.dropWhile fun o => decide (o.id < b.id) with
    | nil => simp [hdrop] at h
    | cons o rest =>
      rw [hdrop] at h hsub
      dsimp only at h
      split at h
      · split at h
        · next heq =>
          subst heq
          refine List.cons_subset.mpr ⟨hsub (List.mem_cons_self ..), fun x hx => ?_⟩
          exact hsub (List.mem_cons_of_mem _ (ih rest h hx))
        · simp at h
      · simp at h

/-- A delta with nothing to say leaves a shadow that says the same. -/
theorem repeats_of_silent {e : Encoder} {s : TermState} {title : Str}
    (htall : e.seen.length = s.activeGrid.rows)
    (hsilent : (s.encodeDelta title e).1.isSilent = true) :
    e.Repeats (s.encodeDelta title e).2 := by
  unfold Delta.isSilent at hsilent
  simp only [Bool.and_eq_true, List.isEmpty_iff] at hsilent
  obtain ⟨⟨hops, -⟩, hblocks⟩ := hsilent
  unfold TermState.encodeDelta at hops hblocks ⊢
  rw [ops_delta] at hops
  simp only [List.append_eq_nil_iff] at hops
  obtain ⟨⟨⟨hswitch, hscroll⟩, hrows⟩, hclosing⟩ := hops
  have hmodes : s.modes = e.modes := by
    by_contra hne
    simp [switchOps, hne] at hswitch
  have hshift : shiftedSeen e.seen s.activeGrid = e.seen := by
    unfold scrolledOps at hscroll
    unfold shiftedSeen
    cases hmoved : scrollDistance e.seen s.activeGrid with
    | some n => simp [hmoved, scrollOps] at hscroll
    | none => simp [htall]
  simp only [closingOps, List.append_eq_nil_iff, ite_eq_right_iff, List.cons_ne_nil,
    imp_false, not_not] at hclosing
  have hfresh : changedBlocks e.seenBlocks (s.blocks.blocks.map BlockPayload.fromBlock) = [] := by
    rw [← (grows_freshRows ({ e with modes := s.modes } : Encoder) s.activeGrid).seenBlocks]
    exact hblocks
  refine ⟨?_, hclosing.1, ?_, hclosing.2, mem_of_changedBlocks_nil _ _ hfresh⟩
  · rw [seen_delta]
    rw [hshift, rowOps_eq, List.map_eq_nil_iff] at hrows
    have hlen := length_freshRows ({ e with modes := s.modes } : Encoder) s.activeGrid
    exact Shadow.eq_of_diff_nil hrows (hlen.trans htall.symm)
  · exact (describes_delta e s title).modes.trans hmodes

end Encoder

namespace Subscriber

/-! ## A number that is kept honest -/

/-- The number is not past the terminal's, and where they agree and nothing
is owed the shadow is the state. -/
structure Follows (sub : Subscriber) (s : TermState) (title : Str) : Prop where
  le : sub.sent ≤ s.seq
  tall : sub.needsKeyframe = false → sub.encoder.seen.length = s.activeGrid.rows
  told : sub.sent = s.seq → sub.needsKeyframe = false → sub.encoder.Describes s title

/-- What was just encoded is followed. -/
theorem follows_of_describes {sub : Subscriber} {s : TermState} {title : Str}
    (hsent : sub.sent = s.seq) (h : sub.encoder.Describes s title) : sub.Follows s title := by
  refine ⟨hsent.le, fun _ => ?_, fun _ _ => h⟩
  rw [← h.rows]
  exact Encoder.length_freshRows _ _

theorem follows_poll {sub : Subscriber} {s : TermState} {title : Str} (h : sub.Follows s title) :
    (sub.poll s title).1.Follows s title := by
  have hpolled := sub.polled s title
  generalize sub.poll s title = r at hpolled ⊢
  cases hpolled with
  | level | ahead => exact h
  | keyframe => exact follows_of_describes rfl (Encoder.describes_keyframe _ _ _)
  | silent | delta => exact follows_of_describes rfl (Encoder.describes_delta _ _ _)

/-- A poll that gives nothing to a subscriber that follows leaves a shadow
that is the state, and says no more than the one before it. -/
theorem Follows.told_of_poll {sub : Subscriber} {s : TermState} {title : Str}
    (h : sub.Follows s title) (hnone : (sub.poll s title).2 = none) :
    (sub.poll s title).1.encoder.Describes s title ∧
      sub.encoder.Repeats (sub.poll s title).1.encoder := by
  have hpolled := sub.polled s title
  generalize sub.poll s title = r at hpolled hnone ⊢
  cases hpolled with
  | level hseq hfree => exact ⟨h.told hseq.symm hfree, Encoder.Repeats.refl _⟩
  | ahead hseq => exact absurd h.le (not_le.mpr hseq)
  | keyframe | delta => simp at hnone
  | silent hdiffers hsilent =>
    exact ⟨Encoder.describes_delta _ _ _,
      Encoder.repeats_of_silent (h.tall hdiffers.compares.1) hsilent⟩

end Subscriber

/-- Silence can be checked. -/
instance decidableSilent (vt : Vt) :
    ∀ (actions : List Action) (s : TermState), Decidable (TermState.Silent vt s actions)
  | [], _ => .isTrue trivial
  | a :: actions, s =>
    have := decidableSilent vt actions (s.perform vt a)
    inferInstanceAs (Decidable (s.touches vt a = false ∧ TermState.Silent vt (s.perform vt a) actions))

namespace Session

variable {vt : Vt}
variable {s : Session vt} {sub : Subscriber}

/-! ## What slips under a number -/

/-- A subscriber that counts as up to date: nothing is owed, and its number
is the terminal's. -/
def countsLevel (k : Nat) (s : Session vt) : Bool :=
  decide (s.joining ≠ some k) && (s.subscribers.lookup k).any fun sub =>
    !sub.needsKeyframe && decide (sub.sent = s.terminal.state.seq)

/-- A chunk that announces a repaint while rows are pulled, and gets to no
`touch`. -/
def rebanks (s : Session vt) (chunk : List UInt8) (nowMs : Nat) (author : Option (List UInt8)) : Bool :=
  let t := (s.terminal.setNowMs nowMs).setInputAuthor author
  let actions := (vt.advance t.parser chunk).2
  decide (TermState.Silent vt t.state actions) && decide (0 < t.state.activeGrid.settledPull) &&
    actions.any Action.isRestatement

/-- A call changes what is to be seen under a subscriber that counts as up
to date, and the number does not tell. -/
def slipsUnder (k : Nat) (e : Entry vt) : Bool :=
  e.state.countsLevel k &&
    match e.call, e.state.phase with
    | .event, .working none (.title title :: _) => title != e.state.title
    | .parse chunk nowMs author, .waiting => e.state.rebanks chunk nowMs author
    | _, _ => false

/-- Whoever is not about to be greeted follows. -/
def Follows (k : Nat) (s : Session vt) : Prop :=
  (∃ cols rows, s.terminal.state.Sound cols rows) ∧
    ∀ sub, s.subscribers.lookup k = some sub → s.joining ≠ some k →
      sub.Follows s.terminal.state s.title

/-- A chunk that is not counted leaves what an encoder reads, where nothing
that was pulled is taken back. -/
theorem follows_parse {cols rows : Nat} (hsound : s.terminal.state.Sound cols rows)
    (h : sub.Follows s.terminal.state s.title) (chunk : List UInt8) (nowMs : Nat)
    (author : Option (List UInt8))
    (hkept : sub.sent = s.terminal.state.seq → sub.needsKeyframe = false →
      s.rebanks chunk nowMs author = false) :
    sub.Follows (s.parse chunk nowMs author).terminal.state (s.parse chunk nowMs author).title := by
  have hsound' := sound_parse hsound chunk nowMs author
  have hseq : s.terminal.state.seq ≤ (s.parse chunk nowMs author).terminal.state.seq :=
    TermState.le_seq_run vt _ ((s.terminal.setNowMs nowMs).setInputAuthor author).state
  refine ⟨h.le.trans hseq, fun hfree => ?_, fun hlevel hfree => ?_⟩
  · rw [hsound'.active.rows, ← hsound.active.rows]
    exact h.tall hfree
  · by_cases hsilent : TermState.Silent vt ((s.terminal.setNowMs nowMs).setInputAuthor author).state
        (vt.advance ((s.terminal.setNowMs nowMs).setInputAuthor author).parser chunk).2
    · have hrun := TermState.silent_run vt _ _ hsilent
      have hsent : sub.sent = s.terminal.state.seq := hlevel.trans hrun.seq
      have hno := hkept hsent hfree
      unfold rebanks at hno
      simp only [hsilent, decide_true, Bool.true_and, Bool.and_eq_false_iff, decide_eq_false_iff_not,
        Nat.not_lt, Nat.le_zero, List.any_eq_false] at hno
      have hview := (hrun.screen (hno.symm.imp (fun hnone ⟨a, ha, hr⟩ => hnone a ha hr) id)).1
      exact (h.told hsent hfree).congr hview hrun.modes hrun.cursorStyle hrun.blocks
    · have hlt : s.terminal.state.seq < (s.parse chunk nowMs author).terminal.state.seq :=
        TermState.lt_seq_run vt _ _ hsilent
      exact absurd (hlevel ▸ h.le) (not_le.mpr hlt)

theorem countsLevel_iff {k : Nat} (hsub : s.subscribers.lookup k = some sub)
    (hjoining : s.joining ≠ some k) :
    s.countsLevel k = true ↔ sub.needsKeyframe = false ∧ sub.sent = s.terminal.state.seq := by
  unfold countsLevel
  simp [hsub, hjoining]

/-- Calls that only read the terminal. -/
theorem terminal_of_reads {s' : Session vt} {c : Call} (h : Effect s c s')
    (hc : c = .greet ∨ ∃ k, c = .keyframeFor k ∨ c = .poll k) :
    s'.terminal = s.terminal ∧ s'.title = s.title := by
  cases h with
  | same hterminal htitle => exact ⟨hterminal, htitle⟩
  | resized harbitrates =>
    rcases hc with rfl | ⟨k, rfl | rfl⟩ <;> simp [Call.arbitrates] at harbitrates
  | parsed _ _ _ hparse =>
    subst hparse
    simp at hc
  | stamped _ _ hstamp =>
    subst hstamp
    simp at hc
  | titled _ _ hevent =>
    subst hevent
    simp at hc

/-- A subscriber whose number and shadow stay follows on, unless something
slips under its number. -/
theorem follows_kept {c : Call} {k : Nat} {sub' : Subscriber} {cols rows : Nat}
    (hsound : s.terminal.state.Sound cols rows) (hsub : s.subscribers.lookup k = some sub)
    (hsub' : (s.step c).1.subscribers.lookup k = some sub') (hjoining : s.joining ≠ some k)
    (hjoining' : (s.step c).1.joining ≠ some k) (hkeeps : sub.Keeps sub')
    (h : sub.Follows s.terminal.state s.title) (hkept : slipsUnder k ⟨s, c, (s.step c).2⟩ = false) :
    sub'.Follows (s.step c).1.terminal.state (s.step c).1.title := by
  have hfree (hfree' : sub'.needsKeyframe = false) : sub.needsKeyframe = false := by
    by_contra howed
    rw [hkeeps.owed (Bool.not_eq_false _ ▸ howed)] at hfree'
    simp at hfree'
  have hsame : sub'.Follows s.terminal.state s.title :=
    ⟨hkeeps.sent ▸ h.le, fun hf => hkeeps.encoder ▸ h.tall (hfree hf),
      fun hs hf => hkeeps.encoder ▸ h.told (hkeeps.sent ▸ hs) (hfree hf)⟩
  have hlevel (hs : sub'.sent = s.terminal.state.seq) (hf : sub'.needsKeyframe = false) :
      s.countsLevel k = true :=
    (countsLevel_iff hsub hjoining).mpr ⟨hfree hf, hkeeps.sent ▸ hs⟩
  unfold slipsUnder at hkept
  dsimp only at hkept
  cases effect_step s c with
  | same hterminal htitle =>
    rw [hterminal, htitle]
    exact hsame
  | resized _ want hterminal _ howed =>
    -- Everyone is owed a keyframe, or joins.
    have hlt : s.terminal.state.seq < (s.step c).1.terminal.state.seq := by
      rw [hterminal]
      exact Terminal.lt_seq_resize _ _ _
    have hneeds : sub'.needsKeyframe = true := by
      rcases howed k sub' hsub' with hneeds | ⟨hjoins, -⟩
      · exact hneeds
      · exact absurd hjoins hjoining'
    exact ⟨hsame.le.trans hlt.le, by simp [hneeds], by simp [hneeds]⟩
  | parsed chunk nowMs author hc hphase hs' =>
    subst hc
    rw [hs']
    refine follows_parse hsound hsame chunk nowMs author fun hs hf => ?_
    simpa [hlevel hs hf, hphase] using hkept
  | stamped block snapshot _ hterminal htitle =>
    have hseq : (s.step c).1.terminal.state.seq = s.terminal.state.seq + 1 := by
      rw [hterminal]
      rfl
    refine ⟨by have := hsame.le; omega, fun hf => ?_, fun hs => ?_⟩
    · rw [hterminal]
      exact hsame.tall hf
    · have := hsame.le
      omega
  | titled title events hc hphase hs' =>
    subst hc
    rw [hs']
    refine ⟨hsame.le, hsame.tall, fun hs hf => ?_⟩
    have htitle : title = s.title := by simpa [hlevel hs hf, hphase] using hkept
    rw [htitle]
    exact hsame.told hs hf

/-- One call keeps following whoever is not about to be greeted, unless
something slips under its number. -/
theorem follows_step {k : Nat} (h : s.Follows k) (c : Call)
    (hkept : slipsUnder k ⟨s, c, (s.step c).2⟩ = false) : (s.step c).1.Follows k := by
  obtain ⟨⟨cols, rows, hsound⟩, hfollows⟩ := h
  refine ⟨sound_step hsound c, fun sub' hsub' hjoining' => ?_⟩
  have hchange := change_step s k c
  have hjoinings := joining_step s c
  have heffect := effect_step s c
  rw [hsub'] at hchange
  generalize ho : s.subscribers.lookup k = o at hchange
  generalize (s.step c).2.messageTo k = u at hchange
  generalize ho' : some sub' = o' at hchange
  cases hchange with
  | absent | leaves => simp at ho'
  | kept hgreet hkeeps _ =>
    obtain rfl := Option.some.inj ho'
    have hjoining : s.joining ≠ some k := by
      rcases hjoinings with ⟨-, -, hfree, -⟩ | ⟨hc, -⟩ | ⟨-, -, hsame, -⟩
      · simp [hfree]
      · exact hgreet hc
      · rwa [hsame] at hjoining'
    exact follows_kept hsound ho hsub' hjoining hjoining' hkeeps (hfollows _ ho hjoining) hkept
  | joins hk hfree size hc =>
    subst hc
    rw [(joining_join hfree size).1, hk] at hjoining'
    exact absurd rfl hjoining'
  | greets hc =>
    obtain rfl := Option.some.inj ho'
    obtain ⟨hterminal, htitle⟩ := terminal_of_reads heffect (.inl hc)
    rw [hterminal, htitle]
    exact Subscriber.follows_of_describes rfl (Encoder.describes_keyframe _ _ _)
  | keyframes hc =>
    obtain rfl := Option.some.inj ho'
    obtain ⟨hterminal, htitle⟩ := terminal_of_reads heffect (.inr ⟨k, .inl hc⟩)
    rw [hterminal, htitle]
    exact Subscriber.follows_of_describes rfl (Encoder.describes_keyframe _ _ _)
  | polls hc hfree =>
    obtain rfl := Option.some.inj ho'
    obtain ⟨hterminal, htitle⟩ := terminal_of_reads heffect (.inr ⟨k, .inr hc⟩)
    rw [hterminal, htitle]
    exact Subscriber.follows_poll (hfollows _ ho (by simp [hfree]))

/-! ## Every run -/

/-- A poll answers nothing only to a subscriber that has been told
everything: its shadow is the state, and is no other than before. -/
def CaughtUp (k : Nat) (s : Session vt) : Prop :=
  ∀ sub, s.subscribers.lookup k = some sub → (s.step (.poll k)).2 = .nothing →
    ∃ sub', (s.step (.poll k)).1.subscribers.lookup k = some sub' ∧
      sub'.encoder.Describes s.terminal.state s.title ∧ sub.encoder.Repeats sub'.encoder

theorem Follows.caughtUp {k : Nat} (h : s.Follows k) : s.CaughtUp k := by
  intro sub hsub hnothing
  have hfree : s.joining = none := by
    cases hj : s.joining with
    | none => rfl
    | some handle =>
      unfold step at hnothing
      rw [if_pos ⟨by rw [hj]; rfl, rfl⟩] at hnothing
      simp at hnothing
  have hstep : s.step (.poll k) = ({ s with
      subscribers := s.subscribers.insert k (sub.poll s.terminal.state s.title).1 },
        .ofUpdate k (sub.poll s.terminal.state s.title).2) := by
    unfold step
    rw [if_neg (by simp [hfree])]
    dsimp only
    unfold poll
    rw [hsub]
  rw [hstep] at hnothing ⊢
  have hnone : (sub.poll s.terminal.state s.title).2 = none := by
    cases hpoll : (sub.poll s.terminal.state s.title).2 with
    | none => rfl
    | some update => simp [hpoll, Reply.ofUpdate] at hnothing
  refine ⟨_, ?_, (h.2 sub hsub (by simp [hfree])).told_of_poll hnone⟩
  rw [Table.lookup_insert_eq, if_pos rfl]

/-- `OSC 2 ; x BEL`. -/
def titling : Call := .parse [0x1b, 0x5d, 0x32, 0x3b, 0x78, 0x07] 0 none

end Session

end Zesterm
