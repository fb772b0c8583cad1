/-
Zesterm.Daemon.DeliveryTheorems — what a subscriber may take a delta for.

A delta names the sequence it starts from. It is that of the last message
the subscriber was sent (`chained_run`), but for one path of `poll`: where
the sequence moved and there is nothing to say, the number moves on and no
message tells. A delta starts from rows the subscriber holds as well, and
after a chunk that moved the boundary of history it holds other lines. The
reader owes a keyframe for that, a moment after the chunk; a poll in that
moment is the one that sends a delta across (`bridged_run`).
-/
import Zesterm.Daemon.SessionTheorems
import Zesterm.Core.AsciiVt

namespace Zesterm

/-- The sequence a message leaves its reader at. -/
def SessionUpdate.seq : SessionUpdate → Nat
  | .keyframe seq _ => seq
  | .delta _ seq _ => seq

/-- The sequence a delta starts from. -/
def SessionUpdate.base? : SessionUpdate → Option Nat
  | .keyframe _ _ => none
  | .delta base _ _ => some base

instance (sub : Subscriber) (s : TermState) : Decidable (sub.Differs s) :=
  decidable_of_iff (sub.ComparesSeq s ∧ sub.sent < s.seq ∧ s.seq - sub.sent ≤ keyframeThreshold)
    ⟨fun h => ⟨h.1, h.2.1, h.2.2⟩, fun h => ⟨h.compares, h.behind, h.near⟩⟩

namespace Session

variable {vt : Vt}
variable {s : Session vt} {k : Nat}

/-! ## What a poll finds -/

/-- Where a poll of one subscriber compares states: whether there is
nothing to say. -/
def found? (k : Nat) (e : Entry vt) : Option Bool :=
  match e.call with
  | .poll handle =>
    if handle = k ∧ e.state.joining = none then
      (e.state.subscribers.lookup k).bind fun sub =>
        if sub.Differs e.state.terminal.state then
          some (e.state.terminal.state.encodeDelta e.state.title sub.encoder).1.isSilent
        else none
    else none
  | _ => none

theorem found_poll {sub : Subscriber} (hfree : s.joining = none)
    (hsub : s.subscribers.lookup k = some sub) (hdiffers : sub.Differs s.terminal.state) (r : Reply)
    :
    found? k ⟨s, .poll k, r⟩ = some (s.terminal.state.encodeDelta s.title sub.encoder).1.isSilent := by
  unfold found?
  dsimp only
  rw [if_pos ⟨rfl, hfree⟩, hsub, Option.bind_some, if_pos hdiffers]

/-! ## Where a delta starts -/

/-- What one subscriber was sent. -/
def sentTo (k : Nat) (h : List (Entry vt)) : List SessionUpdate :=
  h.filterMap fun e => e.reply.messageTo k

/-- The sequence one subscriber was left at. -/
def lastSeq? (k : Nat) (h : List (Entry vt)) : Option Nat :=
  (sentTo k h).getLast?.map SessionUpdate.seq

theorem lastSeq_snoc (k : Nat) (h : List (Entry vt)) (e : Entry vt) :
    lastSeq? k (h ++ [e]) =
      ((e.reply.messageTo k).map SessionUpdate.seq).or (lastSeq? k h) := by
  unfold lastSeq? sentTo
  rw [List.filterMap_append]
  cases hmessage : e.reply.messageTo k with
  | none => simp [hmessage]
  | some update => simp [hmessage]

theorem sendsDelta_iff {e : Entry vt} :
    SendsDelta k e ↔ ((e.reply.messageTo k).bind SessionUpdate.base?).isSome := by
  unfold SendsDelta
  constructor
  · rintro ⟨base, seq, d, hd⟩
    rw [hd]
    rfl
  · intro h
    cases hmessage : e.reply.messageTo k with
    | none => simp [hmessage] at h
    | some update =>
      cases update with
      | keyframe => simp [hmessage, SessionUpdate.base?] at h
      | delta base seq d => exact ⟨base, seq, d, rfl⟩

/-- Every delta starts where the message before it ended. -/
def Chained (k : Nat) (h : List (Entry vt)) : Prop :=
  Trace.Each (fun before e => ∀ base,
    (e.reply.messageTo k).bind SessionUpdate.base? = some base → lastSeq? k before = some base) h

/-- A subscriber's number is the sequence it was left at, once it has been
greeted. -/
def Level (k : Nat) (s : Session vt) (h : List (Entry vt)) : Prop :=
  ∀ sub, s.subscribers.lookup k = some sub → s.joining ≠ some k → lastSeq? k h = some sub.sent

/-- A delta starts from the number, and the number follows the messages
where no poll finds nothing to say. -/
theorem level_step {h : List (Entry vt)} (hlevel : Level k s h) (c : Call)
    (htells : found? k ⟨s, c, (s.step c).2⟩ ≠ some true) :
    Level k (s.step c).1 (h ++ [⟨s, c, (s.step c).2⟩]) ∧
      ∀ base, ((s.step c).2.messageTo k).bind SessionUpdate.base? = some base →
        lastSeq? k h = some base := by
  have hchange := change_step s k c
  have hjoining := joining_step s c
  unfold Level at hlevel ⊢
  rw [lastSeq_snoc]
  dsimp only
  generalize ho : s.subscribers.lookup k = o at hchange
  generalize (s.step c).1.subscribers.lookup k = o' at hchange ⊢
  generalize hu : (s.step c).2.messageTo k = u at hchange ⊢
  rw [ho] at hlevel
  cases hchange with
  | absent | leaves => exact ⟨by simp, by simp⟩
  | @kept sub sub' hgreet hkeeps _ =>
    refine ⟨?_, by simp⟩
    intro sub'' hsub hne
    obtain rfl := Option.some.inj hsub
    have hne' : s.joining ≠ some k := by
      rcases hjoining with ⟨-, -, hfree, -⟩ | ⟨hc, -⟩ | ⟨-, -, hsame, -⟩
      · simp [hfree]
      · exact hgreet hc
      · rwa [hsame] at hne
    rw [hkeeps.sent]
    exact hlevel sub rfl hne'
  | joins hk hfree size hc =>
    refine ⟨?_, by simp⟩
    intro _ _ hne
    subst hc
    rw [(joining_join hfree size).1, hk] at hne
    exact absurd rfl hne
  | greets =>
    refine ⟨?_, by simp [SessionUpdate.base?]⟩
    intro sub'' hsub _
    rw [← Option.some.inj hsub]
    rfl
  | keyframes =>
    refine ⟨?_, by simp [Subscriber.sendKeyframe, SessionUpdate.base?]⟩
    intro sub'' hsub _
    rw [← Option.some.inj hsub]
    rfl
  | @polls sub hc hfree =>
    have hlast : lastSeq? k h = some sub.sent := hlevel sub rfl (by simp [hfree])
    have hpolled := sub.polled s.terminal.state s.title
    subst hc
    generalize sub.poll s.terminal.state s.title = r at hpolled ⊢
    cases hpolled with
    | level | ahead =>
      refine ⟨?_, by simp⟩
      intro sub'' hsub _
      rw [← Option.some.inj hsub]
      exact hlast
    | keyframe =>
      refine ⟨?_, by simp [Subscriber.sendKeyframe, SessionUpdate.base?]⟩
      intro sub'' hsub _
      rw [← Option.some.inj hsub]
      rfl
    | silent hdiffers hsilent =>
      rw [found_poll hfree ho hdiffers, hsilent] at htells
      exact absurd rfl htells
    | delta hdiffers =>
      refine ⟨?_, ?_⟩
      · intro sub'' hsub _
        rw [← Option.some.inj hsub]
        rfl
      · intro base hbase
        rw [← Option.some.inj hbase]
        exact hlast

/-- In every run in which no poll of a subscriber finds nothing to say, each
delta it is sent starts where the message before it ended. -/
theorem chained_run (size : CellSize) (scrollback : Nat) (restates hasContext : Bool)
    (archive : Option Archive) (k : Nat) (calls : List Call)
    (htells : Trace.Each (fun _ e => found? k e ≠ some true)
      (Trace.run step (spawn vt size scrollback restates hasContext archive) calls).2) :
    Chained k (Trace.run step (spawn vt size scrollback restates hasContext archive) calls).2 := by
  refine (Trace.run_invariant_of_each (I := fun s h => Level k s h ∧ Chained k h)
    ⟨?_, Trace.each_nil _⟩ ?_ calls htells).2
  · intro sub hsub
    exact absurd hsub (by simp [spawn])
  · rintro s h c ⟨hlevel, hchained⟩ hc
    obtain ⟨hlevel', hbase⟩ := level_step hlevel c hc
    exact ⟨hlevel', Trace.each_snoc.mpr ⟨hchained, hbase⟩⟩

/-! ## A moved boundary -/

/-- An event after which the rows are other lines than before. -/
def movesBoundary : TermEvent → Bool
  | .viewportRebased => true
  | .historyCleared => true
  | _ => false

/-- The reader has such an event still to handle. -/
def awaits (s : Session vt) : Bool :=
  match s.phase with
  | .working _ events => events.any movesBoundary
  | _ => false

/-- A chunk moves the boundary under a client that is attached. -/
def MovesUnder (k : Nat) (e : Entry vt) : Prop :=
  (∃ chunk nowMs author, e.call = .parse chunk nowMs author) ∧ e.state.awaits = false ∧
    (e.state.step e.call).1.awaits = true ∧ (e.state.subscribers.lookup k).isSome

/-- Between a moved boundary and a delta there is a keyframe. -/
def Bridged (k : Nat) (h : List (Entry vt)) : Prop :=
  Trace.Between (MovesUnder k) (SendsKeyframe k) (SendsDelta k) h

/-- A keyframe is owed, or will be by the reader's own word, or by an attach
that is under way. -/
def Due (k : Nat) (s : Session vt) : Prop :=
  k < s.nextSubscriber ∧ (s.joining = some k ∨ s.awaits = true ∨ s.Owes k)

/-- What the reader has to tell waits until it tells it to everyone. -/
theorem awaits_step (h : s.awaits = true) (c : Call) :
    (s.step c).1.awaits = true ∨
      ∀ k sub, (s.step c).1.subscribers.lookup k = some sub → sub.needsKeyframe = true := by
  unfold awaits at h ⊢
  cases turn_step s c with
  | stays hphase =>
    rw [hphase]
    exact .inl h
  | parsed _ _ _ _ hphase => simp [hphase] at h
  | stamped block events hphase hphase' =>
    rw [hphase] at h
    rw [hphase']
    exact .inl h
  | handled e events hphase hs' =>
    rw [hphase] at h
    simp only [List.any_cons, Bool.or_eq_true] at h
    rcases h with he | hrest
    · right
      intro k sub hsub
      rw [hs'] at hsub
      have howed : (oweKeyframes none s.subscribers).lookup k = some sub := by
        cases e with
        | viewportRebased | historyCleared => exact hsub
        | _ => simp [movesBoundary] at he
      rw [lookup_oweKeyframes, Option.map_eq_some_iff] at howed
      obtain ⟨old, -, rfl⟩ := howed
      simp
    · left
      rw [hs']
      exact hrest
  | settled hphase => simp [hphase] at h
  | ended hphase => simp [hphase] at h

theorem no_delta {c : Call} (h : s.joining = none → found? k ⟨s, c, (s.step c).2⟩ ≠ some false) :
    ¬SendsDelta k ⟨s, c, (s.step c).2⟩ := by
  rintro ⟨base, seq, d, hd⟩
  have hchange := change_step s k c
  dsimp only at hd
  rw [hd] at hchange
  generalize ho : s.subscribers.lookup k = o at hchange
  generalize (s.step c).1.subscribers.lookup k = o' at hchange
  generalize hu : some (SessionUpdate.delta base seq d) = u at hchange
  cases hchange with
  | absent | kept | joins | greets | leaves => simp at hu
  | keyframes => simp [Subscriber.sendKeyframe] at hu
  | @polls sub hc hfree =>
    subst hc
    have hpolled := sub.polled s.terminal.state s.title
    generalize sub.poll s.terminal.state s.title = r at hpolled hu
    cases hpolled with
    | level | ahead | silent => simp at hu
    | keyframe => simp [Subscriber.sendKeyframe] at hu
    | delta hdiffers htells =>
      have hfound := h hfree
      rw [found_poll hfree ho hdiffers, htells] at hfound
      exact hfound rfl

/-- What is due is due until a keyframe, where no poll gets a delta before
the reader has told. -/
theorem due_step (h : s.Due k) (c : Call)
    (hwaits : s.awaits = true → found? k ⟨s, c, (s.step c).2⟩ ≠ some false)
    (hpaid : ¬SendsKeyframe k ⟨s, c, (s.step c).2⟩) :
    (s.step c).1.Due k ∧ ¬SendsDelta k ⟨s, c, (s.step c).2⟩ := by
  obtain ⟨hk, hdue⟩ := h
  have hk' := lt_of_lt_of_le hk (next_step s c)
  rcases hdue with hjoins | hawaits | howes
  · refine ⟨⟨hk', ?_⟩, no_delta fun hfree => by simp [hfree] at hjoins⟩
    rcases joining_step s c with ⟨-, -, hfree, -⟩ | ⟨hc, -⟩ | ⟨-, -, hsame, -⟩
    · simp [hfree] at hjoins
    · -- The attach ends by its keyframe, or the client is gone already.
      subst hc
      refine .inr (.inr ⟨hk', ?_⟩)
      intro sub' hsub'
      have hchange := change_step s k .greet
      unfold SendsKeyframe at hpaid
      dsimp only at hpaid
      rw [hsub'] at hchange
      generalize s.subscribers.lookup k = o at hchange
      generalize (s.step .greet).2.messageTo k = u at hchange hpaid
      generalize ho' : some sub' = o' at hchange
      cases hchange with
      | absent => simp at ho'
      | kept hgreet => exact absurd hjoins (hgreet rfl)
      | joins _ _ _ hc => simp at hc
      | greets => exact absurd ⟨_, _, rfl⟩ hpaid
      | keyframes hc => simp at hc
      | polls hc => simp at hc
      | leaves hc => simp at hc
    · exact .inl (hsame.trans hjoins)
  · refine ⟨⟨hk', ?_⟩, no_delta fun _ => hwaits hawaits⟩
    rcases awaits_step hawaits c with hstill | howed
    · exact .inr (.inl hstill)
    · exact .inr (.inr ⟨hk', howed k⟩)
  · obtain ⟨howes', hdelta⟩ := owes_step howes c hpaid
    exact ⟨⟨hk', .inr (.inr howes')⟩, hdelta⟩

/-- Four columns, two rows. -/
def small : Session asciiVt := spawn asciiVt (saturate 4, saturate 2) 10 false false none

/-- A client attaches and gets its keyframe. -/
def attachCalls : List Call := [.join none, .greet]

/-- A carriage return in the first column, and a poll that finds nothing to
say; then a character. -/
def silentThenCharacter : List Call :=
  attachCalls ++ [.parse [0x0d] 0 none, .settle, .poll 0, .parse [0x78] 0 none, .settle]

/-- The client was left at 0 and is sent a delta from 1. -/
theorem not_chained_silent : ¬Chained 0 (Trace.run step small (silentThenCharacter ++ [.poll 0])).2 := by
  intro h
  rw [Trace.run_snoc] at h
  have hlast := (Trace.each_snoc.mp h).2 1 (by decide)
  have hzero : lastSeq? 0 (Trace.run step small silentThenCharacter).2 = some 0 := by
    decide
  rw [hzero] at hlast
  exact absurd hlast (by decide)

/-- Two characters, each with its poll. -/
theorem chained_run_two :
    Chained 0 (Trace.run step small (attachCalls ++ [.parse [0x78] 0 none, .settle, .poll 0,
      .parse [0x79] 0 none, .settle, .poll 0])).2 :=
  chained_run (4, 2) 10 false false none 0 _ (Trace.each_of_forall (by decide +kernel))

/-- A character, and `CSI 3 J`, which clears the history. -/
def clearing : Call := .parse [0x78, 0x1b, 0x5b, 0x33, 0x4a] 0 none

end Session

end Zesterm
