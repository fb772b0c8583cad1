/-
Zesterm.Mesh.WebTurnsTheorems — the frames of a web client's connections,
each handled once, in order and alone.

`Desk` is what the order of the frames hangs on: the dial, whether its link
stands, the signing flag, the frames held behind it and the dials of the
promises in flight. A message that is handled leaves the desk alone, shuts
it, or takes it (`desk_onMessage`), and the two loops are read off these
three: `Orderly` says of a loop that what it handed out and what it leaves
held are the frames it was given, in their order.

The flag and the held frames are the client's, not the dial's, and a
continuation clears them before it looks whose they are. `Punctual` is the
condition on a turn under which it clears its own, and `InOrder` what then
holds of every run.
-/
import Zesterm.Mesh.WebTurns
import Zesterm.Mesh.DialTheorems

namespace Zesterm

/-! ## The desk -/

/-- What the order of the frames hangs on. -/
structure Desk where
  dial : Nat
  closed : Bool
  linked : Bool
  up : Bool
  signing : Bool
  stalled : List (List UInt8)
  /-- The dials of the tasks in flight. -/
  seqs : List Nat

namespace Desk

/-- The link is gone. -/
def shut (d : Desk) : Desk :=
  { d with linked := false, up := false, signing := false, stalled := [] }

/-- A message is being handled. -/
def taken (d : Desk) : Desk := { d with signing := true, seqs := d.seqs ++ [d.dial] }

/-- The flag says whether a message of this dial is being handled, and there
is at most one. -/
def Paced (d : Desk) : Prop := d.seqs.count d.dial = d.signing.toNat

/-- Frames are held behind a message that is being handled only. -/
def Held (d : Desk) : Prop := d.stalled ≠ [] → d.signing = true

end Desk

namespace WebClient

variable {w : Web}
variable (s : WebClient)

def desk (s : WebClient) : Desk :=
  { dial := s.dialSeq, closed := s.closed, linked := s.linked, up := s.up, signing := s.signing,
    stalled := s.stalled, seqs := s.tasks.map Task.seq }

theorem busy_eq_false {s : WebClient} : s.busy = false ↔ s.desk.seqs.count s.dialSeq = 0 := by
  simp [busy, desk, List.count_eq_zero, List.any_eq_false]

theorem desk_send (msg : ClientMessage) : (s.send w msg).1.desk = s.desk := by
  obtain ⟨_, _, ⟨d, hd⟩, _⟩ := calm_send (w := w) s msg
  rw [hd]
  rfl

theorem desk_sendAll (msgs : List ClientMessage) : (s.sendAll w msgs).1.desk = s.desk := by
  obtain ⟨_, _, ⟨d, hd⟩, _⟩ := calm_sendAll (w := w) s msgs
  rw [hd]
  rfl

theorem desk_openFrame (frame : List UInt8) : (s.openFrame w frame).1.desk = s.desk := by
  unfold openFrame
  cases s.handshake.channel <;> rfl

theorem desk_onClose : s.onClose.1.desk = s.desk.shut := by
  unfold onClose
  dsimp only
  split
  · rfl
  · split
    · split <;> rfl
    · rfl

theorem desk_closeLink : s.closeLink.1.desk = s.desk ∨ s.closeLink.1.desk = s.desk.shut := by
  unfold closeLink
  split
  · exact .inr (desk_onClose s)
  · exact .inl rfl

theorem desk_afterWelcome (host : HostId) (label : Str) :
    (s.afterWelcome w host label).1.desk = s.desk := by
  obtain ⟨⟨d, hd, _⟩, _⟩ := afterWelcome_spec (w := w) s host label
  rw [hd]
  rfl

/-- What handling a message does to the desk. -/
theorem desk_onMessage (respond : HostMessage → List Request) (frame : List UInt8) :
    (s.onMessage w respond frame).1.desk = s.desk ∨
      (s.onMessage w respond frame).1.desk = s.desk.shut ∨
      (s.onMessage w respond frame).1.desk = s.desk.taken := by
  have hdesk := desk_openFrame (w := w) s frame
  unfold onMessage
  cases hopen : s.openFrame w frame with
  | mk s₁ body =>
    rw [hopen] at hdesk
    dsimp only at hdesk ⊢
    cases body with
    | none =>
      rw [← hdesk]
      rcases desk_closeLink s₁ with h | h
      · exact .inl h
      · exact .inr (.inl h)
    | some body =>
      dsimp only
      cases w.codec.decode body with
      | error e => exact .inl hdesk
      | ok msg =>
        dsimp only
        split
        · exact .inl ((desk_sendAll _ _).trans hdesk)
        · refine .inr (.inr ?_)
          rw [← hdesk]
          cases msg <;> simp [desk, Desk.taken]

/-- A continuation that is not stale clears the flag, and may find that its
link has to go. -/
theorem desk_resume {s : WebClient} {seq : Nat} (hlive : s.stale seq = false)
    (replies : List ClientMessage) :
    (s.resume w seq replies).1.desk = { s.desk with signing := false } ∨
      (s.resume w seq replies).1.desk = s.desk.shut := by
  have hgo : ¬(seq ≠ s.dialSeq ∨ s.closed = true ∨ s.linked = false) := by
    simpa [stale, not_or, and_assoc] using hlive
  unfold resume
  rw [if_neg hgo]
  have hsend := desk_sendAll (w := w) { s with signing := false } replies
  generalize ({ s with signing := false } : WebClient).sendAll w replies = p at hsend
  obtain ⟨s₁, sent⟩ := p
  dsimp only at hsend ⊢
  cases s₁.handshake.state with
  | connecting | awaitingApproval => exact .inl hsend
  | welcomed host label => exact .inl ((desk_afterWelcome s₁ host label).trans hsend)
  | failed reason message retryable =>
    rcases desk_closeLink s₁ with h | h
    · exact .inl (h.trans hsend)
    · refine .inr (h.trans ?_)
      rw [hsend]
      rfl

end WebClient

/-! ## The loops -/

/-- The frames handed out, in order. -/
def TurnReply.frames (r : TurnReply) : List (List UInt8) := r.handed.map Handed.frame

@[simp] theorem TurnReply.frames_quiet (out : List WebOutput) : (TurnReply.quiet out).frames = [] :=
  rfl

@[simp] theorem TurnReply.frames_followedBy (r r' : TurnReply) :
    (r.followedBy r').frames = r.frames ++ r'.frames := by
  simp [TurnReply.frames, TurnReply.followedBy]

/-- A loop over `queue` went from `d` to `d'`: each frame handed out found
no other being handled, and together with those still held they are the
queue. On a link that went down on the way, frames may be missing. -/
structure Orderly (d d' : Desk) (queue : List (List UInt8)) (r : TurnReply) : Prop where
  dial : d'.dial = d.dial
  closed : d'.closed = d.closed
  linked : d'.linked = true → d.linked = true ∧ d'.up = d.up
  up : d'.up = true → d.up = true
  seqs : ∀ n ∈ d'.seqs, n ∈ d.seqs ∨ n = d.dial
  paced : d'.Paced
  alone : ∀ x ∈ r.handed, x.dial = d.dial ∧ x.busy = false
  order : (r.frames ++ d'.stalled).Sublist queue
  whole : d'.linked = true → r.frames ++ d'.stalled = queue

namespace Orderly

/-- Nothing to do. -/
theorem idle {d : Desk} (hpaced : d.Paced) (out : List WebOutput) :
    Orderly d d d.stalled (.quiet out) :=
  ⟨rfl, rfl, fun h => ⟨h, rfl⟩, id, fun _ h => .inl h, hpaced, by simp [TurnReply.quiet],
    List.Sublist.refl _, fun _ => rfl⟩

/-- A second loop over what the first left held, and more. -/
theorem trans {d d₁ d₂ : Desk} {queue more : List (List UInt8)} {r r' : TurnReply}
    (h : Orderly d d₁ queue r) (h' : Orderly d₁ d₂ (d₁.stalled ++ more) r') :
    Orderly d d₂ (queue ++ more) (r.followedBy r') := by
  refine ⟨h'.dial.trans h.dial, h'.closed.trans h.closed, fun hl => ?_, fun hu => h.up (h'.up hu),
    fun n hn => ?_, h'.paced, fun x hx => ?_, ?_, fun hl => ?_⟩
  · obtain ⟨hl₁, hup⟩ := h'.linked hl
    exact ⟨(h.linked hl₁).1, hup.trans (h.linked hl₁).2⟩
  · rcases h'.seqs n hn with hn | hn
    · exact h.seqs n hn
    · exact .inr (hn.trans h.dial)
  · rcases List.mem_append.mp hx with hx | hx
    · exact h.alone x hx
    · exact h.dial ▸ h'.alone x hx
  · rw [TurnReply.frames_followedBy, List.append_assoc]
    calc (r.frames ++ (r'.frames ++ d₂.stalled)).Sublist (r.frames ++ (d₁.stalled ++ more)) :=
          h'.order.append_left _
      _ = (r.frames ++ d₁.stalled) ++ more := (List.append_assoc ..).symm
      List.Sublist _ (queue ++ more) := h.order.append_right _
  · obtain ⟨hl₁, _⟩ := h'.linked hl
    rw [TurnReply.frames_followedBy, List.append_assoc, h'.whole hl, ← List.append_assoc,
      h.whole hl₁]

/-- What is held at the start is part of the queue. -/
theorem restall {d d' : Desk} {queue : List (List UInt8)} {r : TurnReply}
    {stalled : List (List UInt8)} (h : Orderly { d with stalled := stalled } d' queue r) :
    Orderly d d' queue r :=
  ⟨h.dial, h.closed, h.linked, h.up, h.seqs, h.paced, h.alone, h.order, h.whole⟩

end Orderly

namespace WebClient

variable {w : Web}

/-- One frame is handed out. -/
theorem orderly_hand {s : WebClient} (hpaced : s.desk.Paced) (hfree : s.signing = false)
    (respond : Responses) (frame : List UInt8) :
    Orderly s.desk (s.hand w respond frame).1.desk (frame :: s.stalled)
        (s.hand w respond frame).2 ∧
      ((s.hand w respond frame).1.stalled = s.stalled ∨
        (s.hand w respond frame).1.stalled = []) := by
  have hcount : s.desk.seqs.count s.dialSeq = 0 := by
    have := hpaced
    rw [Desk.Paced] at this
    simpa [desk, hfree] using this
  have halone : ∀ x ∈ (s.hand w respond frame).2.handed, x.dial = s.desk.dial ∧ x.busy = false := by
    intro x hx
    obtain rfl := List.mem_singleton.mp hx
    exact ⟨rfl, busy_eq_false.mpr hcount⟩
  have hstalled : (s.hand w respond frame).1.stalled = (s.hand w respond frame).1.desk.stalled := rfl
  rw [hstalled]
  have hframes : (s.hand w respond frame).2.frames = [frame] := rfl
  have hdesk : (s.hand w respond frame).1.desk = (s.onMessage w (respond 0) frame).1.desk := rfl
  rw [hdesk]
  rcases desk_onMessage (w := w) s (respond 0) frame with h | h | h
  · rw [h]
    refine ⟨⟨rfl, rfl, fun hl => ⟨hl, rfl⟩, id, fun n hn => .inl hn, hpaced, halone, ?_,
      fun _ => ?_⟩, .inl rfl⟩
    · rw [hframes]
      exact List.Sublist.refl _
    · rw [hframes]
      rfl
  · rw [h]
    refine ⟨⟨rfl, rfl, fun hl => (by cases hl), fun hu => (by cases hu), fun n hn => .inl hn, hcount,
      halone, ?_, fun hl => (by cases hl)⟩, .inr rfl⟩
    rw [hframes]
    simp [Desk.shut]
  · rw [h]
    refine ⟨⟨rfl, rfl, fun hl => ⟨hl, rfl⟩, id, fun n hn => ?_, ?_, halone, ?_, fun _ => ?_⟩,
      .inl rfl⟩
    · rcases List.mem_append.mp hn with hn | hn
      · exact .inl hn
      · exact .inr (List.mem_singleton.mp hn)
    · simp [Desk.Paced, Desk.taken, desk, List.count_append] at hcount ⊢
      exact hcount
    · rw [hframes]
      exact List.Sublist.refl _
    · rw [hframes]
      rfl

/-- Of the frames `#onBytes` takes up, only the last may throw. -/
def Smooth (w : Web) (s : WebClient) (respond : Responses) : List (List UInt8) → Prop
  | [] => True
  | body :: rest =>
    s.signing = false → (s.throws w body = true → rest = []) ∧
      Smooth w (s.hand w respond body).1 respond.next rest

/-- The same of those `#drainStalled` takes up. -/
def SmoothDrain (w : Web) (s : WebClient) (respond : Responses) : Nat → Prop
  | 0 => True
  | n + 1 => ∀ body rest, s.signing = false → s.stalled = body :: rest →
      (({ s with stalled := rest } : WebClient).throws w body = true → rest = []) ∧
        SmoothDrain w (({ s with stalled := rest } : WebClient).hand w respond body).1
          respond.next n

/-- A chunk is handed out in order, up to a message that takes time. -/
theorem orderly_onBytes {s : WebClient} (hheld : s.desk.Held) (hpaced : s.desk.Paced)
    {respond : Responses} {frames : List (List UInt8)} (hsmooth : s.Smooth w respond frames) :
    Orderly s.desk (s.onBytes w respond frames).1.desk (s.stalled ++ frames)
        (s.onBytes w respond frames).2.2 ∧
      (s.onBytes w respond frames).1.desk.Held ∧ (s.onBytes w respond frames).2.1 = [] := by
  induction frames generalizing s respond with
  | nil =>
    rw [List.append_nil]
    exact ⟨.idle hpaced [], hheld, rfl⟩
  | cons body rest ih =>
    unfold onBytes
    by_cases hsign : s.signing = true
    · -- Held, and nothing more is handed out.
      rw [if_pos hsign]
      have hsmooth' : ({ s with stalled := s.stalled ++ [body] } : WebClient).Smooth w respond
          rest := by
        cases rest with
        | nil => trivial
        | cons next more =>
          intro hfree
          rw [show ({ s with stalled := s.stalled ++ [body] } : WebClient).signing = s.signing
            from rfl, hsign] at hfree
          cases hfree
      obtain ⟨horder, hheld', hunread⟩ :=
        ih (s := { s with stalled := s.stalled ++ [body] }) (fun _ => hsign) hpaced hsmooth'
      refine ⟨?_, hheld', hunread⟩
      have := horder.restall (d := s.desk)
      simpa using this
    · rw [if_neg hsign]
      have hfree : s.signing = false := Bool.eq_false_iff.mpr hsign
      have hnone : s.stalled = [] := by
        by_contra hne
        exact hsign (hheld hne)
      obtain ⟨hlast, hsmooth'⟩ := hsmooth hfree
      obtain ⟨hhand, hstalled⟩ := orderly_hand (w := w) hpaced hfree respond body
      generalize s.hand w respond body = p at hhand hstalled hsmooth'
      obtain ⟨s₁, reply⟩ := p
      have hnone₁ : s₁.stalled = [] := by
        rcases hstalled with h | h
        · exact h.trans hnone
        · exact h
      have hheld₁ : s₁.desk.Held := fun hne => absurd hnone₁ hne
      rw [hnone] at hhand ⊢
      dsimp only at hhand ⊢
      split
      · next hthrows =>
        obtain rfl := hlast hthrows
        exact ⟨hhand, hheld₁, rfl⟩
      · obtain ⟨horder, hheld', hunread⟩ := ih hheld₁ hhand.paced hsmooth'
        exact ⟨hhand.trans horder, hheld', hunread⟩

/-- What was held is handed out in order, up to a message that takes time. -/
theorem orderly_drainStalled {s : WebClient} (hpaced : s.desk.Paced) {respond : Responses} {n : Nat}
    (hlen : s.stalled.length ≤ n) (hsmooth : s.SmoothDrain w respond n) :
    Orderly s.desk (s.drainStalled w respond n).1.desk s.stalled (s.drainStalled w respond n).2 ∧
      (s.drainStalled w respond n).1.desk.Held := by
  induction n generalizing s respond with
  | zero =>
    have hnone : s.stalled = [] := List.eq_nil_of_length_eq_zero (Nat.le_zero.mp hlen)
    exact ⟨.idle hpaced [], fun hne => absurd hnone hne⟩
  | succ n ih =>
    unfold drainStalled
    by_cases hsign : s.signing = true
    · rw [if_pos hsign]
      exact ⟨.idle hpaced [], fun _ => hsign⟩
    · rw [if_neg hsign]
      have hfree : s.signing = false := Bool.eq_false_iff.mpr hsign
      cases hst : s.stalled with
      | nil =>
        have := Orderly.idle hpaced []
        rw [show s.desk.stalled = s.stalled from rfl, hst] at this
        exact ⟨this, fun hne => absurd hst hne⟩
      | cons body rest =>
        obtain ⟨hlast, hsmooth'⟩ := hsmooth body rest hfree hst
        obtain ⟨hhand, hstalled⟩ := orderly_hand (w := w) (s := { s with stalled := rest }) hpaced
          hfree respond body
        replace hhand := hhand.restall (d := s.desk)
        dsimp only
        generalize ({ s with stalled := rest } : WebClient).hand w respond body = p
          at hhand hstalled hsmooth'
        obtain ⟨s₁, reply⟩ := p
        dsimp only at hhand hstalled hsmooth' ⊢
        split
        · next hthrows =>
          obtain rfl := hlast hthrows
          refine ⟨hhand, fun hne => absurd ?_ hne⟩
          rcases hstalled with h | h <;> exact h
        · have hlen₁ : s₁.stalled.length ≤ n := by
            rw [hst, List.length_cons] at hlen
            rcases hstalled with h | h
            · rw [h]
              omega
            · simp [h]
          obtain ⟨horder, hheld⟩ := ih hhand.paced hlen₁ hsmooth'
          rw [show s₁.stalled = s₁.desk.stalled ++ [] from (List.append_nil _).symm] at horder
          have hboth := hhand.trans horder
          rw [List.append_nil] at hboth
          exact ⟨hboth, hheld⟩

end WebClient

/-! ## Runs -/

namespace WebTab

variable {w : Web}
variable {s : WebClient} {t : WebTab}

/-- The turns of a run, each with the state it found and what it put out. -/
abbrev History := List (Trace.Entry WebTab Turn TurnReply)

/-- The frames a turn brings. -/
def arrives (t : WebTab) : Turn → List (List UInt8)
  | .chunk _ bodies => if t.client.up then bodies else []
  | _ => []

/-- The frames that arrived on a dial. -/
def arrivedOn (h : History) (dial : Nat) : List (List UInt8) :=
  h.flatMap fun e => if e.state.client.dialSeq = dial then e.state.arrives e.call else []

/-- The frames that were handed out on a dial. -/
def handedOn (h : History) (dial : Nat) : List (List UInt8) :=
  h.flatMap fun e => (e.reply.handed.filter fun x => x.dial == dial).map Handed.frame

/-- `replies` are what the driver of dial `seq` made of a challenge of that
dial. -/
def Computed (w : Web) (before : History) (seq : Nat) (replies : List ClientMessage) : Prop :=
  ∃ e ∈ before, ∃ (i : Nat) (signed : Except Str Signature) (ch : Challenge)
    (driver : HandshakeDriver), e.call = .signed i signed ∧
      e.state.client.tasks[i]? = some ⟨seq, .answering ch⟩ ∧ e.state.driver seq = some driver ∧
      (driver.answer w ch signed).2 = replies

/-- A proof that is sent was computed for the dial it is sent on. -/
def Own (w : Web) (before : History) (e : Trace.Entry WebTab Turn TurnReply) : Prop :=
  ∀ (sent : Sent) (sig : Signature), .sent sent ∈ e.reply.outputs → sent.message = .auth sig →
    ∃ (i : Nat) (respond : Responses) (replies : List ClientMessage),
      e.call = .resumed i respond ∧
      e.state.client.tasks[i]? = some ⟨e.state.client.dialSeq, .settled replies⟩ ∧
      ClientMessage.auth sig ∈ replies ∧ Computed w before e.state.client.dialSeq replies

/-- The frames of each connection are handled once, in order and alone, and
its replies are its own. -/
structure InOrder (w : Web) (t : WebTab) (h : History) : Prop where
  /-- No frame is handed out before the handling of the one before it is
  over. -/
  alone : ∀ e ∈ h, ∀ x ∈ e.reply.handed, x.busy = false
  /-- On every connection, in the order of arrival and none twice. -/
  order : ∀ dial, (handedOn h dial).Sublist (arrivedOn h dial)
  /-- On the open connection, none is missing: those not handed out yet are
  held. -/
  whole : t.client.linked = true → t.client.closed = false →
    handedOn h t.client.dialSeq ++ t.client.stalled = arrivedOn h t.client.dialSeq ∧
      t.unread = []
  /-- And none is held once the handling of the one before it is over. -/
  prompt : t.client.linked = true → t.client.closed = false → t.client.busy = false →
    handedOn h t.client.dialSeq = arrivedOn h t.client.dialSeq
  own : Trace.Each (Own w) h

/-- The condition on a turn. -/
structure Punctual (w : Web) (t : WebTab) (turn : Turn) : Prop where
  /-- A continuation of an earlier dial does not run while a message of this
  one is being handled. -/
  late : ∀ (i : Nat) (respond : Responses) (seq : Nat) (replies : List ClientMessage),
    turn = .resumed i respond → t.client.tasks[i]? = some ⟨seq, .settled replies⟩ →
      seq ≠ t.client.dialSeq → t.client.signing = false
  /-- Nor does a dial begin while one of the dial before is. -/
  redial : ∀ (nonce : Nonce) (ephemeral : EphemeralDh), turn = .redial nonce ephemeral →
    t.client.redialTimer = true → t.client.signing = false
  /-- Of the frames of a chunk only the last may fail to decode. -/
  chunk : ∀ (respond : Responses) (bodies : List (List UInt8)), turn = .chunk respond bodies →
    t.client.up = true → t.client.Smooth w respond (t.unread ++ bodies)
  /-- Nor may any other of those that a continuation drains. -/
  drain : ∀ (i : Nat) (respond : Responses) (replies : List ClientMessage) (s : WebClient),
    turn = .resumed i respond →
      t.client.tasks[i]? = some ⟨t.client.dialSeq, .settled replies⟩ →
      s = (({ t.client with tasks := t.client.tasks.eraseIdx i } : WebClient).resume w
        t.client.dialSeq replies).1 → s.SmoothDrain w respond s.stalled.length

/-! ## One turn -/

/-- What a turn on one dial may do to the desk, given the frames it brought. -/
structure Turned (d d' : Desk) (arrived : List (List UInt8)) (r : TurnReply) : Prop where
  dial : d'.dial = d.dial
  linked : d'.linked = true → d'.up = true
  seqs : ∀ n ∈ d'.seqs, n ≤ d.dial
  paced : d'.up = true → d'.Paced
  held : d'.Held
  alone : ∀ x ∈ r.handed, x.dial = d.dial ∧ x.busy = false
  order : (r.frames ++ d'.stalled).Sublist (d.stalled ++ arrived)
  whole : d'.linked = true → d'.closed = false →
    d.linked = true ∧ d.closed = false ∧ r.frames ++ d'.stalled = d.stalled ++ arrived

/-- What holds of the desk between turns. -/
structure Sound (d : Desk) : Prop where
  linked : d.linked = true → d.up = true
  seqs : ∀ n ∈ d.seqs, n ≤ d.dial
  paced : d.up = true → d.Paced
  held : d.Held

/-- A turn that hands nothing out and leaves the desk alone. -/
theorem turned_same {d : Desk} (hs : Sound d) (out : List WebOutput) :
    Turned d d [] (.quiet out) :=
  ⟨rfl, hs.linked, hs.seqs, hs.paced, hs.held, by simp [TurnReply.quiet], by simp,
    fun hl hc => ⟨hl, hc, by simp⟩⟩

/-- A turn that takes the link down. -/
theorem turned_shut {d : Desk} (hs : Sound d) (out : List WebOutput) :
    Turned d d.shut [] (.quiet out) :=
  ⟨rfl, (fun hl => by cases hl), hs.seqs, (fun hu => by cases hu), fun hne => absurd rfl hne,
    by simp [TurnReply.quiet], by simp [Desk.shut], fun hl => by cases hl⟩

/-- A chunk. -/
theorem turned_chunk (hs : Sound s.desk) (hup : s.up = true) {respond : Responses}
    {bodies : List (List UInt8)} (hsmooth : s.Smooth w respond bodies) :
    Turned s.desk (s.onBytes w respond bodies).1.desk bodies (s.onBytes w respond bodies).2.2 ∧
      (s.onBytes w respond bodies).2.1 = [] := by
  obtain ⟨h, hheld, hunread⟩ := WebClient.orderly_onBytes hs.held (hs.paced hup) hsmooth
  refine ⟨⟨h.dial, fun hl => ?_, fun n hn => ?_, fun _ => h.paced, hheld, h.alone, h.order,
    fun hl hc => ?_⟩, hunread⟩
  · obtain ⟨_, heq⟩ := h.linked hl
    exact heq.trans hup
  · rcases h.seqs n hn with hn | rfl
    · exact hs.seqs n hn
    · exact Nat.le_refl _
  · exact ⟨(h.linked hl).1, h.closed ▸ hc, h.whole hl⟩

/-- A task less. -/
theorem count_eraseIdx {l : List Nat} {i n : Nat} (h : l[i]? = some n) (m : Nat) :
    l.count m = (l.eraseIdx i).count m + (if n = m then 1 else 0) := by
  obtain ⟨hi, rfl⟩ := List.getElem?_eq_some_iff.mp h
  rw [← (List.getElem_cons_eraseIdx_perm hi).count_eq m, List.count_cons]
  simp

/-- A continuation that finds its connection gone. -/
theorem continuation_stale {seq : Nat} (h : s.stale seq = true) (respond : Responses)
    (replies : List ClientMessage) :
    s.continuation w respond seq replies =
      ({ s with signing := false, stalled := [] }, .quiet []) := by
  have hgone : seq ≠ s.dialSeq ∨ s.closed = true ∨ s.linked = false := by
    simpa [WebClient.stale, or_assoc] using h
  unfold WebClient.continuation WebClient.resume
  rw [if_pos hgone, h]
  rfl

/-- One that does not goes on to what was held. -/
theorem continuation_live {seq : Nat} (h : s.stale seq = false) (respond : Responses)
    (replies : List ClientMessage) :
    s.continuation w respond seq replies =
      ((((s.resume w seq replies).1.drainStalled w respond
          (s.resume w seq replies).1.stalled.length)).1,
        TurnReply.followedBy (.quiet (s.resume w seq replies).2)
          ((s.resume w seq replies).1.drainStalled w respond
            (s.resume w seq replies).1.stalled.length).2) := by
  unfold WebClient.continuation
  rw [h]
  rfl

/-- A continuation, to its end. `s₀` is `s` without the task it is of. -/
theorem turned_continuation {s₀ : WebClient} (hs : Sound s.desk) {i seq : Nat}
    (hseq : s.desk.seqs[i]? = some seq)
    (hdesk : s₀.desk = { s.desk with seqs := s.desk.seqs.eraseIdx i }) {respond : Responses}
    {replies : List ClientMessage} (hlate : seq ≠ s.dialSeq → s.signing = false)
    (hdrain : seq = s.dialSeq → (s₀.resume w seq replies).1.SmoothDrain w respond
      (s₀.resume w seq replies).1.stalled.length) :
    Turned s.desk (s₀.continuation w respond seq replies).1.desk []
      (s₀.continuation w respond seq replies).2 := by
  have hcount := count_eraseIdx hseq s.dialSeq
  have hseqs : ∀ n ∈ s.desk.seqs.eraseIdx i, n ≤ s.desk.dial :=
    fun n hn => hs.seqs n (List.mem_of_mem_eraseIdx hn)
  have hdial : s₀.dialSeq = s.dialSeq := congrArg Desk.dial hdesk
  have hlink : s₀.linked = s.linked := congrArg Desk.linked hdesk
  have hclosed : s₀.closed = s.closed := congrArg Desk.closed hdesk
  cases hstale : s₀.stale seq with
  | true =>
    rw [continuation_stale hstale]
    have hgone : seq ≠ s.dialSeq ∨ s.closed = true ∨ s.linked = false := by
      simpa [WebClient.stale, or_assoc, hdial, hclosed, hlink] using hstale
    have hafter : ({ s₀ with signing := false, stalled := [] } : WebClient).desk =
        { s₀.desk with signing := false, stalled := [] } := rfl
    rw [hafter, hdesk]
    refine ⟨rfl, hs.linked, hseqs, fun hup => ?_, fun hne => absurd rfl hne,
      by simp [TurnReply.quiet], by simp, fun hl hc => ⟨hl, hc, ?_⟩⟩
    · -- Its own dial's flag, or one that was down.
      have hpaced := hs.paced hup
      rw [Desk.Paced, show s.desk.dial = s.dialSeq from rfl, hcount] at hpaced
      show (s.desk.seqs.eraseIdx i).count s.dialSeq = 0
      by_cases hown : seq = s.dialSeq
      · have := Bool.toNat_le s.desk.signing
        rw [if_pos hown] at hpaced
        omega
      · rw [if_neg hown, show s.desk.signing = s.signing from rfl, hlate hown] at hpaced
        exact hpaced
    · have hother : seq ≠ s.dialSeq := by
        rcases hgone with h | h | h
        · exact h
        · exact absurd (h.symm.trans hc) Bool.true_eq_false.mp
        · exact absurd (h.symm.trans hl) Bool.false_ne_true
      have hnone : s.desk.stalled = [] := by
        by_contra hne
        exact Bool.false_ne_true ((hlate hother).symm.trans (hs.held hne))
      rw [hnone]
      rfl
  | false =>
    rw [continuation_live hstale]
    obtain ⟨⟨hown, hopen⟩, hon⟩ : (seq = s.dialSeq ∧ s.closed = false) ∧ s.linked = true := by
      simpa [WebClient.stale, hdial, hclosed, hlink] using hstale
    have hpaced := hs.paced (hs.linked hon)
    have hfree : (s.desk.seqs.eraseIdx i).count s.dialSeq = 0 := by
      rw [Desk.Paced, show s.desk.dial = s.dialSeq from rfl, hcount, if_pos hown] at hpaced
      have := Bool.toNat_le s.desk.signing
      omega
    have hresume := WebClient.desk_resume (w := w) hstale replies
    rw [hdesk] at hresume
    replace hdrain := hdrain hown
    generalize s₀.resume w seq replies = p at hresume hdrain
    obtain ⟨s₁, out⟩ := p
    dsimp only at hresume hdrain ⊢
    have hpaced₁ : s₁.desk.Paced := by
      rcases hresume with h | h
      · rw [h]
        exact hfree
      · rw [h]
        exact hfree
    obtain ⟨h, hheld⟩ := WebClient.orderly_drainStalled hpaced₁ (Nat.le_refl _) hdrain
    have hfront : (TurnReply.followedBy (.quiet out)
        (s₁.drainStalled w respond s₁.stalled.length).2).frames =
          (s₁.drainStalled w respond s₁.stalled.length).2.frames := by simp
    generalize s₁.drainStalled w respond s₁.stalled.length = q at h hheld hfront
    obtain ⟨s₂, reply⟩ := q
    dsimp only at h hheld hfront ⊢
    have hdial₁ : s₁.desk.dial = s.desk.dial := by
      rcases hresume with h | h
      · rw [h]
      · rw [h]
        rfl
    refine ⟨h.dial.trans hdial₁, fun hl => ?_, fun n hn => ?_, fun _ => h.paced, hheld,
      fun x hx => ?_, ?_, fun hl _ => ⟨hon, hopen, ?_⟩⟩
    · obtain ⟨hl₁, hup⟩ := h.linked hl
      rcases hresume with heq | heq
      · rw [hup, heq]
        exact hs.linked hon
      · rw [heq] at hl₁
        cases hl₁
    · rcases h.seqs n hn with hn | rfl
      · rcases hresume with heq | heq <;> rw [heq] at hn <;> exact hseqs n hn
      · exact Nat.le_of_eq hdial₁
    · have hx' : x ∈ reply.handed := by simpa [TurnReply.followedBy, TurnReply.quiet] using hx
      exact hdial₁ ▸ h.alone x hx'
    · rw [hfront, List.append_nil]
      refine h.order.trans ?_
      have hstalled : s₁.stalled = s₁.desk.stalled := rfl
      rw [hstalled]
      rcases hresume with heq | heq
      · rw [heq]
      · rw [heq]
        exact List.nil_sublist _
    · rw [hfront, h.whole hl, List.append_nil]
      obtain ⟨hl₁, _⟩ := h.linked hl
      have hstalled : s₁.stalled = s₁.desk.stalled := rfl
      rw [hstalled]
      rcases hresume with heq | heq
      · rw [heq]
      · rw [heq] at hl₁
        cases hl₁

/-! ## One turn of a run -/

/-- What holds after a history. -/
structure Inv (t : WebTab) (h : History) : Prop where
  sound : Sound t.client.desk
  unread : t.unread = []
  alone : ∀ e ∈ h, e.state.client.dialSeq ≤ t.client.dialSeq ∧
    ∀ x ∈ e.reply.handed, x.dial = e.state.client.dialSeq ∧ x.busy = false
  order : (handedOn h t.client.dialSeq ++ t.client.stalled).Sublist (arrivedOn h t.client.dialSeq)
  before : ∀ dial, dial ≠ t.client.dialSeq → (handedOn h dial).Sublist (arrivedOn h dial)
  whole : t.client.linked = true → t.client.closed = false →
    handedOn h t.client.dialSeq ++ t.client.stalled = arrivedOn h t.client.dialSeq

theorem arrivedOn_snoc (h : History) (e : Trace.Entry WebTab Turn TurnReply) (dial : Nat) :
    arrivedOn (h ++ [e]) dial = arrivedOn h dial ++
      if e.state.client.dialSeq = dial then e.state.arrives e.call else [] := by
  simp [arrivedOn]

theorem handedOn_snoc (h : History) (e : Trace.Entry WebTab Turn TurnReply) (dial : Nat) :
    handedOn (h ++ [e]) dial = handedOn h dial ++
      (e.reply.handed.filter fun x => x.dial == dial).map Handed.frame := by
  simp [handedOn]

/-- A turn on one dial keeps what holds. -/
theorem Inv.turned {t' : WebTab} {h : History} {turn : Turn} {reply : TurnReply} (hi : Inv t h)
    (hturn : Turned t.client.desk t'.client.desk (t.arrives turn) reply) (hunread : t'.unread = [])
    : Inv t' (h ++ [⟨t, turn, reply⟩]) := by
  have hdial : t'.client.dialSeq = t.client.dialSeq := hturn.dial
  have hfront : handedOn (h ++ [⟨t, turn, reply⟩]) t.client.dialSeq =
      handedOn h t.client.dialSeq ++ reply.frames := by
    rw [handedOn_snoc, TurnReply.frames]
    congr 2
    refine List.filter_eq_self.mpr fun x hx => ?_
    exact beq_iff_eq.mpr (hturn.alone x hx).1
  have hback : arrivedOn (h ++ [⟨t, turn, reply⟩]) t.client.dialSeq =
      arrivedOn h t.client.dialSeq ++ t.arrives turn := by
    rw [arrivedOn_snoc, if_pos rfl]
  refine ⟨⟨hturn.linked, fun n hn => ?_, hturn.paced, hturn.held⟩, hunread, fun e he => ?_, ?_,
    fun dial hne => ?_, fun hl hc => ?_⟩
  · exact hturn.dial ▸ hturn.seqs n hn
  · rw [hdial]
    rcases List.mem_append.mp he with he | he
    · exact hi.alone e he
    · obtain rfl := List.mem_singleton.mp he
      exact ⟨Nat.le_refl _, hturn.alone⟩
  · rw [hdial, hfront, hback, List.append_assoc]
    calc (handedOn h t.client.dialSeq ++ (reply.frames ++ t'.client.stalled)).Sublist
          (handedOn h t.client.dialSeq ++ (t.client.stalled ++ t.arrives turn)) :=
          hturn.order.append_left _
      _ = (handedOn h t.client.dialSeq ++ t.client.stalled) ++ t.arrives turn :=
          (List.append_assoc ..).symm
      List.Sublist _ (arrivedOn h t.client.dialSeq ++ t.arrives turn) := hi.order.append_right _
  · rw [hdial] at hne
    have hnone : (reply.handed.filter fun x => x.dial == dial) = [] := by
      refine List.filter_eq_nil_iff.mpr fun x hx heq => hne ?_
      rw [← beq_iff_eq.mp heq]
      exact (hturn.alone x hx).1
    rw [handedOn_snoc, arrivedOn_snoc, hnone, List.map_nil, List.append_nil, if_neg (Ne.symm hne),
      List.append_nil]
    exact hi.before dial hne
  · obtain ⟨hl₀, hc₀, hwhole⟩ := hturn.whole hl hc
    replace hwhole : reply.frames ++ t'.client.stalled = t.client.stalled ++ t.arrives turn := hwhole
    rw [hdial, hfront, hback, List.append_assoc, hwhole, ← List.append_assoc, hi.whole hl₀ hc₀]

/-- A new dial starts from nothing. -/
theorem Inv.redial {t' : WebTab} {h : History} {turn : Turn} {out : List WebOutput} (hi : Inv t h)
    (hfree : t.client.signing = false) (hquiet : t.arrives turn = [])
    (hdesk : t'.client.desk =
      { t.client.desk with dial := t.client.dialSeq + 1, linked := true, up := true })
    (hunread : t'.unread = []) : Inv t' (h ++ [⟨t, turn, .quiet out⟩]) := by
  have hdial : t'.client.dialSeq = t.client.dialSeq + 1 := congrArg Desk.dial hdesk
  have hnone : t'.client.stalled = [] := by
    have hst : t'.client.stalled = t.client.stalled := congrArg Desk.stalled hdesk
    rw [hst]
    by_contra hne
    exact Bool.false_ne_true (hfree.symm.trans (hi.sound.held hne))
  have hseqs : ∀ n ∈ t'.client.desk.seqs, n ≤ t.client.dialSeq := by
    rw [hdesk]
    exact hi.sound.seqs
  have hold : ∀ e ∈ h ++ [⟨t, turn, .quiet out⟩], e.state.client.dialSeq ≤ t.client.dialSeq ∧
      ∀ x ∈ e.reply.handed, x.dial = e.state.client.dialSeq ∧ x.busy = false := by
    intro e he
    rcases List.mem_append.mp he with he | he
    · exact hi.alone e he
    · obtain rfl := List.mem_singleton.mp he
      exact ⟨Nat.le_refl _, by simp [TurnReply.quiet]⟩
  have hfront : handedOn (h ++ [⟨t, turn, .quiet out⟩]) t'.client.dialSeq = [] := by
    refine List.flatMap_eq_nil_iff.mpr fun e he => ?_
    rw [List.map_eq_nil_iff, List.filter_eq_nil_iff]
    intro x hx heq
    obtain ⟨hle, hall⟩ := hold e he
    have := (hall x hx).1
    have := beq_iff_eq.mp heq
    omega
  have hback : arrivedOn (h ++ [⟨t, turn, .quiet out⟩]) t'.client.dialSeq = [] := by
    refine List.flatMap_eq_nil_iff.mpr fun e he => ?_
    have := (hold e he).1
    rw [if_neg (by omega)]
  have hsame (dial : Nat) : handedOn (h ++ [⟨t, turn, .quiet out⟩]) dial = handedOn h dial ∧
      arrivedOn (h ++ [⟨t, turn, .quiet out⟩]) dial = arrivedOn h dial := by
    rw [handedOn_snoc, arrivedOn_snoc]
    simp [TurnReply.quiet, hquiet]
  refine ⟨⟨fun _ => ?_, fun n hn => ?_, fun _ => ?_, fun hne => absurd hnone hne⟩, hunread,
    fun e he => ?_, ?_, fun dial hne => ?_, fun _ _ => ?_⟩
  · rw [hdesk]
  · have := hseqs n hn
    rw [hdesk]
    exact Nat.le_succ_of_le this
  · have hcount : t'.client.desk.seqs.count t'.client.dialSeq = 0 := by
      refine List.count_eq_zero.mpr fun hmem => ?_
      have := hseqs _ hmem
      omega
    have hsigning : t'.client.desk.signing = false := by
      rw [hdesk]
      exact hfree
    rw [Desk.Paced, hsigning]
    exact hcount
  · obtain ⟨hle, hall⟩ := hold e he
    exact ⟨by omega, hall⟩
  · rw [hfront, hback, hnone]
    exact List.Sublist.refl _
  · obtain ⟨h₁, h₂⟩ := hsame dial
    rw [h₁, h₂]
    by_cases heq : dial = t.client.dialSeq
    · rw [heq]
      exact (List.sublist_append_left _ _).trans hi.order
    · exact hi.before dial heq
  · rw [hfront, hback, hnone]
    rfl

/-- A turn that tells the caller's client to close. -/
theorem turned_close {d : Desk} (hs : Sound d) (out : List WebOutput) :
    Turned d { d with closed := true, linked := false } [] (.quiet out) :=
  ⟨rfl, (fun hl => by cases hl), hs.seqs, hs.paced, hs.held, by simp [TurnReply.quiet], by simp,
    fun hl => by cases hl⟩

/-- An event that hands nothing out. -/
theorem turned_lift (hs : Sound t.client.desk) {event : WebClient.Event}
    (hevent : event = .opened ∨ (∃ message, event = .garbled message) ∨ event = .dropped ∨
      (∃ r, event = .request r) ∨ (∃ cols rows, event = .resize cols rows) ∨ event = .close) :
    Turned t.client.desk (t.lift w event).1.client.desk [] (t.lift w event).2 := by
  unfold lift
  rcases hevent with rfl | ⟨message, rfl⟩ | rfl | ⟨r, rfl⟩ | ⟨cols, rows, rfl⟩ | rfl
  · dsimp only [WebClient.step]
    rw [WebClient.desk_send]
    exact turned_same hs _
  · dsimp only [WebClient.step]
    rcases WebClient.desk_closeLink t.client with h | h
    · rw [h]
      exact turned_same hs _
    · rw [h]
      exact turned_shut hs _
  · dsimp only [WebClient.step]
    split
    · rw [WebClient.desk_onClose]
      exact turned_shut hs _
    · exact turned_same hs _
  · dsimp only [WebClient.step]
    split
    · rw [WebClient.desk_send]
      exact turned_same hs _
    · exact turned_same hs _
  · dsimp only [WebClient.step]
    split
    · exact turned_same hs _
    · split
      · split
        · rw [WebClient.desk_send]
          exact turned_same hs _
        · exact turned_same hs _
      · exact turned_same hs _
  · dsimp only [WebClient.step]
    rcases WebClient.desk_closeLink { t.client with closed := true, redialTimer := false } with h | h
    · have hdesk : ({ ({ t.client with closed := true, redialTimer := false } :
          WebClient).closeLink.1 with linked := false } : WebClient).desk =
            { t.client.desk with closed := true, linked := false } :=
        congrArg (fun d : Desk => { d with linked := false }) h
      rw [hdesk]
      exact turned_close hs _
    · have hdesk : ({ ({ t.client with closed := true, redialTimer := false } :
          WebClient).closeLink.1 with linked := false } : WebClient).desk =
            ({ t.client.desk with closed := true } : Desk).shut :=
        congrArg (fun d : Desk => { d with linked := false }) h
      rw [hdesk]
      exact ⟨rfl, (fun hl => by cases hl), hs.seqs, (fun hu => by cases hu),
        fun hne => absurd rfl hne, by simp [TurnReply.quiet], by simp [Desk.shut],
        fun hl => by cases hl⟩

/-- One turn. -/
theorem inv_step {h : History} {turn : Turn} (hi : Inv t h) (hp : Punctual w t turn) :
    Inv (t.step w turn).1 (h ++ [⟨t, turn, (t.step w turn).2⟩]) := by
  have hlift (event : WebClient.Event) (hevent : event = .opened ∨
      (∃ message, event = .garbled message) ∨ event = .dropped ∨ (∃ r, event = .request r) ∨
      (∃ cols rows, event = .resize cols rows) ∨ event = .close)
      (hquiet : t.arrives turn = []) :
      Inv (t.lift w event).1 (h ++ [⟨t, turn, (t.lift w event).2⟩]) := by
    have hturn := turned_lift (w := w) hi.sound hevent
    rw [← hquiet] at hturn
    exact hi.turned hturn hi.unread
  have hrest (hquiet : t.arrives turn = []) : Inv t (h ++ [⟨t, turn, .quiet []⟩]) := by
    have hturn := turned_same hi.sound []
    rw [← hquiet] at hturn
    exact hi.turned hturn hi.unread
  cases turn with
  | opened => exact hlift .opened (.inl rfl) rfl
  | garbled message => exact hlift (.garbled message) (.inr (.inl ⟨message, rfl⟩)) rfl
  | dropped => exact hlift .dropped (.inr (.inr (.inl rfl))) rfl
  | request r => exact hlift (.request r) (.inr (.inr (.inr (.inl ⟨r, rfl⟩)))) rfl
  | resize cols rows =>
    exact hlift (.resize cols rows) (.inr (.inr (.inr (.inr (.inl ⟨cols, rows, rfl⟩))))) rfl
  | close => exact hlift .close (.inr (.inr (.inr (.inr (.inr rfl))))) rfl
  | chunk respond bodies =>
    have harrives : t.arrives (.chunk respond bodies) =
      if t.client.up then bodies else [] := rfl
    unfold step
    dsimp only
    split
    · next hup =>
      have hsmooth := hp.chunk respond bodies rfl hup
      rw [hi.unread, List.nil_append] at hsmooth ⊢
      obtain ⟨hturn, hunread⟩ := turned_chunk hi.sound hup hsmooth
      rw [if_pos hup] at harrives
      refine hi.turned ?_ hunread
      rw [harrives]
      exact hturn
    · next hdown =>
      rw [if_neg hdown] at harrives
      exact hrest harrives
  | signed i signed =>
    unfold step
    dsimp only
    split
    · next seq ch ht =>
      split
      · exact hrest rfl
      · next driver _ =>
        refine hi.turned ?_ ?_
        · have hset : (t.client.tasks.set i
              ⟨seq, .settled (driver.answer w ch signed).2⟩).map Task.seq =
                t.client.tasks.map Task.seq := by
            obtain ⟨hlt, heq⟩ := List.getElem?_eq_some_iff.mp ht
            refine List.ext_getElem? fun k => ?_
            rw [List.map_set, List.getElem?_set]
            split
            · next hk =>
              subst hk
              simp [hlt, heq]
            · rfl
          have hdesk : ({ (t.setDriver seq (driver.answer w ch signed).1).client with
              tasks := (t.setDriver seq (driver.answer w ch signed).1).client.tasks.set i
                ⟨seq, .settled (driver.answer w ch signed).2⟩ } : WebClient).desk =
                  t.client.desk := by
            unfold setDriver
            split <;> simp [WebClient.desk, hset]
          dsimp only
          rw [hdesk]
          exact turned_same hi.sound []
        · unfold setDriver
          split <;> exact hi.unread
    · exact hrest rfl
  | resumed i respond =>
    unfold step
    dsimp only
    split
    · next seq replies ht =>
      refine hi.turned ?_ hi.unread
      refine turned_continuation (i := i) hi.sound (by simp [WebClient.desk, ht])
        (by simp [WebClient.desk, List.eraseIdx_map])
        (hp.late i respond seq replies rfl ht) fun hown => ?_
      subst hown
      exact hp.drain i respond replies _ rfl ht rfl
    · exact hrest rfl
  | redial nonce ephemeral =>
    unfold step
    dsimp only
    by_cases hdue : (t.client.redialTimer && !t.client.closed) = true
    · rw [if_pos hdue]
      obtain ⟨htimer, hopen⟩ := Bool.and_eq_true_iff.mp hdue
      rw [Bool.not_eq_true'] at hopen
      refine hi.redial (hp.redial nonce ephemeral rfl htimer) rfl ?_ rfl
      simp [lift, WebClient.step, WebClient.dial, WebClient.desk, htimer, hopen]
    · rw [if_neg hdue]
      have hsame : (t.lift w (.redial nonce ephemeral)).1.client.desk = t.client.desk ∧
          (t.lift w (.redial nonce ephemeral)).2.handed = [] := by
        refine ⟨?_, rfl⟩
        unfold lift
        dsimp only [WebClient.step]
        split
        · next htimer =>
          have hclosed : t.client.closed = true := by
            simpa [htimer] using hdue
          simp [WebClient.dial, hclosed, WebClient.desk]
        · rfl
      have hturn := turned_same hi.sound (t.client.step w (.redial nonce ephemeral)).2
      refine hi.turned ?_ hi.unread
      rw [hsame.1]
      exact hturn

end WebTab

/-! ## Whose replies are sent -/

namespace WebClient

/-- `s'` has no replies in flight that `s` had not, and no proof is put
out. -/
structure Mute (s s' : WebClient) (out : List WebOutput) : Prop where
  sent : ∀ sent sig, .sent sent ∈ out → sent.message ≠ .auth sig
  tasks : ∀ seq replies, ⟨seq, .settled replies⟩ ∈ s'.tasks → replies ≠ [] →
    ⟨seq, .settled replies⟩ ∈ s.tasks

namespace Mute

theorem refl (s : WebClient) : s.Mute s [] := ⟨by simp, fun _ _ h _ => h⟩

theorem trans {s s' s'' : WebClient} {out out' : List WebOutput} (h : s.Mute s' out)
    (h' : s'.Mute s'' out') : s.Mute s'' (out ++ out') := by
  refine ⟨fun sent sig hmem => ?_, fun seq replies hmem hne => ?_⟩
  · rcases List.mem_append.mp hmem with hmem | hmem
    · exact h.sent sent sig hmem
    · exact h'.sent sent sig hmem
  · exact h.tasks seq replies (h'.tasks seq replies hmem hne) hne

/-- Calm operations put no replies in flight. -/
theorem of_calm {s s' : WebClient} (h : s.Calm s') {out : List WebOutput}
    (hout : ∀ sent sig, .sent sent ∈ out → sent.message ≠ .auth sig) : s.Mute s' out := by
  refine ⟨hout, fun seq replies hmem hne => ?_⟩
  rcases h.tasks _ hmem with hmem | ⟨_, hempty⟩
  · exact hmem
  · exact absurd (Stage.settled.inj hempty) hne

end Mute

variable (s : WebClient)

theorem mute_request (r : Request) :
    s.Mute (s.send w (.request r)).1 (s.send w (.request r)).2 := by
  obtain ⟨hcalm, _, _, hmsg⟩ := calm_send (w := w) s (.request r)
  refine .of_calm hcalm fun sent sig hmem heq => ?_
  rw [hmsg sent hmem] at heq
  cases heq

theorem mute_requests (rs : List Request) :
    s.Mute (s.sendAll w (rs.map .request)).1 (s.sendAll w (rs.map .request)).2 := by
  obtain ⟨hcalm, _, _, hmsg⟩ := calm_sendAll (w := w) s (rs.map .request)
  refine .of_calm hcalm fun sent sig hmem heq => ?_
  obtain ⟨r, _, hr⟩ := List.mem_map.mp (hmsg sent hmem)
  rw [← hr] at heq
  cases heq

theorem mute_onClose : s.Mute s.onClose.1 s.onClose.2 :=
  .of_calm (calm_onClose s).1 fun sent _ hmem => absurd hmem (not_sent_onClose s sent)

theorem mute_closeLink : s.Mute s.closeLink.1 s.closeLink.2 :=
  .of_calm (calm_closeLink s).1 fun sent _ hmem => absurd hmem (not_sent_closeLink s sent)

theorem mute_afterWelcome (host : HostId) (label : Str) :
    s.Mute (s.afterWelcome w host label).1 (s.afterWelcome w host label).2 := by
  unfold afterWelcome
  dsimp only
  have hsend (r : Request) := mute_request (w := w) { s with connected := true, redialAttempt := 0 } r
  split
  · next addr _ =>
    obtain ⟨hsent, htasks⟩ := hsend (.attach addr s.cols s.rows false)
    refine ⟨fun sent sig hmem => ?_, htasks⟩
    rcases List.mem_append.mp hmem with hmem | hmem
    · exact hsent sent sig hmem
    · cases List.mem_singleton.mp hmem
  · obtain ⟨hsent, htasks⟩ := hsend .listSessions
    refine ⟨fun sent sig hmem => ?_, htasks⟩
    rcases List.mem_append.mp hmem with hmem | hmem
    · simp at hmem
    · exact hsent sent sig hmem

/-- Handling a message sends requests only. -/
theorem mute_onMessage (respond : HostMessage → List Request) (frame : List UInt8) :
    s.Mute (s.onMessage w respond frame).1 (s.onMessage w respond frame).2 := by
  have hcalm := (calm_openFrame (w := w) s frame).1
  unfold onMessage
  generalize s.openFrame w frame = p at hcalm
  obtain ⟨s₁, body⟩ := p
  dsimp only at hcalm ⊢
  have hopened : s.Mute s₁ [] := .of_calm hcalm (by simp)
  cases body with
  | none =>
    obtain ⟨hsent, htasks⟩ := hopened.trans (mute_closeLink s₁)
    refine ⟨fun sent sig hmem => ?_, htasks⟩
    rcases List.mem_cons.mp hmem with hmem | hmem
    · cases hmem
    · exact hsent sent sig hmem
  | some body =>
    dsimp only
    cases w.codec.decode body with
    | error e => exact hopened
    | ok msg =>
      dsimp only
      split
      · exact hopened.trans (mute_requests s₁ (respond msg))
      · have hbegun (stage : Stage) (hempty : ∀ replies, stage = .settled replies → replies = [])
            (d : HandshakeDriver) : s.Mute { s₁ with
              signing := true, handshake := d, tasks := s₁.tasks ++ [⟨s₁.dialSeq, stage⟩] } [] := by
          refine ⟨by simp, fun seq replies hmem hne => ?_⟩
          rcases List.mem_append.mp hmem with hmem | hmem
          · exact hopened.tasks seq replies hmem hne
          · cases List.mem_singleton.mp hmem
            exact absurd (hempty replies rfl) hne
        cases msg with
        | challenge ch => exact hbegun (.answering ch) (by simp) _
        | welcome | authPending | authFailed | error | other =>
          exact hbegun (.settled []) (by simp) _

theorem mute_onBytes (respond : Responses) (frames : List (List UInt8)) :
    s.Mute (s.onBytes w respond frames).1 (s.onBytes w respond frames).2.2.outputs := by
  induction frames generalizing s respond with
  | nil => exact .refl s
  | cons body rest ih =>
    unfold onBytes
    split
    · obtain ⟨hsent, htasks⟩ := ih { s with stalled := s.stalled ++ [body] } respond
      exact ⟨hsent, htasks⟩
    · have hhand := mute_onMessage (w := w) s (respond 0) body
      unfold hand
      dsimp only
      split
      · exact hhand
      · exact hhand.trans (ih _ respond.next)

theorem mute_drainStalled (respond : Responses) (n : Nat) :
    s.Mute (s.drainStalled w respond n).1 (s.drainStalled w respond n).2.outputs := by
  induction n generalizing s respond with
  | zero => exact .refl s
  | succ n ih =>
    unfold drainStalled
    split
    · exact .refl s
    · split
      · exact .refl s
      · next body rest _ =>
        have hhand : s.Mute (({ s with stalled := rest } : WebClient).onMessage w (respond 0) body).1
            (({ s with stalled := rest } : WebClient).onMessage w (respond 0) body).2 := by
          obtain ⟨hsent, htasks⟩ := mute_onMessage (w := w) { s with stalled := rest } (respond 0) body
          exact ⟨hsent, htasks⟩
        unfold hand
        dsimp only
        split
        · exact hhand
        · exact hhand.trans (ih _ respond.next)

/-- A continuation sends its replies, if its dial is the one the client is
on, and requests. -/
theorem sent_continuation (respond : Responses) (seq : Nat) (replies : List ClientMessage) :
    (∀ sent sig, .sent sent ∈ (s.continuation w respond seq replies).2.outputs →
      sent.message = .auth sig → seq = s.dialSeq ∧ .auth sig ∈ replies) ∧
    ∀ seq' replies', ⟨seq', .settled replies'⟩ ∈ (s.continuation w respond seq replies).1.tasks →
      replies' ≠ [] → ⟨seq', .settled replies'⟩ ∈ s.tasks := by
  cases hstale : s.stale seq with
  | true =>
    rw [WebTab.continuation_stale hstale]
    exact ⟨by simp [TurnReply.quiet], fun _ _ hmem _ => hmem⟩
  | false =>
    rw [WebTab.continuation_live hstale]
    have hgo : ¬(seq ≠ s.dialSeq ∨ s.closed = true ∨ s.linked = false) := by
      simpa [stale, not_or, and_assoc] using hstale
    obtain ⟨hcalm, _, _, hmsgs⟩ := calm_sendAll (w := w) { s with signing := false } replies
    have hresume : (∃ sent out, (s.resume w seq replies).2 = sent ++ out ∧
        (∀ x, .sent x ∈ sent → x.message ∈ replies) ∧
        ({ s with signing := false } : WebClient).Mute (s.resume w seq replies).1 out) := by
      unfold resume
      rw [if_neg hgo]
      generalize ({ s with signing := false } : WebClient).sendAll w replies = p at hcalm hmsgs
      obtain ⟨s₁, sent⟩ := p
      dsimp only at hcalm hmsgs ⊢
      have hsent : ({ s with signing := false } : WebClient).Mute s₁ [] := .of_calm hcalm (by simp)
      refine ⟨sent, _, rfl, hmsgs, ?_⟩
      cases s₁.handshake.state with
      | connecting => exact hsent
      | awaitingApproval code secs => exact hsent.trans ⟨by simp, fun _ _ h _ => h⟩
      | welcomed host label => exact hsent.trans (mute_afterWelcome s₁ host label)
      | failed reason message retryable => exact hsent.trans (mute_closeLink s₁)
    obtain ⟨sent, out, hout, hsent, hmute⟩ := hresume
    have hboth := hmute.trans (mute_drainStalled (w := w) (s.resume w seq replies).1 respond
      (s.resume w seq replies).1.stalled.length)
    refine ⟨fun x sig hmem hsig => ?_, hboth.tasks⟩
    have hown : seq = s.dialSeq := by
      by_contra hne
      exact hgo (.inl hne)
    simp only [TurnReply.followedBy, TurnReply.quiet, hout, List.append_assoc] at hmem
    rcases List.mem_append.mp hmem with hmem | hmem
    · exact ⟨hown, hsig ▸ hsent x hmem⟩
    · exact absurd hsig (hboth.sent x sig hmem)

end WebClient

namespace WebTab

variable {h : History}

/-- The replies in flight were computed for the dial they are of. -/
def Replying (w : Web) (t : WebTab) (h : History) : Prop :=
  ∀ seq replies, ⟨seq, .settled replies⟩ ∈ t.client.tasks → replies ≠ [] → Computed w h seq replies

theorem Computed.snoc {seq : Nat} {replies : List ClientMessage} (hc : Computed w h seq replies)
    (e : Trace.Entry WebTab Turn TurnReply) : Computed w (h ++ [e]) seq replies := by
  obtain ⟨e', he', hrest⟩ := hc
  exact ⟨e', List.mem_append_left _ he', hrest⟩

/-- A turn that has nothing to do with replies. -/
theorem replying_mute {t : WebTab} {client : WebClient} {out : List WebOutput} (hr : Replying w t h)
    (hmute : t.client.Mute client out) (turn : Turn) (reply : TurnReply)
    (hout : reply.outputs = out) :
    (∀ seq replies, ⟨seq, .settled replies⟩ ∈ client.tasks → replies ≠ [] →
      Computed w (h ++ [⟨t, turn, reply⟩]) seq replies) ∧ Own w h ⟨t, turn, reply⟩ := by
  refine ⟨fun seq replies hmem hne => ?_, fun sent sig hmem hsig => ?_⟩
  · exact (hr seq replies (hmute.tasks seq replies hmem hne) hne).snoc _
  · exact absurd hsig (hmute.sent sent sig (hout ▸ hmem))

/-- An event of the client that has nothing to do with replies. -/
theorem mute_event (s : WebClient) {event : WebClient.Event}
    (hevent : event = .opened ∨ (∃ message, event = .garbled message) ∨ event = .dropped ∨
      (∃ r, event = .request r) ∨ (∃ cols rows, event = .resize cols rows) ∨ event = .close ∨
      ∃ nonce ephemeral, event = .redial nonce ephemeral) :
    s.Mute (s.step w event).1 (s.step w event).2 := by
  rcases hevent with rfl | ⟨message, rfl⟩ | rfl | ⟨r, rfl⟩ | ⟨cols, rows, rfl⟩ | rfl |
    ⟨nonce, ephemeral, rfl⟩
  · obtain ⟨hcalm, _, _, hmsg⟩ := WebClient.calm_send (w := w) s (s.handshake.hello w)
    refine .of_calm hcalm fun sent sig hmem heq => ?_
    rw [hmsg sent hmem] at heq
    cases heq
  · obtain ⟨hsent, htasks⟩ := WebClient.mute_closeLink s
    refine ⟨fun sent sig hmem => ?_, htasks⟩
    rcases List.mem_cons.mp hmem with hmem | hmem
    · cases hmem
    · exact hsent sent sig hmem
  · dsimp only [WebClient.step]
    split
    · exact WebClient.mute_onClose s
    · exact .refl s
  · dsimp only [WebClient.step]
    split
    · exact WebClient.mute_request s r
    · exact .refl s
  · dsimp only [WebClient.step]
    split
    · exact .refl s
    · split
      · next addr _ =>
        split
        · obtain ⟨hsent, htasks⟩ := WebClient.mute_request (w := w)
            { s with cols := cols, rows := rows } (.resize addr cols rows)
          exact ⟨hsent, htasks⟩
        · exact ⟨by simp, fun _ _ h _ => h⟩
      · exact ⟨by simp, fun _ _ h _ => h⟩
  · obtain ⟨hsent, htasks⟩ :=
      WebClient.mute_closeLink { s with closed := true, redialTimer := false }
    exact ⟨hsent, htasks⟩
  · dsimp only [WebClient.step]
    split
    · unfold WebClient.dial
      split
      · exact ⟨by simp, fun _ _ h _ => h⟩
      · exact ⟨by simp, fun _ _ h _ => h⟩
    · exact .refl s

/-- One turn sends the replies of its own dial only. -/
theorem own_step {t : WebTab} (turn : Turn) (hr : Replying w t h) :
    Replying w (t.step w turn).1 (h ++ [⟨t, turn, (t.step w turn).2⟩]) ∧
      Own w h ⟨t, turn, (t.step w turn).2⟩ := by
  have hlift (event : WebClient.Event) (hevent : event = .opened ∨
      (∃ message, event = .garbled message) ∨ event = .dropped ∨ (∃ r, event = .request r) ∨
      (∃ cols rows, event = .resize cols rows) ∨ event = .close ∨
      ∃ nonce ephemeral, event = .redial nonce ephemeral) :
      Replying w (t.lift w event).1 (h ++ [⟨t, turn, (t.lift w event).2⟩]) ∧
        Own w h ⟨t, turn, (t.lift w event).2⟩ :=
    replying_mute hr (mute_event t.client hevent) turn _ rfl
  have hrest : Replying w t (h ++ [⟨t, turn, .quiet []⟩]) ∧ Own w h ⟨t, turn, .quiet []⟩ :=
    replying_mute hr (.refl _) turn _ rfl
  cases turn with
  | opened => exact hlift .opened (.inl rfl)
  | garbled message => exact hlift (.garbled message) (.inr (.inl ⟨message, rfl⟩))
  | dropped => exact hlift .dropped (.inr (.inr (.inl rfl)))
  | request r => exact hlift (.request r) (.inr (.inr (.inr (.inl ⟨r, rfl⟩))))
  | resize cols rows =>
    exact hlift (.resize cols rows) (.inr (.inr (.inr (.inr (.inl ⟨cols, rows, rfl⟩)))))
  | close => exact hlift .close (.inr (.inr (.inr (.inr (.inr (.inl rfl))))))
  | redial nonce ephemeral =>
    have hdial := hlift (.redial nonce ephemeral)
      (.inr (.inr (.inr (.inr (.inr (.inr ⟨nonce, ephemeral, rfl⟩))))))
    unfold step
    dsimp only
    split
    · exact hdial
    · exact hdial
  | chunk respond bodies =>
    unfold step
    dsimp only
    split
    · exact replying_mute hr (WebClient.mute_onBytes t.client respond (t.unread ++ bodies)) _ _ rfl
    · exact hrest
  | signed i signed =>
    unfold step
    dsimp only
    split
    · next seq ch ht =>
      split
      · exact hrest
      · next driver hdriver =>
        refine ⟨fun seq' replies hmem hne => ?_, by simp [Own, TurnReply.quiet]⟩
        have hmem' : ⟨seq', .settled replies⟩ ∈ t.client.tasks.set i
            ⟨seq, .settled (driver.answer w ch signed).2⟩ := by
          unfold setDriver at hmem
          split at hmem <;> exact hmem
        rcases List.mem_or_eq_of_mem_set hmem' with hmem' | heq
        · exact (hr seq' replies hmem' hne).snoc _
        · obtain ⟨rfl, hsettled⟩ := Task.mk.inj heq
          exact ⟨_, List.mem_append_right _ (List.mem_singleton_self _), i, signed, ch, driver, rfl,
            ht, hdriver, (Stage.settled.inj hsettled).symm⟩
    · exact hrest
  | resumed i respond =>
    unfold step
    dsimp only
    split
    · next seq replies ht =>
      obtain ⟨hsent, htasks⟩ := WebClient.sent_continuation (w := w)
        { t.client with tasks := t.client.tasks.eraseIdx i } respond seq replies
      refine ⟨fun seq' replies' hmem hne => ?_, fun sent sig hmem hsig => ?_⟩
      · exact (hr seq' replies' (List.mem_of_mem_eraseIdx (htasks seq' replies' hmem hne)) hne).snoc _
      · obtain ⟨hown, hin⟩ := hsent sent sig hmem hsig
        replace hown : seq = t.client.dialSeq := hown
        subst hown
        exact ⟨i, respond, replies, rfl, ht, hin,
          hr _ replies (List.mem_of_getElem? ht) (List.ne_nil_of_mem hin)⟩
    · exact hrest

/-- What holds of a run keeps its frames in order. -/
theorem Inv.inOrder {t : WebTab} (hi : Inv t h) (hown : Trace.Each (Own w) h) : InOrder w t h := by
  refine ⟨fun e he x hx => ((hi.alone e he).2 x hx).2, fun dial => ?_, fun hl hc =>
    ⟨hi.whole hl hc, hi.unread⟩, fun hl hc hbusy => ?_, hown⟩
  · by_cases heq : dial = t.client.dialSeq
    · rw [heq]
      exact (List.sublist_append_left _ _).trans hi.order
    · exact hi.before dial heq
  · have hpaced := hi.sound.paced (hi.sound.linked hl)
    have hcount := WebClient.busy_eq_false.mp hbusy
    have hfree : t.client.signing = false := by
      rw [Desk.Paced, show t.client.desk.dial = t.client.dialSeq from rfl, hcount] at hpaced
      have hzero : t.client.signing.toNat = 0 := hpaced.symm
      simpa using hzero
    have hnone : t.client.stalled = [] := by
      by_contra hne
      exact Bool.false_ne_true (hfree.symm.trans (hi.sound.held hne))
    have hwhole := hi.whole hl hc
    rwa [hnone, List.append_nil] at hwhole

/-- In a run whose continuations come in time and whose frames decode, the
frames of each connection are handled once, in order and alone. -/
theorem frames_in_order (w : Web) (kind : Kind) (signerId : ClientId) (label : Str)
    (expectedHost : Option HostId) (closesInline : Bool) (cols rows : Nat) (nonce : Nonce)
    (ephemeral : EphemeralDh) (turns : List Turn)
    (hp : ∀ e ∈ (Trace.run (step w) (connect kind signerId label expectedHost closesInline cols rows
      nonce ephemeral) turns).2, Punctual w e.state e.call) :
    InOrder w (Trace.run (step w) (connect kind signerId label expectedHost closesInline cols rows
        nonce ephemeral) turns).1
      (Trace.run (step w) (connect kind signerId label expectedHost closesInline cols rows nonce
        ephemeral) turns).2 := by
  have hstart : Inv (connect kind signerId label expectedHost closesInline cols rows nonce
      ephemeral) [] := by
    refine ⟨⟨fun _ => rfl, ?_, fun _ => rfl, fun hne => absurd rfl hne⟩, rfl, by simp,
      List.Sublist.refl _, fun _ _ => List.Sublist.refl _, fun _ _ => rfl⟩
    simp [connect, WebClient.connect, WebClient.desk]
  obtain ⟨hi, _, hown⟩ := Trace.run_invariant_of_each
    (P := fun _ e => Punctual w e.state e.call)
    (I := fun t h => Inv t h ∧ Replying w t h ∧ Trace.Each (Own w) h)
    ⟨hstart, by simp [Replying, connect, WebClient.connect], Trace.each_nil _⟩
    (fun t h turn hI hpunctual => by
      obtain ⟨hi, hr, hown⟩ := hI
      obtain ⟨hr', hown'⟩ := own_step turn hr
      exact ⟨inv_step hi hpunctual, hr', Trace.each_snoc.mpr ⟨hown, hown'⟩⟩)
    turns (Trace.each_of_forall hp)
  exact hi.inOrder hown

/-! ## A dial that finds its proof pending, and one that loses a frame -/

/-- Frames for a test: the host gives up with `[2]`. -/
def impatientWeb : Web :=
  { testWeb with
    codec := { testCodec with
      decode := fun frame =>
        if frame = [2] then .ok (.authFailed .timedOut []) else testCodec.decode frame } }

def testTab : WebTab :=
  .connect .connection ⟨Vector.replicate 32 4⟩ [] (some testHost) false 80 24
    ⟨Vector.replicate 32 5⟩ ⟨Vector.replicate 32 6⟩

/-- A welcome comes with the challenge, and waits for the proof. -/
def welcomedTurns : List Turn :=
  [.chunk (fun _ _ => []) [[0], [1]], .signed 0 (.ok ⟨Vector.replicate 64 0⟩),
    .resumed 0 fun _ _ => []]

/-- The welcome is handed out once the proof is on its way. -/
theorem frames_in_order_welcomed :
    InOrder testWeb (Trace.run (step testWeb) testTab welcomedTurns).1
        (Trace.run (step testWeb) testTab welcomedTurns).2 ∧
      handedOn (Trace.run (step testWeb) testTab welcomedTurns).2 1 = [[0], [1]] := by
  refine ⟨frames_in_order testWeb .connection ⟨Vector.replicate 32 4⟩ [] (some testHost) false 80 24
    ⟨Vector.replicate 32 5⟩ ⟨Vector.replicate 32 6⟩ welcomedTurns ?_, by decide⟩
  show ∀ e ∈ [_, _, _], _
  refine List.forall_mem_cons.mpr ⟨?chunk, List.forall_mem_cons.mpr ⟨?signed,
    List.forall_mem_singleton.mpr ?resumed⟩⟩
  case chunk =>
    refine ⟨fun _ _ _ _ h => (by cases h), fun _ _ h => (by cases h), fun respond bodies h _ => ?_,
      fun _ _ _ _ h => (by cases h)⟩
    cases h
    exact fun _ => ⟨fun hthrows => absurd hthrows (by decide),
      fun hfree => absurd hfree (by decide)⟩
  case signed =>
    exact ⟨fun _ _ _ _ h => (by cases h), fun _ _ h => (by cases h), fun _ _ h => (by cases h),
      fun _ _ _ _ h => (by cases h)⟩
  case resumed =>
    refine ⟨fun i respond seq replies h ht hne => ?_, fun _ _ h => (by cases h),
      fun _ _ h => (by cases h), fun i respond replies s h ht hs => ?_⟩
    · cases h
      cases ht
      exact absurd rfl hne
    · cases h
      cases ht
      subst hs
      intro body rest _ hst
      cases hst
      exact ⟨fun _ => rfl, trivial⟩

/-- The challenge of a second dial is being signed, and its host gives up,
when the signature of the first one's settles. -/
def lateTurns : List Turn :=
  [.opened, .chunk (fun _ _ => []) [[0]], .dropped,
    .redial ⟨Vector.replicate 32 7⟩ ⟨Vector.replicate 32 8⟩, .opened,
    .chunk (fun _ _ => []) [[0], [2]], .signed 0 (.ok ⟨Vector.replicate 64 0⟩),
    .resumed 0 fun _ _ => []]

/-- A frame held on the second connection goes with the first one's
continuation. -/
theorem held_frame_lost :
    ¬ ∀ (w : Web) (kind : Kind) (signerId : ClientId) (label : Str) (expectedHost : Option HostId)
      (closesInline : Bool) (cols rows : Nat) (nonce : Nonce) (ephemeral : EphemeralDh)
      (turns : List Turn),
      InOrder w (Trace.run (step w) (connect kind signerId label expectedHost closesInline cols rows
          nonce ephemeral) turns).1
        (Trace.run (step w) (connect kind signerId label expectedHost closesInline cols rows nonce
          ephemeral) turns).2 := by
  intro h
  obtain ⟨hwhole, _⟩ := (h impatientWeb .connection ⟨Vector.replicate 32 4⟩ [] (some testHost) false
    80 24 ⟨Vector.replicate 32 5⟩ ⟨Vector.replicate 32 6⟩ lateTurns).whole (by decide)
      (by decide)
  exact absurd hwhole (by decide)

end WebTab

end Zesterm
