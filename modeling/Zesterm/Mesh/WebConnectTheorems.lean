/-
Zesterm.Mesh.WebConnectTheorems — whom the web clients take for a host.

`SameDial` is what stays of a driver as long as its dial lasts, and `Calm`
what an operation of the client leaves alone: sending, closing and
bookkeeping neither move the driver on nor forget its channel. The events
that matter are then three: a promise that settles puts a channel in place,
after a proof that verified over this dial's transcript (`Proves`); a frame
that is a welcome moves the driver; and a continuation that finds it moved
counts the client as connected.

`Inv` holds of every run whose welcomes each find the channel in place and
name the host of the challenges of their dial.
-/
import Zesterm.Mesh.WebConnect

namespace Zesterm

namespace Web

/-- A check that throws was passed. -/
theorem refuse_eq_ok {α β ε : Type} {p : Prop} [Decidable p] {e : ε} {f : β → Except ε α}
    {k : Except ε α} {a : α} :
    (if p then (throw e : Except ε β) >>= f else k) = .ok a ↔ ¬ p ∧ k = .ok a := by
  by_cases hp : p
  · simp [hp, bind, Except.bind, throw, throwThe, MonadExceptOf.throw]
  · simp [hp]

/-- What a challenge that passes was checked for. -/
theorem checkChallenge_ok {w : Web} {id : ClientId} {expect : Option HostId} {t : Transcript}
    {sig : Signature} {bytes : List UInt8} (h : w.checkChallenge id expect t sig = .ok bytes) :
    authTranscript t = .ok bytes ∧
      w.verify t.host.bytes (preimage .host .auth bytes) sig.bytes = true ∧
      ∀ host, expect = some host → host = t.host := by
  unfold checkChallenge at h
  cases hbytes : authTranscript t with
  | error e =>
    cases expect with
    | none =>
      simp only [hbytes, refuse_eq_ok] at h
      obtain ⟨_, _, h⟩ := h
      cases h
    | some expected =>
      simp only [hbytes, refuse_eq_ok] at h
      obtain ⟨_, _, _, h⟩ := h
      cases h
  | ok message =>
    have hok (x : List UInt8 → Except WebError (List UInt8)) : (Except.ok message >>= x) =
        x message := rfl
    cases expect with
    | none =>
      simp only [hbytes, refuse_eq_ok, hok] at h
      obtain ⟨_, _, hv, h⟩ := h
      cases h
      exact ⟨rfl, by simpa using hv, by simp⟩
    | some expected =>
      simp only [hbytes, refuse_eq_ok, hok] at h
      obtain ⟨hne, _, _, hv, h⟩ := h
      cases h
      refine ⟨rfl, by simpa using hv, fun host hhost => ?_⟩
      cases hhost
      exact not_not.mp hne

end Web

namespace HandshakeDriver

/-- The same dial's driver, wherever it stands. -/
structure SameDial (d d' : HandshakeDriver) : Prop where
  signer : d'.signerId = d.signerId
  label : d'.label = d.label
  expected : d'.expectedHost = d.expectedHost
  nonce : d'.nonce = d.nonce
  ephemeral : d'.ephemeral = d.ephemeral

theorem SameDial.refl (d : HandshakeDriver) : d.SameDial d := ⟨rfl, rfl, rfl, rfl, rfl⟩

theorem SameDial.trans {d d' d'' : HandshakeDriver} (h : d.SameDial d') (h' : d'.SameDial d'') :
    d.SameDial d'' :=
  ⟨h'.signer.trans h.signer, h'.label.trans h.label, h'.expected.trans h.expected,
    h'.nonce.trans h.nonce, h'.ephemeral.trans h.ephemeral⟩

variable {w : Web}

theorem SameDial.transcript {d d' : HandshakeDriver} (h : d.SameDial d') (ch : Challenge) :
    d'.transcript w ch = d.transcript w ch := by
  simp only [HandshakeDriver.transcript, h.signer, h.label, h.nonce, h.ephemeral]

/-- A challenge's proof verified over this dial's transcript, under the
expected host's key when one was given. -/
def Verified (w : Web) (d : HandshakeDriver) (ch : Challenge) : Prop :=
  ∃ message, Web.authTranscript (d.transcript w ch) = .ok message ∧
    w.verify ch.host.bytes (preimage .host .auth message) ch.signature.bytes = true ∧
    ∀ host, d.expectedHost = some host → host = ch.host

theorem SameDial.verified {d d' : HandshakeDriver} (h : d.SameDial d') {ch : Challenge}
    (hv : d.Verified w ch) : d'.Verified w ch := by
  unfold Verified at hv ⊢
  rw [h.transcript, h.expected]
  exact hv

/-- A promise that settles put a channel in place after a proof, or failed
the driver and left its channel alone. -/
theorem answer_cases (d : HandshakeDriver) (ch : Challenge) (signed : Except Str Signature) :
    (∃ channel sig, d.answer w ch signed = ({ d with channel := some channel }, [.auth sig]) ∧
        d.Verified w ch) ∨
      ∃ reason message, d.answer w ch signed =
        ({ d with state := .failed reason message false }, []) := by
  unfold answer
  cases hcheck : w.checkChallenge d.signerId d.expectedHost (d.transcript w ch) ch.signature with
  | error e =>
    cases e with
    | challenge message => exact Or.inr ⟨_, _, rfl⟩
    | other text => exact Or.inr ⟨_, _, rfl⟩
  | ok bytes =>
    obtain ⟨hm, hv, hexpect⟩ := Web.checkChallenge_ok hcheck
    cases signed with
    | error text => exact Or.inr ⟨_, _, rfl⟩
    | ok sig =>
      cases hagree : Web.agree w.suite d.ephemeral ch.dh bytes with
      | error e =>
        simp only [bind, Except.bind, Except.mapError, hagree]
        cases e with
        | challenge | other => exact Or.inr ⟨_, _, rfl⟩
      | ok channel =>
        simp only [bind, Except.bind, Except.mapError, hagree, pure, Except.pure]
        exact Or.inl ⟨channel, sig, rfl, bytes, hm, hv, hexpect⟩

theorem sameDial_onMessage (d : HandshakeDriver) (msg : HostMessage) :
    d.SameDial (d.onMessage msg) ∧ (d.onMessage msg).channel = d.channel := by
  cases msg <;> exact ⟨⟨rfl, rfl, rfl, rfl, rfl⟩, rfl⟩

/-- Only a welcome makes the driver welcomed. -/
theorem welcomed_onMessage {d : HandshakeDriver} {msg : HostMessage} {host : HostId} {label : Str}
    (h : (d.onMessage msg).state = .welcomed host label) :
    d.state = .welcomed host label ∨ ∃ version, msg = .welcome version host label := by
  cases msg with
  | welcome version host' label' =>
    simp only [onMessage, HandshakeState.welcomed.injEq] at h
    exact Or.inr ⟨version, by rw [h.1, h.2]⟩
  | authPending | authFailed => simp [onMessage] at h
  | challenge | error | other => exact Or.inl h

end HandshakeDriver

namespace WebClient

variable {w : Web}

/-! ## Operations that change nothing that matters -/

/-- `s'` is `s` but for its bookkeeping: the same dial with the driver where
it was, no new task in flight, and not newly connected. -/
structure Calm (s s' : WebClient) : Prop where
  dialSeq : s'.dialSeq = s.dialSeq
  expected : s'.expectedHost = s.expectedHost
  driver : s.handshake.SameDial s'.handshake
  state : s'.handshake.state = s.handshake.state
  channel : s'.handshake.channel.isSome = s.handshake.channel.isSome
  tasks : ∀ t ∈ s'.tasks, t ∈ s.tasks ∨ t.seq ≤ s.dialSeq ∧ t.stage = .settled []
  connected : s'.connected = true → s.connected = true
  idle : s'.redialTimer = true →
    s.redialTimer = true ∧ (s'.linked = true → s.linked = true) ∨
      s'.connected = false ∧ s'.linked = false

/-- What may be put out by the way: nothing in the open where there is a
channel, and no news of a host. -/
def Discreet (s : WebClient) (out : List WebOutput) : Prop :=
  ∀ o ∈ out, match o with
    | .sent sent => s.handshake.channel.isSome = true → sent.record.isSome = true
    | .connection state => state ≠ .connected
    | .welcome _ _ => False
    | .error _ => True

namespace Calm

theorem refl (s : WebClient) : s.Calm s :=
  ⟨rfl, rfl, .refl _, rfl, rfl, fun _ h => Or.inl h, id, fun h => Or.inl ⟨h, id⟩⟩

theorem trans {s s' s'' : WebClient} (h : s.Calm s') (h' : s'.Calm s'') : s.Calm s'' := by
  refine ⟨h'.dialSeq.trans h.dialSeq, h'.expected.trans h.expected, h.driver.trans h'.driver,
    h'.state.trans h.state, h'.channel.trans h.channel, fun t ht => ?_, fun hc => h.connected (h'.connected hc),
    fun ht => ?_⟩
  · rcases h'.tasks t ht with ht | ⟨hle, hs⟩
    · exact h.tasks t ht
    · exact Or.inr ⟨h.dialSeq ▸ hle, hs⟩
  · rcases h'.idle ht with ⟨ht, hl⟩ | hoff
    · rcases h.idle ht with ⟨ht, hl'⟩ | ⟨hc, hl'⟩
      · exact Or.inl ⟨ht, fun x => hl' (hl x)⟩
      · refine Or.inr ⟨?_, ?_⟩
        · by_contra hne
          simp [h'.connected (by simpa using hne)] at hc
        · by_contra hne
          simp [hl (by simpa using hne)] at hl'
    · exact Or.inr hoff

end Calm

variable (s : WebClient)

theorem Discreet.append {s : WebClient} {out out' : List WebOutput} (h : s.Discreet out)
    (h' : s.Discreet out') : s.Discreet (out ++ out') := by
  intro o ho
  rcases List.mem_append.mp ho with ho | ho
  · exact h o ho
  · exact h' o ho

theorem Discreet.error {s : WebClient} {out : List WebOutput} (h : s.Discreet out)
    (message : Str) : s.Discreet (.error message :: out) := by
  intro o ho
  rcases List.mem_cons.mp ho with rfl | ho
  · trivial
  · exact h o ho

theorem discreet_nil : s.Discreet [] := by simp [Discreet]

/-- Sending moves the channel on and nothing else. -/
theorem calm_send (msg : ClientMessage) :
    s.Calm (s.send w msg).1 ∧ s.Discreet (s.send w msg).2 ∧
      (∃ d, (s.send w msg).1 = { s with handshake := d }) ∧
      ∀ sent, .sent sent ∈ (s.send w msg).2 → sent.message = msg := by
  unfold send
  cases w.codec.encodeBody msg with
  | error e => exact ⟨.refl s, discreet_nil s, ⟨_, rfl⟩, by simp⟩
  | ok body =>
    dsimp only
    split
    · cases hc : s.handshake.channel with
      | none =>
        refine ⟨.refl s, ?_, ⟨_, rfl⟩, by simp⟩
        intro o ho
        obtain rfl := List.mem_singleton.mp ho
        simp [hc]
      | some channel =>
        dsimp only
        generalize Web.sealWith w.suite channel body = p
        have hcalm : s.Calm { s with
            handshake := { s.handshake with channel := some p.1 } } :=
          ⟨rfl, rfl, ⟨rfl, rfl, rfl, rfl, rfl⟩, rfl, by simp [hc], fun _ h => Or.inl h, id,
            fun h => Or.inl ⟨h, id⟩⟩
        cases hr : p.2 with
        | none => exact ⟨hcalm, discreet_nil s, ⟨_, rfl⟩, by simp⟩
        | some record =>
          refine ⟨hcalm, ?_, ⟨_, rfl⟩, by simp⟩
          intro o ho
          obtain rfl := List.mem_singleton.mp ho
          simp
    · exact ⟨.refl s, discreet_nil s, ⟨_, rfl⟩, by simp⟩

/-- A discreet output stays one through a calm step. -/
theorem Discreet.of_calm {s s' : WebClient} (h : s.Calm s') {out : List WebOutput}
    (ho : s'.Discreet out) : s.Discreet out := by
  intro o hmem
  have := ho o hmem
  cases o with
  | sent sent => exact fun hc => this (h.channel ▸ hc)
  | connection | welcome | error => exact this

theorem calm_sendAll (msgs : List ClientMessage) :
    s.Calm (s.sendAll w msgs).1 ∧ s.Discreet (s.sendAll w msgs).2 ∧
      (∃ d, (s.sendAll w msgs).1 = { s with handshake := d }) ∧
      ∀ sent, .sent sent ∈ (s.sendAll w msgs).2 → sent.message ∈ msgs := by
  induction msgs generalizing s with
  | nil => exact ⟨.refl s, discreet_nil s, ⟨_, rfl⟩, by simp [sendAll]⟩
  | cons msg msgs ih =>
    obtain ⟨hcalm, hout, ⟨d, hd⟩, hmsg⟩ := calm_send (w := w) s msg
    obtain ⟨hcalm', hout', ⟨d', hd'⟩, hmsg'⟩ := ih (s.send w msg).1
    refine ⟨hcalm.trans hcalm', hout.append (hout'.of_calm hcalm), ⟨d', ?_⟩, fun sent hsent => ?_⟩
    · show ((s.send w msg).1.sendAll w msgs).1 = _
      rw [hd', hd]
    · rcases List.mem_append.mp hsent with hsent | hsent
      · rw [hmsg sent hsent]
        exact List.mem_cons_self
      · exact List.mem_cons_of_mem _ (hmsg' sent hsent)

theorem calm_onClose : s.Calm s.onClose.1 ∧ s.Discreet s.onClose.2 := by
  have hoff (attempt : Nat) (timer : Bool) : s.Calm { s with
      connected := false, linked := false, up := false, stalled := [], signing := false,
      redialAttempt := attempt, redialTimer := timer } :=
    ⟨rfl, rfl, .refl _, rfl, rfl, fun _ h => Or.inl h, by simp, fun _ => Or.inr ⟨rfl, rfl⟩⟩
  unfold onClose
  dsimp only
  split
  · exact ⟨hoff _ _, discreet_nil s⟩
  · split
    · split
      · exact ⟨hoff _ _, by simp [Discreet]⟩
      · exact ⟨hoff _ _, by simp [Discreet]⟩
    · exact ⟨hoff _ _, by simp [Discreet]⟩

theorem calm_closeLink : s.Calm s.closeLink.1 ∧ s.Discreet s.closeLink.2 := by
  unfold closeLink
  split
  · exact calm_onClose s
  · exact ⟨.refl s, discreet_nil s⟩

theorem not_sent_onClose (sent : Sent) : .sent sent ∉ s.onClose.2 := by
  unfold onClose
  dsimp only
  split
  · simp
  · split
    · split <;> simp
    · simp

theorem not_sent_closeLink (sent : Sent) : .sent sent ∉ s.closeLink.2 := by
  unfold closeLink
  split
  · exact not_sent_onClose s sent
  · simp

/-! ## What a client hears, and who has proved itself -/

/-- The frame an event takes up. -/
def takes (s : WebClient) : Event → Option (List UInt8)
  | .frame _ body => if s.signing then none else some body
  | .drain _ => if s.signing then none else s.stalled.head?
  | _ => none

/-- The event hands a message to the driver, of a client that is not
connected. -/
def Hears (w : Web) (s : WebClient) (a : Event) (msg : HostMessage) : Prop :=
  s.connected = false ∧ ∃ frame body, s.takes a = some frame ∧
    (s.openFrame w frame).2 = some body ∧ w.codec.decode body = .ok msg

/-- A run of events with what each put out. -/
abbrev History := List (Trace.Entry WebClient Event (List WebOutput))

/-- An entry heard a challenge of the dial `s` is on, and its proof verified
over the transcript of that dial. -/
def Proves (w : Web) (s : WebClient) (e : Trace.Entry WebClient Event (List WebOutput))
    (host : HostId) : Prop :=
  e.state.dialSeq = s.dialSeq ∧
    ∃ ch, Hears w e.state e.call (.challenge ch) ∧ ch.host = host ∧ s.handshake.Verified w ch

/-- A host has proved itself on this dial. -/
def Proven (w : Web) (s : WebClient) (h : History) (host : HostId) : Prop :=
  ∃ e ∈ h, Proves w s e host

theorem Proven.mono {s s' : WebClient} {h : History} {host : HostId} (hp : Proven w s h host)
    (hseq : s'.dialSeq = s.dialSeq) (hdial : s.handshake.SameDial s'.handshake)
    (e : Trace.Entry WebClient Event (List WebOutput)) : Proven w s' (h ++ [e]) host := by
  obtain ⟨e', he', hd, ch, hh, hhost, hv⟩ := hp
  exact ⟨e', List.mem_append_left _ he', hd.trans hseq.symm, ch, hh, hhost, hdial.verified hv⟩

/-- The condition on one entry: a welcome that is heard finds the channel in
place, and names the host of every challenge heard on its dial. -/
def WelcomedInPlace (w : Web) (before : History)
    (e : Trace.Entry WebClient Event (List WebOutput)) : Prop :=
  ∀ version host label, Hears w e.state e.call (.welcome version host label) →
    e.state.handshake.channel.isSome = true ∧
      ∀ e' ∈ before, e'.state.dialSeq = e.state.dialSeq →
        ∀ ch, Hears w e'.state e'.call (.challenge ch) → ch.host = host

/-- What an event may put out: nothing in the open but a hello, and of a host
only that it has proved itself. -/
def Honest (w : Web) (before : History) (e : Trace.Entry WebClient Event (List WebOutput)) : Prop :=
  (∀ sent, .sent sent ∈ e.reply → sent.record = none →
    sent.message = e.state.handshake.hello w) ∧
  (.connection .connected ∈ e.reply → ∃ host, Proven w e.state before host) ∧
  ∀ host label, .welcome host label ∈ e.reply → Proven w e.state before host

/-- What holds of a client that expects `x` after a history. -/
structure Inv (w : Web) (x : Option HostId) (s : WebClient) (h : History) : Prop where
  expected : s.handshake.expectedHost = x ∧ s.expectedHost = x
  asked : ∀ t ∈ s.tasks, t.seq ≤ s.dialSeq ∧ ∀ ch, t = ⟨s.dialSeq, .answering ch⟩ →
    ∃ e ∈ h, e.state.dialSeq = s.dialSeq ∧ Hears w e.state e.call (.challenge ch)
  answered : ∀ replies, ⟨s.dialSeq, .settled replies⟩ ∈ s.tasks → replies ≠ [] →
    s.handshake.channel.isSome = true
  channel : s.handshake.channel.isSome = true → ∃ host, Proven w s h host
  welcomed : ∀ host label, s.handshake.state = .welcomed host label →
    s.handshake.channel.isSome = true ∧ Proven w s h host
  connected : s.connected = true → s.handshake.channel.isSome = true
  idle : s.redialTimer = true → s.connected = false ∧ s.linked = false

variable {x : Option HostId}
variable {s s₀ : WebClient} {h : History}

theorem Inv.calm {s' : WebClient} (hi : Inv w x s h) (hc : s.Calm s')
    (e : Trace.Entry WebClient Event (List WebOutput)) : Inv w x s' (h ++ [e]) := by
  refine ⟨⟨hc.driver.expected.trans hi.expected.1, hc.expected.trans hi.expected.2⟩,
    fun t ht => ?_, fun replies ht hne => ?_, fun hch => ?_, fun host label hst => ?_, fun hcon => ?_, fun ht => ?_⟩
  · rw [hc.dialSeq]
    rcases hc.tasks t ht with ht | ⟨hle, hsettled⟩
    · obtain ⟨hle, hasked⟩ := hi.asked t ht
      refine ⟨hle, fun ch hch => ?_⟩
      obtain ⟨e', he', hrest⟩ := hasked ch hch
      exact ⟨e', List.mem_append_left _ he', hrest⟩
    · refine ⟨hle, fun ch hch => ?_⟩
      rw [hch] at hsettled
      cases hsettled
  · rw [hc.dialSeq] at ht
    rw [hc.channel]
    rcases hc.tasks _ ht with ht | ⟨_, hsettled⟩
    · exact hi.answered replies ht hne
    · exact absurd (Stage.settled.inj hsettled) hne
  · obtain ⟨host, hp⟩ := hi.channel (hc.channel ▸ hch)
    exact ⟨host, hp.mono hc.dialSeq hc.driver e⟩
  · obtain ⟨hch, hp⟩ := hi.welcomed host label (hc.state ▸ hst)
    exact ⟨hc.channel.trans hch, hp.mono hc.dialSeq hc.driver e⟩
  · exact hc.channel.trans (hi.connected (hc.connected hcon))
  · rcases hc.idle ht with ⟨ht, hl⟩ | hoff
    · obtain ⟨hcon, hlinked⟩ := hi.idle ht
      refine ⟨?_, ?_⟩
      · by_contra hne
        simp [hc.connected (by simpa using hne)] at hcon
      · by_contra hne
        simp [hl (by simpa using hne)] at hlinked
    · exact hoff

/-- A discreet event of a client that has its channel is honest. -/
theorem honest_of_discreet {before : History} {e : Trace.Entry WebClient Event (List WebOutput)}
    (hd : e.state.Discreet e.reply)
    (hs : ∀ sent, .sent sent ∈ e.reply → e.state.handshake.channel.isSome = true ∨
      sent.message = e.state.handshake.hello w) : Honest w before e := by
  refine ⟨fun sent hsent hopen => ?_, fun hc => ?_, fun host label hw => (hd _ hw).elim⟩
  · rcases hs sent hsent with hch | hhello
    · have := hd _ hsent hch
      simp [hopen] at this
    · exact hhello
  · exact absurd rfl (hd _ hc)

/-! ## One event -/

theorem calm_openFrame (s : WebClient) (frame : List UInt8) :
    s.Calm (s.openFrame w frame).1 ∧ (s.openFrame w frame).1.connected = s.connected := by
  unfold openFrame
  cases hc : s.handshake.channel with
  | none => exact ⟨.refl s, rfl⟩
  | some channel =>
    exact ⟨⟨rfl, rfl, ⟨rfl, rfl, rfl, rfl, rfl⟩, rfl, by simp [hc], fun _ h => Or.inl h, id,
      fun h => Or.inl ⟨h, id⟩⟩, rfl⟩

/-- What taking up a frame can come to. -/
inductive Takes (w : Web) (s : WebClient) (frame : List UInt8) : WebClient → List WebOutput → Prop
  | calm {s' : WebClient} {out : List WebOutput} (hcalm : s.Calm s') (hout : s.Discreet out)
      (hsent : ∀ sent, .sent sent ∈ out → s.connected = true) : Takes w s frame s' out
  | challenge {s₁ : WebClient} {body : List UInt8} {ch : Challenge} (hcalm : s.Calm s₁)
      (hcon : s.connected = false) (hopen : (s.openFrame w frame).2 = some body)
      (hdecode : w.codec.decode body = .ok (.challenge ch)) :
      Takes w s frame { s₁ with tasks := s₁.tasks ++ [⟨s₁.dialSeq, .answering ch⟩] } []
  | driver {s₁ : WebClient} {body : List UInt8} {msg : HostMessage} (hcalm : s.Calm s₁)
      (hcon : s.connected = false) (hopen : (s.openFrame w frame).2 = some body)
      (hdecode : w.codec.decode body = .ok msg) :
      Takes w s frame
        { s₁ with
          handshake := s₁.handshake.onMessage msg
          tasks := s₁.tasks ++ [⟨s₁.dialSeq, .settled []⟩] } []

theorem takes_onMessage (s : WebClient) (respond : HostMessage → List Request)
    (frame : List UInt8) : Takes w s frame (s.onMessage w respond frame).1
      (s.onMessage w respond frame).2 := by
  obtain ⟨hcalm, hcon⟩ := calm_openFrame (w := w) s frame
  unfold onMessage
  cases hopen : s.openFrame w frame with
  | mk s₁ body =>
    rw [hopen] at hcalm hcon
    dsimp only at hcalm hcon
    have hread : (s.openFrame w frame).2 = body := by rw [hopen]
    cases body with
    | none =>
      obtain ⟨hclose, hout⟩ := calm_closeLink s₁
      have hquiet : s₁.Discreet (.error "a sealed frame did not open".toList :: s₁.closeLink.2) :=
        hout.error _
      refine .calm (hcalm.trans hclose) (hquiet.of_calm hcalm) fun sent hsent => ?_
      rcases List.mem_cons.mp hsent with hsent | hsent
      · cases hsent
      · exact absurd hsent (not_sent_closeLink s₁ sent)
    | some body =>
      dsimp only
      cases hdecode : w.codec.decode body with
      | error e => exact .calm hcalm (discreet_nil s) (by simp)
      | ok msg =>
        dsimp only
        by_cases hc : s₁.connected = true
        · rw [if_pos hc]
          obtain ⟨hsend, hout, _⟩ := calm_sendAll (w := w) s₁ ((respond msg).map .request)
          exact .calm (hcalm.trans hsend) (hout.of_calm hcalm) fun _ _ => hcon ▸ hc
        · rw [if_neg hc]
          have hoff : s.connected = false := by
            rw [← hcon]
            simpa using hc
          have hcalm' : s.Calm { s₁ with signing := true } :=
            hcalm.trans ⟨rfl, rfl, .refl _, rfl, rfl, fun _ h => Or.inl h, id,
              fun h => Or.inl ⟨h, id⟩⟩
          cases msg with
          | challenge ch => exact .challenge hcalm' hoff hread hdecode
          | welcome | authPending | authFailed | error | other =>
            exact .driver hcalm' hoff hread hdecode

/-- Taking up a frame keeps the invariant. -/
theorem inv_takes {s' : WebClient} {a : Event} {frame : List UInt8} {out : List WebOutput}
    (hi : Inv w x s h) (hsame : s.Calm s₀) (hhs : s₀.handshake = s.handshake)
    (hconn : s₀.connected = s.connected) (ha : s.takes a = some frame)
    (ht : Takes w s₀ frame s' out) (hw : WelcomedInPlace w h ⟨s, a, out⟩) :
    Inv w x s' (h ++ [⟨s, a, out⟩]) ∧ Honest w h ⟨s, a, out⟩ := by
  have hopen₀ : (s₀.openFrame w frame).2 = (s.openFrame w frame).2 := by
    unfold openFrame
    rw [hhs]
    cases s.handshake.channel <;> rfl
  have hnil : Honest w h ⟨s, a, []⟩ :=
    honest_of_discreet (discreet_nil s) (by simp)
  cases ht with
  | calm hcalm hout hsent =>
    refine ⟨hi.calm (hsame.trans hcalm) _, honest_of_discreet (hout.of_calm hsame) ?_⟩
    exact fun sent hmem => Or.inl (hi.connected (hconn ▸ hsent sent hmem))
  | @challenge s₁ body ch hcalm hcon hopen hdecode =>
    have hinv := hi.calm (hsame.trans hcalm) ⟨s, a, []⟩
    have hseq := (hsame.trans hcalm).dialSeq
    refine ⟨{ hinv with asked := fun t ht => ?_, answered := fun replies ht => ?_ }, hnil⟩
    · rcases List.mem_append.mp ht with ht | ht
      · exact hinv.asked t ht
      · obtain rfl := List.mem_singleton.mp ht
        refine ⟨Nat.le_refl _, fun ch' hch' => ?_⟩
        cases hch'
        exact ⟨_, List.mem_append_right _ (List.mem_singleton_self _), hseq.symm,
          hconn ▸ hcon, frame, body, ha, hopen₀ ▸ hopen, hdecode⟩
    · rcases List.mem_append.mp ht with ht | ht
      · exact hinv.answered replies ht
      · cases List.mem_singleton.mp ht
  | @driver s₁ body msg hcalm hcon hopen hdecode =>
    have hinv := hi.calm (hsame.trans hcalm) ⟨s, a, []⟩
    have hall := hsame.trans hcalm
    obtain ⟨hdial, hchannel⟩ := HandshakeDriver.sameDial_onMessage s₁.handshake msg
    have hmono (host : HostId) (hp : Proven w s₁ (h ++ [⟨s, a, []⟩]) host) :
        Proven w { s₁ with
          handshake := s₁.handshake.onMessage msg
          tasks := s₁.tasks ++ [⟨s₁.dialSeq, .settled []⟩] } (h ++ [⟨s, a, []⟩]) host := by
      obtain ⟨e, he, hd, ch, hh, hhost, hv⟩ := hp
      exact ⟨e, he, hd, ch, hh, hhost, hdial.verified hv⟩
    refine ⟨⟨⟨hdial.expected.trans hinv.expected.1, hinv.expected.2⟩, fun t ht => ?_, fun replies ht hne => ?_,
      fun hch => ?_, fun host label hst => ?_, fun hc => ?_, hinv.idle⟩, hnil⟩
    · rcases List.mem_append.mp ht with ht | ht
      · exact hinv.asked t ht
      · obtain rfl := List.mem_singleton.mp ht
        exact ⟨Nat.le_refl _, fun ch hch => by cases hch⟩
    · rcases List.mem_append.mp ht with ht | ht
      · exact hchannel ▸ hinv.answered replies ht hne
      · cases List.mem_singleton.mp ht
        exact absurd rfl hne
    · obtain ⟨host, hp⟩ := hinv.channel (hchannel ▸ hch)
      exact ⟨host, hmono host hp⟩
    · rcases HandshakeDriver.welcomed_onMessage hst with hold | ⟨version, rfl⟩
      · obtain ⟨hch, hp⟩ := hinv.welcomed host label hold
        exact ⟨hchannel ▸ hch, hmono host hp⟩
      · -- The welcome finds the channel, which is there after a proof only.
        obtain ⟨hplace, hnames⟩ := hw version host label
          ⟨hconn ▸ hcon, frame, body, ha, hopen₀ ▸ hopen, hdecode⟩
        have hch : s₁.handshake.channel.isSome = true := hall.channel.trans hplace
        obtain ⟨host', e, he, hd, ch, hh, hhost, hv⟩ := hi.channel hplace
        have hname : host' = host := hhost ▸ hnames e he hd ch hh
        have hp : Proven w s h host := ⟨e, he, hd, ch, hh, hhost.trans hname, hv⟩
        exact ⟨hchannel ▸ hch, hmono host (hp.mono hall.dialSeq hall.driver _)⟩
    · exact hchannel ▸ hinv.connected hc

/-- A promise settles: a channel is in place from here on if the host proved
itself. -/
theorem inv_signed (hi : Inv w x s h) (i : Nat) (ch : Challenge)
    (ht : s.tasks[i]? = some ⟨s.dialSeq, .answering ch⟩) (signed : Except Str Signature)
    (e : Trace.Entry WebClient Event (List WebOutput)) :
    Inv w x { s with
      handshake := (s.handshake.answer w ch signed).1
      tasks := s.tasks.set i ⟨s.dialSeq, .settled (s.handshake.answer w ch signed).2⟩ }
      (h ++ [e]) := by
  have hinv := hi.calm (Calm.refl s) e
  have hmem (t : Task) (replies : List ClientMessage)
      (ht : t ∈ s.tasks.set i ⟨s.dialSeq, .settled replies⟩) :
      t ∈ s.tasks ∨ t = ⟨s.dialSeq, .settled replies⟩ := by
    rcases List.mem_or_eq_of_mem_set ht with ht | ht
    · exact Or.inl ht
    · exact Or.inr ht
  have hasked (replies : List ClientMessage) :
      ∀ t ∈ s.tasks.set i ⟨s.dialSeq, .settled replies⟩, t.seq ≤ s.dialSeq ∧
        ∀ ch, t = ⟨s.dialSeq, .answering ch⟩ → ∃ e' ∈ h ++ [e], e'.state.dialSeq = s.dialSeq ∧
          Hears w e'.state e'.call (.challenge ch) := by
    intro t ht
    rcases hmem t replies ht with ht | rfl
    · exact hinv.asked t ht
    · exact ⟨Nat.le_refl _, fun ch hch => by cases hch⟩
  rcases s.handshake.answer_cases (w := w) ch signed with ⟨channel, sig, heq, hv⟩ |
    ⟨reason, message, heq⟩
  · rw [heq]
    obtain ⟨e', he', hd, hh⟩ := (hinv.asked _ (List.mem_of_getElem? ht)).2 ch rfl
    have hdial : s.handshake.SameDial { s.handshake with channel := some channel } :=
      ⟨rfl, rfl, rfl, rfl, rfl⟩
    refine ⟨hinv.expected, hasked _, fun _ _ _ => rfl, fun _ => ⟨ch.host, e', he', hd, ch, hh, rfl,
      hdial.verified hv⟩, fun host label hst => ⟨rfl, ?_⟩, fun _ => rfl, hinv.idle⟩
    obtain ⟨_, e', he', hd, ch', hh', hhost, hv'⟩ := hinv.welcomed host label hst
    exact ⟨e', he', hd, ch', hh', hhost, hdial.verified hv'⟩
  · rw [heq]
    have hdial : s.handshake.SameDial
        { s.handshake with state := .failed reason message false } := ⟨rfl, rfl, rfl, rfl, rfl⟩
    refine ⟨hinv.expected, hasked _, fun replies ht hne => ?_, fun hch => ?_, (fun host label hst => by cases hst),
      hinv.connected, hinv.idle⟩
    · rcases hmem _ _ ht with ht | heq
      · exact hinv.answered replies ht hne
      · cases heq
        exact absurd rfl hne
    · obtain ⟨host, e', he', hd, ch', hh', hhost, hv'⟩ := hinv.channel hch
      exact ⟨host, e', he', hd, ch', hh', hhost, hdial.verified hv'⟩

/-- What follows a welcome: the greeting, and the news. -/
theorem afterWelcome_spec (s : WebClient) (host : HostId) (label : Str) :
    (∃ d, (s.afterWelcome w host label).1 =
        { s with connected := true, redialAttempt := 0, handshake := d } ∧
      s.Calm { s with redialAttempt := 0, handshake := d }) ∧
    (∀ sent, .sent sent ∈ (s.afterWelcome w host label).2 →
      s.handshake.channel.isSome = true → sent.record.isSome = true) ∧
    ∀ host' label', .welcome host' label' ∈ (s.afterWelcome w host label).2 → host' = host := by
  have hspec (msg : ClientMessage) :
      (∃ d, (({ s with connected := true, redialAttempt := 0 } : WebClient).send w msg).1 =
          { s with connected := true, redialAttempt := 0, handshake := d } ∧
        s.Calm { s with redialAttempt := 0, handshake := d }) ∧
      s.Discreet (({ s with connected := true, redialAttempt := 0 } : WebClient).send w msg).2 := by
    obtain ⟨hcalm, hout, ⟨d, hd⟩, _⟩ :=
      calm_send (w := w) { s with connected := true, redialAttempt := 0 } msg
    refine ⟨⟨d, hd, ?_⟩, hout⟩
    rw [hd] at hcalm
    exact ⟨rfl, rfl, hcalm.driver, hcalm.state, hcalm.channel, fun _ h => Or.inl h, id,
      fun h => Or.inl ⟨h, id⟩⟩
  unfold afterWelcome
  dsimp only
  split
  · next addr _ =>
    obtain ⟨hframe, hout⟩ := hspec (.request (.attach addr s.cols s.rows false))
    refine ⟨hframe, fun sent hsent => ?_, fun host' label' hw => ?_⟩
    · rcases List.mem_append.mp hsent with hsent | hsent
      · exact hout _ hsent
      · cases List.mem_singleton.mp hsent
    · rcases List.mem_append.mp hw with hw | hw
      · exact (hout _ hw).elim
      · cases List.mem_singleton.mp hw
  · obtain ⟨hframe, hout⟩ := hspec (.request .listSessions)
    refine ⟨hframe, fun sent hsent => ?_, fun host' label' hw => ?_⟩
    · rcases List.mem_append.mp hsent with hsent | hsent
      · simp at hsent
      · exact hout _ hsent
    · rcases List.mem_append.mp hw with hw | hw
      · simp only [List.mem_cons, WebOutput.welcome.injEq, List.not_mem_nil, or_false] at hw
        rcases hw with hw | hw
        · exact hw.1
        · cases hw
      · exact (hout _ hw).elim

/-- A continuation runs: who counts as connected from here on is on a proven
host's channel. -/
theorem inv_resume {a : Event} (hi : Inv w x s h) (hsame : s.Calm s₀)
    (hlinked : s₀.linked = s.linked) (htimer : s₀.redialTimer = s.redialTimer) {seq : Nat}
    {replies : List ClientMessage}
    (hreplies : seq = s.dialSeq → replies ≠ [] → s.handshake.channel.isSome = true) :
    Inv w x (s₀.resume w seq replies).1 (h ++ [⟨s, a, (s₀.resume w seq replies).2⟩]) ∧
      Honest w h ⟨s, a, (s₀.resume w seq replies).2⟩ := by
  unfold resume
  dsimp only
  split
  · -- The connection is gone.
    have hcalm : s₀.Calm { s₀ with signing := false, stalled := [] } :=
      ⟨rfl, rfl, .refl _, rfl, rfl, fun _ h => Or.inl h, id, fun h => Or.inl ⟨h, id⟩⟩
    exact ⟨hi.calm (hsame.trans hcalm) _, honest_of_discreet (discreet_nil s) (by simp)⟩
  · next hlive =>
    have hseq : seq = s.dialSeq := by
      by_contra hne
      exact hlive (Or.inl fun h => hne (h.trans hsame.dialSeq))
    have hon : s.linked = true := by
      by_contra hne
      exact hlive (Or.inr (Or.inr (hlinked.trans (by simpa using hne))))
    have hcalm₁ : s₀.Calm { s₀ with signing := false } :=
      ⟨rfl, rfl, .refl _, rfl, rfl, fun _ h => Or.inl h, id, fun h => Or.inl ⟨h, id⟩⟩
    obtain ⟨hcalm₂, hsent, ⟨d, hd⟩, hmsgs⟩ :=
      calm_sendAll (w := w) { s₀ with signing := false } replies
    generalize hs₁ : ({ s₀ with signing := false } : WebClient).sendAll w replies = p
      at hcalm₂ hsent hd hmsgs
    obtain ⟨s₁, sent⟩ := p
    dsimp only at hcalm₂ hsent hd hmsgs ⊢
    have hcalm : s.Calm s₁ := hsame.trans (hcalm₁.trans hcalm₂)
    have hdiscreet : s.Discreet sent := hsent.of_calm (hsame.trans hcalm₁)
    have hsealed : ∀ x, .sent x ∈ sent → s.handshake.channel.isSome = true := by
      intro x hx
      exact hreplies hseq (List.ne_nil_of_mem (hmsgs x hx))
    have hquiet (out : List WebOutput) (hout : s.Discreet out)
        (hnone : ∀ x, .sent x ∉ out) : Honest w h ⟨s, a, sent ++ out⟩ := by
      refine honest_of_discreet (hdiscreet.append hout) fun x hx => Or.inl ?_
      rcases List.mem_append.mp hx with hx | hx
      · exact hsealed x hx
      · exact absurd hx (hnone x)
    have hst : s₁.handshake.state = s.handshake.state := hcalm.state
    cases hstate : s₁.handshake.state with
    | connecting => exact ⟨hi.calm hcalm _, hquiet [] (discreet_nil s) (by simp)⟩
    | awaitingApproval code secs =>
      exact ⟨hi.calm hcalm _, hquiet _ (by simp [Discreet]) (by simp)⟩
    | failed reason message retryable =>
      obtain ⟨hclose, hout⟩ := calm_closeLink s₁
      exact ⟨hi.calm (hcalm.trans hclose) _, hquiet _ (hout.of_calm hcalm)
        (not_sent_closeLink s₁)⟩
    | welcomed host label =>
      obtain ⟨hch, hproven⟩ := hi.welcomed host label (hst ▸ hstate)
      obtain ⟨⟨d', hd', hcalm'⟩, hrecord, hname⟩ := afterWelcome_spec (w := w) s₁ host label
      dsimp only
      generalize s₁.afterWelcome w host label = q at hd' hrecord hname ⊢
      obtain ⟨s₂, out⟩ := q
      dsimp only at hd' hrecord hname ⊢
      subst hd'
      have hinv := hi.calm (hcalm.trans hcalm') ⟨s, a, sent ++ out⟩
      have hch₁ : s₁.handshake.channel.isSome = true := hcalm.channel.trans hch
      refine ⟨{ hinv with connected := fun _ => ?_, idle := fun ht => ?_ }, ?_, ?_, ?_⟩
      · exact hcalm'.channel.trans hch₁
      · -- A client with a link has no timer running.
        have ht' : s.redialTimer = true := by
          rw [← htimer]
          rw [hd] at ht
          exact ht
        rw [(hi.idle ht').2] at hon
        cases hon
      · intro x hx hopen
        rcases List.mem_append.mp hx with hx | hx
        · have := hdiscreet _ hx (hsealed x hx)
          simp [hopen] at this
        · have := hrecord x hx hch₁
          simp [hopen] at this
      · exact fun _ => ⟨host, hproven⟩
      · intro host' label' hw
        rcases List.mem_append.mp hw with hw | hw
        · exact (hdiscreet _ hw).elim
        · exact hname host' label' hw ▸ hproven

/-- A redial starts from nothing. -/
theorem inv_dial (hi : Inv w x s h) (hsame : s.Calm s₀) (ht : s.redialTimer = true)
    (htimer : s₀.redialTimer = false) (nonce : Nonce) (ephemeral : EphemeralDh)
    (e : Trace.Entry WebClient Event (List WebOutput)) :
    Inv w x (s₀.dial nonce ephemeral).1 (h ++ [e]) ∧ s.Discreet (s₀.dial nonce ephemeral).2 ∧
      ∀ sent, .sent sent ∉ (s₀.dial nonce ephemeral).2 := by
  have hinv := hi.calm hsame e
  have hcon : s₀.connected = false := by
    by_contra hne
    have := hsame.connected (by simpa using hne)
    simp [(hi.idle ht).1] at this
  unfold dial
  split
  · exact ⟨hinv, discreet_nil s, by simp⟩
  · refine ⟨⟨⟨hinv.expected.2, hinv.expected.2⟩, fun t ht => ?_, fun replies ht hne => ?_, (fun hch => by cases hch),
      (fun host label hst => by cases hst), (fun hc => ?_), (fun ht => ?_)⟩, ?_, by simp⟩
    · obtain ⟨hle, _⟩ := hinv.asked t ht
      refine ⟨Nat.le_succ_of_le hle, fun ch hch => ?_⟩
      rw [hch] at hle
      exact absurd hle (Nat.not_succ_le_self _)
    · obtain ⟨hle, _⟩ := hinv.asked _ ht
      exact absurd hle (Nat.not_succ_le_self _)
    · replace hc : s₀.connected = true := hc
      rw [hcon] at hc
      cases hc
    · replace ht : s₀.redialTimer = true := ht
      rw [htimer] at ht
      cases ht
    · intro o ho
      obtain rfl := List.mem_singleton.mp ho
      dsimp only
      split <;> simp

/-- One event. -/
theorem inv_step {a : Event} (hi : Inv w x s h) (hw : WelcomedInPlace w h ⟨s, a, (s.step w a).2⟩) :
    Inv w x (s.step w a).1 (h ++ [⟨s, a, (s.step w a).2⟩]) ∧ Honest w h ⟨s, a, (s.step w a).2⟩ := by
  have hrest (s' : WebClient) (hcalm : s.Calm s') :
      Inv w x s' (h ++ [⟨s, a, []⟩]) ∧ Honest w h ⟨s, a, []⟩ :=
    ⟨hi.calm hcalm _, honest_of_discreet (discreet_nil s) (by simp)⟩
  have hsend (s₀ : WebClient) (hcalm : s.Calm s₀) (r : Request) (hc : s.connected = true) :
      Inv w x (s₀.send w (.request r)).1 (h ++ [⟨s, a, (s₀.send w (.request r)).2⟩]) ∧
        Honest w h ⟨s, a, (s₀.send w (.request r)).2⟩ := by
    obtain ⟨hcalm', hout, _⟩ := calm_send (w := w) s₀ (.request r)
    exact ⟨hi.calm (hcalm.trans hcalm') _, honest_of_discreet (hout.of_calm hcalm)
      fun _ _ => Or.inl (hi.connected hc)⟩
  cases a with
  | opened =>
    obtain ⟨hcalm, hout, _, hmsg⟩ := calm_send (w := w) s (s.handshake.hello w)
    exact ⟨hi.calm hcalm _, honest_of_discreet hout fun sent hsent => Or.inr (hmsg sent hsent)⟩
  | frame respond body =>
    simp only [step] at hw ⊢
    by_cases hsign : s.signing = true
    · rw [if_pos hsign] at hw ⊢
      exact hrest _ ⟨rfl, rfl, .refl _, rfl, rfl, fun _ h => Or.inl h, id, fun h => Or.inl ⟨h, id⟩⟩
    · rw [if_neg hsign] at hw ⊢
      exact inv_takes hi (.refl s) rfl rfl (by simp [takes, hsign]) (takes_onMessage s respond body) hw
  | drain respond =>
    simp only [step] at hw ⊢
    by_cases hsign : s.signing = true
    · rw [if_pos hsign]
      exact hrest _ (.refl s)
    · rw [if_neg hsign] at hw ⊢
      cases hst : s.stalled with
      | nil => exact hrest _ (.refl s)
      | cons body rest =>
        rw [hst] at hw
        have htakes : s.takes (.drain respond) = some body := by simp [takes, hsign, hst]
        have hcalm : s.Calm { s with stalled := rest } :=
          ⟨rfl, rfl, .refl _, rfl, rfl, fun _ h => Or.inl h, id, fun h => Or.inl ⟨h, id⟩⟩
        exact inv_takes hi hcalm rfl rfl htakes (takes_onMessage _ respond body) hw
  | signed i signed =>
    simp only [step]
    cases ht : s.tasks[i]? with
    | none => exact hrest _ (.refl s)
    | some t =>
      obtain ⟨seq, stage⟩ := t
      cases stage with
      | settled replies => exact hrest _ (.refl s)
      | answering ch =>
        dsimp only
        by_cases hseq : seq = s.dialSeq
        · subst hseq
          rw [if_pos rfl]
          exact ⟨inv_signed hi i ch ht signed _, (hrest _ (.refl s)).2⟩
        · rw [if_neg hseq]
          have hle := (hi.asked _ (List.mem_of_getElem? ht)).1
          refine hrest _ ⟨rfl, rfl, .refl _, rfl, rfl, fun t ht => ?_, id, fun h => Or.inl ⟨h, id⟩⟩
          rcases List.mem_or_eq_of_mem_set ht with ht | rfl
          · exact Or.inl ht
          · exact Or.inr ⟨hle, rfl⟩
  | resumed i =>
    simp only [step]
    cases ht : s.tasks[i]? with
    | none => exact hrest _ (.refl s)
    | some t =>
      obtain ⟨seq, stage⟩ := t
      cases stage with
      | answering ch => exact hrest _ (.refl s)
      | settled replies =>
        have hcalm : s.Calm { s with tasks := s.tasks.eraseIdx i } :=
          ⟨rfl, rfl, .refl _, rfl, rfl, fun t ht => Or.inl (List.mem_of_mem_eraseIdx ht), id,
            fun h => Or.inl ⟨h, id⟩⟩
        refine inv_resume hi hcalm rfl rfl fun hseq hne => ?_
        subst hseq
        exact hi.answered replies (List.mem_of_getElem? ht) hne
  | garbled message =>
    obtain ⟨hcalm, hout⟩ := calm_closeLink s
    refine ⟨hi.calm hcalm _, honest_of_discreet
      (hout.error message) fun sent hsent => ?_⟩
    rcases List.mem_cons.mp hsent with hsent | hsent
    · cases hsent
    · exact absurd hsent (not_sent_closeLink s sent)
  | dropped =>
    simp only [step]
    by_cases hup : s.up = true
    · rw [if_pos hup]
      obtain ⟨hcalm, hout⟩ := calm_onClose s
      exact ⟨hi.calm hcalm _, honest_of_discreet hout fun sent hsent =>
        absurd hsent (not_sent_onClose s sent)⟩
    · rw [if_neg hup]
      exact hrest _ (.refl s)
  | redial nonce ephemeral =>
    simp only [step]
    by_cases ht : s.redialTimer = true
    · rw [if_pos ht]
      obtain ⟨hinv, hout, hnone⟩ := inv_dial hi
        (⟨rfl, rfl, .refl _, rfl, rfl, fun _ h => Or.inl h, id, by simp⟩ :
          s.Calm { s with redialTimer := false }) ht rfl nonce ephemeral
        ⟨s, .redial nonce ephemeral,
          (({ s with redialTimer := false } : WebClient).dial nonce ephemeral).2⟩
      exact ⟨hinv, honest_of_discreet hout fun sent hsent => absurd hsent (hnone sent)⟩
    · rw [if_neg ht]
      exact hrest _ (.refl s)
  | request r =>
    simp only [step]
    by_cases hc : s.connected = true
    · rw [if_pos hc]
      exact hsend s (.refl s) r hc
    · rw [if_neg hc]
      exact hrest _ (.refl s)
  | resize cols rows =>
    simp only [step]
    split
    · exact hrest _ (.refl s)
    · have hcalm : s.Calm { s with cols := cols, rows := rows } :=
        ⟨rfl, rfl, .refl _, rfl, rfl, fun _ h => Or.inl h, id, fun h => Or.inl ⟨h, id⟩⟩
      split
      · split
        · next hc => exact hsend _ hcalm _ hc
        · exact hrest _ hcalm
      · exact hrest _ hcalm
  | close =>
    have hcalm : s.Calm { s with closed := true, redialTimer := false } :=
      ⟨rfl, rfl, .refl _, rfl, rfl, fun _ h => Or.inl h, id, by simp⟩
    obtain ⟨hcalm', hout⟩ := calm_closeLink { s with closed := true, redialTimer := false }
    have hoff : ∀ u : WebClient, u.Calm { u with linked := false } := fun u =>
      ⟨rfl, rfl, .refl _, rfl, rfl, fun _ h => Or.inl h, id, fun h => Or.inl ⟨h, by simp⟩⟩
    exact ⟨hi.calm ((hcalm.trans hcalm').trans (hoff _)) _, honest_of_discreet
      (hout.of_calm hcalm) fun sent hsent => absurd hsent (not_sent_closeLink _ sent)⟩

/-- The run lemma. -/
theorem inv_run (hnew : Inv w x s []) (events : List Event)
    (hw : Trace.Each (WelcomedInPlace w) (Trace.run (step w) s events).2) :
    Inv w x (Trace.run (step w) s events).1 (Trace.run (step w) s events).2 ∧
      Trace.Each (Honest w) (Trace.run (step w) s events).2 := by
  refine Trace.run_invariant_of_each
    (I := fun u h => Inv w x u h ∧ Trace.Each (Honest w) h)
    ⟨hnew, Trace.each_nil _⟩ (fun u h a hi hwu => ?_) events hw
  obtain ⟨hinv, hhonest⟩ := inv_step hi.1 hwu
  exact ⟨hinv, Trace.each_snoc.mpr ⟨hi.2, hhonest⟩⟩

end WebClient

end Zesterm
