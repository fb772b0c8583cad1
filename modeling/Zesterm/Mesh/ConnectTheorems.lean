/-
Zesterm.Mesh.ConnectTheorems — whom the native client takes for a host.

The loop of `connect_impl` derives a channel only from a challenge whose
proof verified over this connection's transcript (`Proves`), and from then
on seals everything it writes. It does not ask for that channel when it is
welcomed, nor that the welcome names the host that proved itself: a welcome
that comes first ends the loop with a client that talks in the open. What
the loop does promise holds of every run whose welcomes each find the
channel in place (`loopInv_run`).
-/
import Zesterm.Mesh.Connect
import Zesterm.Mesh.PairingTheorems

namespace Zesterm

namespace ClientHandshake

/-- A challenge that is answered was proved, over the transcript of the
handshake that answered it. -/
theorem onChallenge_ok {ed : Ed25519} {c : Suite} {hs hs' : ClientHandshake}
    {expect : Option HostId} {ch : Challenge} {sig : Signature} {t : Transcript}
    {channel : SecureChannel}
    (h : hs.onChallenge ed c expect ch = (hs', .ok (sig, t, channel))) :
    hs' = { hs with dh := none } ∧ ∃ dh message, hs.dh = some dh ∧ t = hs.transcript c dh ch ∧
      authTranscript t = .ok message ∧
      verifyHost ed t.host .auth message ch.signature = .ok () ∧
      ∀ host, expect = some host → host = t.host := by
  unfold onChallenge at h
  cases hdh : hs.dh with
  | none =>
    rw [hdh] at h
    simp at h
  | some dh =>
    rw [hdh] at h
    dsimp only at h
    obtain ⟨hleft, hright⟩ := Prod.mk.inj h
    refine ⟨hleft.symm, dh, ?_⟩
    cases hverify : verifyChallenge ed expect (hs.transcript c dh ch) ch.signature with
    | error e =>
      rw [hverify] at hright
      simp [bind, Except.bind] at hright
    | ok u =>
      rw [hverify] at hright
      cases hmessage : authTranscript (hs.transcript c dh ch) with
      | error e =>
        rw [hmessage] at hright
        simp [bind, Except.bind] at hright
      | ok message =>
        rw [hmessage] at hright
        cases hagree : dh.agree c ch.dh (c.sha256 message).toList .client with
        | error e => simp [bind, Except.bind, hagree] at hright
        | ok channel' =>
          simp only [bind, Except.bind, hagree, pure, Except.pure, Except.ok.injEq,
            Prod.mk.injEq] at hright
          obtain ⟨_, rfl, _⟩ := hright
          refine ⟨message, rfl, rfl, hmessage, ?_, ?_⟩
          · unfold verifyChallenge at hverify
            cases expect with
            | none => simpa [bind, Except.bind, pure, Except.pure, hmessage] using hverify
            | some host =>
              by_cases hne : host ≠ (hs.transcript c dh ch).host
              · simp [bind, Except.bind, hne, throw, throwThe, MonadExceptOf.throw] at hverify
              · simpa [bind, Except.bind, pure, Except.pure, hmessage, hne] using hverify
          · intro host hhost
            subst hhost
            by_contra hne
            unfold verifyChallenge at hverify
            simp [bind, Except.bind, hne, throw, throwThe, MonadExceptOf.throw] at hverify

end ClientHandshake

namespace DaemonClient

variable {ed : Ed25519} {c : Suite} {codec : Codec}

/-! ## Sealing -/

/-- The client seals everything it writes. -/
def Sealing (client : DaemonClient) : Prop :=
  client.channel.isSome = true ∧ client.sealingOut = true

/-- A sealing client writes records, and goes on sealing. -/
theorem send_sealing {client client' : DaemonClient} {msg : ClientMessage} {r}
    (hs : client.Sealing) (h : client.send c codec msg = (client', r)) :
    client'.Sealing ∧ client'.host = client.host ∧
      ∀ sent, r = .ok sent → sent.record.isSome = true := by
  obtain ⟨hchannel, hsealing⟩ := hs
  obtain ⟨channel, hc⟩ := Option.isSome_iff_exists.mp hchannel
  unfold send at h
  cases hbody : codec.encodeBody msg with
  | error e =>
    rw [hbody] at h
    obtain ⟨rfl, rfl⟩ := Prod.mk.inj h
    exact ⟨⟨hchannel, hsealing⟩, rfl, fun _ h => by cases h⟩
  | ok body =>
    rw [hbody] at h
    dsimp only [sealBody] at h
    rw [hc, hsealing] at h
    dsimp only at h
    rw [if_pos rfl] at h
    dsimp only at h
    cases hr : (channel.seal c body).2 with
    | error e =>
      rw [hr] at h
      obtain ⟨rfl, rfl⟩ := Prod.mk.inj h
      exact ⟨⟨rfl, rfl⟩, rfl, fun _ h => by cases h⟩
    | ok record =>
      rw [hr] at h
      dsimp only [Except.map] at h
      split at h
      · obtain ⟨rfl, rfl⟩ := Prod.mk.inj h
        exact ⟨⟨rfl, rfl⟩, rfl, fun _ h => by cases h⟩
      · obtain ⟨rfl, rfl⟩ := Prod.mk.inj h
        refine ⟨⟨rfl, rfl⟩, rfl, fun sent hsent => ?_⟩
        cases hsent
        rfl

/-- Reading keeps the channel, as far as there is one. -/
theorem recv_keeps (c : Suite) (codec : Codec) (client : DaemonClient) (frame : List UInt8) :
    (client.recv c codec frame).1.channel.isSome = client.channel.isSome ∧
      (client.recv c codec frame).1.sealingOut = client.sealingOut ∧
      (client.recv c codec frame).1.host = client.host := by
  unfold recv
  cases hc : client.channel with
  | none => exact ⟨by rw [hc], rfl, rfl⟩
  | some ch => exact ⟨rfl, rfl, rfl⟩

/-! ## The loop -/

/-- The frame of an entry was taken for a challenge. -/
def Challenges (c : Suite) (codec : Codec) (e : Trace.Entry Connecting ConnectCall (List Sent))
    (ch : Challenge) : Prop :=
  ∃ client hs frame, e.state = .waiting client hs ∧ e.call = .frame frame ∧
    (client.recv c codec frame).2 = .ok (.challenge ch)

/-- The frame of an entry is taken for a welcome by this host, by a client
with or without a channel. -/
def Welcomes (c : Suite) (codec : Codec) (e : Trace.Entry Connecting ConnectCall (List Sent))
    (client : DaemonClient) (host : HostId) : Prop :=
  ∃ hs frame label, e.state = .waiting client hs ∧ e.call = .frame frame ∧
    (client.recv c codec frame).2 = .ok (.welcome protocolVersion host label)

/-- An entry of a run of `connect_impl` from `hs₀` proved a host: its
challenge's proof verified over this connection's transcript, under the
expected host's key when one was given. -/
def Proves (ed : Ed25519) (c : Suite) (codec : Codec) (expect : Option HostId)
    (hs₀ : ClientHandshake) (e : Trace.Entry Connecting ConnectCall (List Sent))
    (host : HostId) : Prop :=
  ∃ ch dh message, Challenges c codec e ch ∧ ch.host = host ∧ hs₀.dh = some dh ∧
    authTranscript (hs₀.transcript c dh ch) = .ok message ∧
    verifyHost ed host .auth message ch.signature = .ok () ∧
    ∀ expected, expect = some expected → expected = host

/-- What one turn of the loop can come to. -/
inductive Turn (ed : Ed25519) (c : Suite) (codec : Codec) (expect : Option HostId)
    (client : DaemonClient) (hs : ClientHandshake) (frame : List UInt8) :
    Connecting → List Sent → Prop
  | failed (e : DaemonError) : Turn ed c codec expect client hs frame (.failed e) []
  | stays {client' : DaemonClient} (hchannel : client'.channel.isSome = client.channel.isSome)
      (hout : client'.sealingOut = client.sealingOut) :
      Turn ed c codec expect client hs frame (.waiting client' hs) []
  | answers {client' : DaemonClient} {sent : Sent} {ch : Challenge} {dh : EphemeralDh}
      {message : List UInt8} (hsealing : client'.Sealing) (hrecord : sent.record.isSome = true)
      (hrecv : (client.recv c codec frame).2 = .ok (.challenge ch)) (hdh : hs.dh = some dh)
      (hmessage : authTranscript (hs.transcript c dh ch) = .ok message)
      (hverify : verifyHost ed ch.host .auth message ch.signature = .ok ())
      (hexpect : ∀ expected, expect = some expected → expected = ch.host) :
      Turn ed c codec expect client hs frame (.waiting client' { hs with dh := none }) [sent]
  | welcomed {client' : DaemonClient} {label : Str}
      (hchannel : client'.channel.isSome = client.channel.isSome)
      (hout : client'.sealingOut = client.sealingOut)
      (hrecv : (client.recv c codec frame).2 =
        .ok (.welcome protocolVersion client'.host label)) :
      Turn ed c codec expect client hs frame (.connected client') []

theorem turn_connectStep (ed : Ed25519) (c : Suite) (codec : Codec) (expect : Option HostId)
    (client : DaemonClient) (hs : ClientHandshake) (frame : List UInt8) :
    Turn ed c codec expect client hs frame (client.connectStep ed c codec expect hs frame).1
      (client.connectStep ed c codec expect hs frame).2 := by
  obtain ⟨hchannel, hout, _⟩ := recv_keeps c codec client frame
  unfold connectStep
  cases hrecv : client.recv c codec frame with
  | mk client' result =>
    rw [hrecv] at hchannel hout
    have hread : (client.recv c codec frame).2 = result := by rw [hrecv]
    cases result with
    | error e => exact .failed e
    | ok msg =>
      cases msg with
      | challenge ch =>
        dsimp only
        split
        · exact .failed _
        · cases hans : hs.onChallenge ed c expect ch with
          | mk hs' answer =>
            cases answer with
            | error e => exact .failed _
            | ok p =>
              obtain ⟨sig, t, channel⟩ := p
              obtain ⟨rfl, dh, message, hdh, rfl, hmessage, hverify, hexpect⟩ :=
                ClientHandshake.onChallenge_ok hans
              have hsealed : ({ client' with channel := some channel, sealingOut := true } :
                  DaemonClient).Sealing := ⟨rfl, rfl⟩
              dsimp only
              cases hsend : ({ client' with channel := some channel, sealingOut := true } :
                  DaemonClient).send c codec (.auth sig) with
              | mk client'' result =>
                obtain ⟨hsealing'', _, hrecord⟩ := send_sealing hsealed hsend
                cases result with
                | error e => exact .failed _
                | ok sent =>
                  exact .answers hsealing'' (hrecord sent rfl) hread hdh hmessage hverify hexpect
      | welcome version host label =>
        dsimp only
        split
        · exact .failed _
        · next hversion =>
          obtain rfl := not_not.mp hversion
          exact .welcomed hchannel hout hread
      | authPending | other => exact .stays hchannel hout
      | authFailed | error => exact .failed _

/-! ## Every run -/

/-- The condition on one entry: a welcome finds the channel in place, and
names the host of every challenge there has been. -/
def WelcomedInPlace (c : Suite) (codec : Codec)
    (before : List (Trace.Entry Connecting ConnectCall (List Sent)))
    (e : Trace.Entry Connecting ConnectCall (List Sent)) : Prop :=
  ∀ client host, Welcomes c codec e client host →
    client.channel.isSome = true ∧ ∀ e' ∈ before, ∀ ch, Challenges c codec e' ch → ch.host = host

/-- What holds of the loop after a history: nothing left in the open, and a
channel there is only after a proof. -/
def LoopInv (ed : Ed25519) (c : Suite) (codec : Codec) (expect : Option HostId)
    (hs₀ : ClientHandshake) (s : Connecting)
    (h : List (Trace.Entry Connecting ConnectCall (List Sent))) : Prop :=
  (∀ e ∈ h, ∀ sent ∈ e.reply, sent.record.isSome = true) ∧
  match s with
  | .waiting client hs => (hs = hs₀ ∨ hs.dh = none) ∧
      (client.channel.isSome = true → client.sealingOut = true ∧
        ∃ e ∈ h, ∃ host, Proves ed c codec expect hs₀ e host)
  | .connected client => client.Sealing ∧
      ∃ e ∈ h, Proves ed c codec expect hs₀ e client.host
  | .failed _ => True

/-- One step of the loop, or of the client it returned. -/
theorem loopInv_step {expect : Option HostId} {hs₀ : ClientHandshake} {s : Connecting}
    {h : List (Trace.Entry Connecting ConnectCall (List Sent))} {a : ConnectCall}
    (hinv : LoopInv ed c codec expect hs₀ s h)
    (hwelcome : WelcomedInPlace c codec h ⟨s, a, (s.call ed c codec expect a).2⟩) :
    LoopInv ed c codec expect hs₀ (s.call ed c codec expect a).1
      (h ++ [⟨s, a, (s.call ed c codec expect a).2⟩]) := by
  obtain ⟨hsent, hstate⟩ := hinv
  have hsnoc {e : Trace.Entry Connecting ConnectCall (List Sent)}
      (he : ∀ sent ∈ e.reply, sent.record.isSome = true) :
      ∀ e' ∈ h ++ [e], ∀ sent ∈ e'.reply, sent.record.isSome = true := by
    intro e' he' sent hmem
    rcases List.mem_append.mp he' with he' | he'
    · exact hsent e' he' sent hmem
    · obtain rfl := List.mem_singleton.mp he'
      exact he sent hmem
  have hkept {host : HostId} {e : Trace.Entry Connecting ConnectCall (List Sent)}
      (hproof : ∃ e' ∈ h, Proves ed c codec expect hs₀ e' host) :
      ∃ e' ∈ h ++ [e], Proves ed c codec expect hs₀ e' host := by
    obtain ⟨e', he', hp⟩ := hproof
    exact ⟨e', List.mem_append_left _ he', hp⟩
  have hwait {client client' : DaemonClient} {e : Trace.Entry Connecting ConnectCall (List Sent)}
      (hchannel : client'.channel.isSome = client.channel.isSome)
      (hout : client'.sealingOut = client.sealingOut)
      (hproof : client.channel.isSome = true → client.sealingOut = true ∧
        ∃ e ∈ h, ∃ host, Proves ed c codec expect hs₀ e host)
      (hs : client'.channel.isSome = true) : client'.sealingOut = true ∧
        ∃ e' ∈ h ++ [e], ∃ host, Proves ed c codec expect hs₀ e' host := by
    obtain ⟨hsealing, e', he', host, hp⟩ := hproof (hchannel ▸ hs)
    exact ⟨hout.trans hsealing, e', List.mem_append_left _ he', host, hp⟩
  cases s with
  | failed e => exact ⟨hsnoc (by simp [Connecting.call]), trivial⟩
  | connected client =>
    obtain ⟨hsealing, hproof⟩ := hstate
    cases a with
    | frame frame =>
      obtain ⟨hchannel, hout, hhost⟩ := recv_keeps c codec client frame
      rw [← hhost] at hproof
      exact ⟨hsnoc (by simp [Connecting.call]),
        ⟨hchannel.trans hsealing.1, hout.trans hsealing.2⟩, hkept hproof⟩
    | request r =>
      cases hsend : client.send c codec (.request r) with
      | mk client' result =>
        obtain ⟨hsealing', hhost, hrecord⟩ := send_sealing hsealing hsend
        rw [← hhost] at hproof
        simp only [Connecting.call, hsend]
        cases result with
        | error e => exact ⟨hsnoc (by simp), hsealing', hkept hproof⟩
        | ok sent => exact ⟨hsnoc (by simpa using hrecord sent rfl), hsealing', hkept hproof⟩
  | waiting client hs =>
    obtain ⟨hfresh, hproof⟩ := hstate
    cases a with
    | request r =>
      exact ⟨hsnoc (by simp [Connecting.call]), hfresh, hwait rfl rfl hproof⟩
    | frame frame =>
      have hturn := turn_connectStep ed c codec expect client hs frame
      simp only [Connecting.call] at hwelcome ⊢
      generalize client.connectStep ed c codec expect hs frame = p at hturn hwelcome ⊢
      obtain ⟨s', reply⟩ := p
      dsimp only at hturn hwelcome ⊢
      cases hturn with
      | failed e => exact ⟨hsnoc (by simp), trivial⟩
      | stays hchannel hout =>
        exact ⟨hsnoc (by simp), hfresh, hwait hchannel hout hproof⟩
      | @answers client' sent ch dh message hsealing hrecord hrecv hdh hmessage hverify hexpect =>
        -- A handshake that still has its secret has answered nothing yet.
        obtain rfl : hs = hs₀ := by
          rcases hfresh with hfresh | hspent
          · exact hfresh
          · rw [hspent] at hdh
            cases hdh
        refine ⟨hsnoc (by simpa using hrecord), Or.inr rfl, fun _ => ⟨hsealing.2, _,
          List.mem_append_right _ (List.mem_singleton_self _), ch.host, ch, dh, message, ?_, rfl,
          hdh, hmessage, hverify, hexpect⟩⟩
        exact ⟨client, hs, frame, rfl, rfl, hrecv⟩
      | @welcomed client' label hchannel hout hrecv =>
        obtain ⟨hplace, hnames⟩ := hwelcome client client'.host ⟨hs, frame, label, rfl, rfl, hrecv⟩
        obtain ⟨hsealing, e, he, host, hp⟩ := hproof hplace
        obtain rfl : host = client'.host := by
          obtain ⟨ch, _, _, hch, rfl, _⟩ := hp
          exact hnames e he ch hch
        exact ⟨hsnoc (by simp), ⟨hchannel.trans hplace, hout.trans hsealing⟩, hkept ⟨e, he, hp⟩⟩

/-- The run lemma: where each welcome finds the channel in place and names
the host of the challenges, a client that is returned holds a sealed channel
and reports the host that proved itself, and nothing is written in the
open. -/
theorem loopInv_run {expect : Option HostId} {client : DaemonClient} {hs₀ : ClientHandshake}
    (hnew : client.channel = none) (calls : List ConnectCall)
    (hwelcome : Trace.Each (WelcomedInPlace c codec)
      (Trace.run (Connecting.call ed c codec expect) (.waiting client hs₀) calls).2) :
    LoopInv ed c codec expect hs₀
      (Trace.run (Connecting.call ed c codec expect) (.waiting client hs₀) calls).1
      (Trace.run (Connecting.call ed c codec expect) (.waiting client hs₀) calls).2 := by
  have hstart : LoopInv ed c codec expect hs₀ (.waiting client hs₀) [] :=
    ⟨by simp, Or.inl rfl, by simp [hnew]⟩
  exact Trace.run_invariant_of_each hstart (fun _ _ _ hinv hw => loopInv_step hinv hw) calls
    hwelcome

end DaemonClient

end Zesterm
