/-
Zesterm.Mesh.DialTheorems — no client is served by a host that has not
proved itself, as far as that goes.

What both clients are for is said once, of a run against whoever holds the
pipe: `DaemonClient.ServedByProven` and `WebClient.ServedByProven`. Both
hold where a welcome is heard only with the channel in place and from the
host of the challenge (`served_by_proven`), and neither holds without: a
welcome that comes first is believed (`served_unproven`).
-/
import Zesterm.Mesh.ConnectTheorems
import Zesterm.Mesh.WebConnectTheorems

namespace Zesterm

/-- The only message that is not sealed. -/
def ClientMessage.isHello : ClientMessage → Bool
  | .hello _ _ _ _ _ _ _ _ _ _ => true
  | _ => false

/-- Of a run of `connect_with` and of the client it returns: the client holds
a sealed channel and reports a host that proved itself on this connection,
and nothing but the hello is sent in the open. -/
structure DaemonClient.ServedByProven (ed : Ed25519) (c : Suite) (codec : Codec)
    (expect : Option HostId) (hs₀ : ClientHandshake) (watch : Watch) (kind : ClientKind)
    (calls : List ConnectCall) : Prop where
  served : ∀ client,
    (Trace.run (Connecting.call ed c codec expect) (connectStart c codec hs₀ watch kind).1
      calls).1 = .connected client →
    client.Sealing ∧ ∃ e ∈ (Trace.run (Connecting.call ed c codec expect)
      (connectStart c codec hs₀ watch kind).1 calls).2,
        Proves ed c codec expect hs₀ e client.host
  hello : ∀ sent ∈ (connectStart c codec hs₀ watch kind).2, sent.message.isHello = true
  «sealed» : ∀ e ∈ (Trace.run (Connecting.call ed c codec expect)
    (connectStart c codec hs₀ watch kind).1 calls).2, ∀ sent ∈ e.reply, sent.record.isSome = true

/-- The same of a run of a web client, over all its dials: where it counts as
connected its channel is in place and a host has proved itself on this dial,
the expected one if one was; the host it names is one that did; and every
event is honest. -/
structure WebClient.ServedByProven (w : Web) (expected : Option HostId) (s : WebClient)
    (events : List Event) : Prop where
  served : (Trace.run (step w) s events).1.connected = true →
    (Trace.run (step w) s events).1.handshake.channel.isSome = true ∧
      ∃ host, Proven w (Trace.run (step w) s events).1 (Trace.run (step w) s events).2 host ∧
        ∀ host', expected = some host' → host' = host
  reported : ∀ host label,
    (Trace.run (step w) s events).1.handshake.state = .welcomed host label →
      Proven w (Trace.run (step w) s events).1 (Trace.run (step w) s events).2 host
  honest : Trace.Each (Honest w) (Trace.run (step w) s events).2

namespace DaemonClient

theorem connectStart_cases (c : Suite) (codec : Codec) (hs₀ : ClientHandshake) (watch : Watch)
    (kind : ClientKind) :
    (∃ e, connectStart c codec hs₀ watch kind = (.failed e, [])) ∨
      ∃ client sent, connectStart c codec hs₀ watch kind = (.waiting client hs₀, [sent]) ∧
        client.channel = none ∧ sent.message.isHello = true := by
  unfold connectStart
  dsimp only
  cases hsend : new.send c codec (.hello protocolVersion hs₀.identity.id hs₀.label hs₀.nonce
    ((hs₀.dh.map fun dh => dh.public c).getD ⟨Vector.replicate 32 0⟩) watch.sessions
    watch.pairings watch.hosts watch.signals (decide (kind = .agent))) with
  | mk client result =>
    cases result with
    | error e => exact Or.inl ⟨e, rfl⟩
    | ok sent =>
      refine Or.inr ⟨client, sent, rfl, ?_⟩
      unfold send at hsend
      split at hsend
      · cases hsend
      · dsimp only [sealBody, new] at hsend
        split at hsend
        · cases hsend
        · cases hsend
          exact ⟨rfl, rfl⟩

theorem servedByProven {ed : Ed25519} {c : Suite} {codec : Codec} {expect : Option HostId}
    {hs₀ : ClientHandshake} {watch : Watch} {kind : ClientKind} {calls : List ConnectCall}
    (hw : Trace.Each (WelcomedInPlace c codec)
      (Trace.run (Connecting.call ed c codec expect) (connectStart c codec hs₀ watch kind).1
        calls).2) : ServedByProven ed c codec expect hs₀ watch kind calls := by
  have hinv : LoopInv ed c codec expect hs₀
      (Trace.run (Connecting.call ed c codec expect) (connectStart c codec hs₀ watch kind).1
        calls).1
      (Trace.run (Connecting.call ed c codec expect) (connectStart c codec hs₀ watch kind).1
        calls).2 := by
    rcases connectStart_cases c codec hs₀ watch kind with ⟨e, heq⟩ | ⟨client, sent, heq, hnew, _⟩
    · rw [heq] at hw ⊢
      have hstart : LoopInv ed c codec expect hs₀ (.failed e) [] := ⟨by simp, trivial⟩
      exact Trace.run_invariant_of_each hstart (fun _ _ _ hi h => loopInv_step hi h) calls hw
    · rw [heq] at hw ⊢
      exact loopInv_run hnew calls hw
  refine ⟨fun client hclient => ?_, fun sent hsent => ?_, hinv.1⟩
  · have := hinv.2
    rw [hclient] at this
    exact this
  · rcases connectStart_cases c codec hs₀ watch kind with ⟨e, heq⟩ | ⟨client, sent', heq, _, hello⟩
    · simp [heq] at hsent
    · rw [heq] at hsent
      obtain rfl := List.mem_singleton.mp hsent
      exact hello

end DaemonClient

namespace WebClient

theorem servedByProven {w : Web} {kind : Kind} {signerId : ClientId} {label : Str}
    {expected : Option HostId} {inline : Bool} {cols rows : Nat} {nonce : Nonce}
    {ephemeral : EphemeralDh} {events : List Event}
    (hw : Trace.Each (WelcomedInPlace w) (Trace.run (step w)
      (connect kind signerId label expected inline cols rows nonce ephemeral) events).2) :
    ServedByProven w expected
      (connect kind signerId label expected inline cols rows nonce ephemeral) events := by
  have hnew : Inv w expected
      (connect kind signerId label expected inline cols rows nonce ephemeral) [] := by
    refine ⟨⟨rfl, rfl⟩, ?_, ?_, ?_, ?_, ?_, ?_⟩
    · intro t ht
      cases ht
    · intro replies ht
      cases ht
    · intro hch
      cases hch
    · intro host label hst
      cases hst
    · intro hc
      cases hc
    · intro ht
      cases ht
  obtain ⟨hinv, hhonest⟩ := inv_run hnew events hw
  refine ⟨fun hc => ?_, fun host label hst => (hinv.welcomed host label hst).2, hhonest⟩
  have hch := hinv.connected hc
  obtain ⟨host, e, he, hd, ch, hh, hhost, m, hm, hv, hexpect⟩ := hinv.channel hch
  refine ⟨hch, host, ⟨e, he, hd, ch, hh, hhost, m, hm, hv, hexpect⟩, fun host' hx => ?_⟩
  exact (hexpect host' (hinv.expected.1.trans hx)).trans hhost

end WebClient

/-! ## Every run -/

/-- Where every welcome that is heard finds the channel in place and names the
host of the challenges of its connection, no client is served by a host that
has not proved itself. -/
theorem served_by_proven (ed : Ed25519) (c : Suite) (codec : Codec) (expect : Option HostId)
    (hs₀ : ClientHandshake) (watch : Watch) (kind : ClientKind)
    (calls : List DaemonClient.ConnectCall) (w : Web) (webKind : Kind) (signerId : ClientId)
    (label : Str) (expected : Option HostId) (inline : Bool) (cols rows : Nat) (nonce : Nonce)
    (ephemeral : EphemeralDh) (events : List WebClient.Event) :
    (Trace.Each (DaemonClient.WelcomedInPlace c codec)
        (Trace.run (DaemonClient.Connecting.call ed c codec expect)
          (DaemonClient.connectStart c codec hs₀ watch kind).1 calls).2 →
      DaemonClient.ServedByProven ed c codec expect hs₀ watch kind calls) ∧
    (Trace.Each (WebClient.WelcomedInPlace w) (Trace.run (WebClient.step w)
        (WebClient.connect webKind signerId label expected inline cols rows nonce ephemeral)
          events).2 →
      WebClient.ServedByProven w expected
        (WebClient.connect webKind signerId label expected inline cols rows nonce ephemeral)
          events) :=
  ⟨DaemonClient.servedByProven, WebClient.servedByProven⟩

/-- A cipher for a test: a record is its plaintext. -/
def openSuite : Suite where
  dhPublic k := k
  diffieHellman k _ := k
  wasContributory _ := true
  hkdf _ k _ := k
  hkdfFromPrk k _ := k
  encrypt _ _ _ msg := some msg
  decrypt _ _ _ record := some record
  sha256 _ := Vector.replicate 32 0

/-- A signature scheme for a test: every signature verifies. -/
def openEd25519 : Ed25519 where
  verifyingKey k := k
  sign _ _ := Vector.replicate 64 0
  isPoint _ := true
  isWeak _ := false
  verifyStrict _ _ _ := true

def testHost : HostId := ⟨Vector.replicate 32 1⟩

def testChallenge : Challenge :=
  { version := 3, host := testHost, label := [], nonce := ⟨Vector.replicate 32 2⟩,
    dh := ⟨Vector.replicate 32 3⟩, signature := ⟨Vector.replicate 64 0⟩ }

/-- Frames for a test: `[0]` is a challenge and `[1]` a welcome. -/
def testCodec : Codec where
  encodeBody _ := .ok []
  decode frame :=
    if frame = [0] then .ok (.challenge testChallenge)
    else if frame = [1] then .ok (.welcome 3 testHost [])
    else .error []

def testHandshake : ClientHandshake :=
  { identity := .fromSecretBytes openEd25519 (Vector.replicate 32 4), label := [],
    nonce := ⟨Vector.replicate 32 5⟩, dh := some ⟨Vector.replicate 32 6⟩ }

def testWeb : Web := { suite := openSuite, verify := fun _ _ _ => true, codec := testCodec }

def testClient : WebClient :=
  .connect .connection ⟨Vector.replicate 32 4⟩ [] (some testHost) false 80 24
    ⟨Vector.replicate 32 5⟩ ⟨Vector.replicate 32 6⟩

/-- What a client of an honest host goes through. -/
def honestEvents : List WebClient.Event :=
  [.opened, .frame (fun _ => []) [0], .signed 0 (.ok ⟨Vector.replicate 64 0⟩), .resumed 0,
    .frame (fun _ => []) [1], .resumed 0]

/-- A host that proves itself before it welcomes serves both clients. -/
theorem served_by_proven_honest :
    DaemonClient.ServedByProven openEd25519 openSuite testCodec (some testHost) testHandshake {}
      .interactive [.frame [0], .frame [1]] ∧
    WebClient.ServedByProven testWeb (some testHost) testClient honestEvents ∧
      (Trace.run (WebClient.step testWeb) testClient honestEvents).1.connected = true := by
  have hboth := served_by_proven openEd25519 openSuite testCodec (some testHost) testHandshake {}
    .interactive [.frame [0], .frame [1]] testWeb .connection ⟨Vector.replicate 32 4⟩ []
    (some testHost) false 80 24 ⟨Vector.replicate 32 5⟩ ⟨Vector.replicate 32 6⟩ honestEvents
  refine ⟨hboth.1 ?_, hboth.2 ?_, by decide⟩
  · have first : Trace.Each (DaemonClient.WelcomedInPlace openSuite testCodec)
        (Trace.run (DaemonClient.Connecting.call openEd25519 openSuite testCodec (some testHost))
          (DaemonClient.connectStart openSuite testCodec testHandshake {} .interactive).1
            [.frame [0]]).2 := by
      refine (Trace.each_snoc (h := [])).mpr ⟨Trace.each_nil _, ?_⟩
      rintro client host ⟨hs, frame, label, hstate, hcall, hrecv⟩
      cases hstate
      cases hcall
      cases hrecv
    refine (Trace.each_snoc (h := [_])).mpr ⟨first, ?_⟩
    rintro client host ⟨hs, frame, label, hstate, hcall, hrecv⟩
    cases hstate
    cases hcall
    cases hrecv
    refine ⟨rfl, fun e' he' ch hch => ?_⟩
    obtain rfl := List.mem_singleton.mp he'
    obtain ⟨client, hs, frame, hstate, hcall, hrecv⟩ := hch
    cases hstate
    cases hcall
    cases hrecv
    rfl
  · -- Only the second frame is a welcome; the entries that take no frame hear nothing.
    refine (Trace.each_snoc (h := [_, _, _, _, _])).mpr ⟨(Trace.each_snoc (h := [_, _, _, _])).mpr
      ⟨(Trace.each_snoc (h := [_, _, _])).mpr ⟨(Trace.each_snoc (h := [_, _])).mpr
        ⟨(Trace.each_snoc (h := [_])).mpr ⟨(Trace.each_snoc (h := [])).mpr
          ⟨Trace.each_nil _, ?opened⟩, ?challenge⟩, ?signed⟩, ?answered⟩, ?welcome⟩, ?resumed⟩
    case opened | signed | answered | resumed =>
      rintro version host label ⟨_, frame, body, htakes, _⟩
      cases htakes
    case challenge =>
      rintro version host label ⟨_, frame, body, htakes, hopen, hdecode⟩
      cases htakes
      cases hopen
      cases hdecode
    case welcome =>
      rintro version host label ⟨_, frame, body, htakes, hopen, hdecode⟩
      cases htakes
      cases hopen
      cases hdecode
      refine ⟨rfl, fun e' he' _ ch hch => ?_⟩
      obtain ⟨_, frame, body, htakes, hopen, hdecode⟩ := hch
      simp only [List.mem_cons, List.not_mem_nil, or_false] at he'
      obtain rfl | rfl | rfl | rfl := he' <;> cases htakes
      cases hopen
      cases hdecode
      rfl

/-- The host names itself and nobody asks for its proof. -/
theorem served_unproven :
    (¬ ∀ (ed : Ed25519) (c : Suite) (codec : Codec) (expect : Option HostId)
      (hs₀ : ClientHandshake) (watch : Watch) (kind : ClientKind)
      (calls : List DaemonClient.ConnectCall),
      DaemonClient.ServedByProven ed c codec expect hs₀ watch kind calls) ∧
    ¬ ∀ (w : Web) (kind : Kind) (signerId : ClientId) (label : Str) (expected : Option HostId)
      (inline : Bool) (cols rows : Nat) (nonce : Nonce) (ephemeral : EphemeralDh)
      (events : List WebClient.Event),
      WebClient.ServedByProven w expected
        (WebClient.connect kind signerId label expected inline cols rows nonce ephemeral)
          events := by
  constructor
  · intro h
    have hserved := (h openEd25519 openSuite testCodec none testHandshake {} .interactive
      [.frame [1]]).served _ rfl
    exact absurd hserved.1.1 (by decide)
  · intro h
    have hserved := (h testWeb .connection ⟨Vector.replicate 32 4⟩ [] (some testHost) false 80 24
      ⟨Vector.replicate 32 5⟩ ⟨Vector.replicate 32 6⟩
      [.opened, .frame (fun _ => []) [1], .resumed 0]).served (by decide)
    exact absurd hserved.1 (by decide)

end Zesterm
