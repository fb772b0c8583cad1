/-
Zesterm.Daemon.ConnectionTheorems — nothing is served before proof, and the
seal starts at one position.

`GateMove` lists what a message, a decision or a poll may do to the gate and
the seal, with what it answers; the writer moves neither but for the switch
at the challenge. `Sane` is what every run keeps: a connection that is not
served has nothing attached and no work beside it, a handshake that can
still challenge has no seal, and there is one challenge at most, to be
written before the switch. `guarded_run` is what a peer may rely on.
-/
import Zesterm.Daemon.Connection
import Zesterm.Mesh.PairingTheorems

namespace Zesterm

namespace Connection

variable {M R : Type}

/-! ## What is answered -/

/-- What a client that has not proved itself may be sent. -/
def isHandshake : Outgoing M → Bool
  | .challenge _ => true
  | .authPending _ _ => true
  | .authFailed _ _ => true
  | .error _ => true
  | _ => false

def isError : Outgoing M → Bool
  | .error _ => true
  | _ => false

/-- What a handshake says short of its challenge. -/
def IsTalk (out : List (Outgoing M)) : Prop :=
  ∀ m ∈ out, isHandshake m = true ∧ isChallenge m = false

/-- What one message, decision or poll may do to the gate and to the switch
of the seal, with what it answers. -/
inductive GateMove : Gate → Option Bool → Gate → Option Bool → List (Outgoing M) → Prop where
  | challenged {h h' : HostHandshake} {s : Option Bool} {ch : Challenge}
      (hfresh : h.state = .greeting) (hspent : h'.state ≠ .greeting) :
      GateMove (.handshaking h) s (.handshaking h') (some false) [.challenge ch]
  | waits {h h' : HostHandshake} {s : Option Bool} {out : List (Outgoing M)}
      (hstate : h'.state = .greeting → h.state = .greeting) (hout : IsTalk out) :
      GateMove (.handshaking h) s (.handshaking h') s out
  | refused {h : HostHandshake} {s : Option Bool} {out : List (Outgoing M)} (hout : IsTalk out) :
      GateMove (.handshaking h) s .refused s out
  | welcomed {h : HostHandshake} {s : Option Bool} {who : ServedClient} {version : UInt16}
      {host : HostId} {label : Str} :
      GateMove (.handshaking h) s (.served who) s [.welcome version host label]
  | serves {who : ServedClient} {s : Option Bool} {out : List (Outgoing M)}
      (hout : ∀ m ∈ out, isChallenge m = false) : GateMove (.served who) s (.served who) s out
  | stays {s : Option Bool} {out : List (Outgoing M)} (hout : ∀ m ∈ out, isError m = true) :
      GateMove .refused s .refused s out

/-- Whether outgoing frames are sealed, once there is a seal. -/
def switch (c : Connection M) : Option Bool := c.seal.map Seal.out

/-- Nothing is attached, and no work goes on beside. -/
structure Idle (c : Connection M) : Prop where
  attached : c.attached = ∅
  enrollRunning : c.enrollRunning = false
  enrollResult : c.enrollResult = none
  deferredRunning : c.deferredRunning = 0
  deferred : c.deferred = []

/-- What one message, decision or poll may do to a connection. -/
structure Moves (c c' : Connection M) (out : List (Outgoing M)) : Prop where
  move : GateMove c.gate c.switch c'.gate c'.switch out
  idle : (∀ who, c'.gate ≠ .served who) → c.Idle → c'.Idle
  outbox : c'.outbox = c.outbox

theorem isTalk_nil : IsTalk ([] : List (Outgoing M)) := fun _ h => absurd h List.not_mem_nil

theorem isTalk_singleton {m : Outgoing M} (h : isHandshake m = true) (h' : isChallenge m = false) :
    IsTalk [m] := by
  intro m' hm
  rw [List.mem_singleton.mp hm]
  exact ⟨h, h'⟩

theorem isTalk_askForApproval (c : Connection M) (code : Str) : IsTalk (c.askForApproval code) := by
  unfold askForApproval
  split
  · split
    · exact isTalk_singleton rfl rfl
    · exact isTalk_nil
  · exact isTalk_nil

/-- A move that answers no gate's question: the same gate, and the same
rest. -/
theorem GateMove.error (g : Gate) (s : Option Bool) (text : Str) :
    GateMove (M := M) g s g s [.error text] := by
  have hone : ∀ m ∈ [(.error text : Outgoing M)], m = .error text := fun m hm =>
    List.mem_singleton.mp hm
  cases g with
  | handshaking h => exact .waits id (isTalk_singleton rfl rfl)
  | served who => exact .serves fun m hm => by rw [hone m hm]; rfl
  | refused => exact .stays fun m hm => by rw [hone m hm]; rfl

theorem GateMove.silent (g : Gate) (s : Option Bool) : GateMove (M := M) g s g s [] := by
  cases g with
  | handshaking h => exact .waits id isTalk_nil
  | served who => exact .serves fun m hm => absurd hm List.not_mem_nil
  | refused => exact .stays fun m hm => absurd hm List.not_mem_nil

section Turn

variable (ed : Ed25519) (suite : Suite) (codec : HostCodec M R)
variable (c : Connection M)

/-- What a host handshake may do on a `Hello`. -/
theorem onHello_cases (h : HostHandshake) (version : UInt16) (client : ClientId) (label : Str)
    (nonce : Nonce) (dh : DhPublic) (random : Option Nonce) (generate : Option EphemeralDh) :
    (∃ h' n d signature, h.onHello ed suite version client label nonce dh random generate =
        (h', .challenge n d signature) ∧ h.state = .greeting ∧ h'.state ≠ .greeting) ∨
      ∃ h' reason, h.onHello ed suite version client label nonce dh random generate =
        (h', .refused reason) := by
  have hmoves := h.moves_onHello ed suite version client label nonce dh random generate
  generalize h.onHello ed suite version client label nonce dh random generate = p at hmoves ⊢
  obtain ⟨h', step⟩ := p
  dsimp only at hmoves ⊢
  generalize hreply : ({ step := some step } : HostReply) = reply at hmoves
  cases hmoves with
  | challenged hstate =>
    obtain rfl := Option.some.inj (congrArg HostReply.step hreply)
    exact .inl ⟨_, _, _, _, rfl, hstate, by simp⟩
  | refused | ignored =>
    obtain rfl := Option.some.inj (congrArg HostReply.step hreply)
    exact .inr ⟨_, _, rfl⟩

/-- What it may do on an `Auth`. -/
theorem onAuth_cases (h : HostHandshake) (signature : Signature) (trust : TrustStore) :
    (∃ h' asked, h.onAuth ed suite signature trust = (h', .welcome, asked)) ∨
      (∃ h' code asked, h.onAuth ed suite signature trust = (h', .needsApproval code, asked) ∧
        h'.state ≠ .greeting) ∨
      ∃ h' reason asked, h.onAuth ed suite signature trust = (h', .refused reason, asked) := by
  have hmoves := h.moves_onAuth ed suite signature trust
  generalize h.onAuth ed suite signature trust = p at hmoves ⊢
  obtain ⟨h', step, asked⟩ := p
  dsimp only at hmoves ⊢
  generalize hreply : ({ step := some step, asked := asked } : HostReply) = reply at hmoves
  cases hmoves with
  | refused | turnedAway | ignored =>
    obtain rfl := Option.some.inj (congrArg HostReply.step hreply)
    exact .inr (.inr ⟨_, _, _, rfl⟩)
  | welcomed =>
    obtain rfl := Option.some.inj (congrArg HostReply.step hreply)
    exact .inl ⟨_, _, rfl⟩
  | waits =>
    obtain rfl := Option.some.inj (congrArg HostReply.step hreply)
    exact .inr (.inl ⟨_, _, _, rfl, by simp⟩)

/-- What it may do on an approval. -/
theorem approved_cases (h : HostHandshake) (trust : TrustStore) (now : SystemTime) :
    (∃ h' asked, h.approved trust now = (h', .welcome, asked)) ∨
      ∃ h' reason asked, h.approved trust now = (h', .refused reason, asked) := by
  unfold HostHandshake.approved
  split
  · dsimp only
    split
    · exact .inr ⟨_, _, _, rfl⟩
    · exact .inl ⟨_, _, rfl⟩
  · exact .inr ⟨_, _, _, rfl⟩

/-- Taking the channel leaves a handshake where it stands. -/
theorem state_channel (h : HostHandshake) : (h.channel suite).1.state = h.state := by
  unfold HostHandshake.channel
  split
  · rfl
  · dsimp only
    split
    · rfl
    · split <;> rfl

theorem moves_refuse {c : Connection M} {h : HostHandshake} (hgate : c.gate = .handshaking h)
    (refusal : Refusal) {c' : Connection M} (hswitch : c'.switch = c.switch)
    (hidle : c.Idle → c'.Idle) (houtbox : c'.outbox = c.outbox) :
    Moves c (c'.refuse refusal).1 (c'.refuse refusal).2 := by
  refine ⟨?_, fun _ hi => ⟨(hidle hi).1, (hidle hi).2, (hidle hi).3, (hidle hi).4, (hidle hi).5⟩,
    houtbox⟩
  rw [hgate, show (c'.refuse refusal).1.switch = c.switch from hswitch]
  exact .refused (isTalk_singleton rfl rfl)

theorem moves_welcome {c : Connection M} {h : HostHandshake} (hgate : c.gate = .handshaking h)
    {c' : Connection M} (hswitch : c'.switch = c.switch) (houtbox : c'.outbox = c.outbox) :
    Moves c c'.welcome.1 c'.welcome.2 := by
  refine ⟨?_, fun hno => absurd rfl (hno _), houtbox⟩
  rw [hgate, show c'.welcome.1.switch = c.switch from hswitch]
  exact .welcomed

theorem moves_onHello (env : TurnEnv M R) (msg : Hello) :
    Moves c (c.onHello ed suite env msg).1 (c.onHello ed suite env msg).2 := by
  unfold onHello
  dsimp only
  split
  · next h hgate =>
    have hgate' : c.gate = .handshaking h := hgate
    rcases onHello_cases ed suite h msg.version msg.client msg.label msg.nonce msg.dh env.random
      env.generate with ⟨h', n, d, signature, heq, hfresh, hspent⟩ | ⟨h', reason, heq⟩
    · rw [heq]
      dsimp only
      cases ht : h'.transcript with
      | none =>
        refine ⟨?_, fun _ hi => ⟨hi.1, hi.2, hi.3, hi.4, hi.5⟩, rfl⟩
        rw [hgate']
        exact .waits (fun h => absurd h hspent) isTalk_nil
      | some t =>
        dsimp only
        have hstate := state_channel suite h'
        generalize h'.channel suite = p at hstate ⊢
        obtain ⟨h'', channel⟩ := p
        dsimp only at hstate ⊢
        split
        · refine ⟨?_, fun _ hi => ⟨hi.1, hi.2, hi.3, hi.4, hi.5⟩, rfl⟩
          rw [hgate']
          exact .challenged hfresh (hstate ▸ hspent)
        · exact moves_refuse hgate' _ rfl (fun hi => ⟨hi.1, hi.2, hi.3, hi.4, hi.5⟩) rfl
    · rw [heq]
      exact moves_refuse hgate' _ rfl (fun hi => ⟨hi.1, hi.2, hi.3, hi.4, hi.5⟩) rfl
  · exact ⟨.error _ _ _, fun _ hi => ⟨hi.1, hi.2, hi.3, hi.4, hi.5⟩, rfl⟩

theorem moves_onAuth (env : TurnEnv M R) (signature : Signature) :
    Moves c (c.onAuth ed suite env signature).1 (c.onAuth ed suite env signature).2 := by
  unfold onAuth
  split
  · next h hgate =>
    dsimp only
    rcases onAuth_cases ed suite h signature (if c.auth.checksTrust then env.trust else alwaysTrusted)
      with ⟨h', asked, heq⟩ | ⟨h', code, asked, heq, hspent⟩ | ⟨h', reason, asked, heq⟩
    · rw [heq]
      exact moves_welcome hgate rfl rfl
    · rw [heq]
      dsimp only
      refine ⟨?_, fun _ hi => ⟨hi.1, hi.2, hi.3, hi.4, hi.5⟩, rfl⟩
      rw [hgate]
      exact .waits (fun h => absurd h hspent) (isTalk_askForApproval _ code)
    · rw [heq]
      exact moves_refuse hgate _ rfl (fun hi => ⟨hi.1, hi.2, hi.3, hi.4, hi.5⟩) rfl
  · exact ⟨.error _ _ _, fun _ hi => hi, rfl⟩

theorem moves_handle (env : TurnEnv M R) (msg : Incoming R) :
    Moves c (c.handle ed suite env msg).1 (c.handle ed suite env msg).2 := by
  unfold handle
  split
  · exact ⟨.error _ _ _, fun _ hi => hi, rfl⟩
  · exact ⟨.error _ _ _, fun _ hi => hi, rfl⟩
  · exact moves_onHello ed suite c env _
  · exact moves_onAuth ed suite c env _
  · next who r hgate =>
    refine ⟨?_, fun hno => absurd hgate (hno who), rfl⟩
    dsimp only
    rw [hgate]
    refine .serves fun m hm => ?_
    obtain ⟨answer, -, rfl⟩ := List.mem_map.mp hm
    rfl

theorem moves_read (env : TurnEnv M R) (plain : List UInt8) :
    Moves c (c.read ed suite codec env plain).1 (c.read ed suite codec env plain).2 := by
  unfold read
  split
  · exact moves_handle ed suite c env _
  · exact ⟨.error _ _ _, fun _ hi => hi, rfl⟩

/-- A refused connection answers each message by one error. -/
theorem read_refused {c : Connection M} (hgate : c.gate = .refused) (env : TurnEnv M R)
    (plain : List UInt8) : ∃ text, c.read ed suite codec env plain = (c, [.error text]) := by
  unfold read
  split
  · refine ⟨"this connection was refused".toList, ?_⟩
    unfold handle
    rw [hgate]
  · exact ⟨_, rfl⟩

end Turn

theorem moves_takeDecision (c : Connection M) (trust : TrustStore) (now : SystemTime) :
    Moves c (c.takeDecision trust now).1 (c.takeDecision trust now).2 := by
  unfold takeDecision
  split
  · exact ⟨.silent _ _, fun _ hi => hi, rfl⟩
  · dsimp only
    split
    · next h hgate _ =>
      have hgate' : c.gate = .handshaking h := hgate
      rcases approved_cases h trust now with ⟨h', asked, heq⟩ | ⟨h', reason, asked, heq⟩
      · rw [heq]
        exact moves_welcome hgate' rfl rfl
      · rw [heq]
        exact moves_refuse hgate' _ rfl (fun hi => ⟨hi.1, hi.2, hi.3, hi.4, hi.5⟩) rfl
    · next h hgate _ =>
      have hgate' : c.gate = .handshaking h := hgate
      exact moves_refuse hgate' _ rfl (fun hi => ⟨hi.1, hi.2, hi.3, hi.4, hi.5⟩) rfl
    · exact ⟨.silent _ _, fun _ hi => ⟨hi.1, hi.2, hi.3, hi.4, hi.5⟩, rfl⟩

/-- What is sent beside the gate is sent to served clients alone. -/
theorem gateMove_beside {c : Connection M} {out : List (Outgoing M)}
    (hserved : ∀ m ∈ out, isChallenge m = false)
    (hnone : (∀ who, c.gate ≠ .served who) → out = []) :
    GateMove c.gate c.switch c.gate c.switch out := by
  cases hgate : c.gate with
  | served who => exact .serves hserved
  | handshaking | refused =>
    rw [hnone fun who => by simp [hgate]]
    exact .silent _ _

theorem isChallenge_served (ms : List M) : ∀ m ∈ ms.map Outgoing.served, isChallenge m = false := by
  intro m hm
  obtain ⟨answer, -, rfl⟩ := List.mem_map.mp hm
  rfl

/-- A poll has nothing for a client that is not served. -/
theorem poll_unserved {c : Connection M} (hidle : c.Idle) (hgate : ∀ who, c.gate ≠ .served who)
    (env : PollEnv M) : c.poll env = [] := by
  unfold poll deviceAuthority
  rw [hidle.attached]
  cases hg : c.gate with
  | served who => exact absurd hg (hgate who)
  | handshaking h => simp
  | refused => simp

/-! ## What is written -/

section Writing

variable (suite : Suite) (codec : HostCodec M R)
variable (c : Connection M)

/-- A frame carries a message as it is. -/
def PlainFrame (m : Outgoing M) (bytes : List UInt8) : Prop :=
  ∃ body, codec.encodeBody m = .ok body ∧ frameBytes body = .ok bytes

/-- A frame carries a record of this connection's channel. -/
def SealedFrame (c : Connection M) (m : Outgoing M) (bytes : List UInt8) : Prop :=
  ∃ s body record, c.seal = some s ∧ codec.encodeBody m = .ok body ∧
    (s.channel.seal suite body).2 = .ok record ∧ frameBytes record = .ok bytes

/-- What encoding a message leaves alone. -/
structure Encodes (c c' : Connection M) : Prop where
  gate : c'.gate = c.gate
  idle : c.Idle → c'.Idle
  outbox : c'.outbox = c.outbox

theorem Encodes.refl : Encodes c c := ⟨rfl, id, rfl⟩

theorem encodes_seal (seal' : Option Seal) : Encodes c { c with «seal» := seal' } :=
  ⟨rfl, fun h => ⟨h.1, h.2, h.3, h.4, h.5⟩, rfl⟩

/-- A body leaves as a record of the channel once the switch is made, and as
it is before. -/
theorem sealBody_spec (body : List UInt8) :
    Encodes c (c.sealBody suite body).1 ∧ (c.sealBody suite body).1.switch = c.switch ∧
      (c.switch = some true → ∀ record, (c.sealBody suite body).2 = some record →
        ∃ s, c.seal = some s ∧ (s.channel.seal suite body).2 = .ok record) ∧
      (c.switch ≠ some true → (c.sealBody suite body).2 = some body) := by
  unfold sealBody
  cases hseal : c.seal with
  | none => exact ⟨.refl c, rfl, fun h => by simp [switch, hseal] at h, fun _ => rfl⟩
  | some s =>
    dsimp only
    cases hout : s.out with
    | false =>
      rw [if_neg Bool.false_ne_true]
      exact ⟨.refl c, rfl, fun h => by simp [switch, hseal, hout] at h, fun _ => rfl⟩
    | true =>
      rw [if_pos rfl]
      refine ⟨encodes_seal c _, by simp [switch, hseal, hout], fun _ record hrecord => ?_, fun h => ?_⟩
      · refine ⟨s, rfl, ?_⟩
        dsimp only at hrecord
        cases hr : (s.channel.seal suite body).2 with
        | error e => simp [hr, Except.toOption] at hrecord
        | ok record' =>
          rw [hr] at hrecord
          rw [Option.some.inj hrecord]
      · simp [switch, hseal, hout] at h

/-- A message leaves sealed once the switch is made, and plain before; the
challenge makes it. -/
theorem encode_spec (m : Outgoing M) :
    Encodes c (c.encode suite codec m).1 ∧
      ((c.encode suite codec m).2 = none → (c.encode suite codec m).1.switch = c.switch) ∧
      ∀ bytes, (c.encode suite codec m).2 = some bytes →
        (c.switch = some true → SealedFrame suite codec c m bytes) ∧
          (c.switch ≠ some true → PlainFrame codec m bytes) ∧
          (c.encode suite codec m).1.switch =
            if isChallenge m then c.switch.map fun _ => true else c.switch := by
  unfold encode
  cases hbody : codec.encodeBody m with
  | error e => exact ⟨.refl c, fun _ => rfl, by simp⟩
  | ok body =>
    dsimp only
    obtain ⟨hframe, hswitch, hsealed, hplain⟩ := sealBody_spec suite c body
    generalize c.sealBody suite body = p at hframe hswitch hsealed hplain ⊢
    obtain ⟨c', out⟩ := p
    dsimp only at hframe hswitch hsealed hplain ⊢
    cases hbytes : out.bind fun body => (frameBytes body).toOption with
    | none => exact ⟨hframe, fun _ => hswitch, by simp⟩
    | some bytes =>
      obtain ⟨record, rfl, hrecord⟩ := Option.bind_eq_some_iff.mp hbytes
      have hframed : frameBytes record = .ok bytes := by
        cases hr : frameBytes record with
        | error e => simp [hr, Except.toOption] at hrecord
        | ok bytes' =>
          rw [hr] at hrecord
          rw [Option.some.inj hrecord]
      have hcases : (c.switch = some true → SealedFrame suite codec c m bytes) ∧
          (c.switch ≠ some true → PlainFrame codec m bytes) := by
        constructor
        · intro hon
          obtain ⟨s, hs, hseal⟩ := hsealed hon record rfl
          exact ⟨s, body, record, hs, hbody, hseal, hframed⟩
        · intro hoff
          obtain rfl := Option.some.inj (hplain hoff)
          exact ⟨record, hbody, hframed⟩
      dsimp only
      by_cases hm : isChallenge m = true
      · rw [if_pos hm, if_pos hm]
        refine ⟨⟨hframe.gate, fun h => ?_, hframe.outbox⟩, by simp, fun bytes' hb => ?_⟩
        · have hi := hframe.idle h
          exact ⟨hi.1, hi.2, hi.3, hi.4, hi.5⟩
        · obtain rfl := Option.some.inj hb
          refine ⟨hcases.1, hcases.2, ?_⟩
          rw [← hswitch]
          unfold switch
          rw [Option.map_map, Option.map_map]
          rfl
      · rw [if_neg hm, if_neg hm]
        refine ⟨hframe, by simp, fun bytes' hb => ?_⟩
        obtain rfl := Option.some.inj hb
        exact ⟨hcases.1, hcases.2, hswitch⟩

end Writing

/-! ## Every call -/

section Calls

variable (ed : Ed25519) (suite : Suite) (codec : HostCodec M R)

/-- What a frame's body comes to: what the channel opens, once there is
one. -/
def opened (c : Connection M) (body : List UInt8) : Option (List UInt8) :=
  match c.seal with
  | some s => (s.channel.open suite body).2.toOption
  | none => some body

/-- A call that writes nothing. -/
structure Produces (c c' : Connection M) (reply : Reply M) : Prop where
  move : GateMove c.gate c.switch c'.gate c'.switch reply.out
  idle : (∀ who, c'.gate ≠ .served who) → c.Idle → c'.Idle
  outbox : c'.outbox = c.outbox ++ reply.out
  wrote : reply.wrote = none
  plain : ∀ plain, reply.plain = some plain →
    ∃ body, reply.body = some body ∧ opened suite c body = some plain
  refused : c.gate = .refused → ∀ plain, reply.plain = some plain → ∃ text, reply.out = [.error text]

/-- A call of the writer's that encodes a message. -/
structure Writes (c c' : Connection M) (i : Nat) (m : Outgoing M) (reply : Reply M) : Prop where
  queued : c.outbox[i]? = some m
  gate : c'.gate = c.gate
  idle : c.Idle → c'.Idle
  outbox : c'.outbox = c.outbox.eraseIdx i
  out : reply.out = []
  plain : reply.plain = none
  wrote : (reply.wrote = none ∧ c'.switch = c.switch) ∨
    ∃ bytes, reply.wrote = some (m, bytes) ∧
      (c.switch = some true → SealedFrame suite codec c m bytes) ∧
      (c.switch ≠ some true → PlainFrame codec m bytes) ∧
      c'.switch = if isChallenge m then c.switch.map fun _ => true else c.switch

/-- What a call that neither answers nor writes leaves alone. -/
structure Aside (c c' : Connection M) : Prop where
  gate : c'.gate = c.gate
  switch : c'.switch = c.switch
  idle : c.Idle → c'.Idle
  outbox : c'.outbox = c.outbox

theorem Produces.silent {c c' : Connection M} (haside : Aside c c') (body : Option (List UInt8)) :
    Produces suite c c' { body := body } := by
  refine ⟨?_, fun _ => haside.idle, by simp [haside.outbox], rfl, by simp, by simp⟩
  rw [haside.gate, haside.switch]
  exact .silent _ _

theorem Produces.queue {c : Connection M} {p : Connection M × List (Outgoing M)}
    (hmoves : Moves c p.1 p.2) : Produces suite c (queue p).1 (queue p).2 := by
  refine ⟨hmoves.move, fun hno hi => ?_, ?_, rfl, by simp [Connection.queue],
    by simp [Connection.queue]⟩
  · have hi' := hmoves.idle hno hi
    exact ⟨hi'.1, hi'.2, hi'.3, hi'.4, hi'.5⟩
  · simp [Connection.queue, hmoves.outbox]

/-- A turn that reads a message, by what the body it took comes to. -/
theorem produces_read {c c₁ : Connection M} (env : TurnEnv M R) {body plain : List UInt8}
    (haside : Aside c c₁) (hopened : opened suite c body = some plain) :
    Produces suite c (queue (c₁.read ed suite codec env plain)).1
      { (queue (c₁.read ed suite codec env plain)).2 with body := some body, plain := some plain } := by
  have hmoves := moves_read ed suite codec c₁ env plain
  refine ⟨?_, fun hno hi => ?_, ?_, rfl, fun plain' hplain => ?_, fun href plain' _ => ?_⟩
  · rw [← haside.gate, ← haside.switch]
    exact hmoves.move
  · have hi' := hmoves.idle hno (haside.idle hi)
    exact ⟨hi'.1, hi'.2, hi'.3, hi'.4, hi'.5⟩
  · simp [Connection.queue, hmoves.outbox, haside.outbox]
  · obtain rfl := Option.some.inj hplain
    exact ⟨body, rfl, hopened⟩
  · obtain ⟨text, hread⟩ := read_refused ed suite codec (haside.gate.trans href) env plain
    exact ⟨text, by rw [hread]; rfl⟩

theorem produces_turn (c : Connection M) (env : TurnEnv M R) :
    Produces suite c (c.turn ed suite codec env).1 (c.turn ed suite codec env).2 := by
  unfold turn
  split
  · next e reader _ =>
    have haside : Aside c { c with reader := reader, lost := true } :=
      ⟨rfl, rfl, fun hi => ⟨hi.1, hi.2, hi.3, hi.4, hi.5⟩, rfl⟩
    exact Produces.silent suite haside none
  · next reader _ =>
    have haside : Aside c { c with reader := reader } :=
      ⟨rfl, rfl, fun hi => ⟨hi.1, hi.2, hi.3, hi.4, hi.5⟩, rfl⟩
    exact Produces.silent suite haside none
  · next body reader _ =>
    dsimp only
    cases hseal : c.seal with
    | none =>
      have haside : Aside c { c with reader := reader, «seal» := none } :=
        ⟨rfl, by simp [switch, hseal], fun hi => ⟨hi.1, hi.2, hi.3, hi.4, hi.5⟩, rfl⟩
      exact produces_read ed suite codec env haside (by rw [opened, hseal])
    | some s =>
      dsimp only
      have haside : ∀ (channel : SecureChannel) (lost : Bool),
          Aside c { c with
            reader := reader, «seal» := some { s with channel := channel }, lost := lost } :=
        fun _ _ => ⟨rfl, by simp [switch, hseal], fun hi => ⟨hi.1, hi.2, hi.3, hi.4, hi.5⟩, rfl⟩
      cases hr : (s.channel.open suite body).2 with
      | error e => exact Produces.silent suite (haside _ true) (some body)
      | ok plain =>
        refine produces_read ed suite codec env (haside _ c.lost) ?_
        rw [opened, hseal]
        exact congrArg Except.toOption hr

/-- Every call either writes nothing or is the writer's. -/
theorem step_cases {c : Connection M} (hidle : (∀ who, c.gate ≠ .served who) → c.Idle)
    (a : Call M R) :
    Produces suite c (c.step ed suite codec a).1 (c.step ed suite codec a).2 ∨
      ∃ i m, Writes suite codec c (c.step ed suite codec a).1 i m (c.step ed suite codec a).2 := by
  have hsilent : Produces suite c c {} := .silent suite ⟨rfl, rfl, id, rfl⟩ none
  cases a with
  | feed bytes =>
    have haside : Aside c { c with reader := c.reader.feed bytes } :=
      ⟨rfl, rfl, fun hi => ⟨hi.1, hi.2, hi.3, hi.4, hi.5⟩, rfl⟩
    exact .inl (.silent suite haside none)
  | turn env =>
    refine .inl ?_
    simp only [step]
    split
    · exact hsilent
    · exact produces_turn ed suite codec c env
  | decide decision =>
    have haside : Aside c { c with decided := some decision } :=
      ⟨rfl, rfl, fun hi => ⟨hi.1, hi.2, hi.3, hi.4, hi.5⟩, rfl⟩
    exact .inl (.silent suite haside none)
  | enrollDone m =>
    refine .inl ?_
    simp only [step]
    split
    · next hrunning =>
      have haside : Aside c { c with enrollResult := some m } := by
        refine ⟨rfl, rfl, fun hi => ?_, rfl⟩
        rw [hi.enrollRunning] at hrunning
        exact absurd hrunning Bool.false_ne_true
      exact .silent suite haside none
    · exact hsilent
  | deferredDone m =>
    refine .inl ?_
    simp only [step]
    split
    · next hrunning =>
      have haside : Aside c
          { c with deferred := c.deferred ++ [m], deferredRunning := c.deferredRunning - 1 } := by
        refine ⟨rfl, rfl, fun hi => ?_, rfl⟩
        rw [hi.deferredRunning] at hrunning
        exact absurd hrunning (Nat.lt_irrefl 0)
      exact .silent suite haside none
    · exact hsilent
  | takeDecision trust now =>
    refine .inl ?_
    simp only [step]
    split
    · exact hsilent
    · exact .queue suite (moves_takeDecision c trust now)
  | takeEnrollResult =>
    refine .inl ?_
    simp only [step]
    split
    · exact hsilent
    · refine .queue suite ?_
      unfold takeEnrollResult
      split
      · exact ⟨.silent _ _, fun _ hi => hi, rfl⟩
      · next m hresult =>
        refine ⟨?_, fun hno hi => ?_, rfl⟩
        · refine gateMove_beside (isChallenge_served [m]) fun hno => ?_
          rw [(hidle hno).enrollResult] at hresult
          cases hresult
        · exact ⟨hi.1, rfl, rfl, hi.4, hi.5⟩
  | takeDeferred =>
    refine .inl ?_
    simp only [step]
    split
    · exact hsilent
    · refine .queue suite ⟨?_, fun _ hi => ⟨hi.1, hi.2, hi.3, hi.4, rfl⟩, rfl⟩
      refine gateMove_beside (isChallenge_served c.deferred) fun hno => ?_
      exact congrArg (List.map Outgoing.served) (hidle hno).deferred
  | poll env =>
    refine .inl ?_
    simp only [step]
    split
    · exact hsilent
    · refine .queue suite ⟨?_, fun _ hi => hi, rfl⟩
      exact gateMove_beside (isChallenge_served _) fun hno => poll_unserved (hidle hno) hno env
  | write i =>
    simp only [step]
    split
    · exact .inl hsilent
    · cases hqueued : c.outbox[i]? with
      | none => exact .inl hsilent
      | some m =>
        refine .inr ⟨i, m, ?_⟩
        dsimp only
        obtain ⟨hframe, hfails, hwrites⟩ :=
          encode_spec suite codec { c with outbox := c.outbox.eraseIdx i } m
        generalize ({ c with outbox := c.outbox.eraseIdx i } : Connection M).encode suite codec m = p
          at hframe hfails hwrites ⊢
        obtain ⟨c', written⟩ := p
        dsimp only at hframe hfails hwrites ⊢
        have hidle' : c.Idle → c'.Idle := fun hi => hframe.idle ⟨hi.1, hi.2, hi.3, hi.4, hi.5⟩
        cases written with
        | none =>
          refine ⟨hqueued, hframe.gate, fun hi => ?_, hframe.outbox, rfl, rfl,
            .inl ⟨rfl, hfails rfl⟩⟩
          exact ⟨(hidle' hi).1, (hidle' hi).2, (hidle' hi).3, (hidle' hi).4, (hidle' hi).5⟩
        | some bytes =>
          obtain ⟨hsealed, hplain, hswitch⟩ := hwrites bytes rfl
          exact ⟨hqueued, hframe.gate, hidle', hframe.outbox, rfl, rfl,
            .inr ⟨bytes, rfl, hsealed, hplain, hswitch⟩⟩

end Calls

variable {g : Gate} {s : Option Bool} {outbox : List (Outgoing M)} {m : Outgoing M}

/-! ## Where the challenge stands -/

/-- A handshake that can still challenge has no seal, and there is one
challenge at most: waiting, or written. -/
structure Ready (g : Gate) (s : Option Bool) (outbox : List (Outgoing M)) : Prop where
  fresh : ∀ h, g = .handshaking h → h.state = .greeting → s = none
  one : outbox.countP isChallenge + (if s = some true then 1 else 0) ≤ if s.isSome then 1 else 0

/-- What answers no challenge moves none. -/
theorem Ready.quiet {g' : Gate} {out : List (Outgoing M)} (h : Ready g s outbox)
    (hout : ∀ m ∈ out, isChallenge m = false)
    (hfresh : ∀ h', g' = .handshaking h' → h'.state = .greeting → s = none) :
    Ready g' s (outbox ++ out) := by
  have hnone : out.countP isChallenge = 0 :=
    List.countP_eq_zero.mpr fun m hm => by simp [hout m hm]
  refine ⟨hfresh, ?_⟩
  rw [List.countP_append, hnone]
  exact h.one

theorem Ready.move {g' : Gate} {s' : Option Bool} {out : List (Outgoing M)} (h : Ready g s outbox)
    (hmove : GateMove g s g' s' out) : Ready g' s' (outbox ++ out) := by
  cases hmove with
  | @challenged h₀ h₁ _ ch hfresh hspent =>
    obtain rfl := h.fresh h₀ rfl hfresh
    have hnone : outbox.countP isChallenge = 0 := by simpa using h.one
    refine ⟨fun h' hg hstate => ?_, ?_⟩
    · obtain rfl := Gate.handshaking.inj hg
      exact absurd hstate hspent
    · rw [List.countP_append, hnone]
      simp [isChallenge]
  | waits hstate hout =>
    refine h.quiet (fun m hm => (hout m hm).2) fun h' hg hgreeting => ?_
    obtain rfl := Gate.handshaking.inj hg
    exact h.fresh _ rfl (hstate hgreeting)
  | refused hout => exact h.quiet (fun m hm => (hout m hm).2) (by simp)
  | welcomed => exact h.quiet (by simp [isChallenge]) (by simp)
  | serves hout => exact h.quiet hout (by simp)
  | stays hout =>
    refine h.quiet (fun m hm => ?_) (by simp)
    have herror := hout m hm
    cases m <;> first | rfl | exact absurd herror Bool.false_ne_true

theorem countP_eraseIdx {i : Nat} (h : outbox[i]? = some m) :
    outbox.countP isChallenge =
      (outbox.eraseIdx i).countP isChallenge + if isChallenge m then 1 else 0 := by
  obtain ⟨hi, rfl⟩ := List.getElem?_eq_some_iff.mp h
  rw [← (List.getElem_cons_eraseIdx_perm hi).countP_eq, List.countP_cons]

/-- Once the switch is made no challenge waits. -/
theorem Ready.none_waits {i : Nat} (h : Ready g (some true) outbox) (hqueued : outbox[i]? = some m)
    : isChallenge m = false := by
  have hone := h.one
  rw [countP_eraseIdx hqueued] at hone
  cases hm : isChallenge m with
  | false => rfl
  | true =>
    simp only [hm, if_true, Option.isSome_some] at hone
    omega

/-- A challenge that waits has its seal. -/
theorem Ready.sealed {i : Nat} (h : Ready g s outbox) (hqueued : outbox[i]? = some m)
    (hm : isChallenge m = true) : s = some false := by
  have hone := h.one
  rw [countP_eraseIdx hqueued, if_pos hm] at hone
  cases s with
  | none => simp at hone
  | some out =>
    cases out with
    | false => rfl
    | true =>
      simp only [if_true, Option.isSome_some] at hone
      omega

/-- A message that is dropped unwritten, or is written and makes the switch
if it is the challenge. -/
theorem Ready.write {i : Nat} (h : Ready g s outbox) (hqueued : outbox[i]? = some m) :
    Ready g s (outbox.eraseIdx i) ∧
      Ready g (if isChallenge m then s.map fun _ => true else s) (outbox.eraseIdx i) := by
  have hcount := countP_eraseIdx hqueued
  have hone := h.one
  have hdropped : Ready g s (outbox.eraseIdx i) := ⟨h.fresh, by omega⟩
  refine ⟨hdropped, ?_⟩
  by_cases hm : isChallenge m = true
  · obtain rfl := h.sealed hqueued hm
    rw [if_pos hm] at hcount ⊢
    refine ⟨fun h' hg hstate => ?_, ?_⟩
    · cases h.fresh h' hg hstate
    · simp only [Option.isSome_some, if_true] at hone
      simp only [Option.map_some, Option.isSome_some, if_true]
      omega
  · rw [if_neg hm]
    exact hdropped

end Connection

end Zesterm
