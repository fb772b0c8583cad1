/-
Zesterm.Daemon.GateTheorems — what a peer may rely on, whatever it sends and
whenever a person decides.

`Sane` is what every run of a connection keeps: a connection that is not
served is idle, and its challenge stands where `Ready` says. `Recalls` ties
the state to the history behind it: a gate that was refused or served is
still, a challenge that was produced left a seal, and the switch is made
exactly where a challenge was written. From the two, `guarded_run`: before
the gate is served only the handshake's own messages are produced, a refused
connection answers by errors alone, a served one serves the same client, the
challenge is the last frame in the open, and no frame past the `Hello` that
produced it is read unopened.
-/
import Zesterm.Daemon.ConnectionTheorems

namespace Zesterm

namespace Connection

variable {M R : Type} (ed : Ed25519) (suite : Suite) (codec : HostCodec M R)
variable {g g' : Gate} {s s' : Option Bool} {out : List (Outgoing M)}

/-! ## The invariant -/

structure Sane (c : Connection M) : Prop where
  idle : (∀ who, c.gate ≠ .served who) → c.Idle
  ready : Ready c.gate c.switch c.outbox

theorem sane_new (identity : HostIdentity) (hostLabel : Str) (auth : Auth) (host : HostId)
    (label : Str) : Sane (new identity hostLabel auth host label : Connection M) :=
  ⟨fun _ => ⟨rfl, rfl, rfl, rfl, rfl⟩, ⟨fun _ _ _ => rfl, Nat.le_refl 0⟩⟩

/-- A gate that has been served stays so. -/
theorem GateMove.served_stays (h : GateMove g s g' s' out) {who : ServedClient}
    (hg : g = .served who) : g' = .served who := by
  cases h with
  | serves => exact hg
  | challenged | waits | refused | welcomed | stays => cases hg

theorem GateMove.refused_stays (h : GateMove g s g' s' out) (hg : g = .refused) :
    g' = .refused ∧ ∀ m ∈ out, isError m = true := by
  cases h with
  | stays hout => exact ⟨rfl, hout⟩
  | challenged | waits | refused | welcomed | serves => cases hg

/-- A move that ends unserved answers by the handshake's own messages. -/
theorem GateMove.handshake (h : GateMove g s g' s' out) (hno : ∀ who, g' ≠ .served who) :
    ∀ m ∈ out, isHandshake m = true := by
  cases h with
  | challenged =>
    intro m hm
    rw [List.mem_singleton.mp hm]
    rfl
  | waits _ hout => exact fun m hm => (hout m hm).1
  | refused hout => exact fun m hm => (hout m hm).1
  | welcomed | serves => exact absurd rfl (hno _)
  | stays hout =>
    intro m hm
    have herror := hout m hm
    cases m <;> first | rfl | exact absurd herror Bool.false_ne_true

/-- A move that opens the gate says so, and nothing else. -/
theorem GateMove.welcome (h : GateMove g s g' s' out) (hno : ∀ who, g ≠ .served who)
    {who : ServedClient} (hg' : g' = .served who) :
    ∃ version host label, out = [.welcome version host label] := by
  cases h with
  | welcomed => exact ⟨_, _, _, rfl⟩
  | serves => exact absurd rfl (hno _)
  | challenged | waits | refused | stays => cases hg'

/-- A seal stays, and comes where there is none. -/
theorem GateMove.seal {outbox : List (Outgoing M)} (h : GateMove g s g' s' out)
    (hready : Ready g s outbox) : s' = s ∨ s = none ∧ s' = some false := by
  cases h with
  | challenged hfresh => exact .inr ⟨hready.fresh _ rfl hfresh, rfl⟩
  | waits | refused | welcomed | serves | stays => exact .inl rfl

/-- Only the move to a seal answers by a challenge. -/
theorem GateMove.challenge (h : GateMove g s g' s' out) (hout : ∃ m ∈ out, isChallenge m = true) :
    s'.isSome = true := by
  obtain ⟨m, hm, hc⟩ := hout
  cases h with
  | challenged => rfl
  | waits _ htalk => simp [(htalk m hm).2] at hc
  | refused htalk => simp [(htalk m hm).2] at hc
  | welcomed =>
    rw [List.mem_singleton.mp hm] at hc
    cases hc
  | serves hserved => simp [hserved m hm] at hc
  | stays herror =>
    have he := herror m hm
    cases m with
    | challenge ch => cases he
    | _ => cases hc

theorem sane_step {c : Connection M} (h : Sane c) (a : Call M R) :
    Sane (c.step ed suite codec a).1 := by
  rcases step_cases ed suite codec h.idle a with hproduces | ⟨i, m, hwrites⟩
  · refine ⟨fun hno => hproduces.idle hno (h.idle fun who hwho => ?_), ?_⟩
    · exact hno who (hproduces.move.served_stays hwho)
    · rw [hproduces.outbox]
      exact h.ready.move hproduces.move
  · obtain ⟨hdropped, hwritten⟩ := h.ready.write hwrites.queued
    refine ⟨fun hno => hwrites.idle (h.idle (hwrites.gate ▸ hno)), ?_⟩
    rw [hwrites.gate, hwrites.outbox]
    rcases hwrites.wrote with ⟨-, hswitch⟩ | ⟨_, -, -, -, hswitch⟩
    · rw [hswitch]
      exact hdropped
    · rw [hswitch]
      exact hwritten

/-! ## The history -/

/-- A call with the reply it got and the connection it found. -/
abbrev Entry (M R : Type) := Trace.Entry (Connection M) (Call M R) (Reply M)

/-- A challenge was produced here. -/
def Challenges (e : Entry M R) : Prop := ∃ m ∈ e.reply.out, isChallenge m = true

/-- A challenge was written here. -/
def WritesChallenge (e : Entry M R) : Prop :=
  ∃ m bytes, e.reply.wrote = some (m, bytes) ∧ isChallenge m = true

/-- What a connection owes to what it has been through. -/
structure Recalls (c : Connection M) (h : List (Entry M R)) : Prop where
  refused : ∀ e ∈ h, e.state.gate = .refused → c.gate = .refused
  served : ∀ e ∈ h, ∀ who, e.state.gate = .served who → c.gate = .served who
  challenged : (∃ e ∈ h, Challenges e) → c.switch.isSome = true
  switched : c.switch = some true ↔ ∃ e ∈ h, WritesChallenge e

/-- The gate and the seal, as a peer sees them at one call of a run. -/
structure Guarded (before : List (Entry M R)) (e : Entry M R) : Prop where
  /-- A call that leaves the gate shut produces the handshake's messages
  alone. -/
  unproved : (∀ who, (e.state.step ed suite codec e.call).1.gate ≠ .served who) →
    ∀ m ∈ e.reply.out, isHandshake m = true
  /-- The call that opens it produces the welcome. -/
  opens : (∀ who, e.state.gate ≠ .served who) →
    ∀ who, (e.state.step ed suite codec e.call).1.gate = .served who →
      ∃ version host label, e.reply.out = [.welcome version host label]
  /-- Once refused, each message gets one error, and nothing else is
  produced. -/
  refused : ∀ e' ∈ before, e'.state.gate = .refused → e.state.gate = .refused
  errors : e.state.gate = .refused → (∀ m ∈ e.reply.out, isError m = true) ∧
    ∀ plain, e.reply.plain = some plain → ∃ text, e.reply.out = [.error text]
  /-- Once served, it is the same client. -/
  served : ∀ e' ∈ before, ∀ who, e'.state.gate = .served who →
    e.state.gate = .served who ∧ (e.state.step ed suite codec e.call).1.gate = .served who
  /-- Frames go in the open until the challenge has. -/
  plain : (¬∃ e' ∈ before, WritesChallenge e') → ∀ m bytes, e.reply.wrote = some (m, bytes) →
    PlainFrame codec m bytes
  /-- They go sealed after it, and there is no other. -/
  sealed : (∃ e' ∈ before, WritesChallenge e') → ∀ m bytes, e.reply.wrote = some (m, bytes) →
    SealedFrame suite codec e.state m bytes ∧ isChallenge m = false
  /-- Frames past the `Hello` that produced it are opened before they are
  read. -/
  opened : (∃ e' ∈ before, Challenges e') → ∀ plain, e.reply.plain = some plain →
    ∃ s body, e.state.seal = some s ∧ e.reply.body = some body ∧
      (s.channel.open suite body).2 = .ok plain

variable {ed suite codec}
variable {h : List (Entry M R)}

/-- A call that writes nothing leaves what is owed as it is, but for the
challenge it may produce. -/
theorem recalls_produces {c' : Connection M} {e : Entry M R} (hrecalls : Recalls e.state h)
    (hready : Ready e.state.gate e.state.switch e.state.outbox)
    (hproduces : Produces suite e.state c' e.reply) : Recalls c' (h ++ [e]) := by
  have hseal := hproduces.move.seal hready
  refine ⟨fun e' he' href => ?_, fun e' he' who hwho => ?_, ?_, ?_⟩
  · rcases List.mem_append.mp he' with hin | hlast
    · exact (hproduces.move.refused_stays (hrecalls.refused e' hin href)).1
    · obtain rfl := List.mem_singleton.mp hlast
      exact (hproduces.move.refused_stays href).1
  · rcases List.mem_append.mp he' with hin | hlast
    · exact hproduces.move.served_stays (hrecalls.served e' hin who hwho)
    · obtain rfl := List.mem_singleton.mp hlast
      exact hproduces.move.served_stays hwho
  · rintro ⟨e', he', hchallenge⟩
    rcases List.mem_append.mp he' with hin | hlast
    · have hsome := hrecalls.challenged ⟨e', hin, hchallenge⟩
      rcases hseal with heq | ⟨hnone, -⟩
      · rw [heq]
        exact hsome
      · rw [hnone] at hsome
        cases hsome
    · obtain rfl := List.mem_singleton.mp hlast
      exact hproduces.move.challenge hchallenge
  · constructor
    · intro hon
      rcases hseal with heq | ⟨-, hoff⟩
      · obtain ⟨e', hin, hw⟩ := hrecalls.switched.mp (heq ▸ hon)
        exact ⟨e', List.mem_append_left _ hin, hw⟩
      · rw [hoff] at hon
        cases hon
    · rintro ⟨e', he', hw⟩
      rcases List.mem_append.mp he' with hin | hlast
      · have hon := hrecalls.switched.mpr ⟨e', hin, hw⟩
        rcases hseal with heq | ⟨hnone, -⟩
        · rw [heq]
          exact hon
        · rw [hnone] at hon
          cases hon
      · obtain rfl := List.mem_singleton.mp hlast
        obtain ⟨m, bytes, hwrote, -⟩ := hw
        rw [hproduces.wrote] at hwrote
        cases hwrote

/-- The writer makes the switch with the challenge, and moves no gate. -/
theorem recalls_writes {c' : Connection M} {e : Entry M R} {i : Nat} {m : Outgoing M}
    (hrecalls : Recalls e.state h) (hready : Ready e.state.gate e.state.switch e.state.outbox)
    (hwrites : Writes suite codec e.state c' i m e.reply) : Recalls c' (h ++ [e]) := by
  have hsilent : ¬Challenges e := by
    rintro ⟨m', hm', -⟩
    rw [hwrites.out] at hm'
    exact absurd hm' List.not_mem_nil
  have hkept : c'.switch = e.state.switch ∧ ¬WritesChallenge e ∨
      e.state.switch = some false ∧ c'.switch = some true ∧ WritesChallenge e := by
    rcases hwrites.wrote with ⟨hnone, hswitch⟩ | ⟨bytes, hwrote, -, -, hswitch⟩
    · refine .inl ⟨hswitch, ?_⟩
      rintro ⟨m', bytes, hwrote, -⟩
      rw [hnone] at hwrote
      cases hwrote
    · by_cases hm : isChallenge m = true
      · have hoff := hready.sealed hwrites.queued hm
        refine .inr ⟨hoff, ?_, m, bytes, hwrote, hm⟩
        rw [hswitch, if_pos hm, hoff]
        rfl
      · rw [if_neg hm] at hswitch
        refine .inl ⟨hswitch, ?_⟩
        rintro ⟨m', bytes', hwrote', hm'⟩
        rw [hwrote] at hwrote'
        obtain ⟨rfl, -⟩ := Prod.mk.inj (Option.some.inj hwrote')
        exact hm hm'
  refine ⟨fun e' he' href => ?_, fun e' he' who hwho => ?_, ?_, ?_⟩
  · rw [hwrites.gate]
    rcases List.mem_append.mp he' with hin | hlast
    · exact hrecalls.refused e' hin href
    · obtain rfl := List.mem_singleton.mp hlast
      exact href
  · rw [hwrites.gate]
    rcases List.mem_append.mp he' with hin | hlast
    · exact hrecalls.served e' hin who hwho
    · obtain rfl := List.mem_singleton.mp hlast
      exact hwho
  · rintro ⟨e', he', hchallenge⟩
    rcases List.mem_append.mp he' with hin | hlast
    · have hsome := hrecalls.challenged ⟨e', hin, hchallenge⟩
      rcases hkept with ⟨hswitch, -⟩ | ⟨-, hon, -⟩
      · rw [hswitch]
        exact hsome
      · rw [hon]
        rfl
    · obtain rfl := List.mem_singleton.mp hlast
      exact absurd hchallenge hsilent
  · constructor
    · intro hon
      rcases hkept with ⟨hswitch, -⟩ | ⟨-, -, hw⟩
      · obtain ⟨e', hin, hw⟩ := hrecalls.switched.mp (hswitch ▸ hon)
        exact ⟨e', List.mem_append_left _ hin, hw⟩
      · exact ⟨e, List.mem_append_right _ (List.mem_singleton_self e), hw⟩
    · rintro ⟨e', he', hw⟩
      rcases hkept with ⟨hswitch, hno⟩ | ⟨-, hon, -⟩
      · rcases List.mem_append.mp he' with hin | hlast
        · rw [hswitch]
          exact hrecalls.switched.mpr ⟨e', hin, hw⟩
        · obtain rfl := List.mem_singleton.mp hlast
          exact absurd hw hno
      · exact hon

/-- What a body comes to, once there is a seal, is what the channel
opens. -/
theorem opened_sealed {c : Connection M} (hseal : c.switch.isSome = true) {body plain : List UInt8}
    (h : opened suite c body = some plain) :
    ∃ s, c.seal = some s ∧ (s.channel.open suite body).2 = .ok plain := by
  unfold switch at hseal
  unfold opened at h
  cases hs : c.seal with
  | none =>
    rw [hs] at hseal
    cases hseal
  | some s =>
    rw [hs] at h
    refine ⟨s, rfl, ?_⟩
    dsimp only at h
    cases hr : (s.channel.open suite body).2 with
    | error e =>
      rw [hr] at h
      cases h
    | ok plain' =>
      rw [hr] at h
      rw [Option.some.inj h]

/-- One call, as a peer sees it. -/
theorem guarded_step {c : Connection M} (hsane : Sane c) (hrecalls : Recalls c h) (a : Call M R) :
    Guarded ed suite codec h ⟨c, a, (c.step ed suite codec a).2⟩ ∧
      Recalls (c.step ed suite codec a).1 (h ++ [⟨c, a, (c.step ed suite codec a).2⟩]) := by
  rcases step_cases ed suite codec hsane.idle a with hproduces | ⟨i, m, hwrites⟩
  · refine ⟨?_, recalls_produces hrecalls hsane.ready hproduces⟩
    have hnothing : ∀ m bytes, (c.step ed suite codec a).2.wrote ≠ some (m, bytes) := by
      simp [hproduces.wrote]
    constructor
    · exact hproduces.move.handshake
    · exact fun hno who => hproduces.move.welcome hno
    · exact hrecalls.refused
    · exact fun href => ⟨(hproduces.move.refused_stays href).2, hproduces.refused href⟩
    · intro e' hin who hwho
      have hgate := hrecalls.served e' hin who hwho
      exact ⟨hgate, hproduces.move.served_stays hgate⟩
    · exact fun _ m bytes hwrote => absurd hwrote (hnothing m bytes)
    · exact fun _ m bytes hwrote => absurd hwrote (hnothing m bytes)
    · intro hchallenged plain hplain
      obtain ⟨body, hbody, hopened⟩ := hproduces.plain plain hplain
      obtain ⟨s, hs, hopen⟩ := opened_sealed (hrecalls.challenged hchallenged) hopened
      exact ⟨s, body, hs, hbody, hopen⟩
  · refine ⟨?_, recalls_writes hrecalls hsane.ready hwrites⟩
    have hout : ∀ m' ∈ (c.step ed suite codec a).2.out, False := by
      simp [hwrites.out]
    have hwrote {m' : Outgoing M} {bytes' : List UInt8}
        (h : (c.step ed suite codec a).2.wrote = some (m', bytes')) :
        (c.switch = some true → SealedFrame suite codec c m' bytes' ∧ isChallenge m' = false) ∧
          (c.switch ≠ some true → PlainFrame codec m' bytes') := by
      rcases hwrites.wrote with ⟨hnone, -⟩ | ⟨bytes, hsome, hsealed, hplain, -⟩
      · rw [hnone] at h
        cases h
      · rw [hsome] at h
        obtain ⟨rfl, rfl⟩ := Prod.mk.inj (Option.some.inj h)
        refine ⟨fun hon => ⟨hsealed hon, ?_⟩, hplain⟩
        have hready := hsane.ready
        rw [hon] at hready
        exact hready.none_waits hwrites.queued
    constructor
    · exact fun _ m' hm' => (hout m' hm').elim
    · intro hno who hwho
      rw [hwrites.gate] at hwho
      exact absurd hwho (hno who)
    · exact hrecalls.refused
    · refine fun _ => ⟨fun m' hm' => (hout m' hm').elim, fun plain hplain => ?_⟩
      rw [hwrites.plain] at hplain
      cases hplain
    · intro e' hin who hwho
      have hgate := hrecalls.served e' hin who hwho
      exact ⟨hgate, hwrites.gate.trans hgate⟩
    · exact fun hnone m' bytes h => (hwrote h).2 fun hon => hnone (hrecalls.switched.mp hon)
    · exact fun hsome m' bytes h => (hwrote h).1 (hrecalls.switched.mpr hsome)
    · intro _ plain hplain
      rw [hwrites.plain] at hplain
      cases hplain

variable (ed suite codec)

/-- In every run of a connection, whatever arrives and whenever a person
decides, nothing is served before the gate is, a refusal and a client stay,
and the seal starts with the challenge on both ways. -/
theorem guarded_run (identity : HostIdentity) (hostLabel : Str) (auth : Auth) (host : HostId)
    (label : Str) (calls : List (Call M R)) :
    Trace.Each (Guarded ed suite codec)
      (Trace.run (step ed suite codec) (new identity hostLabel auth host label) calls).2 := by
  have hnew : Recalls (new identity hostLabel auth host label : Connection M)
      ([] : List (Entry M R)) := by
    refine ⟨by simp, by simp, by simp, ?_⟩
    simp [new, switch]
  have hinv := @Trace.run_invariant _ _ _ (step ed suite codec)
    (new identity hostLabel auth host label)
    (fun c h => Sane c ∧ Recalls c h ∧ Trace.Each (Guarded ed suite codec) h)
    ⟨sane_new identity hostLabel auth host label, hnew, Trace.each_nil _⟩
    (fun c h a hc =>
      have hstep := guarded_step hc.1 hc.2.1 a
      ⟨sane_step ed suite codec hc.1 a, hstep.2, Trace.each_snoc.mpr ⟨hc.2.2, hstep.1⟩⟩) calls
  exact hinv.2.2

end Connection

end Zesterm
