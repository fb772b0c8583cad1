/-
Zesterm.Mesh.PairingTheorems — whom the host handshake lets in.

`Moves` lists what a call can do to a handshake, once. Every law is then a
case analysis on it: a handshake that has a transcript was challenged on it
before (`Challenged`), one that waits for a person has seen a proof over it
(`Proven`), and one that is ready has, beyond that, either found the client
in the store at the moment of the proof or recorded it since (`Admitted`).
`admits_proven` says so of every run.
-/
import Zesterm.Mesh.PreimageTheorems

namespace Zesterm

/-- The client's proof over a transcript verifies, under the key it
claims. -/
def Transcript.Verified (ed : Ed25519) (t : Transcript) (signature : Signature) : Prop :=
  ∃ message, authTranscript t = .ok message ∧
    verifyClient ed t.client .auth message signature = .ok ()

namespace HostHandshake

variable (ed : Ed25519)

/-! ## What a call can do -/

/-- The outcomes of a call. -/
inductive Moves (ed : Ed25519) (c : Suite) (h : HostHandshake) :
    HostCall → HostHandshake → HostReply → Prop
  | challenged {version client label nonce dh random generate t message}
      (hstate : h.state = .greeting)
      (ht : t = { version := version, host := h.identity.id, client := client,
                  hostNonce := random, clientNonce := nonce, hostLabel := h.label,
                  clientLabel := label, hostDh := (generate.public c).bytes,
                  clientDh := dh.bytes })
      (hmessage : authTranscript t = .ok message) :
      Moves ed c h (.onHello version client label nonce dh (some random) (some generate))
        { h with dh := some generate, state := .challenged t }
        { step := some (.challenge random (generate.public c)
            (h.identity.sign ed .auth message)) }
  | refused {call reason} :
      Moves ed c h call { h with state := .refused } { step := some (.refused reason) }
  | welcomed {signature trust t record} (hstate : h.state = .challenged t)
      (hproof : t.Verified ed signature) (htrust : trust.get t.client = .ok (some record)) :
      Moves ed c h (.onAuth signature trust) { h with state := .ready t }
        { step := some .welcome, asked := [.get t.client] }
  | waits {signature trust t code} (hstate : h.state = .challenged t)
      (hproof : t.Verified ed signature) (htrust : trust.get t.client = .ok none) :
      Moves ed c h (.onAuth signature trust) { h with state := .pending t }
        { step := some (.needsApproval code), asked := [.get t.client] }
  | turnedAway {signature trust t reason} (hstate : h.state = .challenged t)
      (hproof : t.Verified ed signature) :
      Moves ed c h (.onAuth signature trust) { h with state := .refused }
        { step := some (.refused reason), asked := [.get t.client] }
  | recorded {trust now t record} (hstate : h.state = .pending t)
      (hrecord : record.client = t.client) (hinsert : trust.insert record = .ok ()) :
      Moves ed c h (.approved trust now) { h with state := .ready t }
        { step := some .welcome, asked := [.insert record] }
  | unrecorded {trust now t record reason} (hstate : h.state = .pending t)
      (hrecord : record.client = t.client) :
      Moves ed c h (.approved trust now) { h with state := .refused }
        { step := some (.refused reason), asked := [.insert record] }
  | ignored {call reason} : Moves ed c h call h { step := some (.refused reason) }
  | kept : Moves ed c h .channel h {}
  | spent (hnone : h.transcript = none) : Moves ed c h .channel { h with dh := none } {}
  | gives {dh t result} (hdh : h.dh = some dh) (ht : h.transcript = some t)
      (hresult : ∀ message, authTranscript t = .ok message →
        result = dh.agree c ⟨t.clientDh⟩ (c.sha256 message).toList .host) :
      Moves ed c h .channel { h with dh := none } { channel := some result }

theorem moves_onHello (c : Suite) (h : HostHandshake) (version : UInt16) (client : ClientId)
    (label : Str) (nonce : Nonce) (dh : DhPublic) (random : Option Nonce)
    (generate : Option EphemeralDh) :
    h.Moves ed c (.onHello version client label nonce dh random generate)
      (h.onHello ed c version client label nonce dh random generate).1
      { step := some (h.onHello ed c version client label nonce dh random generate).2 } := by
  unfold onHello
  by_cases hstate : h.state = .greeting
  · rw [if_neg (not_not.mpr hstate)]
    by_cases hversion : version = h.version
    · rw [if_neg (not_not.mpr hversion)]
      by_cases hnonce : nonce.bytes = Vector.replicate 32 0
      · rw [if_pos hnonce]
        exact .refused
      · rw [if_neg hnonce]
        cases random with
        | none => exact .refused
        | some random =>
          cases generate with
          | none => exact .refused
          | some generate =>
            dsimp only
            split
            · exact .refused
            · next message hmessage =>
              exact .challenged hstate (by rw [hversion]) hmessage
    · rw [if_pos hversion]
      exact .refused
  · rw [if_pos hstate]
    exact .refused

theorem moves_onAuth (c : Suite) (h : HostHandshake) (signature : Signature) (trust : TrustStore) :
    h.Moves ed c (.onAuth signature trust) (h.onAuth ed c signature trust).1
      { step := some (h.onAuth ed c signature trust).2.1
        asked := (h.onAuth ed c signature trust).2.2 } := by
  unfold onAuth
  cases hstate : h.state with
  | challenged t =>
    dsimp only
    cases hmessage : authTranscript t with
    | error e => exact .refused
    | ok message =>
      dsimp only
      cases hverify : verifyClient ed t.client .auth message signature with
      | error e => exact .refused
      | ok u =>
        have hproof : t.Verified ed signature := ⟨message, hmessage, hverify⟩
        cases htrust : trust.get t.client with
        | error e => exact .turnedAway hstate hproof
        | ok record =>
          cases record with
          | some record => exact .welcomed hstate hproof htrust
          | none =>
            dsimp only
            cases pairingCode c t with
            | ok code => exact .waits hstate hproof htrust
            | error e => exact .turnedAway hstate hproof
  | greeting | pending | ready | refused => exact .refused

theorem moves_approved (c : Suite) (h : HostHandshake) (trust : TrustStore) (now : SystemTime) :
    h.Moves ed c (.approved trust now) (h.approved trust now).1
      { step := some (h.approved trust now).2.1, asked := (h.approved trust now).2.2 } := by
  unfold approved
  cases hstate : h.state with
  | pending t =>
    dsimp only
    cases hinsert : trust.insert { client := t.client, label := t.clientLabel, pairedAt := now,
                                   lastSeen := none } with
    | error e => exact .unrecorded hstate rfl
    | ok u => exact .recorded hstate rfl hinsert
  | greeting | challenged | ready | refused => exact .ignored

theorem moves_channel (c : Suite) (h : HostHandshake) :
    h.Moves ed c .channel (h.channel c).1 { channel := (h.channel c).2 } := by
  unfold channel
  cases hdh : h.dh with
  | none => exact .kept
  | some dh =>
    dsimp only
    have htranscript : ({ h with dh := none } : HostHandshake).transcript = h.transcript := rfl
    rw [htranscript]
    cases ht : h.transcript with
    | none => exact .spent ht
    | some t =>
      dsimp only
      cases hmessage : authTranscript t with
      | error e => exact .gives hdh ht fun message hm => by simp [hmessage] at hm
      | ok message =>
        refine .gives hdh ht fun message' hm => ?_
        rw [hmessage] at hm
        rw [Except.ok.inj hm]

theorem moves_call (c : Suite) (h : HostHandshake) (a : HostCall) :
    h.Moves ed c a (h.call ed c a).1 (h.call ed c a).2 := by
  cases a with
  | onHello version client label nonce dh random generate =>
    exact h.moves_onHello ed c version client label nonce dh random generate
  | onAuth signature trust => exact h.moves_onAuth ed c signature trust
  | approved trust now => exact h.moves_approved ed c trust now
  | denied reason => exact .refused
  | channel => exact h.moves_channel ed c

end HostHandshake

/-! ## What a history shows -/

/-- One call on a host handshake. -/
abbrev HostEntry := Trace.Entry HostHandshake HostCall HostReply

namespace HostEntry

/-- The call that challenged the connection on `t`: a `Hello` answered with
the host's own signature over it. -/
def Challenges (ed : Ed25519) (c : Suite) (e : HostEntry) (t : Transcript) : Prop :=
  ∃ version client label nonce dh random generate message,
    e.call = .onHello version client label nonce dh random (some generate) ∧
      t.version = version ∧ t.client = client ∧ t.clientLabel = label ∧ t.clientNonce = nonce ∧
      t.clientDh = dh.bytes ∧ random = some t.hostNonce ∧ t.hostDh = (generate.public c).bytes ∧
      t.host = e.state.identity.id ∧ t.hostLabel = e.state.label ∧
      authTranscript t = .ok message ∧
      e.reply.step = some (.challenge t.hostNonce ⟨t.hostDh⟩
        (e.state.identity.sign ed .auth message))

/-- The call that saw the client's proof over the transcript it was
challenged on. -/
def Verifies (ed : Ed25519) (e : HostEntry) (t : Transcript) : Prop :=
  e.state.state = .challenged t ∧
    ∃ signature trust, e.call = .onAuth signature trust ∧ t.Verified ed signature

/-- The store knew the client at that moment. -/
def Trusts (e : HostEntry) (t : Transcript) : Prop :=
  ∃ signature trust record, e.call = .onAuth signature trust ∧
    trust.get t.client = .ok (some record)

/-- An approval recorded the client. -/
def Records (e : HostEntry) (t : Transcript) : Prop :=
  ∃ trust now record, e.call = .approved trust now ∧ record.client = t.client ∧
    trust.insert record = .ok ()

end HostEntry

variable (ed : Ed25519) (c : Suite)

/-- The connection was challenged on `t`. -/
def Challenged (H : List HostEntry) (t : Transcript) : Prop := ∃ e ∈ H, e.Challenges ed c t

/-- The client has proved itself over the transcript it was challenged on. -/
def Proven (H : List HostEntry) (t : Transcript) : Prop :=
  ∃ before e after, H = before ++ e :: after ∧ Challenged ed c before t ∧ e.Verifies ed t

/-- It has, and the store knew it then or an approval has recorded it
since. -/
def Admitted (H : List HostEntry) (t : Transcript) : Prop :=
  ∃ before e after, H = before ++ e :: after ∧ Challenged ed c before t ∧ e.Verifies ed t ∧
    (e.Trusts t ∨ ∃ e' ∈ after, e'.Records t)

variable {ed c}

theorem Challenged.append {H : List HostEntry} {t : Transcript} (h : Challenged ed c H t)
    (L : List HostEntry) : Challenged ed c (H ++ L) t := by
  obtain ⟨e, he, hc⟩ := h
  exact ⟨e, List.mem_append_left L he, hc⟩

theorem Proven.append {H : List HostEntry} {t : Transcript} (h : Proven ed c H t)
    (L : List HostEntry) : Proven ed c (H ++ L) t := by
  obtain ⟨before, e, after, rfl, hc, hv⟩ := h
  exact ⟨before, e, after ++ L, by simp, hc, hv⟩

theorem Admitted.append {H : List HostEntry} {t : Transcript} (h : Admitted ed c H t)
    (L : List HostEntry) : Admitted ed c (H ++ L) t := by
  obtain ⟨before, e, after, rfl, hc, hv, ht⟩ := h
  refine ⟨before, e, after ++ L, by simp, hc, hv, ht.imp_right fun ⟨e', he', hr⟩ => ?_⟩
  exact ⟨e', List.mem_append_left L he', hr⟩

/-- The channels handed out. -/
def channels (H : List HostEntry) : List (Except MeshError SecureChannel) :=
  H.filterMap fun e => e.reply.channel

def HostStep.isChallenge : HostStep → Bool
  | .challenge .. => true
  | _ => false

/-- The challenges sent. -/
def challenges (H : List HostEntry) : List HostStep :=
  H.filterMap fun e => e.reply.step.filter HostStep.isChallenge

theorem channels_snoc (H : List HostEntry) (e : HostEntry) :
    channels (H ++ [e]) = channels H ++ e.reply.channel.toList := by
  unfold channels
  rw [List.filterMap_append]
  cases hc : e.reply.channel <;> simp [hc]

theorem challenges_snoc (H : List HostEntry) (e : HostEntry) :
    challenges (H ++ [e]) = challenges H ++ (e.reply.step.filter HostStep.isChallenge).toList := by
  unfold challenges
  rw [List.filterMap_append]
  cases hc : e.reply.step.filter HostStep.isChallenge <;> simp [hc]

/-! ## Along a run -/

/-- What a handshake says of the run behind it. -/
structure HostHandshake.Lawful (ed : Ed25519) (c : Suite) (h : HostHandshake)
    (H : List HostEntry) : Prop where
  fresh : h.state = .greeting → h.dh = none ∧ challenges H = [] ∧ channels H = []
  transcript : ∀ t, h.transcript = some t → Challenged ed c H t
  pending : ∀ t, h.state = .pending t → Proven ed c H t
  ready : ∀ t, h.state = .ready t → Admitted ed c H t
  unspent : h.dh ≠ none → channels H = []
  secret : ∀ dh, h.dh = some dh → ∀ t, h.transcript = some t → t.hostDh = (dh.public c).bytes
  oneChannel : (channels H).length ≤ 1
  oneChallenge : (challenges H).length ≤ 1

namespace HostHandshake

variable {h : HostHandshake} {H : List HostEntry}

theorem lawful_new (identity : HostIdentity) (label : Str) (version : UInt16) :
    (new identity label version).Lawful ed c [] where
  fresh := fun _ => ⟨rfl, rfl, rfl⟩
  transcript := fun t h => by simp [new, HostHandshake.transcript] at h
  pending := fun t h => by simp [new] at h
  ready := fun t h => by simp [new] at h
  unspent := fun _ => rfl
  secret := fun dh h => by simp [new] at h
  oneChannel := Nat.zero_le _
  oneChallenge := Nat.zero_le _

/-- A call that sends no challenge, hands out no channel and keeps the
transcript in hand, if it keeps any. -/
theorem Lawful.quiet {h' : HostHandshake} (hl : h.Lawful ed c H) {e : HostEntry}
    (hchannel : e.reply.channel = none) (hstep : e.reply.step.filter HostStep.isChallenge = none)
    (hfresh : h'.state = .greeting → h.state = .greeting)
    (htranscript : ∀ t, h'.transcript = some t → h.transcript = some t)
    (hpending : ∀ t, h'.state = .pending t → Proven ed c (H ++ [e]) t)
    (hready : ∀ t, h'.state = .ready t → Admitted ed c (H ++ [e]) t)
    (hdh : h'.dh = h.dh ∨ h'.dh = none) : h'.Lawful ed c (H ++ [e]) := by
  have hcs : channels (H ++ [e]) = channels H := by rw [channels_snoc, hchannel]; simp
  have hch : challenges (H ++ [e]) = challenges H := by rw [challenges_snoc, hstep]; simp
  have hkeep {dh : EphemeralDh} (hd : h'.dh = some dh) : h.dh = some dh := by
    rcases hdh with heq | hnone
    · rw [← heq, hd]
    · rw [hnone] at hd
      simp at hd
  constructor
  · intro hg
    obtain ⟨hd, h1, h2⟩ := hl.fresh (hfresh hg)
    refine ⟨?_, by rw [hch, h1], by rw [hcs, h2]⟩
    rcases hdh with heq | hnone
    · rw [heq, hd]
    · exact hnone
  · exact fun t ht => (hl.transcript t (htranscript t ht)).append [e]
  · exact hpending
  · exact hready
  · intro hne
    obtain ⟨dh, hd⟩ := Option.ne_none_iff_exists'.mp hne
    rw [hcs]
    exact hl.unspent (by rw [hkeep hd]; simp)
  · exact fun dh hd t ht => hl.secret dh (hkeep hd) t (htranscript t ht)
  · rw [hcs]
    exact hl.oneChannel
  · rw [hch]
    exact hl.oneChallenge

/-- A refusal ends the connection. -/
theorem Lawful.refused (hl : h.Lawful ed c H) {e : HostEntry} {reason : Refusal}
    (hchannel : e.reply.channel = none) (hstep : e.reply.step = some (.refused reason)) :
    ({ h with state := .refused } : HostHandshake).Lawful ed c (H ++ [e]) := by
  refine hl.quiet hchannel (by rw [hstep]; rfl) ?_ ?_ ?_ ?_ (Or.inl rfl)
  · simp
  · simp [HostHandshake.transcript]
  · simp
  · simp

/-- A call that moves nothing, or takes the secret and gives nothing. -/
theorem Lawful.still {h' : HostHandshake} (hl : h.Lawful ed c H) {e : HostEntry}
    (hchannel : e.reply.channel = none) (hstep : e.reply.step.filter HostStep.isChallenge = none)
    (hstate : h'.state = h.state) (hdh : h'.dh = h.dh ∨ h'.dh = none) :
    h'.Lawful ed c (H ++ [e]) := by
  refine hl.quiet hchannel hstep ?_ ?_ ?_ ?_ hdh
  · rw [hstate]
    exact id
  · intro t ht
    rwa [HostHandshake.transcript, hstate] at ht
  · exact fun t ht => (hl.pending t (hstate ▸ ht)).append [e]
  · exact fun t ht => (hl.ready t (hstate ▸ ht)).append [e]

/-- Every call keeps the laws. -/
theorem Lawful.call (hl : h.Lawful ed c H) (a : HostCall) :
    (h.call ed c a).1.Lawful ed c (H ++ [⟨h, a, (h.call ed c a).2⟩]) := by
  have hm := h.moves_call ed c a
  generalize (h.call ed c a).1 = h', (h.call ed c a).2 = reply at hm ⊢
  cases hm with
  | @challenged version client label nonce dh random generate t message hstate ht hmessage =>
    obtain ⟨-, hchallenges, hchannels⟩ := hl.fresh hstate
    constructor
    · simp
    · intro t' ht'
      obtain rfl : t = t' := by simpa [HostHandshake.transcript] using ht'
      refine ⟨_, List.mem_append_right H (List.mem_singleton_self _), version, client, label, nonce,
        dh, some random, generate, message, rfl, ?_⟩
      subst ht
      exact ⟨rfl, rfl, rfl, rfl, rfl, rfl, rfl, rfl, rfl, hmessage, rfl⟩
    · simp
    · simp
    · intro _
      rw [channels_snoc, hchannels]
      rfl
    · intro d hd t' ht'
      obtain rfl : t = t' := by simpa [HostHandshake.transcript] using ht'
      obtain rfl : generate = d := by simpa using hd
      rw [ht]
    · rw [channels_snoc, hchannels]
      exact Nat.zero_le _
    · rw [challenges_snoc, hchallenges]
      exact Nat.le_refl 1
  | refused | turnedAway | unrecorded => exact hl.refused rfl rfl
  | ignored | kept => exact hl.still rfl rfl rfl (Or.inl rfl)
  | spent => exact hl.still rfl rfl rfl (Or.inr rfl)
  | @welcomed signature trust t record hstate hproof htrust =>
    have htr : h.transcript = some t := by rw [HostHandshake.transcript, hstate]
    refine hl.quiet rfl rfl (by simp) (fun t' ht' => ?_) (by simp) (fun t' ht' => ?_) (Or.inl rfl)
    · obtain rfl : t = t' := by simpa [HostHandshake.transcript] using ht'
      exact htr
    · obtain rfl : t = t' := by simpa using ht'
      exact ⟨H, _, [], rfl, hl.transcript t htr, ⟨hstate, signature, trust, rfl, hproof⟩,
        Or.inl ⟨signature, trust, record, rfl, htrust⟩⟩
  | @waits signature trust t code hstate hproof htrust =>
    have htr : h.transcript = some t := by rw [HostHandshake.transcript, hstate]
    refine hl.quiet rfl rfl (by simp) (fun t' ht' => ?_) (fun t' ht' => ?_) (by simp) (Or.inl rfl)
    · obtain rfl : t = t' := by simpa [HostHandshake.transcript] using ht'
      exact htr
    · obtain rfl : t = t' := by simpa using ht'
      exact ⟨H, _, [], rfl, hl.transcript t htr, ⟨hstate, signature, trust, rfl, hproof⟩⟩
  | @recorded trust now t record hstate hrecord hinsert =>
    have htr : h.transcript = some t := by rw [HostHandshake.transcript, hstate]
    refine hl.quiet rfl rfl (by simp) (fun t' ht' => ?_) (by simp) (fun t' ht' => ?_) (Or.inl rfl)
    · obtain rfl : t = t' := by simpa [HostHandshake.transcript] using ht'
      exact htr
    · obtain rfl : t = t' := by simpa using ht'
      obtain ⟨before, e, after, hH, hc, hv⟩ := hl.pending t hstate
      refine ⟨before, e, after ++ [⟨h, .approved trust now, ⟨some .welcome, [.insert record],
        none⟩⟩], ?_, hc, hv, Or.inr ⟨_, List.mem_append_right after (List.mem_singleton_self _),
        trust, now, record, rfl, hrecord, hinsert⟩⟩
      rw [hH, List.append_assoc]
      rfl
  | @gives dh t result hdh ht hresult =>
    have hnone := hl.unspent (by rw [hdh]; simp)
    constructor
    · intro hg
      have := (hl.fresh hg).1
      rw [hdh] at this
      simp at this
    · exact fun t' ht' => (hl.transcript t' ht').append _
    · exact fun t' ht' => (hl.pending t' ht').append _
    · exact fun t' ht' => (hl.ready t' ht').append _
    · simp
    · simp
    · rw [channels_snoc, hnone]
      exact Nat.le_refl 1
    · rw [challenges_snoc]
      simpa using hl.oneChallenge

theorem lawful_run (identity : HostIdentity) (label : Str) (version : UInt16)
    (calls : List HostCall) :
    (Trace.run (call ed c) (new identity label version) calls).1.Lawful ed c
      (Trace.run (call ed c) (new identity label version) calls).2 :=
  Trace.run_invariant (lawful_new identity label version) (fun _ _ a hl => hl.call a) calls

/-- What a call asks of the store, it asks of a proven client. -/
theorem asked_call (h : HostHandshake) (a : HostCall) :
    (∀ client, .get client ∈ (h.call ed c a).2.asked →
      ∃ t, t.client = client ∧ HostEntry.Verifies ed ⟨h, a, (h.call ed c a).2⟩ t) ∧
    ∀ record, .insert record ∈ (h.call ed c a).2.asked →
      ∃ t, h.state = .pending t ∧ t.client = record.client := by
  have hm := h.moves_call ed c a
  generalize (h.call ed c a).1 = h', (h.call ed c a).2 = reply at hm ⊢
  cases hm with
  | @welcomed signature trust t record hstate hproof =>
    refine ⟨fun client hmem => ⟨t, ?_, hstate, signature, trust, rfl, hproof⟩, by simp⟩
    simpa [eq_comm] using hmem
  | @waits signature trust t code hstate hproof =>
    refine ⟨fun client hmem => ⟨t, ?_, hstate, signature, trust, rfl, hproof⟩, by simp⟩
    simpa [eq_comm] using hmem
  | @turnedAway signature trust t reason hstate hproof =>
    refine ⟨fun client hmem => ⟨t, ?_, hstate, signature, trust, rfl, hproof⟩, by simp⟩
    simpa [eq_comm] using hmem
  | @recorded trust now t record hstate hrecord =>
    refine ⟨by simp, fun r hmem => ⟨t, hstate, ?_⟩⟩
    obtain rfl : r = record := by simpa using hmem
    exact hrecord.symm
  | @unrecorded trust now t record reason hstate hrecord =>
    refine ⟨by simp, fun r hmem => ⟨t, hstate, ?_⟩⟩
    obtain rfl : r = record := by simpa using hmem
    exact hrecord.symm
  | challenged | refused | ignored | kept | spent | gives => simp

/-- A channel is agreed over the transcript the connection was challenged
on. -/
theorem channel_call (hl : h.Lawful ed c H) (a : HostCall) {result : Except MeshError SecureChannel}
    (hr : (h.call ed c a).2.channel = some result) :
    ∃ (t : Transcript) (dh : EphemeralDh), Challenged ed c H t ∧
      t.hostDh = (dh.public c).bytes ∧ ∀ message, authTranscript t = .ok message →
        result = dh.agree c ⟨t.clientDh⟩ (c.sha256 message).toList .host := by
  have hm := h.moves_call ed c a
  generalize (h.call ed c a).1 = h', (h.call ed c a).2 = reply at hm hr
  cases hm with
  | @gives dh t result hdh ht hresult =>
    obtain rfl := Option.some.inj hr
    exact ⟨t, dh, hl.transcript t ht, hl.secret dh hdh t ht, hresult⟩
  | _ => simp at hr

/-- A run of a handshake, from its beginning: the state it ends in and its
history. -/
def after (ed : Ed25519) (c : Suite) (identity : HostIdentity) (label : Str) (version : UInt16)
    (calls : List HostCall) : HostHandshake × List HostEntry :=
  Trace.run (call ed c) (new identity label version) calls

/-- A handshake is ready only for a client that has proved itself over the
transcript it was challenged on and was trusted then or recorded since; the
store is asked about proven clients only; and one channel at most is handed
out, over that transcript. -/
theorem admits_proven (ed : Ed25519) (c : Suite) (identity : HostIdentity) (label : Str)
    (version : UInt16) (calls : List HostCall) :
    (∀ t, (after ed c identity label version calls).1.state = .ready t →
      Admitted ed c (after ed c identity label version calls).2 t ∧
        ∀ signed, ed.Unforgeable t.client.bytes signed →
          ∃ message, authTranscript t = .ok message ∧ signed .client .auth message) ∧
    (∀ before e rest, (after ed c identity label version calls).2 = before ++ e :: rest →
      (∀ client, .get client ∈ e.reply.asked →
        ∃ t, t.client = client ∧ Challenged ed c before t ∧ HostEntry.Verifies ed e t) ∧
      (∀ record, .insert record ∈ e.reply.asked →
        ∃ t, t.client = record.client ∧ Proven ed c before t) ∧
      ∀ result, e.reply.channel = some result →
        ∃ (t : Transcript) (dh : EphemeralDh), Challenged ed c before t ∧
          t.hostDh = (dh.public c).bytes ∧ ∀ message, authTranscript t = .ok message →
            result = dh.agree c ⟨t.clientDh⟩ (c.sha256 message).toList .host) ∧
    (channels (after ed c identity label version calls).2).length ≤ 1 ∧
    (challenges (after ed c identity label version calls).2).length ≤ 1 := by
  have hl := @lawful_run ed c identity label version calls
  refine ⟨fun t ht => ⟨hl.ready t ht, fun signed hed => ?_⟩, fun before e rest hsplit => ?_,
    hl.oneChannel, hl.oneChallenge⟩
  · obtain ⟨_, e, _, _, _, ⟨_, signature, _, _, message, hmessage, hverify⟩, _⟩ := hl.ready t ht
    exact ⟨message, hmessage, signed_of_verifyClient hed hverify⟩
  · obtain ⟨front, _, _, hrun, hreply⟩ := Trace.split_run hsplit
    have hlaw := @lawful_run ed c identity label version front
    rw [hrun] at hlaw
    obtain ⟨state, a, reply⟩ := e
    dsimp only at hlaw hreply
    obtain ⟨hget, hinsert⟩ := @asked_call ed c state a
    rw [← hreply] at hget hinsert
    refine ⟨fun client hmem => ?_, fun record hmem => ?_, fun result hr => ?_⟩
    · obtain ⟨t, ht, hv⟩ := hget client hmem
      exact ⟨t, ht, hlaw.transcript t (by rw [transcript, hv.1]), hv⟩
    · obtain ⟨t, ht, hclient⟩ := hinsert record hmem
      exact ⟨t, hclient, hlaw.pending t ht⟩
    · exact channel_call hlaw a (hreply ▸ hr)

end HostHandshake

end Zesterm
