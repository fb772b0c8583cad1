/-
Zesterm.Mesh.SecureTheorems — what a sealed channel delivers.

A direction walks one schedule: `slot` is where it stands after `n`
records, on both ends alike. Sealing uses the slot it stands on and moves
to the next; opening moves only when the record was sealed in that very
slot, which is what an ideal cipher says of a record that opens (`Ideal`).
So the sealer's plaintexts stand in increasing slots, the opener has taken
slot 0, 1, 2, … of them, and what it returned is a prefix
(`channel_delivers`). A channel that has run out of epochs leaves a slot
empty, and its peer stands there for good.
-/
import Zesterm.Mesh.Secure
import Zesterm.Lib.Sequenced

namespace Zesterm

open Coding

/-! ## The schedule -/

/-- The key of an epoch. -/
def epochKey (c : Suite) (key : Vector UInt8 32) : Nat → Vector UInt8 32
  | 0 => key
  | n + 1 => c.hkdfFromPrk (epochKey c key n) (ascii "zesterm-rekey-v1")

/-- Where a direction stands after `n` records. -/
def slot (c : Suite) (key : Vector UInt8 32) (n : Nat) : Direction :=
  { key := epochKey c key (n / rekeyAfter)
    epoch := min (n / rekeyAfter) maxEpoch
    counter := n % rekeyAfter }

theorem slot_zero (c : Suite) (key : Vector UInt8 32) : slot c key 0 = .new key := by
  simp [slot, Direction.new, epochKey]

theorem rekeyAfter_eq : rekeyAfter = 16777216 := by decide

/-- The record after slot `n`: the counter goes on, or the epoch does. -/
theorem succ_slot (n : Nat) :
    (n % rekeyAfter + 1 < rekeyAfter ∧ (n + 1) / rekeyAfter = n / rekeyAfter ∧
      (n + 1) % rekeyAfter = n % rekeyAfter + 1) ∨
    (¬ n % rekeyAfter + 1 < rekeyAfter ∧ (n + 1) / rekeyAfter = n / rekeyAfter + 1 ∧
      (n + 1) % rekeyAfter = 0) := by
  rw [rekeyAfter_eq]
  omega

/-- Advancing is the next slot, also where it fails. -/
theorem advance_slot (c : Suite) (key : Vector UInt8 32) (n : Nat) :
    ((slot c key n).advance c).1 = slot c key (n + 1) := by
  unfold Direction.advance slot
  dsimp only
  rcases succ_slot n with ⟨hlt, hdiv, hmod⟩ | ⟨hge, hdiv, hmod⟩
  · rw [if_pos hlt, hdiv, hmod]
  · rw [if_neg hge, hdiv, hmod, epochKey]
    split
    · next hepoch =>
      rw [Direction.mk.injEq]
      exact ⟨rfl, by omega, rfl⟩
    · next hepoch =>
      rw [Direction.mk.injEq]
      exact ⟨rfl, by omega, rfl⟩

/-- No two of the keys that `n` records can reach are the same: what HKDF is
relied on for. -/
def KeysDiffer (c : Suite) (keyOf : Role → Vector UInt8 32) (n : Nat) : Prop :=
  ∀ side side' i j, i ≤ n / rekeyAfter → j ≤ n / rekeyAfter →
    epochKey c (keyOf side) i = epochKey c (keyOf side') j → side = side' ∧ i = j

/-- Then a slot is known by its key and nonce. -/
theorem slot_injective {c : Suite} {keyOf : Role → Vector UInt8 32} {N : Nat}
    (hkeys : KeysDiffer c keyOf N) {side side' : Role} {n n' : Nat} (hn : n ≤ N) (hn' : n' ≤ N)
    (hkey : (slot c (keyOf side) n).key = (slot c (keyOf side') n').key)
    (hnonce : (slot c (keyOf side) n).nonce = (slot c (keyOf side') n').nonce) :
    side = side' ∧ n = n' := by
  obtain ⟨hside, hepoch⟩ := hkeys side side' _ _ (Nat.div_le_div_right hn)
    (Nat.div_le_div_right hn') hkey
  have hlt (m : Nat) : m % rekeyAfter < 256 ^ 8 := by
    have := Nat.mod_lt m (y := rekeyAfter) (by decide)
    rw [rekeyAfter_eq] at this ⊢
    omega
  have hcounter : n % rekeyAfter = n' % rekeyAfter := by
    unfold Direction.nonce at hnonce
    exact bigEndian_inj (hlt n) (hlt n') (List.append_inj hnonce (by simp)).2
  refine ⟨hside, ?_⟩
  rw [← Nat.div_add_mod n rekeyAfter, ← Nat.div_add_mod n' rekeyAfter, hepoch, hcounter]

/-! ## One record -/

/-- Sealing stays where it is, or uses this slot and moves to the next. -/
theorem sealWith_slot (c : Suite) (key : Vector UInt8 32) (n : Nat) (plaintext : List UInt8) :
    (∃ e, (slot c key n).sealWith c plaintext = (slot c key n, .error e)) ∨
      ((slot c key n).sealWith c plaintext).1 = slot c key (n + 1) ∧
        ∀ record, ((slot c key n).sealWith c plaintext).2 = .ok record →
          ((slot c key n).advance c).2 = .ok () := by
  unfold Direction.sealWith
  split
  · exact Or.inl ⟨_, rfl⟩
  · split
    · exact Or.inl ⟨_, rfl⟩
    · refine Or.inr ⟨advance_slot c key n, fun record hr => ?_⟩
      dsimp only at hr
      cases hadv : ((slot c key n).advance c).2 with
      | ok u => rfl
      | error e =>
        rw [hadv] at hr
        simp [Except.map] at hr

/-- Opening stays where it is, or the record opened. -/
theorem openWith_slot (c : Suite) (key : Vector UInt8 32) (n : Nat) (record : List UInt8) :
    (∃ e, (slot c key n).openWith c record = (slot c key n, .error e)) ∨
      ∃ out, c.decrypt (slot c key n).key (slot c key n).nonce [] record = some out ∧
        ((slot c key n).openWith c record).1 = slot c key (n + 1) ∧
        (((slot c key n).advance c).2 = .ok () →
          ((slot c key n).openWith c record).2 = .ok out) := by
  unfold Direction.openWith
  split
  · exact Or.inl ⟨_, rfl⟩
  · next out hout =>
    refine Or.inr ⟨out, hout, advance_slot c key n, fun hadv => ?_⟩
    dsimp only
    rw [hadv]
    rfl

namespace Link

@[simp] theorem end_setEnd (l : Link) (side : Role) (s : SecureChannel) :
    (l.setEnd side s).end side = s := by
  cases side <;> rfl

theorem end_setEnd_of_ne (l : Link) {side side' : Role} (s : SecureChannel) (h : side' ≠ side) :
    (l.setEnd side s).end side' = l.end side' := by
  cases side <;> cases side' <;> first | rfl | exact absurd rfl h

@[simp] theorem setEnd_end (l : Link) (side : Role) : l.setEnd side (l.end side) = l := by
  cases side <;> rfl

end Link

/-- The two ends of one handshake hold one link, whatever keys it derived. -/
theorem agree_link {c : Suite} {dhHost dhClient : EphemeralDh} {transcriptHash : List UInt8}
    {host client : SecureChannel}
    (hdh : c.diffieHellman dhHost.secret (c.dhPublic dhClient.secret) =
      c.diffieHellman dhClient.secret (c.dhPublic dhHost.secret))
    (hhost : dhHost.agree c (dhClient.public c) transcriptHash .host = .ok host)
    (hclient : dhClient.agree c (dhHost.public c) transcriptHash .client = .ok client) :
    ∃ h2c c2h, (⟨host, client⟩ : Link) = .new h2c c2h := by
  unfold EphemeralDh.agree EphemeralDh.public at hhost hclient
  split at hhost
  · simp at hhost
  · split at hclient
    · simp at hclient
    · dsimp only at hhost hclient
      rw [hdh] at hhost
      split at hhost
      · simp at hhost
      · next hok =>
        rw [if_neg hok] at hclient
        exact ⟨_, _, congrArg₂ Link.mk (Except.ok.inj hhost).symm (Except.ok.inj hclient).symm⟩

/-! ## Histories -/

/-- One call on a link. -/
abbrev LinkEntry := Trace.Entry Link LinkCall (Except MeshError (List UInt8))

namespace LinkEntry

/-- The plaintext `side` sealed. -/
def sealed (side : Role) (e : LinkEntry) : Option (List UInt8) :=
  match e.call, e.reply with
  | .seal side' plaintext, .ok _ => if side' = side then some plaintext else none
  | _, _ => none

/-- The plaintext `side` opened. -/
def opened (side : Role) (e : LinkEntry) : Option (List UInt8) :=
  match e.call, e.reply with
  | .open side' _, .ok plaintext => if side' = side then some plaintext else none
  | _, _ => none

/-- The key and the nonce a record was sealed with. -/
def used (e : LinkEntry) : Option (Vector UInt8 32 × List UInt8) :=
  match e.call, e.reply with
  | .seal side _, .ok _ => some ((e.state.end side).send.key, (e.state.end side).send.nonce)
  | _, _ => none

end LinkEntry

/-- The plaintexts `side` sealed, in order. -/
def sealedBy (side : Role) (H : List LinkEntry) : List (List UInt8) :=
  H.filterMap (LinkEntry.sealed side)

/-- The plaintexts `side` opened, in order. -/
def openedBy (side : Role) (H : List LinkEntry) : List (List UInt8) :=
  H.filterMap (LinkEntry.opened side)

/-- The keys and nonces of the records sealed on either side. -/
def usedNonces (H : List LinkEntry) : List (Vector UInt8 32 × List UInt8) :=
  H.filterMap LinkEntry.used

/-- An ideal cipher: a record opens only under the key and nonce it was
sealed with, and to what was sealed. -/
def Ideal (c : Suite) (H : List LinkEntry) : Prop :=
  ∀ before e after, H = before ++ e :: after → ∀ side record out, e.call = .open side record →
    c.decrypt (e.state.end side).recv.key (e.state.end side).recv.nonce [] record = some out →
      ∃ e' ∈ before, ∃ side', e'.call = .seal side' out ∧ e'.reply = .ok record ∧
        (e'.state.end side').send.key = (e.state.end side).recv.key ∧
        (e'.state.end side').send.nonce = (e.state.end side).recv.nonce

theorem Ideal.init {c : Suite} {H : List LinkEntry} {e : LinkEntry} (h : Ideal c (H ++ [e])) :
    Ideal c H := by
  intro before x after hH
  refine h before x (after ++ [e]) ?_
  rw [hH, List.append_assoc]
  rfl

/-- What a link says of the run behind it: `m` and `j` are the slots its
ends send and receive in, `sent` the plaintexts in their slots. -/
structure Delivering (c : Suite) (keyOf : Role → Vector UInt8 32) (l : Link) (H : List LinkEntry)
    (m j : Role → Nat) (sent : Role → List (Nat × List UInt8)) : Prop where
  send : ∀ side, (l.end side).send = slot c (keyOf side) (m side)
  recv : ∀ side, (l.end side).recv = slot c (keyOf side.peer) (j side)
  send_le : ∀ side, m side ≤ H.length
  recv_le : ∀ side, j side ≤ H.length
  sealed : ∀ side, (sent side).map Prod.snd = sealedBy side H
  ordered : ∀ side, (sent side).Pairwise fun x y => x.1 < y.1
  below : ∀ side, ∀ x ∈ sent side, x.1 < m side
  sealing : ∀ e ∈ H, ∀ side plaintext record, e.call = .seal side plaintext →
    e.reply = .ok record → ∃ n, n < m side ∧ (e.state.end side).send = slot c (keyOf side) n ∧
      (n, plaintext) ∈ sent side ∧ ((slot c (keyOf side) n).advance c).2 = .ok ()
  opened_length : ∀ side, (openedBy side H).length = j side
  opened : ∀ side i plaintext, (openedBy side H)[i]? = some plaintext →
    (i, plaintext) ∈ sent side.peer
  used : ∀ x ∈ usedNonces H, ∃ side n, n < m side ∧
    x = ((slot c (keyOf side) n).key, (slot c (keyOf side) n).nonce)
  nodup : (usedNonces H).Nodup

namespace Delivering

variable {c : Suite} {keyOf : Role → Vector UInt8 32} {l : Link} {H : List LinkEntry}
  {m j : Role → Nat} {sent : Role → List (Nat × List UInt8)}

/-- A call that fails; sealing may still have used its slot. -/
theorem failed (h : Delivering c keyOf l H m j sent) (a : LinkCall) (error : MeshError) {l' : Link}
    {m' : Role → Nat} (hsend : ∀ side, (l'.end side).send = slot c (keyOf side) (m' side))
    (hrecv : ∀ side, (l'.end side).recv = (l.end side).recv) (hm : ∀ side, m side ≤ m' side)
    (hle : ∀ side, m' side ≤ H.length + 1) :
    Delivering c keyOf l' (H ++ [⟨l, a, .error error⟩]) m' j sent := by
  have hs (side : Role) : LinkEntry.sealed side ⟨l, a, .error error⟩ = none := by
    cases a <;> rfl
  have ho (side : Role) : LinkEntry.opened side ⟨l, a, .error error⟩ = none := by
    cases a <;> rfl
  have hu : LinkEntry.used ⟨l, a, .error error⟩ = none := by
    cases a <;> rfl
  have hsealed (side : Role) : sealedBy side (H ++ [⟨l, a, .error error⟩]) = sealedBy side H := by
    rw [sealedBy, List.filterMap_append, List.filterMap_cons_none (hs side)]
    exact List.append_nil _
  have hopened (side : Role) : openedBy side (H ++ [⟨l, a, .error error⟩]) = openedBy side H := by
    rw [openedBy, List.filterMap_append, List.filterMap_cons_none (ho side)]
    exact List.append_nil _
  have hused : usedNonces (H ++ [⟨l, a, .error error⟩]) = usedNonces H := by
    rw [usedNonces, List.filterMap_append, List.filterMap_cons_none hu]
    exact List.append_nil _
  refine ⟨hsend, fun side => (hrecv side).trans (h.recv side), fun side => by
      rw [List.length_append]; exact hle side, fun side => by
      rw [List.length_append]; exact (h.recv_le side).trans (Nat.le_add_right _ _), ?_, h.ordered,
    fun side x hx => (h.below side x hx).trans_le (hm side), ?_, ?_, ?_, ?_, ?_⟩
  · exact fun side => (h.sealed side).trans (hsealed side).symm
  · intro e he side plaintext record hcall hreply
    rcases List.mem_append.mp he with he | he
    · obtain ⟨n, hn, hrest⟩ := h.sealing e he side plaintext record hcall hreply
      exact ⟨n, hn.trans_le (hm side), hrest⟩
    · rw [List.mem_singleton.mp he] at hreply
      simp at hreply
  · exact fun side => (congrArg List.length (hopened side)).trans (h.opened_length side)
  · intro side i plaintext hp
    rw [hopened] at hp
    exact h.opened side i plaintext hp
  · intro x hx
    rw [hused] at hx
    obtain ⟨side, n, hn, hrest⟩ := h.used x hx
    exact ⟨side, n, hn.trans_le (hm side), hrest⟩
  · rw [hused]
    exact h.nodup

/-- A record sealed: the plaintext stands in the slot it was sealed in. -/
theorem sealed_ok (h : Delivering c keyOf l H m j sent) {N : Nat} (hkeys : KeysDiffer c keyOf N)
    (hN : H.length ≤ N) {side : Role} {plaintext record : List UInt8}
    (hadv : ((slot c (keyOf side) (m side)).advance c).2 = .ok ()) {l' : Link}
    (hsend : ∀ s, (l'.end s).send = slot c (keyOf s) (Function.update m side (m side + 1) s))
    (hrecv : ∀ s, (l'.end s).recv = (l.end s).recv) :
    Delivering c keyOf l' (H ++ [⟨l, .seal side plaintext, .ok record⟩])
      (Function.update m side (m side + 1)) j
      (Function.update sent side (sent side ++ [(m side, plaintext)])) := by
  have hm (s : Role) : m s ≤ Function.update m side (m side + 1) s := by
    by_cases hs : s = side
    · rw [hs, Function.update_self]
      exact Nat.le_succ _
    · rw [Function.update_of_ne hs]
  have hsub (s : Role) : ∀ x ∈ sent s,
      x ∈ Function.update sent side (sent side ++ [(m side, plaintext)]) s := by
    intro x hx
    by_cases hs : s = side
    · rw [hs] at hx ⊢
      rw [Function.update_self]
      exact List.mem_append_left _ hx
    · rwa [Function.update_of_ne hs]
  have hopened (s : Role) : openedBy s (H ++ [⟨l, .seal side plaintext, .ok record⟩]) =
      openedBy s H := by
    rw [openedBy, List.filterMap_append]
    exact List.append_nil _
  have hused : usedNonces (H ++ [⟨l, .seal side plaintext, .ok record⟩]) = usedNonces H ++
      [((slot c (keyOf side) (m side)).key, (slot c (keyOf side) (m side)).nonce)] := by
    rw [usedNonces, List.filterMap_append, ← h.send side]
    rfl
  refine ⟨hsend, fun s => (hrecv s).trans (h.recv s), fun s => ?_, fun s => ?_, fun s => ?_,
    fun s => ?_, fun s x hx => ?_, fun e he s p r hcall hreply => ?_, fun s => ?_,
    fun s i p hp => ?_, fun x hx => ?_, ?_⟩
  · rw [List.length_append]
    by_cases hs : s = side
    · rw [hs, Function.update_self]
      exact Nat.succ_le_succ (h.send_le side)
    · rw [Function.update_of_ne hs]
      exact (h.send_le s).trans (Nat.le_add_right _ _)
  · rw [List.length_append]
    exact (h.recv_le s).trans (Nat.le_add_right _ _)
  · rw [sealedBy, List.filterMap_append]
    by_cases hs : s = side
    · rw [hs, Function.update_self, List.map_append, h.sealed side]
      simp [sealedBy, LinkEntry.sealed]
    · rw [Function.update_of_ne hs, h.sealed s]
      simp [sealedBy, LinkEntry.sealed, Ne.symm hs]
  · by_cases hs : s = side
    · rw [hs, Function.update_self]
      refine List.pairwise_append.mpr ⟨h.ordered side, List.pairwise_singleton _ _, ?_⟩
      intro x hx y hy
      rw [List.mem_singleton.mp hy]
      exact h.below side x hx
    · rw [Function.update_of_ne hs]
      exact h.ordered s
  · by_cases hs : s = side
    · rw [hs, Function.update_self] at hx ⊢
      rcases List.mem_append.mp hx with hx | hx
      · exact (h.below side x hx).trans (Nat.lt_succ_self _)
      · rw [List.mem_singleton.mp hx]
        exact Nat.lt_succ_self _
    · rw [Function.update_of_ne hs] at hx ⊢
      exact h.below s x hx
  · rcases List.mem_append.mp he with he | he
    · obtain ⟨n, hn, hslot, hmem, hok⟩ := h.sealing e he s p r hcall hreply
      exact ⟨n, hn.trans_le (hm s), hslot, hsub s _ hmem, hok⟩
    · obtain rfl := List.mem_singleton.mp he
      obtain ⟨rfl, rfl⟩ : side = s ∧ plaintext = p := by simpa using hcall
      refine ⟨m side, ?_, h.send side, ?_, hadv⟩
      · rw [Function.update_self]
        exact Nat.lt_succ_self _
      · rw [Function.update_self]
        exact List.mem_append_right _ (List.mem_singleton_self _)
  · exact (congrArg List.length (hopened s)).trans (h.opened_length s)
  · rw [hopened] at hp
    exact hsub s.peer _ (h.opened s i p hp)
  · rw [hused] at hx
    rcases List.mem_append.mp hx with hx | hx
    · obtain ⟨s, n, hn, hrest⟩ := h.used x hx
      exact ⟨s, n, hn.trans_le (hm s), hrest⟩
    · refine ⟨side, m side, ?_, List.mem_singleton.mp hx⟩
      rw [Function.update_self]
      exact Nat.lt_succ_self _
  · rw [hused]
    refine List.nodup_append.mpr ⟨h.nodup, List.nodup_singleton _, fun x hx y hy => ?_⟩
    rw [List.mem_singleton.mp hy]
    -- An older record would have to stand in this very slot.
    rintro rfl
    obtain ⟨s, n, hn, heq⟩ := h.used _ hx
    obtain ⟨hkey, hnonce⟩ := Prod.mk.inj heq
    obtain ⟨rfl, rfl⟩ := slot_injective hkeys ((h.send_le side).trans hN)
      ((hn.le.trans (h.send_le s)).trans hN) hkey hnonce
    exact lt_irrefl _ hn

/-- A record opened: it is the plaintext of the slot the opener stands
in. -/
theorem opened_ok (h : Delivering c keyOf l H m j sent) {side : Role}
    {plaintext record : List UInt8} (hmem : (j side, plaintext) ∈ sent side.peer) {l' : Link}
    (hsend : ∀ s, (l'.end s).send = (l.end s).send)
    (hrecv : ∀ s, (l'.end s).recv =
      slot c (keyOf s.peer) (Function.update j side (j side + 1) s)) :
    Delivering c keyOf l' (H ++ [⟨l, .open side record, .ok plaintext⟩]) m
      (Function.update j side (j side + 1)) sent := by
  have hsealed (s : Role) : sealedBy s (H ++ [⟨l, .open side record, .ok plaintext⟩]) =
      sealedBy s H := by
    rw [sealedBy, List.filterMap_append]
    exact List.append_nil _
  have hused : usedNonces (H ++ [⟨l, .open side record, .ok plaintext⟩]) = usedNonces H := by
    rw [usedNonces, List.filterMap_append]
    exact List.append_nil _
  have hself : openedBy side (H ++ [⟨l, .open side record, .ok plaintext⟩]) =
      openedBy side H ++ [plaintext] := by
    rw [openedBy, List.filterMap_append]
    simp [openedBy, LinkEntry.opened]
  have hother {s : Role} (hs : s ≠ side) :
      openedBy s (H ++ [⟨l, .open side record, .ok plaintext⟩]) = openedBy s H := by
    rw [openedBy, List.filterMap_append]
    simp [openedBy, LinkEntry.opened, Ne.symm hs]
  refine ⟨fun s => (hsend s).trans (h.send s), hrecv, fun s => ?_, fun s => ?_,
    fun s => (h.sealed s).trans (hsealed s).symm, h.ordered, h.below,
    fun e he s p r hcall hreply => ?_, fun s => ?_, fun s i p hp => ?_, ?_, ?_⟩
  · rw [List.length_append]
    exact (h.send_le s).trans (Nat.le_add_right _ _)
  · rw [List.length_append]
    by_cases hs : s = side
    · rw [hs, Function.update_self]
      exact Nat.succ_le_succ (h.recv_le side)
    · rw [Function.update_of_ne hs]
      exact (h.recv_le s).trans (Nat.le_add_right _ _)
  · rcases List.mem_append.mp he with he | he
    · exact h.sealing e he s p r hcall hreply
    · rw [List.mem_singleton.mp he] at hcall
      simp at hcall
  · by_cases hs : s = side
    · rw [hs, hself, List.length_append, h.opened_length side, Function.update_self]
      rfl
    · rw [hother hs, h.opened_length s, Function.update_of_ne hs]
  · by_cases hs : s = side
    · rw [hs, hself] at hp
      rcases lt_trichotomy i (openedBy side H).length with hi | hi | hi
      · rw [List.getElem?_append_left hi] at hp
        rw [hs]
        exact h.opened side i p hp
      · rw [hi, List.getElem?_concat_length] at hp
        rw [hs, hi, h.opened_length side, ← Option.some.inj hp]
        exact hmem
      · rw [List.getElem?_eq_none (by rw [List.length_append]; exact hi)] at hp
        simp at hp
    · rw [hother hs] at hp
      exact h.opened s i p hp
  · rw [hused]
    exact h.used
  · rw [hused]
    exact h.nodup

/-- Opening fails and moves nothing, or takes the plaintext of the slot the
opener stands in. -/
theorem open_cases (h : Delivering c keyOf l H m j sent) {N : Nat} (hkeys : KeysDiffer c keyOf N)
    (hN : H.length ≤ N) {side : Role} {record : List UInt8}
    {reply : Except MeshError (List UInt8)}
    (hideal : Ideal c (H ++ [⟨l, .open side record, reply⟩])) :
    (∃ error, l.call c (.open side record) = (l, .error error)) ∨
      ∃ plaintext, (j side, plaintext) ∈ sent side.peer ∧
        (l.call c (.open side record)).2 = .ok plaintext ∧
        (l.call c (.open side record)).1 =
          l.setEnd side { l.end side with recv := slot c (keyOf side.peer) (j side + 1) } := by
  have hcall : l.call c (.open side record) =
      (l.setEnd side { l.end side with recv := ((l.end side).recv.openWith c record).1 },
        ((l.end side).recv.openWith c record).2) := rfl
  rw [hcall, h.recv side]
  rcases openWith_slot c (keyOf side.peer) (j side) record with ⟨error, heq⟩ | ⟨out, hout, hnext, hok⟩
  · refine Or.inl ⟨error, ?_⟩
    rw [heq]
    dsimp only
    rw [← h.recv side]
    exact congrArg (·, Except.error error) (l.setEnd_end side)
  · -- The record was sealed under this key and nonce, so in this slot.
    obtain ⟨e, he, side', hcall', hreply, hkey, hnonce⟩ := hideal H _ [] rfl side record out rfl
      (by rw [h.recv side]; exact hout)
    obtain ⟨n, hn, hslot, hmem, hadv⟩ := h.sealing e he side' out record hcall' hreply
    rw [hslot, h.recv side] at hkey hnonce
    obtain ⟨rfl, rfl⟩ := slot_injective hkeys ((hn.le.trans (h.send_le side')).trans hN)
      ((h.recv_le side).trans hN) hkey hnonce
    exact Or.inr ⟨out, hmem, hok hadv, by rw [hnext]⟩

/-- Every call goes on delivering. -/
theorem call (h : Delivering c keyOf l H m j sent) {N : Nat} (hkeys : KeysDiffer c keyOf N)
    (hN : H.length ≤ N) (a : LinkCall) (hideal : Ideal c (H ++ [⟨l, a, (l.call c a).2⟩])) :
    ∃ m j sent, Delivering c keyOf (l.call c a).1 (H ++ [⟨l, a, (l.call c a).2⟩]) m j sent := by
  have hlast (side : Role) : m side ≤ H.length + 1 := (h.send_le side).trans (Nat.le_succ _)
  cases a with
  | «open» side record =>
    rcases h.open_cases hkeys hN hideal with ⟨error, heq⟩ | ⟨plaintext, hmem, hok, hlink⟩
    · rw [heq]
      exact ⟨m, j, sent, h.failed _ error h.send (fun _ => rfl) (fun _ => Nat.le_refl _) hlast⟩
    · rw [hok, hlink]
      refine ⟨m, _, sent, h.opened_ok hmem (fun s => ?_) fun s => ?_⟩
      · by_cases hs : s = side
        · rw [hs, Link.end_setEnd]
        · rw [Link.end_setEnd_of_ne _ _ hs]
      · by_cases hs : s = side
        · rw [hs, Link.end_setEnd, Function.update_self]
        · rw [Link.end_setEnd_of_ne _ _ hs, Function.update_of_ne hs]
          exact h.recv s
  | «seal» side plaintext =>
    have hcall : l.call c (.seal side plaintext) =
        (l.setEnd side { l.end side with send := ((l.end side).send.sealWith c plaintext).1 },
          ((l.end side).send.sealWith c plaintext).2) := rfl
    have hrecv (d : Direction) (s : Role) :
        ((l.setEnd side { l.end side with send := d }).end s).recv = (l.end s).recv := by
      by_cases hs : s = side
      · rw [hs, Link.end_setEnd]
      · rw [Link.end_setEnd_of_ne _ _ hs]
    rw [hcall, h.send side]
    rcases sealWith_slot c (keyOf side) (m side) plaintext with ⟨error, heq⟩ | ⟨hnext, hadv⟩
    · rw [heq]
      refine ⟨m, j, sent, h.failed _ error (fun s => ?_) (hrecv _) (fun _ => Nat.le_refl _) hlast⟩
      by_cases hs : s = side
      · rw [hs, Link.end_setEnd]
      · rw [Link.end_setEnd_of_ne _ _ hs]
        exact h.send s
    · have hsend (s : Role) : ((l.setEnd side { l.end side with send :=
          ((slot c (keyOf side) (m side)).sealWith c plaintext).1 }).end s).send =
            slot c (keyOf s) (Function.update m side (m side + 1) s) := by
        by_cases hs : s = side
        · rw [hs, Link.end_setEnd, Function.update_self, hnext]
        · rw [Link.end_setEnd_of_ne _ _ hs, Function.update_of_ne hs]
          exact h.send s
      cases hr : ((slot c (keyOf side) (m side)).sealWith c plaintext).2 with
      | ok record =>
        exact ⟨_, j, _, h.sealed_ok hkeys hN (hadv record hr) hsend (hrecv _)⟩
      | error error =>
        refine ⟨_, j, sent, h.failed _ error hsend (hrecv _) (fun s => ?_) fun s => ?_⟩
        · by_cases hs : s = side
          · rw [hs, Function.update_self]
            exact Nat.le_succ _
          · rw [Function.update_of_ne hs]
        · by_cases hs : s = side
          · rw [hs, Function.update_self]
            exact Nat.succ_le_succ (h.send_le side)
          · rw [Function.update_of_ne hs]
            exact hlast s

end Delivering

/-! ## Along a run -/

/-- The key each end of a link seals with. -/
def sendKey (h2c c2h : Vector UInt8 32) : Role → Vector UInt8 32
  | .host => h2c
  | .client => c2h

theorem delivering_new (c : Suite) (h2c c2h : Vector UInt8 32) :
    Delivering c (sendKey h2c c2h) (.new h2c c2h) [] (fun _ => 0) (fun _ => 0) fun _ => [] := by
  refine ⟨fun side => ?_, fun side => ?_, fun _ => Nat.le_refl 0, fun _ => Nat.le_refl 0,
    fun _ => rfl, fun _ => List.Pairwise.nil, by simp, by simp, fun _ => rfl, ?_, ?_,
    List.nodup_nil⟩
  · rw [slot_zero]
    cases side <;> rfl
  · rw [slot_zero]
    cases side <;> rfl
  · intro side i plaintext h
    simp [openedBy] at h
  · intro x hx
    simp [usedNonces] at hx

theorem delivering_run (c : Suite) (h2c c2h : Vector UInt8 32) {N : Nat}
    (hkeys : KeysDiffer c (sendKey h2c c2h) N) (calls : List LinkCall) (hN : calls.length ≤ N)
    (hideal : Ideal c (Trace.run (Link.call c) (.new h2c c2h) calls).2) :
    ∃ m j sent, Delivering c (sendKey h2c c2h) (Trace.run (Link.call c) (.new h2c c2h) calls).1
      (Trace.run (Link.call c) (.new h2c c2h) calls).2 m j sent := by
  refine Trace.run_invariant (I := fun l H => H.length ≤ N → Ideal c H →
    ∃ m j sent, Delivering c (sendKey h2c c2h) l H m j sent)
    (fun _ _ => ⟨_, _, _, delivering_new c h2c c2h⟩) (fun l H a ih hlen hideal => ?_) calls ?_ hideal
  · have hlen' : H.length ≤ N := by
      rw [List.length_append] at hlen
      exact (Nat.le_add_right _ _).trans hlen
    obtain ⟨m, j, sent, h⟩ := ih hlen' hideal.init
    exact h.call hkeys hlen' a hideal
  · have := congrArg List.length (Trace.map_call_run (Link.call c) (.new h2c c2h) calls)
    rw [List.length_map] at this
    rwa [this]

/-- Over an ideal cipher, whatever records an end is handed: what it has
opened is a prefix of what the other sealed, a record that does not open
changes nothing, and no two records are sealed with one key and nonce. -/
theorem channel_delivers (c : Suite) (h2c c2h : Vector UInt8 32) (calls : List LinkCall)
    (hkeys : KeysDiffer c (sendKey h2c c2h) calls.length)
    (hideal : Ideal c (Trace.run (Link.call c) (.new h2c c2h) calls).2) :
    (∀ side, openedBy side (Trace.run (Link.call c) (.new h2c c2h) calls).2 <+:
      sealedBy side.peer (Trace.run (Link.call c) (.new h2c c2h) calls).2) ∧
    (∀ before e after, (Trace.run (Link.call c) (.new h2c c2h) calls).2 = before ++ e :: after →
      ∀ side record error, e.call = .open side record → e.reply = .error error →
        (e.state.call c e.call).1 = e.state) ∧
    (usedNonces (Trace.run (Link.call c) (.new h2c c2h) calls).2).Nodup := by
  obtain ⟨m, j, sent, h⟩ := delivering_run c h2c c2h hkeys calls (Nat.le_refl _) hideal
  refine ⟨fun side => ?_, ?_, h.nodup⟩
  · rw [← h.sealed side.peer]
    exact Sequenced.prefix_of_slots (h.ordered side.peer) fun i a => h.opened side i a
  · intro before e after hsplit side record error hcall hreply
    obtain ⟨front, back, hcalls, hrun, hans⟩ := Trace.split_run hsplit
    have hlen : front.length ≤ calls.length := by
      rw [hcalls, List.length_append]
      exact Nat.le_add_right _ _
    -- The run up to this record delivered.
    have hbefore : Ideal c (before ++ [e]) := by
      intro b x a hx
      refine hideal b x (a ++ after) ?_
      calc (Trace.run (Link.call c) (.new h2c c2h) calls).2
          = (before ++ [e]) ++ after := by rw [hsplit, List.append_assoc]; rfl
        _ = b ++ x :: (a ++ after) := by rw [hx, List.append_assoc]; rfl
    obtain ⟨m, j, sent, hd⟩ := delivering_run c h2c c2h hkeys front hlen
      (by rw [hrun]; exact hbefore.init)
    rw [hrun] at hd
    have hcount : before.length ≤ calls.length := by
      have := congrArg List.length (Trace.map_call_run (Link.call c) (.new h2c c2h) front)
      rw [hrun, List.length_map] at this
      rw [this]
      exact hlen
    obtain ⟨state, call, reply⟩ := e
    dsimp only at hcall hreply hans hd ⊢
    subst hcall
    rcases hd.open_cases hkeys hcount hbefore with ⟨error', heq⟩ | ⟨plaintext, _, hok, _⟩
    · rw [heq]
    · rw [hreply, hok] at hans
      simp at hans

/-! ### A run -/

/-- A cipher for a test: a record is the key, the nonce and the plaintext. -/
def plainSuite : Suite where
  dhPublic k := k
  diffieHellman k _ := k
  wasContributory _ := true
  hkdf _ k _ := k
  hkdfFromPrk k _ := k
  encrypt key nonce _ msg := some (key.toList ++ nonce ++ msg)
  decrypt key nonce _ record :=
    if record.take 44 = key.toList ++ nonce then some (record.drop 44) else none
  sha256 _ := Vector.replicate 32 0

/-- The record of the host's first frame. -/
def firstRecord : List UInt8 := List.replicate 32 1 ++ List.replicate 12 0 ++ [7, 8]

/-- A frame is sealed and opened, then replayed, then sent back to its
sealer. -/
theorem channel_delivers_replay :
    openedBy .client (Trace.run (Link.call plainSuite)
      (.new (Vector.replicate 32 1) (Vector.replicate 32 2))
      [.seal .host [7, 8], .open .client firstRecord, .open .client firstRecord,
        .open .host firstRecord]).2 <+: [[7, 8]] := by
  refine (channel_delivers plainSuite (Vector.replicate 32 1) (Vector.replicate 32 2)
    [.seal .host [7, 8], .open .client firstRecord, .open .client firstRecord,
      .open .host firstRecord] ?_ ?_).1 .client
  · intro side side' i j hi hj heq
    obtain rfl : i = 0 := Nat.le_zero.mp hi
    obtain rfl : j = 0 := Nat.le_zero.mp hj
    cases side <;> cases side' <;> revert heq <;> decide
  · intro before e after hsplit side record out hopen hout
    obtain ⟨front, back, hcalls, hrun, _⟩ := Trace.split_run hsplit
    obtain ⟨hstate, hbefore⟩ := Prod.mk.inj hrun
    rw [← hstate] at hout ⊢
    rw [← hbefore]
    rw [hopen] at hcalls
    match front, hcalls with
    | [], hcalls => simp at hcalls
    | [_], hcalls =>
      simp only [List.cons_append, List.nil_append, List.cons.injEq, LinkCall.open.injEq] at hcalls
      obtain ⟨rfl, ⟨rfl, rfl⟩, -⟩ := hcalls
      refine ⟨_, List.mem_singleton_self _, .host, ?_⟩
      obtain rfl : out = [7, 8] := by
        refine Option.some.inj (hout.symm.trans ?_)
        decide
      decide
    | [_, _], hcalls =>
      -- The replay stands in the second slot.
      simp only [List.cons_append, List.nil_append, List.cons.injEq, LinkCall.open.injEq] at hcalls
      obtain ⟨rfl, rfl, ⟨rfl, rfl⟩, -⟩ := hcalls
      refine absurd (hout.symm.trans (?_ : _ = none)) (by simp)
      decide
    | [_, _, _], hcalls =>
      simp only [List.cons_append, List.nil_append, List.cons.injEq, LinkCall.open.injEq] at hcalls
      obtain ⟨rfl, rfl, rfl, ⟨rfl, rfl⟩, -⟩ := hcalls
      refine absurd (hout.symm.trans (?_ : _ = none)) (by simp)
      decide
    | _ :: _ :: _ :: _ :: _, hcalls => simp at hcalls

end Zesterm
