/-
Zesterm.Mesh.WebAuthTheorems — the browser's sealed link is the daemon's.

The two write one transcript and show one code, since what a browser reads
from hex is what the daemon holds as bytes. Their directions walk one
schedule: after `n` records the key has been ratcheted `n / 2²⁴` times and
the nonce is the epoch and the counter, on both sides alike, until the
epochs of a `u32` are used up. A record opens only under the nonce it was
sealed with, which is a position's own, so the two ends are in step
(`sealed_link`).
-/
import Zesterm.Lib.InStep
import Zesterm.Mesh.SecureTheorems
import Zesterm.Mesh.WebAuth

namespace Zesterm.WebAuth

open Coding Lockstep

variable (noble : Noble)

/-! ## Hex -/

theorem parseInt16_digits : ∀ a < 16, ∀ b < 16,
    parseInt16 [Nat.digitChar a, Nat.digitChar b] = some ((a * 16 + b : Nat) : Int) := by
  decide

theorem pairs_hexEncode : ∀ bytes : List UInt8, hexToBytes.pairs (hexEncode bytes) = some bytes
  | [] => rfl
  | b :: bytes => by
    have hb := b.toNat_lt
    have hbyte : UInt8.ofNat (((b.toNat / 16 * 16 + b.toNat % 16 : Nat) : Int) % 256).toNat = b := by
      have heq : (((b.toNat / 16 * 16 + b.toNat % 16 : Nat) : Int) % 256).toNat = b.toNat := by omega
      rw [heq, UInt8.ofNat_toNat]
    rw [hexEncode_cons, hexToBytes.pairs, parseInt16_digits _ (by omega) _ (by omega), pairs_hexEncode bytes]
    simp only [Option.bind_eq_bind, Option.bind_some, Option.pure_def, hbyte]

theorem even_length_hexEncode (bytes : List UInt8) : (hexEncode bytes).length % 2 = 0 := by
  rw [length_hexEncode, Nat.mul_mod_left]

/-- The browser reads back what it writes. -/
theorem hexToBytes_bytesToHex (bytes : List UInt8) : hexToBytes (bytesToHex bytes) = some bytes := by
  unfold hexToBytes bytesToHex
  rw [if_neg (not_not.mpr (even_length_hexEncode bytes)), pairs_hexEncode]

theorem fixed_bytesToHex (v : Vector UInt8 32) : fixed (bytesToHex v.toList) 32 = some v.toList := by
  unfold fixed
  rw [hexToBytes_bytesToHex]
  simp

/-! ## Transcript and code -/

/-- A transcript as the browser holds it. -/
def hexed (t : Zesterm.Transcript) : Transcript :=
  { version := t.version.toNat
    host := bytesToHex t.host.bytes.toList
    client := bytesToHex t.client.bytes.toList
    hostNonce := bytesToHex t.hostNonce.bytes.toList
    clientNonce := bytesToHex t.clientNonce.bytes.toList
    hostLabel := t.hostLabel
    clientLabel := t.clientLabel
    hostDh := bytesToHex t.hostDh.toList
    clientDh := bytesToHex t.clientDh.toList }

theorem ofNat_low {m n : Nat} (h : m % 256 = n % 256) : UInt8.ofNat m = UInt8.ofNat n := by
  rw [← UInt8.toNat_inj, UInt8.toNat_ofNat', UInt8.toNat_ofNat']
  exact h

theorem lenPrefixed_eq (label : Str) (what : Str) :
    lenPrefixed label = (lenPrefix (toUtf8 label) what).toOption.map
      fun n => bigEndian 2 n ++ toUtf8 label := by
  unfold lenPrefixed lenPrefix
  dsimp only
  by_cases h : (toUtf8 label).length < 65536
  · have hlow : UInt8.ofNat ((toUtf8 label).length % 256) = UInt8.ofNat (toUtf8 label).length :=
      ofNat_low (by omega)
    rw [if_neg (by omega), if_pos h, hlow]
    rfl
  · rw [if_pos (by omega), if_neg h]
    rfl

theorem version_bytes (v : UInt16) :
    [UInt8.ofNat (v.toNat / 256 % 256), UInt8.ofNat (v.toNat % 256)] = bigEndian 2 v.toNat := by
  have hhigh : UInt8.ofNat (v.toNat / 256 % 256) = UInt8.ofNat (v.toNat / 256) :=
    ofNat_low (by omega)
  have hlow : UInt8.ofNat (v.toNat % 256) = UInt8.ofNat v.toNat := ofNat_low (by omega)
  rw [hhigh, hlow]
  rfl

/-- One transcript: both refuse a label that is too long, or write the same
bytes. -/
theorem authTranscript_hexed (t : Zesterm.Transcript) :
    authTranscript (hexed t) = (Zesterm.authTranscript t).toOption := by
  unfold authTranscript Zesterm.authTranscript
  simp only [hexed, fixed_bytesToHex, version_bytes, Option.bind_eq_bind, Option.bind_some,
    lenPrefixed_eq t.hostLabel "host label".toList,
    lenPrefixed_eq t.clientLabel "client label".toList]
  cases lenPrefix (toUtf8 t.hostLabel) "host label".toList with
  | error e => rfl
  | ok hostLen =>
    cases lenPrefix (toUtf8 t.clientLabel) "client label".toList with
    | error e => rfl
    | ok clientLen =>
      simp only [Except.toOption, Option.map_some, Option.bind_some, Option.pure_def,
        List.append_assoc]
      rfl

/-- The same calls as the daemon's crates make them. A shared secret is
contributory when it is not zero, and HKDF expands what it extracted. -/
def Noble.suite (noble : Noble) : Suite where
  dhPublic := noble.getPublicKey
  diffieHellman := noble.getSharedSecret
  wasContributory shared := !shared.toList.all (· == 0)
  hkdf salt secret label := noble.expand (noble.extract secret salt) label
  hkdfFromPrk := noble.expand
  encrypt key nonce _ message := noble.encrypt key nonce message
  decrypt key nonce _ record := noble.decrypt key nonce record
  sha256 := noble.sha256

theorem leading_bytes (digest : Vector UInt8 32) :
    (digest.toList.take 4).foldl (fun n b => n * 256 + b.toNat) 0 =
      (digest.toList.getD 0 0).toNat * 2 ^ 24 + (digest.toList.getD 1 0).toNat * 2 ^ 16 +
        (digest.toList.getD 2 0).toNat * 2 ^ 8 + (digest.toList.getD 3 0).toNat := by
  have hlen : digest.toList.length = 32 := Vector.length_toList
  generalize digest.toList = bytes at hlen
  obtain _ | ⟨a, _ | ⟨b, _ | ⟨c, _ | ⟨d, rest⟩⟩⟩⟩ := bytes
  · simp at hlen
  · simp at hlen
  · simp at hlen
  · simp at hlen
  · simp only [List.take_succ_cons, List.take_zero, List.foldl_cons, List.foldl_nil,
      List.getD_cons_zero, List.getD_cons_succ]
    omega

/-- One code on the two screens. -/
theorem pairingCode_hexed (t : Zesterm.Transcript) :
    pairingCode noble (hexed t) = (Zesterm.pairingCode noble.suite t).toOption := by
  unfold pairingCode Zesterm.pairingCode
  rw [authTranscript_hexed]
  cases Zesterm.authTranscript t with
  | error e => rfl
  | ok message =>
    change some (padStart (showNat (_ % 10 ^ 6)) 6 '0') = some _
    rw [← leading_bytes]
    rfl

/-! ## The schedule -/

/-- Where the browser's direction stands after `n` records. -/
def webSlot (noble : Noble) (key : Vector UInt8 32) (n : Nat) : Direction :=
  { key := epochKey noble.suite key (n / rekeyAfter)
    epoch := n / rekeyAfter
    counter := n % rekeyAfter }

theorem webSlot_zero (key : Vector UInt8 32) : webSlot noble key 0 = .new key := by
  simp [webSlot, Direction.new, epochKey]

theorem advance_webSlot (key : Vector UInt8 32) (n : Nat) :
    (webSlot noble key n).advance noble = webSlot noble key (n + 1) := by
  unfold Direction.advance webSlot
  dsimp only
  rcases succ_slot n with ⟨hlt, hdiv, hmod⟩ | ⟨hge, hdiv, hmod⟩
  · change n % rekeyAfter + 1 < rekeyAfter at hlt
    change (n + 1) / rekeyAfter = n / rekeyAfter at hdiv
    change (n + 1) % rekeyAfter = n % rekeyAfter + 1 at hmod
    rw [if_pos hlt, hdiv, hmod]
  · change ¬ n % rekeyAfter + 1 < rekeyAfter at hge
    change (n + 1) / rekeyAfter = n / rekeyAfter + 1 at hdiv
    change (n + 1) % rekeyAfter = 0 at hmod
    rw [if_neg hge, hdiv, hmod]
    rfl

/-- The records a direction has epochs for: the ratchets they turn count up
to `u32::MAX`. -/
def epochLimit : Nat := rekeyAfter * 2 ^ 32 - 1

theorem epoch_lt {n : Nat} (h : n < epochLimit) : n / rekeyAfter ≤ maxEpoch ∧
    n / rekeyAfter < 2 ^ 32 := by
  have hlt : n < rekeyAfter * 2 ^ 32 := Nat.lt_of_lt_of_le h (Nat.sub_le _ _)
  have hdiv := Nat.div_lt_of_lt_mul hlt
  exact ⟨Nat.le_of_lt_succ hdiv, hdiv⟩

/-- The two directions seal with one key. -/
theorem slot_key (key : Vector UInt8 32) (n : Nat) :
    (slot noble.suite key n).key = (webSlot noble key n).key := rfl

/-- And under one nonce, while the epochs last. -/
theorem slot_nonce (key : Vector UInt8 32) {n : Nat} (h : n < epochLimit) :
    (slot noble.suite key n).nonce = (webSlot noble key n).nonce := by
  obtain ⟨hmax, hlt⟩ := epoch_lt h
  have hepoch : min (n / rekeyAfter) maxEpoch = n / rekeyAfter % 2 ^ 32 := by
    rw [Nat.min_eq_left hmax, Nat.mod_eq_of_lt hlt]
  unfold Zesterm.Direction.nonce Direction.nonce slot webSlot
  dsimp only
  change bigEndian 4 (min (n / rekeyAfter) maxEpoch) ++ bigEndian 8 (n % rekeyAfter) = _
  rw [hepoch]

theorem length_nonce (d : Direction) : d.nonce.length = 12 := by
  rw [Direction.nonce, List.length_append, length_bigEndian, length_bigEndian]

/-- No two positions have one nonce. -/
theorem webSlot_nonce_injective (key key' : Vector UInt8 32) {n m : Nat} (hn : n < epochLimit)
    (hm : m < epochLimit) (h : (webSlot noble key n).nonce = (webSlot noble key' m).nonce) :
    n = m := by
  have hcounter (n : Nat) : n % rekeyAfter < 256 ^ 8 :=
    Nat.lt_trans (Nat.mod_lt n (by decide)) (by decide)
  unfold Direction.nonce webSlot at h
  dsimp only at h
  obtain ⟨hepoch, hlow⟩ := List.append_inj h (by simp)
  rw [Nat.mod_eq_of_lt (epoch_lt hn).2, Nat.mod_eq_of_lt (epoch_lt hm).2] at hepoch
  have hdiv : n / rekeyAfter = m / rekeyAfter :=
    bigEndian_inj (epoch_lt hn).2 (epoch_lt hm).2 hepoch
  have hmod : n % rekeyAfter = m % rekeyAfter := bigEndian_inj (hcounter n) (hcounter m) hlow
  rw [← Nat.div_add_mod n rekeyAfter, ← Nat.div_add_mod m rekeyAfter, hdiv, hmod]

/-! ## One record -/

/-- What the ciphers are relied on for. -/
structure Noble.Lawful (noble : Noble) : Prop where
  /-- Both ends of an exchange get one secret. -/
  commutes (a b : Vector UInt8 32) : noble.getSharedSecret a (noble.getPublicKey b) =
    noble.getSharedSecret b (noble.getPublicKey a)
  /-- What was encrypted decrypts. -/
  decrypts {key : Vector UInt8 32} {nonce message record : List UInt8} : nonce.length = 12 →
    noble.encrypt key nonce message = some record → noble.decrypt key nonce record = some message
  /-- And under no other nonce. -/
  authentic {key key' : Vector UInt8 32} {nonce nonce' message message' record : List UInt8} :
    nonce.length = 12 → nonce'.length = 12 → noble.encrypt key nonce message = some record →
    noble.decrypt key' nonce' record = some message' → nonce' = nonce

variable {noble : Noble}

/-- A record sealed at one position decrypts at that position alone. -/
theorem decrypt_webSlot (laws : noble.Lawful) (key : Vector UInt8 32) {n m : Nat}
    (hn : n < epochLimit) (hm : m < epochLimit) {message record : List UInt8}
    (h : noble.encrypt (webSlot noble key n).key (webSlot noble key n).nonce message = some record) :
    noble.decrypt (webSlot noble key m).key (webSlot noble key m).nonce record =
      if n = m then some message else none := by
  by_cases hnm : n = m
  · rw [if_pos hnm, ← hnm]
    exact laws.decrypts (length_nonce _) h
  · rw [if_neg hnm, Option.eq_none_iff_forall_ne_some]
    intro message' h'
    have hnonce := laws.authentic (length_nonce _) (length_nonce _) h h'
    exact hnm (webSlot_nonce_injective noble key key hm hn hnonce).symm

/-- While the epochs last the daemon's direction advances. -/
theorem advance_position (noble : Noble) (key : Vector UInt8 32) {n : Nat} (h : n < epochLimit) :
    (slot noble.suite key n).advance noble.suite = (slot noble.suite key (n + 1), .ok ()) := by
  have hlimit : epochLimit = 16777216 * 4294967296 - 1 := by decide
  refine Prod.ext (advance_slot noble.suite key n) ?_
  unfold Zesterm.Direction.advance slot
  dsimp only
  split
  · rfl
  · next hwrap =>
    have hepoch : min (n / Zesterm.rekeyAfter) maxEpoch < maxEpoch := by
      rw [rekeyAfter_eq] at hwrap ⊢
      rw [hlimit] at h
      unfold maxEpoch
      omega
    rw [if_pos hepoch]

/-- The daemon's sealing at a position. -/
theorem sealWith_position (noble : Noble) (key : Vector UInt8 32) {n : Nat} (h : n < epochLimit)
    (p : List UInt8) :
    (∃ e, (slot noble.suite key n).sealWith noble.suite p = (slot noble.suite key n, .error e)) ∨
      ∃ record, noble.encrypt (webSlot noble key n).key (webSlot noble key n).nonce p = some record ∧
        (slot noble.suite key n).sealWith noble.suite p =
          (slot noble.suite key (n + 1), .ok record) := by
  rw [← slot_nonce noble key h, ← slot_key]
  unfold Zesterm.Direction.sealWith
  split
  · exact .inl ⟨_, rfl⟩
  · split
    · exact .inl ⟨_, rfl⟩
    · next out hout =>
      refine .inr ⟨out, hout, ?_⟩
      rw [advance_position noble key h]
      rfl

/-- The daemon's opening at a position. -/
theorem openWith_position (noble : Noble) (key : Vector UInt8 32) {n : Nat} (h : n < epochLimit)
    (record : List UInt8) :
    (noble.decrypt (webSlot noble key n).key (webSlot noble key n).nonce record = none ∧
      ∃ e, (slot noble.suite key n).openWith noble.suite record =
        (slot noble.suite key n, .error e)) ∨
      ∃ p, noble.decrypt (webSlot noble key n).key (webSlot noble key n).nonce record = some p ∧
        (slot noble.suite key n).openWith noble.suite record =
          (slot noble.suite key (n + 1), .ok p) := by
  rw [← slot_nonce noble key h, ← slot_key]
  unfold Zesterm.Direction.openWith
  split
  · next hout => exact .inl ⟨hout, _, rfl⟩
  · next out hout =>
    refine .inr ⟨out, hout, ?_⟩
    rw [advance_position noble key h]
    rfl

/-! ## In step -/

/-- The daemon's channel seals, and `none` is an error. -/
def daemonSeal (noble : Noble) (s : Zesterm.SecureChannel) (plaintext : List UInt8) :
    Zesterm.SecureChannel × Option (List UInt8) :=
  ((s.seal noble.suite plaintext).1, (s.seal noble.suite plaintext).2.toOption)

/-- The daemon's channel opens, and `none` is an error. -/
def daemonOpen (noble : Noble) (s : Zesterm.SecureChannel) (record : List UInt8) :
    Zesterm.SecureChannel × Option (List UInt8) :=
  ((s.open noble.suite record).1, (s.open noble.suite record).2.toOption)

theorem walks_daemonSeal (noble : Noble) (key : Vector UInt8 32) (recv : Zesterm.Direction) :
    Walks (daemonSeal noble) (fun n => ⟨slot noble.suite key n, recv⟩) epochLimit := by
  intro n hn p
  unfold daemonSeal Zesterm.SecureChannel.seal
  rcases sealWith_position noble key hn p with ⟨e, heq⟩ | ⟨record, -, heq⟩
  · exact .inl (by dsimp only; rw [heq]; rfl)
  · exact .inr ⟨record, by dsimp only; rw [heq]; rfl⟩

theorem walks_daemonOpen (noble : Noble) (key : Vector UInt8 32) (send : Zesterm.Direction) :
    Walks (daemonOpen noble) (fun n => ⟨send, slot noble.suite key n⟩) epochLimit := by
  intro n hn record
  unfold daemonOpen Zesterm.SecureChannel.open
  rcases openWith_position noble key hn record with ⟨-, e, heq⟩ | ⟨p, -, heq⟩
  · exact .inl (by dsimp only; rw [heq]; rfl)
  · exact .inr ⟨p, by dsimp only; rw [heq]; rfl⟩

theorem walks_seal (noble : Noble) (key : Vector UInt8 32) (recv : Direction) (L : Nat) :
    Walks (SecureChannel.seal noble) (fun n => ⟨webSlot noble key n, recv⟩) L := by
  intro n _ p
  unfold SecureChannel.seal Direction.seal
  dsimp only
  split
  · exact .inl rfl
  · next out _ => exact .inr ⟨out, by rw [advance_webSlot]⟩

theorem walks_open (noble : Noble) (key : Vector UInt8 32) (send : Direction) (L : Nat) :
    Walks (SecureChannel.open noble) (fun n => ⟨send, webSlot noble key n⟩) L := by
  intro n _ record
  unfold SecureChannel.open Direction.open
  dsimp only
  split
  · exact .inl rfl
  · next out _ => exact .inr ⟨out, by rw [advance_webSlot]⟩

/-- What the daemon seals the browser opens, record for record. -/
theorem daemon_to_browser (laws : noble.Lawful) (key : Vector UInt8 32) (recv : Zesterm.Direction)
    (send : Direction) :
    InStep (daemonSeal noble) (SecureChannel.open noble) ⟨.new key, recv⟩ ⟨send, .new key⟩
      epochLimit := by
  rw [← slot_zero noble.suite key, ← webSlot_zero noble key]
  refine InStep.of_positions (walks_daemonSeal noble key recv) (walks_open noble key send _) ?_
  intro n hn m hm p record hsealed
  have hencrypt : noble.encrypt (webSlot noble key n).key (webSlot noble key n).nonce p =
      some record := by
    unfold daemonSeal Zesterm.SecureChannel.seal at hsealed
    rcases sealWith_position noble key hn p with ⟨e, heq⟩ | ⟨record', hencrypt, heq⟩
    · dsimp only at hsealed
      rw [heq] at hsealed
      cases hsealed
    · dsimp only at hsealed
      rw [heq] at hsealed
      rw [hencrypt]
      exact hsealed
  have hdecrypt := decrypt_webSlot laws key hn hm hencrypt
  unfold SecureChannel.open Direction.open
  dsimp only
  rw [← hdecrypt]
  split
  · next h => exact h.symm
  · next h => exact h.symm

/-- What the browser seals the daemon opens, record for record. -/
theorem browser_to_daemon (laws : noble.Lawful) (key : Vector UInt8 32) (recv : Direction)
    (send : Zesterm.Direction) :
    InStep (SecureChannel.seal noble) (daemonOpen noble) ⟨.new key, recv⟩ ⟨send, .new key⟩
      epochLimit := by
  rw [← slot_zero noble.suite key, ← webSlot_zero noble key]
  refine InStep.of_positions (walks_seal noble key recv _) (walks_daemonOpen noble key send) ?_
  intro n hn m hm p record hsealed
  have hencrypt : noble.encrypt (webSlot noble key n).key (webSlot noble key n).nonce p =
      some record := by
    unfold SecureChannel.seal Direction.seal at hsealed
    dsimp only at hsealed
    split at hsealed
    · cases hsealed
    · next h => rw [h]; exact hsealed
  have hdecrypt := decrypt_webSlot laws key hn hm hencrypt
  unfold daemonOpen Zesterm.SecureChannel.open
  dsimp only
  rcases openWith_position noble key hm record with ⟨hnone, e, heq⟩ | ⟨p', hsome, heq⟩
  · rw [heq, ← hdecrypt, hnone]
    rfl
  · rw [heq, ← hdecrypt, hsome]
    rfl

/-! ## Agreeing on a link -/

/-- A daemon's direction, as the browser holds it. -/
def ported (d : Zesterm.Direction) : Direction :=
  { key := d.key, epoch := d.epoch, counter := d.counter }

def portedChannel (s : Zesterm.SecureChannel) : SecureChannel :=
  { sendDir := ported s.send, recvDir := ported s.recv }

theorem all_zero_iff (v : Vector UInt8 32) :
    v.toList.all (· == 0) = (v == Vector.replicate 32 0) := by
  rw [Bool.eq_iff_iff, List.all_eq_true, beq_iff_eq]
  constructor
  · intro h
    apply Vector.toList_inj.mp
    rw [Vector.toList_replicate]
    refine List.eq_replicate_iff.mpr ⟨Vector.length_toList, fun b hb => ?_⟩
    exact beq_iff_eq.mp (h b hb)
  · rintro rfl b hb
    rw [Vector.toList_replicate] at hb
    rw [List.eq_of_mem_replicate hb]
    rfl

/-- The browser derives the channel the daemon's code derives from the same
secret, transcript and key of the peer, or refuses with it. -/
theorem agree_hexed (noble : Noble) (secret theirs : Vector UInt8 32) (t : Zesterm.Transcript)
    (role : Role) {message : List UInt8} (ht : Zesterm.authTranscript t = .ok message) :
    agree noble secret (bytesToHex theirs.toList) (hexed t) role =
      ((EphemeralDh.mk secret).agree noble.suite ⟨theirs⟩ (noble.sha256 message).toList
        role).toOption.map portedChannel := by
  have hmessage : authTranscript (hexed t) = some message := by
    rw [authTranscript_hexed, ht]
    rfl
  unfold agree EphemeralDh.agree
  rw [hexToBytes_bytesToHex]
  change (if h : theirs.toList.length = 32 then _ else none) = _
  rw [dif_pos Vector.length_toList]
  have habsent : (⟨theirs⟩ : DhPublic).isAbsent = theirs.toList.all (· == 0) :=
    (all_zero_iff theirs).symm
  rw [habsent]
  by_cases hzero : theirs.toList.all (· == 0) = true
  · rw [if_pos hzero, if_pos hzero]
    rfl
  · rw [if_neg hzero, if_neg hzero]
    have hvec (h : theirs.toList.toArray.size = 32) : Vector.mk theirs.toList.toArray h = theirs :=
      rfl
    simp only [hvec, hmessage]
    by_cases hshared : (noble.getSharedSecret secret theirs).toList.all (· == 0) = true
    · have hzero : noble.suite.wasContributory (noble.suite.diffieHellman secret theirs) = false :=
        congrArg not hshared
      rw [if_pos hshared, if_pos hzero]
      rfl
    · have hnonzero : ¬ noble.suite.wasContributory (noble.suite.diffieHellman secret theirs) =
          false := by
        intro h
        exact hshared ((Bool.not_eq_false' (b := _)).mp h)
      rw [if_neg hshared, if_neg hnonzero]
      cases role <;> rfl

/-- The browser's sealed link is the daemon's. Over one set of ciphers, both
refuse a transcript or make the same bytes and the same six digits of it; and
the channels the two ends derive from one are in step, in both directions and
for all the records a `u32` of epochs has room for. -/
theorem sealed_link (noble : Noble) (laws : noble.Lawful) :
    (∀ t, authTranscript (hexed t) = (Zesterm.authTranscript t).toOption ∧
      pairingCode noble (hexed t) = (Zesterm.pairingCode noble.suite t).toOption) ∧
    ∀ (t : Zesterm.Transcript) (message : List UInt8) (role : Role) (a b : Vector UInt8 32)
      (daemon : Zesterm.SecureChannel) (browser : SecureChannel),
      Zesterm.authTranscript t = .ok message →
      (EphemeralDh.mk a).agree noble.suite ⟨noble.getPublicKey b⟩ (noble.sha256 message).toList role =
        .ok daemon →
      agree noble b (publicKey noble a) (hexed t) role.peer = some browser →
      InStep (daemonSeal noble) (SecureChannel.open noble) daemon browser epochLimit ∧
      InStep (SecureChannel.seal noble) (daemonOpen noble) browser daemon epochLimit := by
  refine ⟨fun t => ⟨authTranscript_hexed t, pairingCode_hexed noble t⟩, ?_⟩
  intro t message role a b daemon browser ht hdaemon hbrowser
  rw [publicKey, agree_hexed noble b _ t role.peer ht, Option.map_eq_some_iff] at hbrowser
  obtain ⟨peer, hpeer, rfl⟩ := hbrowser
  have hpeer : (EphemeralDh.mk b).agree noble.suite ⟨noble.getPublicKey a⟩
      (noble.sha256 message).toList role.peer = .ok peer := by
    revert hpeer
    cases (EphemeralDh.mk b).agree noble.suite ⟨noble.getPublicKey a⟩
      (noble.sha256 message).toList role.peer with
    | error e => intro hpeer; cases hpeer
    | ok s => intro hpeer; rw [Option.some.inj hpeer]
  have hkeys : ∃ key key', daemon = ⟨.new key, .new key'⟩ ∧ peer = ⟨.new key', .new key⟩ := by
    cases role with
    | host =>
      obtain ⟨h2c, c2h, hlink⟩ := agree_link (laws.commutes a b) hdaemon hpeer
      obtain ⟨hhost, hclient⟩ := Link.mk.inj hlink
      exact ⟨h2c, c2h, hhost, hclient⟩
    | client =>
      obtain ⟨h2c, c2h, hlink⟩ := agree_link (laws.commutes b a) hpeer hdaemon
      obtain ⟨hhost, hclient⟩ := Link.mk.inj hlink
      exact ⟨c2h, h2c, hclient, hhost⟩
  obtain ⟨key, key', rfl, rfl⟩ := hkeys
  exact ⟨daemon_to_browser laws key (.new key') (.new key'),
    browser_to_daemon laws key' (.new key) (.new key)⟩

/-- Ciphers for a test: a record is the key, the nonce and the message. -/
def plainNoble : Noble where
  sha256 _ := .replicate 32 3
  getPublicKey k := k
  getSharedSecret _ _ := .replicate 32 1
  extract secret _ := secret
  expand key _ := key
  encrypt key nonce message := some (key.toList ++ nonce ++ message)
  decrypt key nonce record :=
    if record.take 44 = key.toList ++ nonce then some (record.drop 44) else none

theorem plainNoble_lawful : plainNoble.Lawful where
  commutes _ _ := rfl
  decrypts := by
    intro key nonce message record hlen h
    have hkey : (key.toList ++ nonce).length = 44 := by simp [hlen]
    obtain rfl := Option.some.inj h
    change (if (key.toList ++ nonce ++ message).take 44 = key.toList ++ nonce then _ else none) = _
    rw [← hkey, List.take_left, if_pos rfl, List.drop_left]
  authentic := by
    intro key key' nonce nonce' message message' record hlen hlen' h h'
    have hkey : (key.toList ++ nonce).length = 44 := by simp [hlen]
    obtain rfl := Option.some.inj h
    change (if (key.toList ++ nonce ++ message).take 44 = key'.toList ++ nonce' then _ else none) = _
      at h'
    split at h'
    · next heq =>
      rw [← hkey, List.take_left] at heq
      exact ((List.append_inj heq (by simp)).2).symm
    · cases h'

/-- A transcript of two devices. -/
def meeting : Zesterm.Transcript :=
  { version := 3, host := ⟨.replicate 32 1⟩, client := ⟨.replicate 32 2⟩,
    hostNonce := ⟨.replicate 32 3⟩, clientNonce := ⟨.replicate 32 4⟩, hostLabel := "desk".toList,
    clientLabel := "phone".toList, hostDh := .replicate 32 5, clientDh := .replicate 32 6 }

/-- The link of a daemon and a browser under those ciphers. -/
theorem sealed_link_plain :
    InStep (daemonSeal plainNoble) (SecureChannel.open plainNoble)
      ⟨.new (.replicate 32 1), .new (.replicate 32 1)⟩
      ⟨.new (.replicate 32 1), .new (.replicate 32 1)⟩ epochLimit := by
  obtain ⟨message, ht⟩ : ∃ message, Zesterm.authTranscript meeting = .ok message := ⟨_, rfl⟩
  refine ((sealed_link plainNoble plainNoble_lawful).2 meeting message .host (.replicate 32 5)
    (.replicate 32 6) _ _ ht rfl ?_).1
  rw [publicKey, agree_hexed plainNoble _ _ meeting _ ht]
  rfl

end Zesterm.WebAuth
