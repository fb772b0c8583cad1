/-
Zesterm.Daemon.PulseTheorems — the last change of a burst is announced.

`Kept` is what the lock keeps: the pulse is armed exactly while one thread
is under way between arming and disarming, be it a caller that has yet to
spawn or a trailing thread asleep. A report that finds the pulse armed
leaves the touch to that thread, and the thread has yet to disarm, so its
touch is still to come.
-/
import Zesterm.Daemon.Pulse
import Zesterm.Lib.Interleave

namespace Zesterm

namespace Phase

/-- Between arming and disarming. -/
def Holds : Phase → Bool
  | .arming _ | .refused | .asleep _ => true
  | _ => false

/-- A trailing thread that has not woken. -/
def Pending : Phase → Bool
  | .asleep _ => true
  | _ => false

/-- How many moves a thread that is bound to touch is from it. -/
def owes : Phase → Nat
  | .arming _ => 3
  | .refused | .asleep _ => 2
  | .bumping => 1
  | .entering | .done => 0

theorem holds_of_pending {t : Phase} (h : t.Pending = true) : t.Holds = true := by
  cases t with
  | asleep wakes => rfl
  | _ => cases h

theorem owes_of_holds {t : Phase} (h : t.Holds = true) : 0 < t.owes := by
  cases t with
  | arming | refused | asleep => exact Nat.succ_pos _
  | _ => cases h

end Phase

namespace Pulse

variable {p : Pulse} {i : Nat} {r : Fair.Run step}

/-! ## What the lock keeps -/

/-- One thread holds the flag while it is set, and none while it is not. -/
def Kept (p : Pulse) : Prop := p.threads.countP Phase.Holds = p.armed.toNat

/-- A report that arms the pulse holds the flag; one that finds it armed, or
touches itself, does not. -/
theorem kept_enter (h : p.threads.countP Phase.Holds = p.armed.toNat)
    (hset : ∀ u : Phase, (p.threads.set i u).countP Phase.Holds + 0 =
      p.threads.countP Phase.Holds + u.Holds.toNat) : (p.enter i).Kept := by
  unfold Kept enter
  by_cases harmed : p.armed = true
  · rw [if_pos harmed]
    exact (hset .done).trans h
  · rw [if_neg harmed]
    rw [Bool.not_eq_true] at harmed
    rw [harmed] at h
    cases p.last with
    | none => exact ((hset .bumping).trans h).trans (by rw [harmed])
    | some last =>
      dsimp only
      split
      · show (p.threads.set i (.arming _)).countP Phase.Holds = 1
        have hone := hset (.arming (coalesceWindow - (p.now - last)))
        rw [h] at hone
        exact hone
      · exact ((hset .bumping).trans h).trans (by rw [harmed])

/-- The flag passes to the thread that is spawned, or stays with the caller. -/
theorem kept_spawn {wait : Nat} {spawns : Bool} (h : p.threads.countP Phase.Holds = p.armed.toNat)
    (hset : ∀ u : Phase, (p.threads.set i u).countP Phase.Holds + 1 =
      p.threads.countP Phase.Holds + u.Holds.toNat) : (p.spawn i wait spawns).Kept := by
  unfold Kept spawn
  split
  · show (p.threads.set i .done ++ [Phase.asleep (p.now + wait)]).countP Phase.Holds = p.armed.toNat
    rw [List.countP_append, ← h]
    exact hset .done
  · show (p.threads.set i .refused).countP Phase.Holds = p.armed.toNat
    rw [← h]
    exact Nat.add_right_cancel (hset .refused)

theorem kept_disarm (h : p.threads.countP Phase.Holds = p.armed.toNat)
    (hset : (p.threads.set i .bumping).countP Phase.Holds + 1 = p.threads.countP Phase.Holds + 0) :
    (p.disarm i).Kept := by
  show (p.threads.set i .bumping).countP Phase.Holds = 0
  have hle : p.armed.toNat ≤ 1 := Bool.toNat_le p.armed
  omega

/-- Every move keeps it. -/
theorem kept_step {p' : Pulse} {m : Move} (h : p.Kept) (hstep : p.step m = some p') : p'.Kept := by
  unfold Kept at h
  cases m with
  | call =>
    obtain rfl := Option.some.inj hstep
    show (p.threads ++ [Phase.entering]).countP Phase.Holds = p.armed.toNat
    rw [List.countP_append, h]
    rfl
  | tick d =>
    obtain rfl := Option.some.inj hstep
    exact h
  | run i spawns =>
    unfold step at hstep
    dsimp only at hstep
    cases ht : p.threads[i]? with
    | none =>
      rw [ht] at hstep
      cases hstep
    | some t =>
      have hset := Interleave.countP_set Phase.Holds ht
      rw [ht] at hstep
      cases t with
      | entering =>
        obtain rfl := Option.some.inj hstep
        exact kept_enter h hset
      | bumping =>
        obtain rfl := Option.some.inj hstep
        exact (hset .done).trans h
      | arming wait =>
        obtain rfl := Option.some.inj hstep
        exact kept_spawn h hset
      | refused =>
        obtain rfl := Option.some.inj hstep
        exact kept_disarm h (hset .bumping)
      | asleep wakes =>
        dsimp only at hstep
        split at hstep
        · cases hstep
        · obtain rfl := Option.some.inj hstep
          exact kept_disarm h (hset .bumping)
      | done => cases hstep

/-! ## What comes to pass -/

/-- The move is a touch. -/
def Touches (p : Pulse) : Move → Prop
  | .run i _ => p.threads[i]? = some .bumping
  | _ => False

/-- The move is thread `i`'s. -/
def Turn (i : Nat) : Move → Prop
  | .run j _ => j = i
  | _ => False

/-- A thread that is not done goes on some time. For one asleep this says that
time passes. -/
def Scheduled (r : Fair.Run step) : Prop :=
  ∀ (n i : Nat) (t : Phase), (r.state n).threads[i]? = some t → t ≠ .done →
    ∃ m, n ≤ m ∧ Turn i (r.move m)

/-- A thread stays where it is while others have their turns. -/
theorem thread_stays {p' : Pulse} {m : Move} {t : Phase} (h : p.threads[i]? = some t)
    (hturn : ¬ Turn i m) (hstep : p.step m = some p') : p'.threads[i]? = some t := by
  have hi : i < p.threads.length := (List.getElem?_eq_some_iff.mp h).1
  cases m with
  | call =>
    obtain rfl := Option.some.inj hstep
    show (p.threads ++ [Phase.entering])[i]? = some t
    rwa [List.getElem?_append_left hi]
  | tick d =>
    obtain rfl := Option.some.inj hstep
    exact h
  | run j spawns =>
    have hset : ∀ u : Phase, (p.threads.set j u)[i]? = some t := fun u => by
      rwa [List.getElem?_set_ne hturn]
    unfold step at hstep
    dsimp only at hstep
    split at hstep
    · obtain rfl := Option.some.inj hstep
      unfold enter
      split
      · exact hset _
      · split
        · split <;> exact hset _
        · exact hset _
    · obtain rfl := Option.some.inj hstep
      exact hset _
    · obtain rfl := Option.some.inj hstep
      unfold spawn
      split
      · show (p.threads.set j Phase.done ++ [Phase.asleep _])[i]? = some t
        rw [List.getElem?_append_left (by rwa [List.length_set])]
        exact hset _
      · exact hset _
    · obtain rfl := Option.some.inj hstep
      exact hset _
    · split at hstep
      · cases hstep
      · obtain rfl := Option.some.inj hstep
        exact hset _
    · cases hstep
    · cases hstep

/-- A thread that is not done has a turn, and is where it was when it has. -/
theorem turn_comes (hfair : Scheduled r) {n : Nat} {t : Phase}
    (h : (r.state n).threads[i]? = some t) (hne : t ≠ .done) :
    ∃ m, n ≤ m ∧ Turn i (r.move m) ∧ (r.state m).threads[i]? = some t :=
  @Fair.Run.until_turn _ _ step r (fun p => p.threads[i]? = some t) (Turn i) n h
    (fun _ _ _ hstays hturn hstep => thread_stays hstays hturn hstep) (hfair n i t h hne)

/-- Some thread is `k` moves from a touch. -/
def Bound (p : Pulse) (k : Nat) : Prop := 
  ∃ (i : Nat) (t : Phase), p.threads[i]? = some t ∧ t.owes = k ∧ 0 < k

/-- The turn of a thread that is bound to touch is a touch, or brings one
nearer. -/
theorem turn_of_bound {p' : Pulse} {k : Nat} {t : Phase} {m : Move} (h : p.threads[i]? = some t)
    (howes : t.owes = k) (hpos : 0 < k) (hturn : Turn i m) (hstep : p.step m = some p') :
    p.Touches m ∨ ∃ j < k, p'.Bound j := by
  have hi : i < p.threads.length := (List.getElem?_eq_some_iff.mp h).1
  cases m with
  | call | tick => exact hturn.elim
  | run j spawns =>
    obtain rfl : j = i := hturn
    unfold step at hstep
    dsimp only at hstep
    rw [h] at hstep
    cases t with
    | entering | done => exact absurd howes (Nat.ne_of_lt hpos)
    | bumping => exact .inl h
    | arming wait =>
      obtain rfl := Option.some.inj hstep
      obtain rfl : 3 = k := howes
      refine .inr ⟨2, by decide, ?_⟩
      unfold spawn
      split
      · refine ⟨p.threads.length, .asleep (p.now + wait), ?_, rfl, by decide⟩
        show (p.threads.set j Phase.done ++ [Phase.asleep _])[p.threads.length]? = _
        rw [List.getElem?_append_right (by rw [List.length_set]), List.length_set, Nat.sub_self]
        rfl
      · exact ⟨j, .refused, List.getElem?_set_self hi, rfl, by decide⟩
    | refused =>
      obtain rfl := Option.some.inj hstep
      obtain rfl : 2 = k := howes
      exact .inr ⟨1, by decide, j, .bumping, List.getElem?_set_self hi, rfl, by decide⟩
    | asleep wakes =>
      obtain rfl : 2 = k := howes
      dsimp only at hstep
      split at hstep
      · cases hstep
      · obtain rfl := Option.some.inj hstep
        exact .inr ⟨1, by decide, j, .bumping, List.getElem?_set_self hi, rfl, by decide⟩

/-- A thread that is bound to touch does. -/
theorem touches_of_bound (hfair : Scheduled r) :
    ∀ k n, (r.state n).Bound k → ∃ m, n ≤ m ∧ (r.state m).Touches (r.move m) := by
  refine Fair.eventually fun k n h => ?_
  obtain ⟨i, t, ht, howes, hpos⟩ := h
  have hne : t ≠ .done := by
    rintro rfl
    exact absurd howes (Nat.ne_of_lt hpos)
  obtain ⟨m, hnm, hturn, hm⟩ := turn_comes hfair ht hne
  rcases turn_of_bound hm howes hpos hturn (r.next m) with htouch | ⟨j, hj, hbound⟩
  · exact ⟨m, hnm, .inl htouch⟩
  · exact ⟨m + 1, by omega, .inr ⟨j, hj, hbound⟩⟩

theorem kept_run (hstart : r.state 0 = {}) : ∀ n, (r.state n).Kept := by
  refine r.invariant ?_ fun p m p' h hstep => kept_step h hstep
  rw [hstart]
  rfl

/-- What a report decides leaves a thread bound to touch: itself, or the one
that holds the flag it found set. -/
theorem bound_of_enter (hkept : p.Kept) (h : p.threads[i]? = some .entering) :
    (∃ k, p.Bound k) ∨ ∃ k, (p.enter i).Bound k := by
  have hi : i < p.threads.length := (List.getElem?_eq_some_iff.mp h).1
  by_cases harmed : p.armed = true
  · left
    have hcount : 0 < p.threads.countP Phase.Holds := by
      rw [hkept, harmed]
      exact Nat.one_pos
    obtain ⟨t, ht, hholds⟩ := List.countP_pos_iff.mp hcount
    obtain ⟨j, hj⟩ := List.mem_iff_getElem?.mp ht
    exact ⟨t.owes, j, t, hj, rfl, Phase.owes_of_holds hholds⟩
  · right
    unfold enter
    rw [if_neg harmed]
    have hbumping : (p.threads.set i .bumping)[i]? = some Phase.bumping := List.getElem?_set_self hi
    cases p.last with
    | none => exact ⟨1, i, .bumping, hbumping, rfl, by decide⟩
    | some last =>
      dsimp only
      split
      · exact ⟨3, i, .arming _, List.getElem?_set_self hi, rfl, by decide⟩
      · exact ⟨1, i, .bumping, hbumping, rfl, by decide⟩

/-- Two reports, the second inside the window of the first. -/
def burst : List Move :=
  [.call, .run 0 true, .run 0 true, .call, .run 1 true, .run 1 true, .tick coalesceWindow,
    .run 2 true, .run 2 true]

def burstRun : Fair.Run step :=
  Fair.Run.atRest {} burst (.tick 0) (fun _ => rfl) (by decide)

instance (i : Nat) (m : Move) : Decidable (Turn i m) := by
  unfold Turn
  cases m <;> infer_instance

theorem scheduled_burst : Scheduled burstRun := by
  intro n i t ht hne
  have hshort : ∀ n < 10, (burstRun.state n).threads.length ≤ 3 := by decide
  have hturn : ∀ n < 9, ∀ i < 3, (burstRun.state n).threads[i]? = none ∨
      (burstRun.state n).threads[i]? = some .done ∨
        ∃ m < 9, n ≤ m ∧ Turn i (burstRun.move m) := by decide
  have hdone : ∀ u ∈ (burstRun.state 9).threads, u = .done := by decide
  have hi := (List.getElem?_eq_some_iff.mp ht).1
  by_cases hn : n < 9
  · have hshort := hshort n (by omega)
    rcases hturn n hn i (by omega) with hnone | hdone | ⟨m, -, hnm, hm⟩
    · rw [hnone] at ht
      cases ht
    · rw [hdone] at ht
      exact absurd (Option.some.inj ht).symm hne
    · exact ⟨m, hnm, hm⟩
  · have hrest : burstRun.state n = burstRun.state 9 := Fair.Run.state_atRest (by
      show 9 ≤ n
      omega)
    rw [hrest] at ht
    exact absurd (hdone t (List.mem_of_getElem? ht)) hne

end Pulse

end Zesterm
