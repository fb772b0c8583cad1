/-
Zesterm.Daemon.LanTheorems — the gate counts truly.

What holds of a connection is said in four parts: its slot and its hook, its
two flags, its deadline, and what is settled for it. A move of one thread
keeps a part or does not touch it. Three moves break a part when they come at
the wrong time: a reading of `fired` between the watchdog's swap and its
store, a handshake that completes when its serving has ended and been judged,
an extension that the watchdog no longer sees. `undisturbed` leaves those out,
and every run without them keeps all four.
-/
import Zesterm.Daemon.Lan

namespace Zesterm.Lan

variable {K : Type}

namespace Conn

/-! ## What holds of a connection -/

/-- The countdown is held until its hook is gone, and given back once. -/
structure SlotSound (c : Conn K) : Prop where
  held : c.held = true ↔ c.hook ≠ .gone
  given : c.given = if c.held then 0 else 1

/-- Whoever takes `armed` away is one. -/
structure FlagSound (c : Conn K) : Prop where
  fresh : c.phase = .admitted → c.dog = .off ∧ c.armed = true
  completed : c.completed = true → c.armed = false ∧ c.dog ≠ .won ∧ c.fired = false
  won : c.dog = .won → c.armed = false ∧ c.fired = false
  fired : c.fired = true ↔ c.dog = .fired ∨ c.cutAt.isSome = true
  firedArmed : c.fired = true → c.armed = false
  cut : c.cutAt.isSome = true → c.dog = .done
  taken : c.armed = false → c.completed = true ∨ c.dog = .won ∨ c.fired = true ∨
    c.phase = .over ∨ ∃ v, c.phase = .settling v

/-- The watchdog gives up after the deadline only. -/
structure DeadlineSound (now : Nat) (c : Conn K) : Prop where
  late : c.dog = .expired ∨ c.dog = .won ∨ c.dog = .fired → c.deadline < c.age now
  cut : ∀ age deadline, c.cutAt = some (age, deadline) → deadline < age

/-- What is settled is what happened. -/
structure VerdictSound (c : Conn K) : Prop where
  unarmed : c.phase = .unarmed → c.armed = false
  disarming : ∀ v, c.phase = .disarming (some v) → (v = true ↔ c.completed = true)
  settling : ∀ v, c.phase = .settling v → c.armed = false ∧ (v = true ↔ c.completed = true)
  untold : c.phase ≠ .over → c.told = none
  told : ∀ v, c.told = some v → c.armed = false ∧ (v = true ↔ c.completed = true)

structure Sound (now : Nat) (c : Conn K) : Prop where
  slot : c.SlotSound
  flag : c.FlagSound
  deadline : c.DeadlineSound now
  verdict : c.VerdictSound

/-- A move that does not come at the wrong time. -/
def undisturbed (now : Nat) (c : Conn K) : Move → Bool
  -- the watchdog has swapped, and not said so
  | .loadFired => c.dog != .won
  -- the serving ended, and was judged by an `armed` that is still set
  | .complete => !(c.phase == .disarming (some false) && c.armed)
  -- the watchdog has given up, and not cut yet
  | .awaitApproval _ => c.dog != .expired && c.dog != .won && c.dog != .fired
  -- the deadline was moved since the watchdog read it, and is not over
  | .dogElapsed =>
    match c.dog with
    | .wants deadline => !(deadline < c.age now) || c.deadline < c.age now
    | _ => true
  | _ => true

theorem sound_new (now : Nat) (key : Option K) : Sound now ({ key } : Conn K) where
  slot := ⟨by simp, rfl⟩
  flag := ⟨by simp, by simp, by simp, by simp, by simp, by simp, by simp⟩
  deadline := ⟨by simp, by simp⟩
  verdict := ⟨by simp, by simp, by simp, by simp, by simp⟩

variable {now : Nat} {c c' : Conn K} {m : Move}

theorem eq_of_ite {p : Prop} [Decidable p] {x y : Conn K}
    (h : (if p then some x else none) = some y) : p ∧ x = y :=
  (Option.ite_none_right_eq_some.mp h).imp_right Option.some.inj

theorem giveBack_held (h : c.SlotSound) :
    ({ c.giveBack with hook := .gone } : Conn K).SlotSound := by
  rw [giveBack]
  cases hheld : c.held with
  | true =>
    have hgiven := h.given
    rw [hheld] at hgiven
    exact ⟨by simp, by rw [if_pos rfl, hgiven]; rfl⟩
  | false =>
    have hgiven := h.given
    rw [hheld] at hgiven
    exact ⟨by simp [hheld], by rw [if_neg Bool.false_ne_true, hgiven]; simp [hheld]⟩

theorem SlotSound.move (h : c.SlotSound) (hm : c.move now m = some c') : c'.SlotSound := by
  cases m
  case release =>
    obtain ⟨-, rfl⟩ := eq_of_ite hm
    exact giveBack_held h
  case drop =>
    obtain ⟨-, rfl⟩ := eq_of_ite hm
    exact giveBack_held h
  -- the hook stays what it was, or goes from waiting to called
  case complete =>
    obtain ⟨⟨-, hhook⟩, rfl⟩ := eq_of_ite hm
    have hheld : c.held = true := h.held.mpr (by rw [hhook]; decide)
    exact ⟨by simp [hheld], h.given⟩
  all_goals grind [Conn.move, SlotSound]

theorem FlagSound.move (h : c.FlagSound) (hm : c.move now m = some c') : c'.FlagSound := by
  cases m
  -- the swap is won by one: whoever finds `armed` set
  case complete =>
    obtain ⟨⟨hphase, -⟩, rfl⟩ := eq_of_ite hm
    cases harmed : c.armed <;> grind [FlagSound]
  case dogSwap =>
    obtain ⟨hdog, rfl⟩ := eq_of_ite hm
    cases harmed : c.armed <;> grind [FlagSound]
  all_goals grind [Conn.move, giveBack, FlagSound]

/-- Time passes for whoever is late. -/
theorem DeadlineSound.later (h : c.DeadlineSound now) (ms : Nat) : c.DeadlineSound (now + ms) :=
  ⟨fun hdog => Nat.lt_of_lt_of_le (h.late hdog) (Nat.sub_le_sub_right (Nat.le_add_right now ms) _),
    h.cut⟩

theorem DeadlineSound.move (h : c.DeadlineSound now) (hflag : c.FlagSound)
    (hq : undisturbed now c m = true) (hm : c.move now m = some c') : c'.DeadlineSound now := by
  cases m
  -- what the watchdog has read is the deadline still
  case dogElapsed =>
    cases hdog : c.dog <;> simp only [Conn.move, hdog, reduceCtorEq] at hm
    case wants deadline =>
      obtain rfl := Option.some.inj hm
      by_cases hlate : deadline < c.age now
      · have hseen : c.deadline < c.age now := by simpa [undisturbed, hdog, hlate] using hq
        exact ⟨fun _ => hseen, h.cut⟩
      · exact ⟨by simp [hlate], h.cut⟩
  case dogCut =>
    obtain ⟨hdog, rfl⟩ := eq_of_ite hm
    refine ⟨by simp, fun age deadline hcut => ?_⟩
    obtain ⟨rfl, rfl⟩ := Prod.mk.inj (Option.some.inj hcut)
    exact h.late (.inr (.inr hdog))
  -- an extension finds no watchdog that has given up
  case awaitApproval window =>
    obtain ⟨-, rfl⟩ := eq_of_ite hm
    refine ⟨fun hdog => ?_, h.cut⟩
    simp only [undisturbed, Bool.and_eq_true, bne_iff_ne] at hq
    rcases hdog with hdog | hdog | hdog
    · exact absurd hdog hq.1.1
    · exact absurd hdog hq.1.2
    · exact absurd hdog hq.2
  all_goals grind [Conn.move, giveBack, DeadlineSound, FlagSound, age]

theorem giveBack_frame (c : Conn K) : c.giveBack.phase = c.phase ∧ c.giveBack.armed = c.armed ∧
    c.giveBack.completed = c.completed ∧ c.giveBack.told = c.told := by
  unfold giveBack
  split <;> exact ⟨rfl, rfl, rfl, rfl⟩

/-- What the verdict does not look at may change. -/
theorem VerdictSound.of_same (h : c.VerdictSound) (hphase : c'.phase = c.phase)
    (harmed : c'.armed = c.armed) (hcompleted : c'.completed = c.completed)
    (htold : c'.told = c.told) : c'.VerdictSound where
  unarmed := by rw [hphase, harmed]; exact h.unarmed
  disarming := by rw [hphase, hcompleted]; exact h.disarming
  settling := by rw [hphase, harmed, hcompleted]; exact h.settling
  untold := by rw [hphase, htold]; exact h.untold
  told := by rw [htold, harmed, hcompleted]; exact h.told

/-- Before anything is settled, two phases matter. -/
theorem VerdictSound.of_untold (htold : c.told = none) (hsettling : ∀ v, c.phase ≠ .settling v)
    (hunarmed : c.phase = .unarmed → c.armed = false)
    (hdisarming : ∀ v, c.phase = .disarming (some v) → (v = true ↔ c.completed = true)) :
    c.VerdictSound where
  unarmed := hunarmed
  disarming := hdisarming
  settling := fun v hv => absurd hv (hsettling v)
  untold := fun _ => htold
  told := by simp [htold]

theorem VerdictSound.release (h : c.VerdictSound) :
    ({ c.giveBack with hook := .gone } : Conn K).VerdictSound :=
  have hframe := c.giveBack_frame
  h.of_same hframe.1 hframe.2.1 hframe.2.2.1 hframe.2.2.2

/-- Whoever takes `armed` away changes no verdict. -/
theorem VerdictSound.unarm (h : c.VerdictSound) (hcompleted : c'.completed = c.completed)
    (hphase : c'.phase = c.phase) (htold : c'.told = c.told) (harmed : c'.armed = false) :
    c'.VerdictSound where
  unarmed := fun _ => harmed
  disarming := by rw [hphase, hcompleted]; exact h.disarming
  settling := by
    rw [hphase, hcompleted]
    exact fun v hv => ⟨harmed, (h.settling v hv).2⟩
  untold := by rw [hphase, htold]; exact h.untold
  told := by
    rw [htold, hcompleted]
    exact fun v hv => ⟨harmed, (h.told v hv).2⟩

theorem VerdictSound.move (h : c.VerdictSound) (hflag : c.FlagSound) (hq : undisturbed now c m = true)
    (hm : c.move now m = some c') : c'.VerdictSound := by
  cases m
  case watch timeout =>
    obtain ⟨hphase, rfl⟩ := eq_of_ite hm
    exact .of_untold (h.untold (by rw [hphase]; decide)) (by simp) (by simp) (by simp)
  case unwatched timeout =>
    obtain ⟨hphase, rfl⟩ := eq_of_ite hm
    exact .of_untold (h.untold (by rw [hphase]; decide)) (by simp) (by simp) (by simp)
  case finish =>
    obtain ⟨hphase, rfl⟩ := eq_of_ite hm
    have htold : c.told = none := h.untold (by rw [hphase]; decide)
    cases hkey : c.key with
    | none | some => exact .of_untold htold (by simp) (by simp) (by simp)
  case unwind =>
    obtain ⟨hphase, rfl⟩ := eq_of_ite hm
    exact .of_untold (h.untold (by rw [hphase]; decide)) (by simp) (by simp) (by simp)
  -- one whose `armed` is set has not completed
  case loadArmed =>
    obtain ⟨hphase, rfl⟩ := eq_of_ite hm
    have htold : c.told = none := h.untold (by rw [hphase]; decide)
    cases harmed : c.armed with
    | false => exact .of_untold htold (by simp) (fun _ => rfl) (by simp)
    | true =>
      refine .of_untold htold (by simp) (by simp) fun v hv => ?_
      obtain rfl : false = v := by simpa using hv
      refine iff_of_false Bool.false_ne_true fun hdone => ?_
      rw [(hflag.completed hdone).1] at harmed
      cases harmed
  -- a connection that is not armed has completed, or its watchdog won and has said so
  case loadFired =>
    obtain ⟨hphase, rfl⟩ := eq_of_ite hm
    have hcompleted : c.fired = false → c.completed = true := by
      intro hfired
      rcases hflag.taken (h.unarmed hphase) with htaken | htaken | htaken | htaken | ⟨v, htaken⟩
      · exact htaken
      · exact absurd htaken (bne_iff_ne.mp hq)
      · rw [hfired] at htaken
        cases htaken
      · rw [hphase] at htaken
        cases htaken
      · rw [hphase] at htaken
        cases htaken
    refine .of_untold (h.untold (by rw [hphase]; decide)) (by simp) (by simp) fun v hv => ?_
    obtain rfl : (!c.fired) = v := by simpa using hv
    rw [Bool.not_eq_true']
    exact ⟨hcompleted, fun hdone => (hflag.completed hdone).2.2⟩
  case disarm =>
    cases hphase : c.phase <;> simp only [Conn.move, hphase, reduceCtorEq] at hm
    case disarming judged =>
      have htold : c.told = none := h.untold (by rw [hphase]; simp)
      cases judged with
      | none =>
        obtain rfl := Option.some.inj hm
        exact .of_untold htold (by simp) (by simp) (by simp)
      | some v =>
        obtain rfl := Option.some.inj hm
        refine ⟨by simp, by simp, fun w hw => ⟨rfl, ?_⟩, fun _ => htold, by simp [htold]⟩
        obtain rfl : v = w := by simpa using hw
        exact h.disarming v hphase
  case settle =>
    cases hphase : c.phase <;> simp only [Conn.move, hphase, reduceCtorEq] at hm
    case settling v =>
      obtain rfl := Option.some.inj hm
      refine ⟨by simp, by simp, by simp, by simp, fun w hw => ?_⟩
      obtain rfl : v = w := by simpa using hw
      exact h.settling v hphase
  -- a connection that is judged is not armed, or does not complete any more
  case complete =>
    obtain ⟨-, rfl⟩ := eq_of_ite hm
    cases harmed : c.armed with
    | false => exact h.unarm (by simp) rfl rfl rfl
    | true =>
      have hunjudged : ∀ v, c.phase ≠ .disarming (some v) := by
        rintro (hv | hv) hphase
        · simp [undisturbed, hphase, harmed] at hq
        · rw [(hflag.completed ((h.disarming true hphase).mp rfl)).1] at harmed
          cases harmed
      refine ⟨fun _ => rfl, fun v hv => absurd hv (hunjudged v), fun v hv => ?_, h.untold,
        fun v hv => ?_⟩
      · rw [(h.settling v hv).1] at harmed
        cases harmed
      · rw [(h.told v hv).1] at harmed
        cases harmed
  case dogSwap =>
    obtain ⟨-, rfl⟩ := eq_of_ite hm
    exact h.unarm rfl rfl rfl rfl
  case release =>
    obtain ⟨-, rfl⟩ := eq_of_ite hm
    exact h.release
  case drop =>
    obtain ⟨-, rfl⟩ := eq_of_ite hm
    exact h.release
  case dogElapsed =>
    cases hdog : c.dog <;> simp only [Conn.move, hdog, reduceCtorEq] at hm
    case wants deadline =>
      obtain rfl := Option.some.inj hm
      exact h.of_same rfl rfl rfl rfl
  -- the other moves leave all of this alone
  all_goals
    obtain ⟨-, rfl⟩ := eq_of_ite hm
    exact h.of_same rfl rfl rfl rfl

theorem Sound.move (h : Sound now c) (hq : undisturbed now c m = true) (hm : c.move now m = some c') :
    Sound now c' where
  slot := h.slot.move hm
  flag := h.flag.move hm
  deadline := h.deadline.move h.flag hq hm
  verdict := h.verdict.move h.flag hq hm

theorem Sound.later (h : Sound now c) (ms : Nat) : Sound (now + ms) c :=
  ⟨h.slot, h.flag, h.deadline.later ms, h.verdict⟩

end Conn

/-! ## What holds of the gate -/

namespace State

/-- The slots are the countdowns that are held, and no more than there may
be; and every connection is sound. -/
structure Sound (s : State K) : Prop where
  slots : s.slots = s.conns.countP fun c => c.held
  bound : s.slots ≤ maxUnauthenticated
  conns : ∀ c ∈ s.conns, c.Sound s.now

/-- A step that does not come at the wrong time. -/
def undisturbed (s : State K) : Act K → Bool
  | .conn i m => (s.conns[i]?).all fun c => c.undisturbed s.now m
  | _ => true

theorem sound_new : (State.new : State K).Sound where
  slots := rfl
  bound := Nat.zero_le _
  conns := by simp [State.new]

theorem Sound.takeSlot {s : State K} (h : s.Sound) (key : Option K) : (s.takeSlot key).Sound := by
  unfold State.takeSlot
  split
  · next hfree =>
    refine ⟨?_, hfree, ?_⟩
    · rw [List.countP_append, h.slots]
      rfl
    · intro c hc
      rcases List.mem_append.mp hc with hc | hc
      · exact h.conns c hc
      · rw [List.mem_singleton.mp hc]
        exact Conn.sound_new s.now key
  · exact h

/-- A countdown is given up by the hook that owns it and by no other move. -/
theorem held_move {now : Nat} {c c' : Conn K} {m : Move} (h : c.SlotSound)
    (hm : c.move now m = some c') :
    (m = .release ∨ m = .drop) ∧ c.held = true ∧ c'.held = false ∨
      (m ≠ .release ∧ m ≠ .drop) ∧ c'.held = c.held := by
  cases m
  case release =>
    obtain ⟨hhook, rfl⟩ := Conn.eq_of_ite hm
    have hheld : c.held = true := h.held.mpr (by rw [hhook]; decide)
    exact .inl ⟨.inl rfl, hheld, by simp [Conn.giveBack, hheld]⟩
  case drop =>
    obtain ⟨hhook, rfl⟩ := Conn.eq_of_ite hm
    have hheld : c.held = true := h.held.mpr (by rw [hhook]; decide)
    exact .inl ⟨.inr rfl, hheld, by simp [Conn.giveBack, hheld]⟩
  all_goals grind [Conn.move]

/-- How many are held, when one connection has moved. -/
theorem countP_set {conns : List (Conn K)} {i : Nat} {c : Conn K} (hc : conns[i]? = some c)
    (c' : Conn K) :
    (conns.set i c').countP (fun d => d.held) + (if c.held then 1 else 0) =
      conns.countP (fun d => d.held) + if c'.held then 1 else 0 := by
  induction conns generalizing i with
  | nil => cases hc
  | cons d conns ih =>
    cases i with
    | zero =>
      obtain rfl : d = c := by simpa using hc
      rw [List.set_cons_zero, List.countP_cons, List.countP_cons]
      omega
    | succ i =>
      have := @ih i (by simpa using hc)
      rw [List.set_cons_succ, List.countP_cons, List.countP_cons]
      omega

variable [DecidableEq K]

/-- A run none of whose steps does. -/
def steady : State K → List (Act K) → Bool
  | _, [] => true
  | s, a :: acts => s.undisturbed a && (s.step a).all fun s' => steady s' acts

/-- What a move does to the gate. -/
def settled (s : State K) (c : Conn K) (m : Move) : State K :=
  match m with
  | .release | .drop => s.giveSlot c
  | .settle => s.settle c
  | _ => s

theorem settle_frame (s : State K) (c : Conn K) :
    (s.settle c).slots = s.slots ∧ (s.settle c).now = s.now ∧ (s.settle c).conns = s.conns := by
  unfold settle
  split <;> exact ⟨rfl, rfl, rfl⟩

/-- The time and the connections are nobody's to change there. -/
theorem settled_frame (s : State K) (c : Conn K) (m : Move) :
    (s.settled c m).now = s.now ∧ (s.settled c m).conns = s.conns := by
  have hgive : (s.giveSlot c).now = s.now ∧ (s.giveSlot c).conns = s.conns := by
    unfold giveSlot
    split <;> exact ⟨rfl, rfl⟩
  cases m
  case release => exact hgive
  case drop => exact hgive
  case settle => exact (settle_frame s c).2
  all_goals exact ⟨rfl, rfl⟩

theorem step_conn (s : State K) {i : Nat} {m : Move} {s' : State K} (h : s.step (.conn i m) = some s') :
    ∃ c c', s.conns[i]? = some c ∧ c.move s.now m = some c' ∧
      s' = { s.settled c m with conns := s.conns.set i c' } := by
  obtain ⟨c, hc, h⟩ := Option.bind_eq_some_iff.mp h
  obtain ⟨c', hc', h⟩ := Option.bind_eq_some_iff.mp h
  refine ⟨c, c', hc, hc', ?_⟩
  rw [← (settled_frame s c m).2]
  exact (Option.some.inj h).symm

theorem Sound.move {s : State K} (h : s.Sound) {i : Nat} {m : Move} {c c' : Conn K}
    (hc : s.conns[i]? = some c) (hq : c.undisturbed s.now m = true) (hm : c.move s.now m = some c') :
    ({ s.settled c m with conns := s.conns.set i c' } : State K).Sound := by
  have hsound := h.conns c (List.mem_of_getElem? hc)
  have hconns : ∀ d ∈ s.conns.set i c', d.Sound s.now := by
    intro d hd
    rcases List.mem_or_eq_of_mem_set hd with hd | rfl
    · exact h.conns d hd
    · exact hsound.move hq hm
  have hcount := countP_set hc c'
  have hnow := (settled_frame s c m).1
  rcases held_move hsound.slot hm with ⟨hgive, hheld, hheld'⟩ | ⟨hkeep, hheld⟩
  · have hslots : (s.settled c m).slots = s.slots - 1 := by
      have hpos : 1 ≤ s.slots ∧ s.slots ≤ 32 := by
        rw [hheld, hheld', if_pos rfl, if_neg Bool.false_ne_true] at hcount
        exact ⟨by rw [h.slots]; omega, h.bound⟩
      have hgiven : s.settled c m = s.giveSlot c := by rcases hgive with rfl | rfl <;> rfl
      rw [hgiven, giveSlot, if_pos hheld]
      dsimp only
      omega
    refine ⟨?_, ?_, by rw [hnow]; exact hconns⟩
    · rw [hheld, hheld', if_pos rfl, if_neg Bool.false_ne_true] at hcount
      have := h.slots
      dsimp only
      omega
    · have := h.bound
      dsimp only
      omega
  · have hslots : (s.settled c m).slots = s.slots := by
      cases m
      case release => exact absurd rfl hkeep.1
      case drop => exact absurd rfl hkeep.2
      case settle => exact (settle_frame s c).1
      all_goals rfl
    refine ⟨?_, by rw [hslots]; exact h.bound, by rw [hnow]; exact hconns⟩
    rw [hheld] at hcount
    have := h.slots
    dsimp only
    omega

theorem Sound.step {s s' : State K} {a : Act K} (h : s.Sound) (hq : s.undisturbed a = true)
    (hstep : s.step a = some s') : s'.Sound := by
  cases a with
  | tick ms =>
    obtain rfl := Option.some.inj hstep
    exact ⟨h.slots, h.bound, fun c hc => (h.conns c hc).later ms⟩
  | check key =>
    rw [State.step] at hstep
    split at hstep
    · cases hstep
    · obtain rfl := Option.some.inj hstep
      exact ⟨h.slots, h.bound, h.conns⟩
  | admitPeer key =>
    obtain ⟨-, heq⟩ := Option.ite_none_right_eq_some.mp hstep
    obtain rfl := Option.some.inj heq
    have hcleared : Sound { s with cleared := s.cleared.erase key } := ⟨h.slots, h.bound, h.conns⟩
    exact hcleared.takeSlot (some key)
  | admitRelayed =>
    obtain rfl := Option.some.inj hstep
    exact h.takeSlot none
  | conn i m =>
    obtain ⟨c, c', hc, hm, rfl⟩ := step_conn s hstep
    rw [undisturbed, hc] at hq
    exact h.move hc hq hm

theorem Sound.run {acts : List (Act K)} : ∀ {s s' : State K}, s.Sound → s.steady acts = true →
    s.run acts = some s' → s'.Sound := by
  induction acts with
  | nil =>
    rintro s s' h - ⟨⟩
    exact h
  | cons a acts ih =>
    intro s s' h hsteady hrun
    obtain ⟨hq, hrest⟩ := Bool.and_eq_true_iff.mp hsteady
    rw [State.run, List.foldlM_cons] at hrun
    obtain ⟨mid, hmid, hrun⟩ := Option.bind_eq_some_iff.mp hrun
    rw [hmid] at hrest
    exact ih (h.step hq hmid) hrest hrun

/-- In every run without a step at the wrong time, whatever the order, the
slots in use are the countdowns that are held, each is given back once, one
of completing and being cut happens, a cut is after the deadline, and what is
settled is whether the handshake completed. -/
theorem gate_counts {acts : List (Act K)} {s : State K} (hrun : State.new.run acts = some s)
    (hsteady : State.new.steady acts = true) :
    (s.slots = s.conns.countP fun c => c.held) ∧ s.slots ≤ maxUnauthenticated ∧
      ∀ c ∈ s.conns,
        (c.given = if c.held then 0 else 1) ∧ (c.hook = .gone ↔ c.given = 1) ∧
        ¬ (c.completed = true ∧ c.cutAt.isSome = true) ∧
        (c.armed = false → c.completed = true ∨ c.dog = .won ∨ c.fired = true ∨
          c.phase = .over ∨ ∃ v, c.phase = .settling v) ∧
        (∀ age deadline, c.cutAt = some (age, deadline) → deadline < age) ∧
        ∀ v, c.told = some v → (v = true ↔ c.completed = true) := by
  have hsound := sound_new.run hsteady hrun
  refine ⟨hsound.slots, hsound.bound, fun c hc => ?_⟩
  obtain ⟨hslot, hflag, hdeadline, hverdict⟩ := hsound.conns c hc
  have hgone : c.hook = .gone ↔ c.given = 1 := by
    rw [hslot.given, ← not_iff_not, ← ne_eq, ← hslot.held]
    cases c.held <;> decide
  refine ⟨hslot.given, hgone, ?_, hflag.taken, hdeadline.cut, fun v hv => (hverdict.told v hv).2⟩
  rintro ⟨hcompleted, hcut⟩
  have hfired := hflag.fired.mpr (.inr hcut)
  rw [(hflag.completed hcompleted).2.2] at hfired
  cases hfired

/-- A connection that completes and ends. -/
def served : List (Act Nat) :=
  [.check 0, .admitPeer 0, .conn 0 (.watch 10000), .conn 0 .complete, .conn 0 .release,
    .conn 0 .finish, .conn 0 .loadArmed, .conn 0 .loadFired, .conn 0 .disarm, .conn 0 .settle]

/-- Its slot is free again, and it is settled as it ended. -/
theorem gate_counts_served : ∃ s : State Nat, State.new.run served = some s ∧ s.slots = 0 ∧
    ∃ c ∈ s.conns, c.told = some true ∧ c.completed = true := by
  have hcounts : ∀ s : State Nat, State.new.run served = some s → _ :=
    fun _ hrun => gate_counts hrun rfl
  have h := hcounts _ rfl
  refine ⟨_, rfl, h.1, _, List.mem_singleton_self _, rfl, ?_⟩
  exact ((h.2.2 _ (List.mem_singleton_self _)).2.2.2.2.2 true rfl).mp rfl

/-- The watchdog wins the swap, and what it did is read before it says so. -/
def raced : List (Act Nat) :=
  [.check 0, .admitPeer 0, .conn 0 (.watch 10000), .conn 0 .dogStart, .conn 0 .dogArmed,
    .conn 0 .dogDeadline, .tick 10001, .conn 0 .dogElapsed, .conn 0 .dogSwap, .conn 0 .finish,
    .conn 0 .loadArmed, .conn 0 .loadFired, .conn 0 .disarm, .conn 0 .settle, .conn 0 .dogFire,
    .conn 0 .dogCut]

/-- A connection that was cut is settled as authenticated. -/
theorem raced_told : ∃ s : State Nat, State.new.run raced = some s ∧
    ∃ c ∈ s.conns, c.told = some true ∧ c.completed = false ∧ c.cutAt.isSome = true :=
  ⟨_, rfl, _, List.mem_singleton_self _, rfl, rfl, rfl⟩

end State

end Zesterm.Lan
