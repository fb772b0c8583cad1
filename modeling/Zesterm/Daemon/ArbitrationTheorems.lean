/-
Zesterm.Daemon.ArbitrationTheorems — the smallest client decides.

A session's size is arbitrated under the subscribers' lock, by every call
that brings a vote, changes one or takes one away; a chunk leaves it alone.
So in every state a run reaches it is the smallest of the sizes the clients
attached then last asked for (`arbitrated_run`). Whoever was attached when
it changed is owed a keyframe, and no path but a keyframe's takes that debt
away.
-/
import Zesterm.Daemon.SessionTheorems

namespace Zesterm

/-! ## The smallest of some sizes -/

/-- The smallest of some sizes, side by side. -/
def IsSmallest (sizes : Set CellSize) (m : CellSize) : Prop :=
  IsLeast (Prod.fst '' sizes) m.1 ∧ IsLeast (Prod.snd '' sizes) m.2

theorem IsSmallest.unique {sizes : Set CellSize} {m m' : CellSize} (h : IsSmallest sizes m)
    (h' : IsSmallest sizes m') : m = m' := Prod.ext (h.1.unique h'.1) (h.2.unique h'.2)

theorem isSmallest_smallestSize {sizes : List CellSize} {m : CellSize}
    (h : smallestSize sizes = some m) : IsSmallest {v | v ∈ sizes} m := by
  have hside (f : CellSize → Fin 65536) (hf : ∀ a b, f (smallerSize a b) = min (f a) (f b)) :
      IsLeast (f '' {v | v ∈ sizes}) (f m) := by
    have hmin : (sizes.map f).min? = some (f m) := by
      cases sizes with
      | nil => simp [smallestSize] at h
      | cons size sizes =>
        obtain rfl := Option.some.inj h
        show some ((sizes.map f).foldl min (f size)) = _
        have hhom : sizes.foldl (fun a b => min a (f b)) (f size) =
            f (sizes.foldl smallerSize size) :=
          List.foldl_hom f fun a b => (hf a b).symm
        rw [List.foldl_map, hhom]
    obtain ⟨hmem, hle⟩ := List.min?_eq_some_iff.mp hmin
    constructor
    · obtain ⟨v, hv, heq⟩ := List.mem_map.mp hmem
      exact ⟨v, hv, heq⟩
    · rintro _ ⟨v, hv, rfl⟩
      exact hle _ (List.mem_map_of_mem hv)
  exact ⟨hside Prod.fst fun _ _ => rfl, hside Prod.snd fun _ _ => rfl⟩

theorem smallestSize_isSome {sizes : List CellSize} (h : sizes ≠ []) :
    (smallestSize sizes).isSome = true := by
  cases sizes with
  | nil => exact absurd rfl h
  | cons size sizes => rfl

namespace Session

variable {vt : Vt}
variable {s : Session vt}

theorem mem_votes {v : CellSize} :
    v ∈ s.votes ↔ ∃ k sub, s.subscribers.lookup k = some sub ∧ sub.size = some v := by
  unfold votes
  simp only [List.mem_filterMap, Table.mem_values]
  constructor
  · rintro ⟨sub, ⟨k, hk⟩, hv⟩
    exact ⟨k, sub, hk, hv⟩
  · rintro ⟨k, sub, hk, hv⟩
    exact ⟨sub, ⟨k, hk⟩, hv⟩

/-- Whoever is attached, and what each of them votes, decides the votes. -/
theorem votes_congr {s' : Session vt}
    (h : ∀ k, (s'.subscribers.lookup k).map Subscriber.size =
      (s.subscribers.lookup k).map Subscriber.size) : {v | v ∈ s'.votes} = {v | v ∈ s.votes} := by
  have hvote (s : Session vt) (v : CellSize) :
      v ∈ s.votes ↔ ∃ k, (s.subscribers.lookup k).map Subscriber.size = some (some v) := by
    rw [mem_votes]
    simp only [Option.map_eq_some_iff]
  ext v
  simp only [Set.mem_ofPred_eq, hvote, h]

/-! ## One arbitration -/

/-- The terminal is in shape, and no vote is below the floor. -/
structure Sized (s : Session vt) : Prop where
  sound : ∃ cols rows, s.terminal.state.Sound cols rows
  clamped : ∀ v ∈ s.votes, 2 ≤ v.1 ∧ 1 ≤ v.2

/-- The size is what the votes come to. -/
def Decided (s : Session vt) : Prop := ∀ m, IsSmallest {v | v ∈ s.votes} m → m = s.size

theorem size_of_sound {cols rows : Nat} (h : s.terminal.state.Sound cols rows) :
    s.size = (saturate cols, saturate rows) := by
  unfold size
  rw [h.active.cols, h.active.rows]

theorem votes_reconcileSize (s : Session vt) (exempt : Option Nat) :
    {v | v ∈ (s.reconcileSize exempt).1.votes} = {v | v ∈ s.votes} := by
  refine votes_congr fun k => ?_
  obtain ⟨f, hf, hkeep⟩ := lookup_reconcileSize s exempt k
  rw [hf, Option.map_map]
  exact congrArg (fun g => (s.subscribers.lookup k).map g) (funext fun sub => (hkeep sub).2)

theorem saturate_val (n : Fin 65536) : saturate n = n := by
  unfold saturate
  apply Fin.ext
  show min n.val 65535 = n.val
  omega

/-- After an arbitration the size is what the votes come to, and without a
vote it is what it was. -/
theorem decided_reconcileSize (h : s.Sized) (exempt : Option Nat) :
    (s.reconcileSize exempt).1.Decided ∧ (s.reconcileSize exempt).1.Sized ∧
      (s.votes = [] → (s.reconcileSize exempt).1.size = s.size) := by
  have hvotes := votes_reconcileSize s exempt
  have hclamped : ∀ v ∈ (s.reconcileSize exempt).1.votes, 2 ≤ v.1 ∧ 1 ≤ v.2 := by
    intro v hv
    exact h.clamped v (hvotes ▸ hv : v ∈ {v | v ∈ s.votes})
  rcases s.reconcileSize_cases exempt with ⟨heq, hwant⟩ | ⟨want, hwant, -, heq⟩
  · rw [heq]
    refine ⟨fun m hm => ?_, h, fun _ => rfl⟩
    have hne : s.votes ≠ [] := by
      intro hnil
      obtain ⟨v, hv, -⟩ := hm.1.1
      rw [Set.mem_ofPred_eq, hnil] at hv
      exact absurd hv List.not_mem_nil
    obtain ⟨want, hsome⟩ := Option.isSome_iff_exists.mp (smallestSize_isSome hne)
    rw [hm.unique (isSmallest_smallestSize hsome)]
    exact hwant want hsome
  · have hsmallest := isSmallest_smallestSize hwant
    obtain ⟨cols, rows, hsound⟩ := h.sound
    have hsound' := hsound.resize want.1 want.2
    have hfloor : 2 ≤ want.1 ∧ 1 ≤ want.2 := by
      obtain ⟨v, hv, hv1⟩ := hsmallest.1.1
      obtain ⟨w, hw, hw2⟩ := hsmallest.2.1
      exact ⟨hv1 ▸ (h.clamped v hv).1, hw2 ▸ (h.clamped w hw).2⟩
    have hcols : max want.1.val 1 = want.1.val := by
      have h1 := Fin.le_def.mp hfloor.1
      exact max_eq_left (le_trans (by decide) h1)
    have hrows : max want.2.val 1 = want.2.val := max_eq_left (Fin.le_def.mp hfloor.2)
    rw [hcols, hrows] at hsound'
    have hsize : (s.reconcileSize exempt).1.size = want := by
      rw [heq]
      exact (size_of_sound (s := { s with
          terminal := s.terminal.resize want.1 want.2
          subscribers := oweKeyframes exempt s.subscribers }) hsound').trans
        (Prod.ext (saturate_val _) (saturate_val _))
    refine ⟨fun m hm => ?_, ⟨⟨want.1, want.2, ?_⟩, hclamped⟩, fun hnil => ?_⟩
    · rw [hsize]
      exact (hvotes ▸ hm : IsSmallest {v | v ∈ s.votes} m).unique hsmallest
    · rw [heq]
      exact hsound'
    · rw [hnil] at hwant
      simp [smallestSize] at hwant

/-! ## One call -/

/-- A call ends in an arbitration, or does nothing, or is not about the
votes. -/
theorem reconciles_or (s : Session vt) (c : Call) :
    (∃ s₁ exempt, (s.step c).1 = (reconcileSize s₁ exempt).1 ∧ s₁.terminal = s.terminal) ∨
      (s.step c).1 = s ∨ c.arbitrates = false := by
  by_cases hblocked : s.joining.isSome ∧ c.locksSubscribers s.phase = true
  · refine .inr (.inl ?_)
    unfold step
    rw [if_pos hblocked]
  · cases c with
    | join size =>
      have hstep : (s.step (.join size)).1 = s.arrive.1.join s.arrive.2 size := by
        unfold step
        rw [if_neg hblocked]
      exact .inl
        ⟨{ s.arrive.1 with
            subscribers := s.arrive.1.subscribers.insert s.arrive.2 { size := size.map clampSize }
            joining := some s.arrive.2 },
          some s.arrive.2, hstep, rfl⟩
    | setClientSize handle size =>
      have hstep : (s.step (.setClientSize handle size)).1 = (s.setClientSize handle size).1 := by
        unfold step
        rw [if_neg hblocked]
      unfold setClientSize at hstep
      cases hlookup : s.subscribers.lookup handle with
      | none =>
        rw [hlookup] at hstep
        exact .inr (.inl hstep)
      | some sub =>
        rw [hlookup] at hstep
        exact .inl
          ⟨{ s with
              subscribers := s.subscribers.insert handle { sub with size := some (clampSize size) } },
            none, hstep, rfl⟩
    | detach handle =>
      have hstep : (s.step (.detach handle)).1 = s.detach handle := by
        unfold step
        rw [if_neg hblocked]
      exact .inl ⟨{ s with subscribers := s.subscribers.erase handle }, none, hstep, rfl⟩
    | _ => exact .inr (.inr rfl)

/-- A call that is not about the votes leaves each as it is. -/
theorem vote_step (s : Session vt) {c : Call} (hc : c.arbitrates = false) (k : Nat) :
    ((s.step c).1.subscribers.lookup k).map Subscriber.size =
      (s.subscribers.lookup k).map Subscriber.size := by
  have hchange := change_step s k c
  generalize s.subscribers.lookup k = o at hchange
  generalize (s.step c).1.subscribers.lookup k = o' at hchange
  generalize (s.step c).2.messageTo k = u at hchange
  cases hchange with
  | absent | greets | keyframes => rfl
  | kept _ _ hvote =>
    rcases hvote with ⟨-, hsize⟩ | ⟨size, rfl, -⟩
    · exact congrArg some hsize
    · simp [Call.arbitrates] at hc
  | joins _ _ size hjoin =>
    subst hjoin
    simp [Call.arbitrates] at hc
  | @polls sub => exact congrArg some (sub.size_poll _ _)
  | leaves hdetach =>
    subst hdetach
    simp [Call.arbitrates] at hc

theorem sound_parse {cols rows : Nat} (h : s.terminal.state.Sound cols rows) (chunk : List UInt8)
    (nowMs : Nat) (author : Option (List UInt8)) :
    (s.parse chunk nowMs author).terminal.state.Sound cols rows := by
  have hset : ((s.terminal.setNowMs nowMs).setInputAuthor author).state.Sound cols rows :=
    (h.of_frame rfl rfl id : (s.terminal.setNowMs nowMs).state.Sound cols rows).of_frame rfl rfl id
  exact (hset.steps (Terminal.steps_advance _ chunk)).of_frame rfl rfl id

/-- A call keeps the terminal in shape. -/
theorem sound_step {cols rows : Nat} (h : s.terminal.state.Sound cols rows) (c : Call) :
    ∃ cols' rows', (s.step c).1.terminal.state.Sound cols' rows' := by
  cases effect_step s c with
  | same hterminal _ => exact ⟨cols, rows, hterminal ▸ h⟩
  | resized _ want hterminal =>
    refine ⟨max want.1.val 1, max want.2.val 1, ?_⟩
    rw [hterminal]
    exact h.resize want.1 want.2
  | parsed chunk nowMs author _ _ hs' => exact ⟨cols, rows, hs' ▸ sound_parse h _ _ _⟩
  | stamped block snapshot _ hterminal _ =>
    refine ⟨cols, rows, ?_⟩
    rw [hterminal]
    exact h.of_frame rfl rfl id
  | titled _ _ _ _ hs' => exact ⟨cols, rows, hs' ▸ h⟩

/-- A call that is not about the votes leaves the size alone. -/
theorem size_step (h : s.Sized) {c : Call} (hc : c.arbitrates = false) :
    (s.step c).1.size = s.size := by
  obtain ⟨cols, rows, hsound⟩ := h.sound
  have hkeeps (s' : Session vt) (hs' : s'.terminal.state.Sound cols rows) : s'.size = s.size :=
    (size_of_sound hs').trans (size_of_sound hsound).symm
  cases effect_step s c with
  | same hterminal _ => exact hkeeps _ (hterminal ▸ hsound)
  | resized harbitrates => exact absurd harbitrates (by rw [hc]; exact Bool.false_ne_true)
  | parsed chunk nowMs author _ _ hs' => exact hkeeps _ (hs' ▸ sound_parse hsound _ _ _)
  | stamped block snapshot _ hterminal _ =>
    refine hkeeps _ ?_
    rw [hterminal]
    exact hsound.of_frame rfl rfl id
  | titled _ _ _ _ hs' => exact hkeeps _ (hs' ▸ hsound)

theorem clamped_clampSize (size : CellSize) : 2 ≤ (clampSize size).1 ∧ 1 ≤ (clampSize size).2 :=
  ⟨le_max_right _ _, le_max_right _ _⟩

/-- Every vote has been held to the floor. -/
theorem clamped_step (h : s.Sized) (c : Call) : ∀ v ∈ (s.step c).1.votes, 2 ≤ v.1 ∧ 1 ≤ v.2 := by
  have hold : ∀ k sub v, s.subscribers.lookup k = some sub → sub.size = some v →
      2 ≤ v.1 ∧ 1 ≤ v.2 := fun k sub v hk hv => h.clamped v (mem_votes.mpr ⟨k, sub, hk, hv⟩)
  intro v hv
  obtain ⟨k, sub', hk, hv⟩ := mem_votes.mp hv
  have hchange := change_step s k c
  rw [hk] at hchange
  generalize ho : s.subscribers.lookup k = o at hchange
  generalize (s.step c).2.messageTo k = u at hchange
  generalize ho' : some sub' = o' at hchange
  cases hchange with
  | absent | leaves => simp at ho'
  | kept _ _ hvote =>
    obtain rfl := Option.some.inj ho'
    rcases hvote with ⟨-, hsize⟩ | ⟨size, -, -, hsize⟩
    · exact hold k _ v ho (hsize ▸ hv)
    · obtain rfl := Option.some.inj (hsize ▸ hv)
      exact clamped_clampSize size
  | joins _ _ size _ hvote =>
    obtain rfl := Option.some.inj ho'
    rw [hvote, Option.map_eq_some_iff] at hv
    obtain ⟨asked, -, rfl⟩ := hv
    exact clamped_clampSize asked
  | greets | keyframes =>
    obtain rfl := Option.some.inj ho'
    exact hold k _ v ho hv
  | @polls sub =>
    obtain rfl := Option.some.inj ho'
    exact hold k _ v ho ((sub.size_poll _ _) ▸ hv)

/-- One call keeps the size what the votes come to, and without a vote
what it was. -/
theorem decided_step (h : s.Sized) (hd : s.Decided) (c : Call) :
    (s.step c).1.Sized ∧ (s.step c).1.Decided ∧
      ((s.step c).1.votes = [] → (s.step c).1.size = s.size) := by
  have hclamped := clamped_step h c
  rcases s.reconciles_or c with ⟨s₁, exempt, heq, hterminal⟩ | heq | hc
  · have h₁ : s₁.Sized := by
      refine ⟨hterminal ▸ h.sound, fun v hv => hclamped v ?_⟩
      rw [heq]
      exact ((votes_reconcileSize s₁ exempt).symm ▸ hv :
        v ∈ {v | v ∈ (s₁.reconcileSize exempt).1.votes})
    obtain ⟨hdecided, hsized, hunvoted⟩ := decided_reconcileSize h₁ exempt
    rw [heq]
    refine ⟨hsized, hdecided, fun hnil => ?_⟩
    have hnone : s₁.votes = [] := by
      rw [List.eq_nil_iff_forall_not_mem]
      intro v hv
      have hv' : v ∈ {v | v ∈ (s₁.reconcileSize exempt).1.votes} :=
        (votes_reconcileSize s₁ exempt).symm ▸ hv
      rw [Set.mem_ofPred_eq, hnil] at hv'
      exact absurd hv' List.not_mem_nil
    rw [hunvoted hnone]
    unfold size
    rw [hterminal]
  · rw [heq]
    exact ⟨h, hd, fun _ => rfl⟩
  · have hsize := size_step h hc
    obtain ⟨cols, rows, hsound⟩ := h.sound
    refine ⟨⟨sound_step hsound c, hclamped⟩, fun m hm => ?_, fun _ => hsize⟩
    · rw [hsize]
      exact hd m (votes_congr (vote_step s hc) ▸ hm)

/-! ## Who asked for what -/

/-- Whether a client is attached, and the size it last asked for, after one
more entry. -/
def stand (k : Nat) (o : Option (Option CellSize)) (e : Entry vt) : Option (Option CellSize) :=
  match e.call, e.reply with
  | .join size, .joined handle => if k = handle then some (size.map clampSize) else o
  | .setClientSize handle size, .resized _ =>
    if k = handle then o.map fun _ => some (clampSize size) else o
  | .detach handle, .done => if k = handle then none else o
  | _, _ => o

/-- Whether a client is attached, and the size it last asked for. -/
def standing (k : Nat) (h : List (Entry vt)) : Option (Option CellSize) := h.foldl (stand k) none

theorem standing_snoc (k : Nat) (h : List (Entry vt)) (e : Entry vt) :
    standing k (h ++ [e]) = stand k (standing k h) e := by
  unfold standing
  rw [List.foldl_append]
  rfl

/-- The sizes that the clients attached after a history last asked for. -/
def voted (h : List (Entry vt)) : Set CellSize := {v | ∃ k, standing k h = some (some v)}

theorem voted_eq_votes {h : List (Entry vt)}
    (hstands : ∀ k, (s.subscribers.lookup k).map Subscriber.size = standing k h) :
    voted h = {v | v ∈ s.votes} := by
  ext v
  unfold voted
  rw [Set.mem_ofPred_eq, Set.mem_ofPred_eq, mem_votes]
  simp only [← hstands, Option.map_eq_some_iff]

/-- The subscribers are who the history says is attached. -/
theorem stand_step (s : Session vt) (c : Call) (k : Nat) :
    ((s.step c).1.subscribers.lookup k).map Subscriber.size =
      stand k ((s.subscribers.lookup k).map Subscriber.size) ⟨s, c, (s.step c).2⟩ := by
  by_cases hblocked : s.joining.isSome ∧ c.locksSubscribers s.phase = true
  · have hstep : s.step c = (s, .blocked) := by
      unfold step
      rw [if_pos hblocked]
    rw [hstep]
    unfold stand
    cases c <;> rfl
  · have hreconciled (s₁ : Session vt) (exempt : Option Nat) :
        ((s₁.reconcileSize exempt).1.subscribers.lookup k).map Subscriber.size =
          (s₁.subscribers.lookup k).map Subscriber.size := by
      obtain ⟨f, hf, hkeep⟩ := lookup_reconcileSize s₁ exempt k
      rw [hf, Option.map_map]
      exact congrArg (fun g => (s₁.subscribers.lookup k).map g) (funext fun sub => (hkeep sub).2)
    cases c with
    | join size =>
      have hstep : s.step (.join size) = (s.arrive.1.join s.arrive.2 size, .joined s.arrive.2) := by
        unfold step
        rw [if_neg hblocked]
      rw [hstep]
      unfold join
      rw [hreconciled]
      dsimp only [stand, arrive]
      rw [Table.lookup_insert_eq]
      split <;> rfl
    | setClientSize handle size =>
      have hstep : s.step (.setClientSize handle size) =
          ((s.setClientSize handle size).1, .resized (s.setClientSize handle size).2) := by
        unfold step
        rw [if_neg hblocked]
      rw [hstep]
      unfold setClientSize
      dsimp only [stand]
      cases hlookup : s.subscribers.lookup handle with
      | none =>
        dsimp only
        split
        · next hk =>
          rw [hk, hlookup]
          rfl
        · rfl
      | some sub =>
        dsimp only
        rw [hreconciled]
        dsimp only
        rw [Table.lookup_insert_eq]
        split
        · next hk =>
          rw [hk, hlookup]
          rfl
        · rfl
    | detach handle =>
      have hstep : s.step (.detach handle) = (s.detach handle, .done) := by
        unfold step
        rw [if_neg hblocked]
      rw [hstep]
      unfold detach
      rw [hreconciled]
      dsimp only [stand]
      rw [Table.lookup_erase_eq]
      split <;> rfl
    | _ => exact vote_step s rfl k

/-! ## Every run -/

/-- A call changes the size under a client that is attached. -/
def Resizes (k : Nat) (e : Entry vt) : Prop :=
  (e.state.step e.call).1.size ≠ e.state.size ∧ (e.state.subscribers.lookup k).isSome

/-- What an arbitrated session keeps to. -/
structure Arbitrated (h : List (Entry vt)) (s : Session vt) : Prop where
  smallest : (voted h).Nonempty → IsSmallest (voted h) s.size
  unvoted : Trace.Each (fun before e =>
    voted (before ++ [e]) = ∅ → (e.state.step e.call).1.size = e.state.size) h
  /-- Between a change and a delta there is a keyframe. -/
  keyframeFirst : ∀ k, Trace.Between (Resizes k) (SendsKeyframe k) (SendsDelta k) h

/-- A call that changes the size owes a keyframe to whoever was attached. -/
theorem owes_of_resizes (h : s.Sized) (hhandled : s.Handled) {c : Call} {k : Nat}
    (hresizes : Resizes k ⟨s, c, (s.step c).2⟩) : (s.step c).1.Owes k := by
  obtain ⟨hsize, hattached⟩ := hresizes
  obtain ⟨sub, hsub⟩ := Option.isSome_iff_exists.mp hattached
  have hk := hhandled k sub hsub
  have hc : c.arbitrates = true := by
    by_contra hnot
    exact hsize (size_step h (Bool.not_eq_true _ ▸ hnot))
  obtain ⟨cols, rows, hsound⟩ := h.sound
  refine ⟨lt_of_lt_of_le hk (next_step s c), ?_⟩
  cases effect_step s c with
  | same hterminal _ => exact absurd (by unfold size; rw [hterminal]) hsize
  | resized _ want _ _ howed =>
    intro sub' hsub'
    rcases howed k sub' hsub' with howes | ⟨-, rfl⟩
    · exact howes
    · exact absurd hk (lt_irrefl _)
  | parsed _ _ _ hparse =>
    subst hparse
    simp [Call.arbitrates] at hc
  | stamped block snapshot _ hterminal _ =>
    refine absurd (Eq.trans (size_of_sound ?_) (size_of_sound hsound).symm) hsize
    rw [hterminal]
    exact hsound.of_frame rfl rfl id
  | titled _ _ hevent =>
    subst hevent
    simp [Call.arbitrates] at hc

theorem sized_spawn (size : CellSize) (scrollback : Nat) (restates hasContext : Bool)
    (archive : Option Archive) : (spawn vt size scrollback restates hasContext archive).Sized := by
  constructor
  · exact ⟨max size.1.val 1, max size.2.val 1,
      (Terminal.sound_new size.1 size.2 scrollback).setViewportRestatedElsewhere restates⟩
  · intro v hv
    exact absurd hv List.not_mem_nil

/-- **The smallest client decides.** In every run of a session, whatever
its calls and their order, the size is the smallest of what the clients
attached last asked for, a call that leaves no vote leaves it alone, and
whoever was attached when it changed is sent a keyframe before any delta. -/
theorem arbitrated_run (size : CellSize) (scrollback : Nat) (restates hasContext : Bool)
    (archive : Option Archive) (calls : List Call) :
    Arbitrated
      (Trace.run step (spawn vt size scrollback restates hasContext archive) calls).2
      (Trace.run step (spawn vt size scrollback restates hasContext archive) calls).1 := by
  have hsized : (spawn vt size scrollback restates hasContext archive).Sized :=
    sized_spawn size scrollback restates hasContext archive
  obtain ⟨⟨-, hdecided, hstands⟩, hunvoted⟩ := @Trace.run_invariant _ _ _ step
    (spawn vt size scrollback restates hasContext archive)
    (fun s h => (s.Sized ∧ s.Decided ∧
        ∀ k, (s.subscribers.lookup k).map Subscriber.size = standing k h) ∧
      Trace.Each (fun before e =>
        voted (before ++ [e]) = ∅ → (e.state.step e.call).1.size = e.state.size) h)
    ⟨⟨hsized, fun m hm => absurd hm.1.1 (by rintro ⟨v, hv, -⟩; exact absurd hv List.not_mem_nil),
      fun _ => rfl⟩, Trace.each_nil _⟩
    (fun s h c => by
      rintro ⟨⟨hs, hd, hstands⟩, heach⟩
      obtain ⟨hs', hd', hunvoted⟩ := decided_step hs hd c
      have hstands' : ∀ k, ((s.step c).1.subscribers.lookup k).map Subscriber.size =
          standing k (h ++ [⟨s, c, (s.step c).2⟩]) := by
        intro k
        rw [stand_step, hstands, standing_snoc]
      refine ⟨⟨hs', hd', hstands'⟩, Trace.each_snoc.mpr ⟨heach, fun hnone => hunvoted ?_⟩⟩
      rw [voted_eq_votes hstands'] at hnone
      rw [List.eq_nil_iff_forall_not_mem]
      intro v hv
      exact absurd (hnone ▸ hv : v ∈ (∅ : Set CellSize)) (Set.notMem_empty v))
    calls
  have hvoted := voted_eq_votes hstands
  refine ⟨fun hsome => ?_, hunvoted, fun k => ?_⟩
  · rw [hvoted] at hsome ⊢
    obtain ⟨v, hv⟩ := hsome
    have hne := List.ne_nil_of_mem hv
    obtain ⟨m, hm⟩ := Option.isSome_iff_exists.mp (smallestSize_isSome hne)
    rw [← hdecided m (isSmallest_smallestSize hm)]
    exact isSmallest_smallestSize hm
  · refine Trace.between_run (I := fun s => s.Sized ∧ s.Decided ∧ s.Handled) (O := Owes k)
      (P := fun _ _ => True) ⟨hsized, ?_, ?_⟩ ?_ ?_ ?_ (fun _ h => h.not_keyframe) calls
      (fun _ _ _ _ => trivial)
    · rintro m ⟨⟨⟨v, hv, -⟩, -⟩, -⟩
      exact absurd hv List.not_mem_nil
    · intro k sub hsub
      exact absurd hsub (by simp [spawn])
    · rintro s - c ⟨hs, hd, hhandled⟩ -
      obtain ⟨hs', hd', -⟩ := decided_step hs hd c
      exact ⟨hs', hd', handled_step hhandled c⟩
    · rintro s - c ⟨hs, -, hhandled⟩ - hresizes
      exact owes_of_resizes hs hhandled hresizes
    · rintro s - c - - howes hpaid
      exact owes_step howes c hpaid

end Session

end Zesterm
