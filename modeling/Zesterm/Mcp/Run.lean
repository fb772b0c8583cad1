/-
Zesterm.Mcp.Run — matching a command an agent submitted with the block the
shell minted for it (`run.rs`, and `finished_since` of `tools.rs`).

`anchor` records the tail block before the write and refuses every tail a
submitted line would be swallowed by. `progress` then reads a later block list
against it. The finished answer comes from `finishedSince`, the first
*finished* block at or above the anchor; the running answer comes from `ours`,
the first that *gained output*. `warnings` counts by the second rule, and says
that the result beside it is the first of those it counted.

The two searches agree as long as blocks close in the order they start.
`reports_iff` says when a run is told of its own command: when the first
finished block gained output, and none before it did.
-/
import Zesterm.Proto.Delta

namespace Zesterm.Mcp

/-! ## The anchor -/

/-- The tail of the block list as it stood before the write. -/
structure Anchor where
  id : BlockId
  deriving DecidableEq

/-- Why a session cannot be run in, or a command submitted. -/
inductive Refusal where
  | altScreen
  | noBlocks
  | noPrompt
  | busy
  | multiLine
  | controlBytes
  deriving DecidableEq

inductive Progress where
  /-- The shell has not marked a command as started. -/
  | notStarted
  | running (b : BlockPayload)
  | finished (b : BlockPayload)
  /-- The anchor's block is gone, or is no longer vouched for. -/
  | lost
  deriving DecidableEq

namespace Run

variable {a : Anchor} {blocks : List BlockPayload}

/-- `anchor`: the tail block, if it is a prompt at which nothing was submitted. -/
def anchor (blocks : List BlockPayload) (alt : Bool) : Except Refusal Anchor :=
  if alt then .error .altScreen
  else
    match blocks.getLast? with
    | none => .error .noBlocks
    | some tail =>
      match tail.state with
      | .finished _ => .error .noPrompt
      | .running => .error .busy
      | .prompt => if tail.outputLine.isSome then .error .busy else .ok ⟨tail.id⟩

/-! ## Where the run has got to -/

/-- `matches!(b.state, BlockState::Finished { .. })`. -/
def isFinished (b : BlockPayload) : Bool :=
  match b.state with
  | .finished _ => true
  | _ => false

/-- `states`: the blocks in the shape `finishedSince` reads them. -/
def states (blocks : List BlockPayload) : List (BlockId × Bool) :=
  blocks.map fun b => (b.id, isFinished b)

/-- `finished_since`: the first block at or after the anchor that has finished.
The anchor itself counts if it was open when the wait began. -/
def finishedSince (blocks : List (BlockId × Bool)) (anchor : BlockId) (anchorWasFinished : Bool) :
    Option BlockId :=
  ((blocks.filter fun p => p.2 && anchor ≤ p.1).find? fun p =>
    anchor < p.1 || !anchorWasFinished).map Prod.fst

/-- A block at or above the anchor that gained output. -/
def started (a : Anchor) (b : BlockPayload) : Bool := decide (a.id ≤ b.id) && b.outputLine.isSome

/-- `ours`: the block this run's command landed in, if the shell has started one. -/
def ours (blocks : List BlockPayload) (a : Anchor) : Option BlockPayload :=
  blocks.find? (started a)

/-- `progress`. A finished id is looked up in the list again; where it is
not found the search by output decides. -/
def progress (blocks : List BlockPayload) (blocksFrom : BlockId) (a : Anchor) : Progress :=
  if !blocks.any (fun b => b.id == a.id) then .lost
  else if a.id < blocksFrom then .lost
  else
    match (finishedSince (states blocks) a.id false).bind fun id =>
        blocks.find? fun b => b.id == id with
    | some b => .finished b
    | none =>
      match ours blocks a with
      | none => .notStarted
      | some b => .running b

/-- `warnings`. The last of them counts the blocks by the rule of `ours`. -/
def warnings (blocks : List BlockPayload) (a : Anchor) (requested : Str) (got : BlockPayload) :
    List String :=
  let command := trim got.command
  let mismatch :=
    if command = [] then
      ["no_command_text: the shell started a command but recorded no text for it, so " ++
        "this block could not be checked against the one that was sent"]
    else if command ≠ trim requested then
      ["command_mismatch: this block records `" ++ String.ofList command ++
        "`, not the command that was sent. Something else was on the input line, the shell " ++
        "rewrote it, or the markers were printed by a program"]
    else []
  let count := (blocks.filter (started a)).length
  mismatch ++
    if 1 < count then
      ["multiple_blocks: " ++ toString count ++ " commands have started in this session since " ++
        "the one that was sent; the result below is the first of them"]
    else []

/-! ## What a run should be told -/

/-- The block at or above the anchor that gained output before any other did. -/
structure First (blocks : List BlockPayload) (a : Anchor) (b : BlockPayload) : Prop where
  mem : b ∈ blocks
  started : started a b = true
  least : ∀ c ∈ blocks, Run.started a c = true → b.id ≤ c.id

/-- The anchor's block is absent, or the index no longer claims to be complete
there. -/
def Gone (blocks : List BlockPayload) (blocksFrom : BlockId) (a : Anchor) : Prop :=
  (∀ b ∈ blocks, b.id ≠ a.id) ∨ a.id < blocksFrom

/-- An answer that tells a run of its own command. -/
structure Reports (blocks : List BlockPayload) (blocksFrom : BlockId) (a : Anchor)
    (p : Progress) : Prop where
  lost : p = .lost ↔ Gone blocks blocksFrom a
  finished : ∀ b, p = .finished b ↔
    ¬ Gone blocks blocksFrom a ∧ First blocks a b ∧ isFinished b = true
  running : ∀ b, p = .running b ↔
    ¬ Gone blocks blocksFrom a ∧ First blocks a b ∧ isFinished b = false
  notStarted : p = .notStarted ↔ ¬ Gone blocks blocksFrom a ∧ ∀ b, ¬ First blocks a b
  /-- The block of the answer is the first of those `warnings` counts. -/
  counted : ∀ b, p = .finished b ∨ p = .running b → (blocks.filter (started a)).head? = some b

/-- Blocks close in the order they start: the first finished one at or above
the anchor gained output, and none between the anchor and it did. -/
def Orderly (blocks : List BlockPayload) (a : Anchor) : Prop :=
  ∀ g ∈ blocks, a.id ≤ g.id → isFinished g = true →
    (∀ c ∈ blocks, a.id ≤ c.id → c.id < g.id → isFinished c = false) →
    g.outputLine.isSome = true ∧
      ∀ c ∈ blocks, a.id ≤ c.id → c.id < g.id → c.outputLine.isSome = false

/-! ## The two searches -/

/-- A finished block at or above the anchor. -/
def closed (a : Anchor) (b : BlockPayload) : Bool := isFinished b && decide (a.id ≤ b.id)

theorem closed_iff {b : BlockPayload} : closed a b = true ↔ isFinished b = true ∧ a.id ≤ b.id := by
  simp [closed]

theorem started_iff {b : BlockPayload} :
    started a b = true ↔ a.id ≤ b.id ∧ b.outputLine.isSome = true := by
  simp [started]

/-- On ascending blocks a search finds the least that qualifies. -/
theorem find_eq_some_iff (hids : blocks.Pairwise (·.id < ·.id)) (p : BlockPayload → Bool)
    (b : BlockPayload) :
    blocks.find? p = some b ↔ b ∈ blocks ∧ p b = true ∧ ∀ c ∈ blocks, p c = true → b.id ≤ c.id := by
  induction blocks with
  | nil => simp
  | cons c rest ih =>
    obtain ⟨hhead, hrest⟩ := List.pairwise_cons.mp hids
    cases hc : p c with
    | true =>
      rw [List.find?_cons_of_pos hc]
      constructor
      · rintro ⟨⟩
        refine ⟨List.mem_cons_self, hc, fun d hd _ => ?_⟩
        rcases List.mem_cons.mp hd with rfl | hd
        · exact Nat.le_refl _
        · exact Nat.le_of_lt (hhead d hd)
      · rintro ⟨hmem, -, hleast⟩
        rcases List.mem_cons.mp hmem with rfl | hmem
        · rfl
        · exact absurd (hleast c List.mem_cons_self hc) (Nat.not_le.mpr (hhead b hmem))
    | false =>
      rw [List.find?_cons_of_neg (by simp [hc]), ih hrest]
      constructor
      · rintro ⟨hmem, hb, hleast⟩
        refine ⟨List.mem_cons_of_mem c hmem, hb, fun d hd hpd => ?_⟩
        rcases List.mem_cons.mp hd with rfl | hd
        · rw [hc] at hpd
          cases hpd
        · exact hleast d hd hpd
      · rintro ⟨hmem, hb, hleast⟩
        rcases List.mem_cons.mp hmem with rfl | hmem
        · rw [hc] at hb
          cases hb
        · exact ⟨hmem, hb, fun d hd => hleast d (List.mem_cons_of_mem c hd)⟩

theorem ours_eq_some_iff (hids : blocks.Pairwise (·.id < ·.id)) (a : Anchor) (b : BlockPayload) :
    ours blocks a = some b ↔ First blocks a b :=
  (find_eq_some_iff hids _ b).trans
    ⟨fun ⟨hmem, hb, hleast⟩ => ⟨hmem, hb, hleast⟩, fun h => ⟨h.mem, h.started, h.least⟩⟩

/-- `finishedSince` names the first closed block. -/
theorem finishedSince_states (blocks : List BlockPayload) (a : Anchor) :
    finishedSince (states blocks) a.id false = (blocks.find? (closed a)).map (·.id) := by
  unfold finishedSince states
  rw [List.find?_filter, List.find?_map, Option.map_map]
  refine congrArg (Option.map fun b : BlockPayload => b.id) (congrArg (blocks.find? ·) ?_)
  funext b
  simp [closed]

/-- The lookup by id finds the block the search by state found. -/
theorem finished_lookup (hids : blocks.Pairwise (·.id < ·.id)) (a : Anchor) :
    ((finishedSince (states blocks) a.id false).bind fun id => blocks.find? fun b => b.id == id) =
      blocks.find? (closed a) := by
  rw [finishedSince_states]
  cases hg : blocks.find? (closed a) with
  | none => rfl
  | some g =>
    refine (find_eq_some_iff hids _ g).mpr ⟨List.mem_of_find?_eq_some hg, beq_self_eq_true g.id, ?_⟩
    intro c _ hc
    exact Nat.le_of_eq (beq_iff_eq.mp hc).symm

theorem progress_of_gone {blocksFrom : BlockId} (h : Gone blocks blocksFrom a) :
    progress blocks blocksFrom a = .lost := by
  unfold progress
  rcases h with habsent | habove
  · rw [if_pos (by simpa using habsent)]
  · rw [if_pos habove, ite_self]

theorem progress_of_not_gone {blocksFrom : BlockId} (hids : blocks.Pairwise (·.id < ·.id))
    (h : ¬ Gone blocks blocksFrom a) :
    progress blocks blocksFrom a =
      ((blocks.find? (closed a)).map Progress.finished).getD
        (((ours blocks a).map Progress.running).getD .notStarted) := by
  obtain ⟨hpresent, hfloor⟩ := not_or.mp h
  have hany : (!blocks.any fun b => b.id == a.id) ≠ true := by simpa using hpresent
  rw [progress, if_neg hany, if_neg hfloor, finished_lookup hids a]
  cases blocks.find? (closed a) with
  | some g => rfl
  | none => cases ours blocks a <;> rfl

/-- The first closed block, where blocks close in order. -/
theorem Orderly.first {g : BlockPayload} (hids : blocks.Pairwise (·.id < ·.id))
    (h : Orderly blocks a) (hg : blocks.find? (closed a) = some g) : First blocks a g := by
  obtain ⟨hmem, hclosed, hleast⟩ := (find_eq_some_iff hids _ g).mp hg
  obtain ⟨hfinished, habove⟩ := closed_iff.mp hclosed
  obtain ⟨houtput, hbefore⟩ := h g hmem habove hfinished fun c hc hac hcg => by
    by_contra hcf
    exact absurd (hleast c hc (closed_iff.mpr ⟨by simpa using hcf, hac⟩)) (Nat.not_le.mpr hcg)
  refine ⟨hmem, started_iff.mpr ⟨habove, houtput⟩, fun c hc hcs => ?_⟩
  obtain ⟨hac, hco⟩ := started_iff.mp hcs
  by_contra hlt
  rw [hbefore c hc hac (Nat.not_le.mp hlt)] at hco
  cases hco

/-- A run is told of its own command if and only if its anchor is gone or blocks
close in the order they start. -/
theorem reports_iff (blocks : List BlockPayload) (blocksFrom : BlockId) (a : Anchor)
    (hids : blocks.Pairwise (·.id < ·.id)) :
    Reports blocks blocksFrom a (progress blocks blocksFrom a) ↔
      Gone blocks blocksFrom a ∨ Orderly blocks a := by
  by_cases hgone : Gone blocks blocksFrom a
  · rw [progress_of_gone hgone]
    refine iff_of_true ⟨by simp [hgone], by simp [hgone], by simp [hgone], by simp [hgone], ?_⟩
      (.inl hgone)
    rintro b (h | h) <;> cases h
  have hfirst := ours_eq_some_iff hids a
  rw [progress_of_not_gone hids hgone]
  cases hg : blocks.find? (closed a) with
  | none =>
    have hopen : ∀ c ∈ blocks, a.id ≤ c.id → isFinished c = false := fun c hc hac => by
      simpa [closed, hac] using List.find?_eq_none.mp hg c hc
    refine iff_of_true ?_ (.inr fun g hmem hag hf _ => absurd hf (by simp [hopen g hmem hag]))
    have hrunning : ∀ b, First blocks a b → isFinished b = false := fun b hb =>
      hopen b hb.mem (started_iff.mp hb.started).1
    cases ho : ours blocks a with
    | none =>
      have hno : ∀ b, ¬ First blocks a b := fun b hb => by
        rw [(hfirst b).mpr hb] at ho
        cases ho
      exact ⟨by simp [hgone], by simp [hno], by simp [hno], by simp [hgone, hno], by simp⟩
    | some b =>
      have hb := (hfirst b).mp ho
      have hsame : ∀ c, First blocks a c → c = b := fun c hc => by
        rw [(hfirst c).mpr hc] at ho
        exact Option.some.inj ho
      refine ⟨by simp [hgone], ?_, ?_, ?_, ?_⟩
      · intro c
        exact iff_of_false nofun fun ⟨_, hc, hf⟩ => by simp [hrunning c hc] at hf
      · intro c
        simp only [Option.map_none, Option.getD_none, Option.map_some, Option.getD_some,
          Progress.running.injEq]
        constructor
        · rintro rfl
          exact ⟨hgone, hb, hrunning b hb⟩
        · exact fun ⟨_, hc, _⟩ => (hsame c hc).symm
      · exact iff_of_false nofun fun ⟨_, hno⟩ => hno b hb
      · rintro c (hc | hc)
        · cases hc
        · obtain rfl := Progress.running.inj hc
          rw [List.head?_filter]
          exact ho
  | some g =>
    simp only [Option.map_some, Option.getD_some]
    obtain ⟨hmem, hclosed, hleast⟩ := (find_eq_some_iff hids _ g).mp hg
    obtain ⟨hfinished, habove⟩ := closed_iff.mp hclosed
    constructor
    · intro h
      refine .inr fun g' hmem' habove' hfinished' hbefore' => ?_
      have hclosed' : closed a g' = true := closed_iff.mpr ⟨hfinished', habove'⟩
      have hge : ¬ g.id < g'.id := fun hlt => by
        rw [hbefore' g hmem habove hlt] at hfinished
        cases hfinished
      obtain rfl : g' = g := by
        have hfound := (find_eq_some_iff hids (closed a) g').mpr
          ⟨hmem', hclosed', fun c hc hcc => Nat.le_trans (Nat.not_lt.mp hge) (hleast c hc hcc)⟩
        exact Option.some.inj (hfound.symm.trans hg)
      obtain ⟨-, hfirst, -⟩ := (h.finished g').mp rfl
      refine ⟨(started_iff.mp hfirst.started).2, fun c hc hac hcg => ?_⟩
      by_contra hco
      have hstarted := started_iff.mpr ⟨hac, Bool.not_eq_false _ ▸ hco⟩
      exact absurd (hfirst.least c hc hstarted) (Nat.not_le.mpr hcg)
    · rintro (h | h)
      · exact absurd h hgone
      have hb := h.first hids hg
      have hsame : ∀ c, First blocks a c → c = g := fun c hc =>
        Option.some.inj (((hfirst c).mpr hc).symm.trans ((hfirst g).mpr hb))
      refine ⟨by simp [hgone], fun c => ?_, fun c => ?_, ?_, ?_⟩
      · rw [Progress.finished.injEq]
        constructor
        · rintro rfl
          exact ⟨hgone, hb, hfinished⟩
        · exact fun ⟨_, hc, _⟩ => (hsame c hc).symm
      · refine iff_of_false nofun fun ⟨_, hc, hf⟩ => ?_
        rw [hsame c hc, hfinished] at hf
        cases hf
      · exact iff_of_false nofun fun ⟨_, hno⟩ => hno g hb
      · rintro c (hc | hc)
        · obtain rfl := Progress.finished.inj hc
          rw [List.head?_filter]
          exact (hfirst g).mpr hb
        · cases hc

/-- A block of a session in which nothing else is known. -/
def blockAt (id : BlockId) (outputLine : Option Int) (state : BlockState) : BlockPayload :=
  { id, promptLine := 2 * id, outputLine, endLine := none, state, command := [], cwd := [],
    startedMs := none, endedMs := none, context := none, author := none }

/-- A command that finished, and the prompt after it. -/
def answered : List BlockPayload :=
  [blockAt 3 (some 7) (.finished (some 0)), blockAt 4 none .prompt]

theorem reports_answered : Reports answered 0 ⟨3⟩ (progress answered 0 ⟨3⟩) ↔
    Gone answered 0 ⟨3⟩ ∨ Orderly answered ⟨3⟩ :=
  reports_iff answered 0 ⟨3⟩ (by decide)

/-- The shell was replaced by another, so its block never closed; the command
typed after it did. -/
def replaced : List BlockPayload :=
  [blockAt 3 (some 7) .running, blockAt 4 (some 9) (.finished (some 0))]

/-- The run anchored at the first block is told of the second. -/
theorem reports_another : anchor [blockAt 3 none .prompt] false = .ok ⟨3⟩ ∧
    replaced.Pairwise (·.id < ·.id) ∧ ¬ Reports replaced 0 ⟨3⟩ (progress replaced 0 ⟨3⟩) := by
  refine ⟨rfl, by decide, fun h => ?_⟩
  have hanswer : progress replaced 0 ⟨3⟩ = .finished (blockAt 4 (some 9) (.finished (some 0))) := rfl
  obtain ⟨-, hfirst, -⟩ := (h.finished _).mp hanswer
  have hle := hfirst.least (blockAt 3 (some 7) .running) List.mem_cons_self rfl
  exact absurd hle (by decide)

end Run

end Zesterm.Mcp
