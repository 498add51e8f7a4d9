import MutationTester.Proofs.Testing.Phases
import Mathlib.Logic.Relation

/-!
# Phases whose workers share a state

`runPhase` passes the state that all workers share from one worker to the next. Here any worker that
has items left may handle its next one at any time, and finds the shared state as the others have left
it by then. The phase of `runPhase` is one of these executions (`exists_execution_of_runPhase`).

In most phases a worker handles an item by asking the shared state about it, and is then in the state in
which it began (`AsksAbout`). Whatever the order of the turns, such a phase has asked about every item
once when it is over, and its output is that for the answers in the order of the items
(`Standing.outcome_eq`).
-/

set_option autoImplicit false

namespace MutationTester

namespace Sharing

/-- A worker that may be in the middle of its range: the items that are left, its own state, and what
it has done. -/
structure Worker (τ ι ο : Type) where
  left : List ι
  own : τ
  done : WorkerRun ο

/-- A phase that is going on. -/
structure Ongoing (σ τ ι ο : Type) where
  workers : List (Worker τ ι ο)
  shared : σ

namespace Ongoing

variable {σ τ ι ο : Type}

/-- No item has been handled. -/
def start (workers : List τ) (items : List ι) (s : σ) : Ongoing σ τ ι ο :=
  ⟨((partition items.length workers.length).zip workers).map fun (span, t) =>
    ⟨span.slice items, t, ⟨[], 0, false⟩⟩, s⟩

/-- No worker has anything left to do. -/
def IsOver (phase : Ongoing σ τ ι ο) : Prop := ∀ w ∈ phase.workers, w.left = []

/-- What comes out of a phase that is over. -/
def outcome (name : String) (phase : Ongoing σ τ ι ο) : Except Failure (PhaseResult ο) :=
  joinRuns name (phase.workers.map Worker.done)

/-- So many items have not been handled yet. -/
def itemsLeft (phase : Ongoing σ τ ι ο) : Nat := (phase.workers.map (·.left.length)).sum

end Ongoing

/-- A worker handles its next item, or dies of it and leaves the rest. -/
inductive Turn {σ τ ι ο : Type} (step : ItemStep σ τ ι ο) :
    Ongoing σ τ ι ο → Ongoing σ τ ι ο → Prop
  | handled (before after : List (Worker τ ι ο)) {item : ι} {left : List ι} {t t' : τ}
      {run : WorkerRun ο} {output : List ο} {s s' : σ}
      (h : step item t s = (.ok (output, t'), s')) :
      Turn step ⟨before ++ ⟨item :: left, t, run⟩ :: after, s⟩
        ⟨before ++ ⟨left, t', run.append ⟨output, 1, false⟩⟩ :: after, s'⟩
  | died (before after : List (Worker τ ι ο)) {item : ι} {left : List ι} {t : τ}
      {run : WorkerRun ο} {v : Violation} {s s' : σ} (h : step item t s = (.error v, s')) :
      Turn step ⟨before ++ ⟨item :: left, t, run⟩ :: after, s⟩
        ⟨before ++ ⟨[], t, run.append ⟨[], 0, true⟩⟩ :: after, s'⟩

/-- The phase goes on for any number of turns. -/
abbrev Turns {σ τ ι ο : Type} (step : ItemStep σ τ ι ο) :
    Ongoing σ τ ι ο → Ongoing σ τ ι ο → Prop :=
  Relation.ReflTransGen (Turn step)

section Turns

variable {σ τ ι ο : Type} {step : ItemStep σ τ ι ο} {phase next : Ongoing σ τ ι ο}

/-- With every turn there are fewer items left, so that there is no execution without end. -/
theorem Turn.itemsLeft_lt (h : Turn step phase next) : next.itemsLeft < phase.itemsLeft := by
  cases h with
  | handled before after h =>
    simp [Ongoing.itemsLeft]
  | died before after h =>
    simp [Ongoing.itemsLeft]

/-- As long as a worker has an item left, somebody can take a turn. -/
theorem isOver_or_exists_turn (step : ItemStep σ τ ι ο) (phase : Ongoing σ τ ι ο) :
    phase.IsOver ∨ ∃ next, Turn step phase next := by
  by_cases hover : phase.IsOver
  · exact .inl hover
  · right
    unfold Ongoing.IsOver at hover
    push Not at hover
    obtain ⟨⟨items, t, run⟩, hw, hleft⟩ := hover
    obtain ⟨item, left, rfl⟩ := List.exists_cons_of_ne_nil hleft
    obtain ⟨before, after, hworkers⟩ := List.append_of_mem hw
    obtain ⟨workers, s⟩ := phase
    subst hworkers
    rcases hstep : step item t s with ⟨v | ⟨output, t'⟩, s'⟩
    · exact ⟨_, .died before after hstep⟩
    · exact ⟨_, .handled before after hstep⟩

/-- A worker may handle its whole range while the others wait. -/
theorem turns_runSlice (before after : List (Worker τ ι ο)) (items : List ι) (t : τ)
    (run : WorkerRun ο) (hrun : run.died = false) (s : σ) :
    ∃ t', Turns step ⟨before ++ ⟨items, t, run⟩ :: after, s⟩
      ⟨before ++ ⟨[], t', run.append (runSlice step items t s).1⟩ :: after,
        (runSlice step items t s).2⟩ := by
  induction items generalizing t run s with
  | nil =>
    refine ⟨t, ?_⟩
    unfold runSlice
    rw [WorkerRun.append_nil hrun]
  | cons item items ih =>
    unfold runSlice
    rcases hstep : step item t s with ⟨v | ⟨output, t'⟩, s'⟩
    · exact ⟨t, .single (.died before after hstep)⟩
    · obtain ⟨t'', hturns⟩ := ih t' (run.append ⟨output, 1, false⟩) rfl s'
      have hjoin (rest : WorkerRun ο) : (run.append ⟨output, 1, false⟩).append rest =
          run.append ⟨output ++ rest.output, rest.processed + 1, rest.died⟩ := by
        simp [WorkerRun.append, Nat.add_assoc, Nat.add_comm 1]
      rw [hjoin] at hturns
      exact ⟨t'', .head (.handled before after hstep) hturns⟩

/-- Workers may handle their ranges one after the other. -/
theorem turns_runWorkers (step : ItemStep σ τ ι ο) (items : List ι) (pairs : List (Span × τ))
    (before : List (Worker τ ι ο)) (s : σ) :
    ∃ finished : List (Worker τ ι ο),
      Turns step
        ⟨before ++ pairs.map fun (span, t) => ⟨span.slice items, t, ⟨[], 0, false⟩⟩, s⟩
        ⟨before ++ finished, (runWorkers step items pairs s).2⟩ ∧
      finished.map Worker.done = (runWorkers step items pairs s).1 ∧
      ∀ w ∈ finished, w.left = [] := by
  induction pairs generalizing before s with
  | nil => exact ⟨[], .refl, rfl, nofun⟩
  | cons pair pairs ih =>
    obtain ⟨span, t⟩ := pair
    obtain ⟨t', hfirst⟩ := turns_runSlice before
      (pairs.map fun (span, t) => ⟨span.slice items, t, ⟨[], 0, false⟩⟩) (span.slice items) t
      ⟨[], 0, false⟩ rfl s
    rw [WorkerRun.nil_append] at hfirst
    obtain ⟨finished, hothers, hdone, hleft⟩ :=
      ih (before ++ [⟨[], t', (runSlice step (span.slice items) t s).1⟩])
        (runSlice step (span.slice items) t s).2
    rw [List.append_assoc, List.append_assoc, List.singleton_append, List.singleton_append]
      at hothers
    refine ⟨_ :: finished, hfirst.trans hothers, ?_, ?_⟩
    · rw [List.map_cons, hdone]
      rfl
    · exact List.forall_mem_cons.mpr ⟨rfl, hleft⟩

/-- The phase that lets its workers run one after the other is an execution. -/
theorem exists_execution_of_runPhase (name : String) (step : ItemStep σ τ ι ο) (workers : List τ)
    (items : List ι) (s : σ) :
    ∃ phase, Turns step (.start workers items s) phase ∧ phase.IsOver ∧
      runPhase name step workers items s = (phase.outcome name, phase.shared) := by
  obtain ⟨finished, hturns, hdone, hleft⟩ := turns_runWorkers step items
    ((partition items.length workers.length).zip workers) [] s
  refine ⟨_, hturns, hleft, ?_⟩
  unfold runPhase Ongoing.outcome
  rw [List.nil_append, hdone]

end Turns

/-! ## Workers that ask -/

section Asking

variable {σ τ ι ο α : Type}

/-- A worker in the state `t` handles an item by asking about it, puts out what belongs to the answer,
and is in the state `t` again. -/
def AsksAbout (step : ItemStep σ τ ι ο) (t : τ) (ask : ι → σ → α × σ) (output : ι → α → List ο)
    (item : ι) : Prop :=
  ∀ s, step item t s = (.ok (output item (ask item s).1, t), (ask item s).2)

/-- One question after the other has been asked, with these answers. -/
inductive Asked (ask : ι → σ → α × σ) (s : σ) : List (ι × α) → σ → Prop
  | none : Asked ask s [] s
  | more {log : List (ι × α)} {s' : σ} (h : Asked ask s log s') (item : ι) :
      Asked ask s (log ++ [(item, (ask item s').1)]) (ask item s').2

/-- A range as it stands: what has been asked about, with the answers, and what is left. -/
structure Part (ι α : Type) where
  asked : List (ι × α)
  left : List ι

namespace Part

/-- The items of the range. -/
def items (part : Part ι α) : List ι := part.asked.map Prod.fst ++ part.left

/-- The worker that has been given the range. -/
def worker (t : τ) (output : ι → α → List ο) (part : Part ι α) : Worker τ ι ο :=
  ⟨part.left, t, ⟨part.asked.flatMap fun (item, answer) => output item answer, part.asked.length,
    false⟩⟩

/-- When one more item has been asked about, the worker has also put out what belongs to the answer. -/
theorem worker_asks (t : τ) (output : ι → α → List ο) (asked : List (ι × α)) (item : ι) (answer : α)
    (left : List ι) :
    worker t output ⟨asked ++ [(item, answer)], left⟩ =
      ⟨left, t, (worker t output ⟨asked, item :: left⟩).done.append ⟨output item answer, 1, false⟩⟩ := by
  simp [worker, WorkerRun.append]

end Part

/-- How a phase stands that began in the state `s`, with all workers in the state `t`. The questions of
all workers together have been asked in the order of a log. -/
structure Standing (t : τ) (ask : ι → σ → α × σ) (output : ι → α → List ο) (items : List ι) (s : σ)
    (phase : Ongoing σ τ ι ο) (parts : List (Part ι α)) (log : List (ι × α)) : Prop where
  workers_eq : phase.workers = parts.map (Part.worker t output)
  items_eq : parts.flatMap Part.items = items
  log_perm : log.Perm (parts.flatMap Part.asked)
  asked : Asked ask s log phase.shared

variable {step : ItemStep σ τ ι ο} {t : τ} {ask : ι → σ → α × σ} {output : ι → α → List ο}
  {items : List ι} {s : σ} {phase next : Ongoing σ τ ι ο} {parts : List (Part ι α)}
  {log : List (ι × α)}

theorem standing_start {workers : Nat} (hworkers : 0 < workers ∨ items = []) :
    Standing t ask output items s (.start (List.replicate workers t) items s)
      ((partition items.length workers).map fun span => ⟨[], span.slice items⟩) [] := by
  refine ⟨?_, ?_, ?_, .none⟩
  · unfold Ongoing.start
    rw [List.length_replicate, zip_replicate_partition t hworkers, List.map_map, List.map_map]
    rfl
  · rw [List.flatMap_map]
    exact partition_flatMap_slice items workers
  · rw [List.flatMap_map]
    simp

/-- Whoever can take a turn has been given a range of which something is left. -/
theorem exists_part_of_worker {before after : List (Worker τ ι ο)} {item : ι} {left : List ι} {t' : τ}
    {run : WorkerRun ο}
    (h : before ++ ⟨item :: left, t', run⟩ :: after = parts.map (Part.worker t output)) :
    ∃ first asked others, parts = first ++ ⟨asked, item :: left⟩ :: others ∧
      before = first.map (Part.worker t output) ∧ after = others.map (Part.worker t output) ∧
      t' = t ∧ run = (Part.worker t output ⟨asked, item :: left⟩).done := by
  obtain ⟨first, rest, rfl, hbefore, hrest⟩ := List.map_eq_append_iff.mp h.symm
  obtain ⟨⟨asked, left'⟩, others, rfl, hworker, hafter⟩ := List.map_eq_cons_iff.mp hrest
  cases hworker
  exact ⟨first, asked, others, rfl, hbefore.symm, hafter.symm, rfl, rfl⟩

/-- One more item has been asked about. -/
theorem Standing.asks {first others : List (Part ι α)} {asked : List (ι × α)} {item : ι}
    {left : List ι}
    (h : Standing t ask output items s phase (first ++ ⟨asked, item :: left⟩ :: others) log) :
    let answer := (ask item phase.shared).1
    let parts := first ++ ⟨asked ++ [(item, answer)], left⟩ :: others
    Standing t ask output items s ⟨parts.map (Part.worker t output), (ask item phase.shared).2⟩ parts
      (log ++ [(item, answer)]) := by
  intro answer parts
  refine ⟨rfl, ?_, ?_, h.asked.more item⟩
  · rw [← h.items_eq]
    simp [parts, Part.items]
  · have hparts : parts.flatMap Part.asked =
        first.flatMap Part.asked ++ asked ++ (item, answer) :: others.flatMap Part.asked := by
      simp [parts]
    have hlog : log.Perm (first.flatMap Part.asked ++ asked ++ others.flatMap Part.asked) := by
      simpa using h.log_perm
    rw [hparts]
    calc List.Perm (log ++ [(item, answer)]) ((item, answer) :: log) :=
        List.perm_append_singleton _ _
      List.Perm _ ((item, answer) ::
          (first.flatMap Part.asked ++ asked ++ others.flatMap Part.asked)) := hlog.cons _
      List.Perm _ (first.flatMap Part.asked ++ asked ++
          (item, answer) :: others.flatMap Part.asked) := List.perm_middle.symm

/-- Each turn asks about one more item. -/
theorem Standing.turn (h : Standing t ask output items s phase parts log)
    (hasks : ∀ item ∈ items, AsksAbout step t ask output item) (hturn : Turn step phase next) :
    ∃ parts log, Standing t ask output items s next parts log := by
  -- the item is one of the phase, so its answer decides the turn
  have hitem {item : ι} {first others : List (Part ι α)} {asked : List (ι × α)} {left : List ι}
      (hparts : parts = first ++ ⟨asked, item :: left⟩ :: others) :
      AsksAbout step t ask output item := by
    apply hasks
    rw [← h.items_eq, hparts]
    simp [Part.items]
  cases hturn with
  | @handled before after item left t₁ t₂ run out s₁ s₂ hstep =>
    obtain ⟨first, asked, others, rfl, rfl, rfl, rfl, rfl⟩ := exists_part_of_worker h.workers_eq
    rw [hitem rfl s₁] at hstep
    cases hstep
    rw [← Part.worker_asks t₁ output asked item (ask item s₁).1 left, ← List.map_cons,
      ← List.map_append]
    exact ⟨_, _, h.asks⟩
  | @died before after item left t₁ run v s₁ s₂ hstep =>
    obtain ⟨first, asked, others, rfl, rfl, rfl, rfl, rfl⟩ := exists_part_of_worker h.workers_eq
    rw [hitem rfl s₁] at hstep
    cases hstep

theorem Standing.turns (h : Standing t ask output items s phase parts log)
    (hasks : ∀ item ∈ items, AsksAbout step t ask output item) (hturns : Turns step phase next) :
    ∃ parts log, Standing t ask output items s next parts log := by
  induction hturns with
  | refl => exact ⟨parts, log, h⟩
  | tail _ hturn ih =>
    obtain ⟨parts, log, hstanding⟩ := ih
    exact hstanding.turn hasks hturn

/-- When the phase is over, it has asked about every item once, and its output is that for the answers
in the order of the items. -/
theorem Standing.outcome_eq (h : Standing t ask output items s phase parts log)
    (hover : phase.IsOver) (name : String) :
    (parts.flatMap Part.asked).map Prod.fst = items ∧
      phase.outcome name =
        .ok ⟨(parts.flatMap Part.asked).flatMap fun (item, answer) => output item answer,
          items.length⟩ := by
  have hleft : ∀ part ∈ parts, part.left = [] := by
    intro part hpart
    refine hover (part.worker t output) ?_
    rw [h.workers_eq]
    exact List.mem_map_of_mem hpart
  have hitems : (parts.flatMap Part.asked).map Prod.fst = items := by
    rw [← h.items_eq, List.map_flatMap]
    refine List.flatMap_congr fun part hpart => ?_
    rw [Part.items, hleft part hpart, List.append_nil]
  refine ⟨hitems, ?_⟩
  unfold Ongoing.outcome
  rw [joinRuns_eq_ok_iff, h.workers_eq, List.map_map]
  refine ⟨List.forall_mem_map.mpr fun _ _ => rfl, ?_, ?_⟩
  · rw [List.flatMap_map, List.flatMap_assoc]
    rfl
  · rw [processedBy_eq_sum, List.map_map, ← hitems, List.length_map, List.length_flatMap]
    rfl

end Asking

end Sharing

end MutationTester
