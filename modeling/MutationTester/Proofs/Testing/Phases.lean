import MutationTester.Config.Basic
import MutationTester.Testing.Phase
import Mathlib.Algebra.GroupWithZero.Nat
import Mathlib.Data.List.Forall2

/-!
# Phases as one worker would run them

The ranges of a partition are contiguous and cover all items (`partition_flatMap_slice`). So if the
workers of a phase all begin with one state, and handling an item gives that state back, the phase
does what a single worker does that handles all items in order (`runPhase_replicate_eq_ok_iff`).
-/

set_option autoImplicit false

namespace MutationTester

section Partition

/-- The first range begins at the first item. -/
theorem partitionBound_zero (len parts : Nat) : partitionBound len parts 0 = 0 := by
  unfold partitionBound
  rw [Nat.zero_mul, Nat.zero_min]

/-- Every range ends where the next begins, and none ends before it begins. -/
theorem partitionBound_le_succ (len parts number : Nat) :
    partitionBound len parts number ≤ partitionBound len parts (number + 1) := by
  unfold partitionBound
  have hwidth : number * (len / parts) ≤ (number + 1) * (len / parts) :=
    Nat.mul_le_mul_right (len / parts) (Nat.le_succ number)
  omega

/-- The last range ends behind the last item. -/
theorem partitionBound_parts {len parts : Nat} (hparts : 0 < parts) :
    partitionBound len parts parts = len := by
  unfold partitionBound
  rw [Nat.min_eq_right (Nat.le_of_lt (Nat.mod_lt len hparts))]
  exact Nat.div_add_mod len parts

/-- Ranges that begin where the one before ends slice a list into pieces that make up the list
again, as far as the last of them goes. -/
theorem flatMap_slice_eq_take {α : Type} (items : List α) (bound : Nat → Nat)
    (hzero : bound 0 = 0) (hle : ∀ i, bound i ≤ bound (i + 1)) (n : Nat) :
    ((List.range n).map fun i => (⟨bound i, bound (i + 1)⟩ : Span)).flatMap (·.slice items) =
      items.take (bound n) := by
  induction n with
  | zero => rw [hzero, List.take_zero]; rfl
  | succ n ih =>
    have hlast : items.take (bound (n + 1)) =
        items.take (bound n) ++ (items.drop (bound n)).take (bound (n + 1) - bound n) := by
      rw [← List.take_add, Nat.add_sub_cancel' (hle n)]
    rw [List.range_succ, List.map_append, List.flatMap_append, ih, hlast, List.map_singleton,
      List.flatMap_singleton]
    rfl

/-- The ranges of a partition cover all items, each once and in order. -/
theorem partition_flatMap_slice {α : Type} (items : List α) (workers : Nat) :
    (partition items.length workers).flatMap (·.slice items) = items := by
  unfold partition
  rw [flatMap_slice_eq_take items _ (partitionBound_zero _ _) (partitionBound_le_succ _ _)]
  rcases Nat.eq_zero_or_pos items.length with hnone | hsome
  · rw [List.eq_nil_of_length_eq_zero hnone, List.take_nil]
  · have hparts : 0 < min (max workers 1) items.length := by omega
    rw [partitionBound_parts hparts, List.take_length]

/-- Workers that all begin with one state take it to their ranges. -/
theorem zip_replicate_of_le {α β : Type} (b : β) {as : List α} {n : Nat} (h : as.length ≤ n) :
    as.zip (List.replicate n b) = as.map (·, b) := by
  induction as generalizing n with
  | nil => rfl
  | cons a as ih =>
    cases n with
    | zero => exact absurd h (Nat.not_succ_le_zero _)
    | succ n =>
      rw [List.replicate_succ, List.zip_cons_cons, ih (Nat.le_of_succ_le_succ h), List.map_cons]

/-- There are no more ranges than workers. -/
theorem length_partition_le {workers : Nat} (hworkers : 0 < workers) (len : Nat) :
    (partition len workers).length ≤ workers := by
  unfold partition
  rw [List.length_map, List.length_range]
  omega

/-- If there are workers or no items, no range is left without a worker. -/
theorem zip_replicate_partition {α β : Type} (b : β) {items : List α} {workers : Nat}
    (hworkers : 0 < workers ∨ items = []) :
    (partition items.length workers).zip (List.replicate workers b) =
      (partition items.length workers).map (·, b) := by
  rcases hworkers with hworkers | rfl
  · exact zip_replicate_of_le b (length_partition_le hworkers items.length)
  · unfold partition
    rw [List.length_nil, Nat.min_zero]
    rfl

/-- The ranges that workers are given cover all items, each once and in order, if there is a worker
at all. -/
theorem zip_fst_flatMap_slice {α β : Type} (items : List α) {workers : List β}
    (hsome : workers ≠ []) :
    ((partition items.length workers.length).zip workers).flatMap (·.1.slice items) = items := by
  have hle := length_partition_le (List.length_pos_iff.mpr hsome) items.length
  have hspans : ((partition items.length workers.length).zip workers).map Prod.fst =
      partition items.length workers.length := List.map_fst_zip hle
  conv => rhs; rw [← partition_flatMap_slice items workers.length, ← hspans]
  rw [List.flatMap_map]

end Partition

/-- There is a worker if there are items at all. -/
theorem Config.workersFor_pos {config : Config} (h : config.workers ≠ 0) {α : Type}
    (items : List α) : 0 < config.workersFor items.length ∨ items = [] := by
  unfold workersFor
  cases items with
  | nil => exact .inr rfl
  | cons item items =>
    rw [List.length_cons]
    exact .inl (by omega)

/-- A normalized configuration asks for a worker. -/
theorem Config.workers_normalize_ne_zero (config : Config) : config.normalize.workers ≠ 0 := by
  unfold normalize
  dsimp only
  split
  next => exact Nat.one_ne_zero
  next h => exact h

/-- What two ranges of items, handled one after the other, amount to. -/
def WorkerRun.append {ο : Type} (a b : WorkerRun ο) : WorkerRun ο :=
  ⟨a.output ++ b.output, a.processed + b.processed, b.died⟩

theorem WorkerRun.nil_append {ο : Type} (run : WorkerRun ο) : append ⟨[], 0, false⟩ run = run := by
  unfold append
  rw [List.nil_append, Nat.zero_add]

theorem WorkerRun.append_nil {ο : Type} {run : WorkerRun ο} (halive : run.died = false) :
    run.append ⟨[], 0, false⟩ = run := by
  unfold append
  rw [List.append_nil, Nat.add_zero, ← halive]

/-- Handling an item gives the state of the worker back. -/
def ItemStep.Restores {σ τ ι ο : Type} (step : ItemStep σ τ ι ο) (t : τ) : Prop :=
  ∀ {item s output t' s'}, step item t s = (.ok (output, t'), s') → t' = t

section Runs

variable {σ τ ι ο : Type} {step : ItemStep σ τ ι ο} {t : τ}

/-- A worker handles the items of two ranges one after the other, unless it dies in the first. -/
theorem runSlice_append (hstep : step.Restores t) (items others : List ι) (s : σ) :
    runSlice step (items ++ others) t s =
      if (runSlice step items t s).1.died then runSlice step items t s
      else
        ((runSlice step items t s).1.append
            (runSlice step others t (runSlice step items t s).2).1,
          (runSlice step others t (runSlice step items t s).2).2) := by
  induction items generalizing s with
  | nil =>
    rw [List.nil_append, runSlice, if_neg Bool.false_ne_true, WorkerRun.nil_append]
  | cons item items ih =>
    rw [List.cons_append, runSlice, runSlice]
    rcases hitem : step item t s with ⟨_ | ⟨output, t'⟩, s'⟩
    · rfl
    · obtain rfl := hstep hitem
      dsimp only
      rw [ih s']
      split
      · rfl
      · unfold WorkerRun.append
        dsimp only
        rw [List.append_assoc, Nat.add_right_comm]

/-- The number of items that workers have handled. -/
def processedBy (runs : List (WorkerRun ο)) : Nat :=
  runs.foldl (fun n run => n + run.processed) 0

/-- Each worker adds the items that it has handled. -/
theorem processedBy_cons (run : WorkerRun ο) (runs : List (WorkerRun ο)) :
    processedBy (run :: runs) = run.processed + processedBy runs := by
  have hstart : ∀ n, runs.foldl (fun n run => n + run.processed) n =
      n + runs.foldl (fun n run => n + run.processed) 0 := by
    induction runs with
    | nil => exact fun n => rfl
    | cons other runs ih =>
      intro n
      rw [List.foldl_cons, List.foldl_cons, ih, ih (0 + other.processed)]
      omega
  unfold processedBy
  rw [List.foldl_cons, hstart, Nat.zero_add]

theorem processedBy_eq_sum (runs : List (WorkerRun ο)) :
    processedBy runs = (runs.map WorkerRun.processed).sum := by
  induction runs with
  | nil => rfl
  | cons run runs ih => simp [processedBy_cons, ih]

/-- A single worker gets through the items of all ranges if all workers get through theirs, and
then it makes no difference who handles them. -/
theorem runSlice_flatMap_eq_iff (hstep : step.Restores t) (items : List ι) (spans : List Span)
    (s : σ) (output : List ο) (processed : Nat) (s' : σ) :
    runSlice step (spans.flatMap (·.slice items)) t s = (⟨output, processed, false⟩, s') ↔
      ∃ runs, runWorkers step items (spans.map (·, t)) s = (runs, s') ∧
        (∀ run ∈ runs, run.died = false) ∧ runs.flatMap WorkerRun.output = output ∧
        processedBy runs = processed := by
  induction spans generalizing s output processed with
  | nil =>
    constructor
    · intro h
      cases h
      exact ⟨[], rfl, nofun, rfl, rfl⟩
    · rintro ⟨runs, hruns, -, rfl, rfl⟩
      cases hruns
      rfl
  | cons span spans ih =>
    rw [List.flatMap_cons, runSlice_append hstep, List.map_cons, runWorkers]
    generalize runSlice step (span.slice items) t s = first
    obtain ⟨⟨out, count, died⟩, s₁⟩ := first
    dsimp only
    constructor
    · intro h
      split at h
      next hdied =>
        -- a single worker that dies here does not get through either
        cases h
        cases hdied
      next hdied =>
        generalize hrest : runSlice step (spans.flatMap (·.slice items)) t s₁ = rest at h
        obtain ⟨⟨out', count', died'⟩, s₂⟩ := rest
        cases h
        obtain ⟨runs, hruns, halive, rfl, rfl⟩ := (ih s₁ out' count').mp hrest
        rw [hruns]
        refine ⟨_, rfl, List.forall_mem_cons.mpr ⟨Bool.not_eq_true _ ▸ hdied, halive⟩, ?_, ?_⟩
        · rw [List.flatMap_cons]
        · rw [processedBy_cons]
    · rintro ⟨runs, hruns, halive, rfl, rfl⟩
      cases hruns
      have ⟨hfirst, hothers⟩ := List.forall_mem_cons.mp halive
      cases hfirst
      have hrest := (ih s₁ _ _).mpr ⟨_, Prod.ext rfl rfl, hothers, rfl, rfl⟩
      rw [if_neg Bool.false_ne_true, hrest]
      rw [List.flatMap_cons, processedBy_cons]
      rfl

/-- The outcome of a phase is that no worker died, with everything the workers put out. -/
theorem joinRuns_eq_ok_iff (name : String) (runs : List (WorkerRun ο)) (r : PhaseResult ο) :
    joinRuns name runs = .ok r ↔
      (∀ run ∈ runs, run.died = false) ∧ runs.flatMap WorkerRun.output = r.output ∧
        processedBy runs = r.processed := by
  unfold joinRuns processedBy
  cases hdied : runs.findIdx? WorkerRun.died with
  | none =>
    have halive := List.findIdx?_eq_none_iff.mp hdied
    constructor
    · intro h
      cases h
      exact ⟨halive, rfl, rfl⟩
    · rintro ⟨-, houtput, hprocessed⟩
      rw [houtput, hprocessed]
  | some worker =>
    constructor
    · exact nofun
    · rintro ⟨halive, -⟩
      rw [List.findIdx?_eq_none_iff.mpr halive] at hdied
      cases hdied

/-- A phase in which every worker begins with the same state, and gives it back with each item, has
an outcome exactly if a single worker gets through all items, and it is the outcome of that
worker. -/
theorem runPhase_replicate_eq_ok_iff (hstep : step.Restores t) (name : String) {workers : Nat}
    (items : List ι) (hworkers : 0 < workers ∨ items = []) (s : σ) (r : PhaseResult ο) (s' : σ) :
    runPhase name step (List.replicate workers t) items s = (.ok r, s') ↔
      runSlice step items t s = (⟨r.output, r.processed, false⟩, s') := by
  conv => rhs; rw [← partition_flatMap_slice items workers]
  rw [runSlice_flatMap_eq_iff hstep]
  unfold runPhase
  rw [List.length_replicate, zip_replicate_partition t hworkers, Prod.ext_iff]
  dsimp only
  rw [joinRuns_eq_ok_iff]
  constructor
  · rintro ⟨h, hs⟩
    exact ⟨_, Prod.ext rfl hs, h⟩
  · rintro ⟨runs, hruns, h⟩
    rw [hruns]
    exact ⟨h, rfl⟩

/-- A worker that gets through its items has handled each of them, in order. -/
theorem forall₂_of_runSlice (hstep : step.Restores t) {items : List ι} {s s' : σ}
    {output : List ο} {processed : Nat}
    (h : runSlice step items t s = (⟨output, processed, false⟩, s')) :
    ∃ outputs, outputs.flatten = output ∧
      List.Forall₂ (fun item output => ∃ s s', step item t s = (.ok (output, t), s')) items
        outputs := by
  induction items generalizing s output processed with
  | nil =>
    cases h
    exact ⟨[], rfl, .nil⟩
  | cons item items ih =>
    rw [runSlice] at h
    rcases hitem : step item t s with ⟨_ | ⟨out, t'⟩, s₁⟩
    · rw [hitem] at h
      cases h
    · obtain rfl := hstep hitem
      rw [hitem] at h
      dsimp only at h
      generalize hrest : runSlice step items t' s₁ = rest at h
      obtain ⟨⟨out', count', died'⟩, s₂⟩ := rest
      cases h
      obtain ⟨outputs, rfl, houtputs⟩ := ih hrest
      exact ⟨out :: outputs, rfl, .cons ⟨s, s₁, hitem⟩ houtputs⟩

end Runs

end MutationTester
