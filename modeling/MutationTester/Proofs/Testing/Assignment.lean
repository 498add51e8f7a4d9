import MutationTester.Proofs.Testing.Interleavings
import Mathlib.Order.Monotone.Basic

/-!
# Which worker an item is handed to

A phase gives its ranges to its workers in order. There are as many ranges as workers, or fewer if
there are not so many items, so that each range goes to one worker and each item lies in one range.
The exception is a phase without workers: its items are divided as for one worker, but nobody is there
to be given the range, and the phase comes to its end without a failure and with nothing done. That is
the only case in which items are skipped (`skips_nothing_iff`).
-/

set_option autoImplicit false

namespace MutationTester

section Assignment

variable {α ι ο : Type}

/-- The ranges of a phase, with the workers that they are given to. -/
def assignment (items : List ι) (workers : List α) : List (Span × α) :=
  (partition items.length workers.length).zip workers

/-- The item at a position lies in the range that the worker with a number is given. -/
def HandedTo (items : List ι) (workers : List α) (number position : Nat) : Prop :=
  ∃ span worker, (assignment items workers)[number]? = some (span, worker) ∧
    span.start ≤ position ∧ position < span.stop

/-- Every item is handed to exactly one worker, and as many items are counted as there are. -/
structure SkipsNothing (items : List ι) (workers : List α) (processed : Nat) : Prop where
  handed : ∀ position < items.length, ∃! number, HandedTo items workers number position
  counted : processed = items.length

/-- Ranges that begin where the one before ends have every position in exactly one of them. -/
theorem existsUnique_range {bound : Nat → Nat} (hzero : bound 0 = 0)
    (hle : ∀ i, bound i ≤ bound (i + 1)) {n position : Nat} (hposition : position < bound n) :
    ∃! i, i < n ∧ bound i ≤ position ∧ position < bound (i + 1) := by
  have hexists : ∃ i, i < n ∧ bound i ≤ position ∧ position < bound (i + 1) := by
    induction n with
    | zero =>
      rw [hzero] at hposition
      exact absurd hposition (Nat.not_lt_zero position)
    | succ n ih =>
      by_cases hearlier : position < bound n
      · obtain ⟨i, hi, hrange⟩ := ih hearlier
        exact ⟨i, Nat.lt_succ_of_lt hi, hrange⟩
      · exact ⟨n, Nat.lt_succ_self n, Nat.le_of_not_lt hearlier, hposition⟩
  obtain ⟨i, hi, hstart, hstop⟩ := hexists
  refine ⟨i, ⟨hi, hstart, hstop⟩, ?_⟩
  rintro j ⟨-, hstart', hstop'⟩
  have hmono := monotone_nat_of_le_succ hle
  -- the range of the lesser number would have to end behind the start of the other
  rcases Nat.lt_trichotomy j i with hlt | heq | hgt
  · have hbefore : bound (j + 1) ≤ bound i := hmono hlt
    omega
  · exact heq
  · have hbehind : bound (i + 1) ≤ bound j := hmono hgt
    omega

/-- If there is a worker at all, no range is left without one. -/
theorem handedTo_iff {workers : List α} (hsome : workers ≠ []) (items : List ι)
    (number position : Nat) :
    HandedTo items workers number position ↔
      number < min (max workers.length 1) items.length ∧
        partitionBound items.length (min (max workers.length 1) items.length) number ≤ position ∧
        position <
          partitionBound items.length (min (max workers.length 1) items.length) (number + 1) := by
  have hpositive := List.length_pos_iff.mpr hsome
  unfold HandedTo assignment partition
  simp only [List.getElem?_zip_eq_some, List.getElem?_map]
  constructor
  · rintro ⟨span, worker, ⟨hspan, -⟩, hstart, hstop⟩
    obtain ⟨i, hi, rfl⟩ := Option.map_eq_some_iff.mp hspan
    obtain ⟨hnumber, rfl⟩ := List.getElem?_eq_some_iff.mp hi
    rw [List.length_range] at hnumber
    rw [List.getElem_range] at hstart hstop
    exact ⟨hnumber, hstart, hstop⟩
  · rintro ⟨hnumber, hstart, hstop⟩
    have hworker : number < workers.length := by omega
    refine ⟨⟨_, _⟩, workers[number], ⟨?_, List.getElem?_eq_getElem hworker⟩, hstart, hstop⟩
    rw [List.getElem?_range hnumber]
    rfl

theorem existsUnique_handedTo {workers : List α} (hsome : workers ≠ []) {items : List ι}
    {position : Nat} (hposition : position < items.length) :
    ∃! number, HandedTo items workers number position := by
  have hparts : 0 < min (max workers.length 1) items.length := by omega
  simp only [handedTo_iff hsome]
  apply existsUnique_range (partitionBound_zero _ _) (partitionBound_le_succ _ _)
  rw [partitionBound_parts hparts]
  exact hposition

/-- Without workers no item is handed to anybody. -/
theorem not_handedTo_nil (items : List ι) (number position : Nat) :
    ¬HandedTo items ([] : List α) number position := by
  rintro ⟨span, worker, hget, -⟩
  rw [assignment, List.zip_nil_right] at hget
  cases hget

theorem assignment_flatMap_slice {items : List ι} {workers : List α}
    (h : workers ≠ [] ∨ items = []) :
    (assignment items workers).flatMap (·.1.slice items) = items := by
  rcases h with hsome | rfl
  · exact zip_fst_flatMap_slice items hsome
  · unfold assignment partition
    rw [List.length_nil, Nat.min_zero]
    rfl

/-- What a worker has done with the range that it was given: if it has not died, it has counted each
of the items. -/
def CountsItsItems (items : List ι) (given : Span × α) (run : WorkerRun ο) : Prop :=
  run.died = false → run.processed = (given.1.slice items).length

theorem processedBy_of_forall₂ {items : List ι} {given : List (Span × α)}
    {runs : List (WorkerRun ο)} (h : List.Forall₂ (CountsItsItems items) given runs)
    (halive : ∀ run ∈ runs, run.died = false) :
    processedBy runs = (given.flatMap (·.1.slice items)).length := by
  induction h with
  | nil => rfl
  | cons hrun _ ih =>
    obtain ⟨hfirst, hothers⟩ := List.forall_mem_cons.mp halive
    rw [processedBy_cons, List.flatMap_cons, List.length_append, hrun hfirst, ih hothers]

/-- When no worker has died, nothing has been skipped, unless there were items but no workers. -/
theorem skipsNothing_iff_of_joinRuns {items : List ι} {workers : List α}
    {runs : List (WorkerRun ο)}
    (hcounts : List.Forall₂ (CountsItsItems items) (assignment items workers) runs)
    {name : String} {r : PhaseResult ο} (hjoin : joinRuns name runs = .ok r) :
    SkipsNothing items workers r.processed ↔ workers ≠ [] ∨ items = [] := by
  obtain ⟨halive, -, hprocessed⟩ := (joinRuns_eq_ok_iff name runs r).mp hjoin
  constructor
  · rintro ⟨hhanded, -⟩
    by_contra hneither
    obtain ⟨rfl, hitems⟩ : workers = [] ∧ items ≠ [] := by
      rwa [not_or, not_not] at hneither
    obtain ⟨number, hnumber, -⟩ := hhanded 0 (List.length_pos_iff.mpr hitems)
    exact not_handedTo_nil items number 0 hnumber
  · intro h
    refine ⟨?_, ?_⟩
    · intro position hposition
      rcases h with hsome | rfl
      · exact existsUnique_handedTo hsome hposition
      · exact absurd hposition (Nat.not_lt_zero position)
    · rw [← hprocessed, processedBy_of_forall₂ hcounts halive, assignment_flatMap_slice h]

end Assignment

/-! ## Workers that keep their contract -/

section Steps

variable {σ τ ι ο : Type}

/-- A worker counts each item that its step has handled. -/
theorem processed_runSlice (step : ItemStep σ τ ι ο) (items : List ι) (t : τ) (s : σ)
    (halive : (runSlice step items t s).1.died = false) :
    (runSlice step items t s).1.processed = items.length := by
  induction items generalizing t s with
  | nil => rfl
  | cons item items ih =>
    unfold runSlice at halive ⊢
    rcases hitem : step item t s with ⟨_ | ⟨output, t'⟩, s'⟩
    · rw [hitem] at halive
      cases halive
    · rw [hitem] at halive
      dsimp only at halive ⊢
      rw [ih t' s' halive, List.length_cons]

theorem forall₂_runWorkers (step : ItemStep σ τ ι ο) (items : List ι)
    (given : List (Span × τ)) (s : σ) :
    List.Forall₂ (CountsItsItems items) given (runWorkers step items given s).1 := by
  induction given generalizing s with
  | nil => exact .nil
  | cons pair given ih =>
    exact .cons (processed_runSlice step (pair.1.slice items) pair.2 s) (ih _)

end Steps

namespace Interleaving

section Routines

variable {ι ο : Type}

/-- A routine that counts each of its items exactly once, unless it panics. When it counts, and what
it puts out, is its own affair. -/
def Routine.KeepsContract (routine : Routine ι ο) : Prop :=
  ∀ items, .panic ∉ routine items →
    (routine items).countP (· matches .count) = items.length

/-- A routine that handles its items one by one keeps its contract. -/
theorem Routine.HandlesEach.keepsContract {routine : Routine ι ο} {f : ι → List ο}
    (h : routine.HandlesEach f) : routine.KeepsContract := by
  intro items hsafe
  rcases h items with hall | ⟨done, -, hpanics⟩
  · rw [hall]
    exact countP_handling f items
  · rw [hpanics] at hsafe
    simp at hsafe

/-- A plan that is carried out to its end counts as often as it says. -/
theorem processed_carryOut {todo : List (Move ο)} (hsafe : .panic ∉ todo) :
    (carryOut todo).processed = todo.countP (· matches .count) := by
  induction todo with
  | nil => rfl
  | cons move todo ih =>
    have hrest := ih (List.not_mem_of_not_mem_cons hsafe)
    cases move with
    | push o => simp [carryOut, hrest]
    | count => simp [carryOut, hrest]
    | panic => simp at hsafe

theorem forall₂_plans {routines : List (Routine ι ο)}
    (hkeeps : ∀ routine ∈ routines, routine.KeepsContract) (items : List ι) :
    List.Forall₂ (CountsItsItems items) (assignment items routines)
      ((State.plans items routines).map carryOut) := by
  have hplans : State.plans items routines =
      (assignment items routines).map fun pair => pair.2 (pair.1.slice items) := rfl
  rw [hplans, List.map_map, List.forall₂_map_right_iff, List.forall₂_same]
  intro pair hpair halive
  have hsafe : .panic ∉ pair.2 (pair.1.slice items) := by
    rw [← died_carryOut_iff]
    exact Bool.eq_false_iff.mp halive
  exact (processed_carryOut hsafe).trans
    (hkeeps pair.2 (List.of_mem_zip hpair).2 (pair.1.slice items) hsafe)

end Routines

/-- A phase that ends without a failure has handed every item to exactly one worker and has counted
them all, if there is a worker or there are no items; otherwise it has not. This holds of workers that
take turns in any order and keep their contract, and of workers that handle one item after the
other, whatever they share. -/
theorem skips_nothing_iff {ι ο : Type} (name : String) (items : List ι) :
    (∀ routines : List (Routine ι ο), (∀ routine ∈ routines, routine.KeepsContract) →
        ∀ turns s r, (State.start items routines).run? turns = some s →
          s.outcome? name = some (.ok r) →
            (SkipsNothing items routines r.processed ↔ routines ≠ [] ∨ items = [])) ∧
      ∀ (σ τ : Type) (step : ItemStep σ τ ι ο) (workers : List τ) (s s' : σ) (r : PhaseResult ο),
        runPhase name step workers items s = (.ok r, s') →
          (SkipsNothing items workers r.processed ↔ workers ≠ [] ∨ items = []) := by
  constructor
  · intro routines hkeeps turns s r hrun houtcome
    obtain ⟨hahead, -⟩ := (State.ahead_start items routines).run hrun
    exact skipsNothing_iff_of_joinRuns (forall₂_plans hkeeps items)
      (hahead.outcome_eq houtcome).symm
  · intro σ τ step workers s s' r hphase
    exact skipsNothing_iff_of_joinRuns (forall₂_runWorkers step items (assignment items workers) s)
      (congrArg Prod.fst hphase)

/-- Two workers that take turns get through three items and skip none. -/
theorem nothing_skipped_by_two_workers :
    ∃ s r, (State.start [1, 2, 3] [doubling, doubling]).run?
        [.main, .main, .worker 1, .worker 0, .worker 1, .worker 0, .worker 1, .worker 0, .worker 0,
          .worker 0, .worker 0, .main, .main] = some s ∧
      s.outcome? "phase" = some (.ok r) ∧ SkipsNothing [1, 2, 3] [doubling, doubling] r.processed := by
  have hkeeps : ∀ routine ∈ [doubling, doubling], routine.KeepsContract := by
    simp [doubling_handlesEach.keepsContract]
  refine ⟨_, ⟨[1, 1, 2, 2, 3, 3], 3⟩, rfl, rfl, ?_⟩
  exact ((skips_nothing_iff "phase" [1, 2, 3]).1 [doubling, doubling] hkeeps
    [.main, .main, .worker 1, .worker 0, .worker 1, .worker 0, .worker 1, .worker 0, .worker 0,
      .worker 0, .worker 0, .main, .main] _ _ rfl rfl).mpr (.inl (List.cons_ne_nil _ _))

/-- Without workers the phase ends at once and without a failure, and three items are skipped. -/
theorem items_skipped_without_workers :
    ∃ r, (State.start [1, 2, 3] ([] : List (Routine Nat Nat))).outcome? "phase" = some (.ok r) ∧
      (∀ handle : Nat → Unit → Except Violation (List Nat × Unit),
        runPhase "phase" (alone handle) [] [1, 2, 3] () = (.ok r, ())) ∧
      ¬SkipsNothing [1, 2, 3] ([] : List (Routine Nat Nat)) r.processed := by
  refine ⟨⟨[], 0⟩, rfl, fun _ => rfl, ?_⟩
  rintro ⟨-, hcounted⟩
  cases hcounted

end Interleaving

end MutationTester
