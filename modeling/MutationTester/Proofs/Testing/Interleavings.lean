import MutationTester.Proofs.Testing.Phases

/-!
# Phases whose workers take turns

`runPhase` lets each worker finish before the next one begins. Here the workers of a phase run at
the same time: the main thread starts them in order and then waits for them in order, and in between
any worker that has been started may make its next move. Every worker is given its thread.

A worker's own moves decide what it will have put out and whether it will have died, so neither
changes when workers take turns (`Worker.eventual`). What the counter shows and what the workers have
yet to count make up the same number at all times (`State.Ahead`). It follows that every order of the
turns has the outcome of `runPhase` (`execution_determined`).
-/

set_option autoImplicit false

namespace MutationTester

namespace Interleaving

/-- A move of a worker that another thread can make out. -/
inductive Move (ο : Type)
  /-- Puts one more output into the worker's own storage. -/
  | push (o : ο)
  /-- Increments the counter that all workers share. -/
  | count
  | panic
  deriving DecidableEq

/-- What a worker does with the items of its range. -/
abbrev Routine (ι ο : Type) := List ι → List (Move ο)

/-- A worker that has been told what to do. -/
structure Worker (ο : Type) where
  todo : List (Move ο)
  storage : List ο
  died : Bool
  deriving DecidableEq

/-- The next move of a worker, and by how much it increments the counter. -/
def Worker.move? {ο : Type} (w : Worker ο) : Option (Worker ο × Nat) :=
  match w.todo with
  | [] => none
  | .push o :: todo => some ({ w with todo := todo, storage := w.storage ++ [o] }, 0)
  | .count :: todo => some ({ w with todo := todo }, 1)
  | .panic :: _ => some ({ w with todo := [], died := true }, 0)

/-- A phase that is going on. The main thread has started some workers and has joined some of them,
whose outputs it keeps; of those that died it keeps the first. -/
structure State (ο : Type) where
  counter : Nat
  workers : List (Worker ο)
  started : Nat
  joined : Nat
  outputs : List (List ο)
  failed : Option Nat
  deriving DecidableEq

/-- Whose turn it is. -/
inductive Turn
  | main
  | worker (number : Nat)

namespace State

variable {ι ο : Type}

/-- What the workers of a phase are going to do. A routine that is left without a range does
nothing. -/
def plans (items : List ι) (routines : List (Routine ι ο)) : List (List (Move ο)) :=
  ((partition items.length routines.length).zip routines).map fun (span, routine) =>
    routine (span.slice items)

/-- No worker has been started. -/
def start (items : List ι) (routines : List (Routine ι ο)) : State ο :=
  ⟨0, (plans items routines).map (⟨·, [], false⟩), 0, 0, [], none⟩

/-- The main thread starts the next worker, or else joins the next one if it has finished. -/
def main? (s : State ο) : Option (State ο) :=
  if s.started < s.workers.length then some { s with started := s.started + 1 }
  else do
    let w ← s.workers[s.joined]?
    if w.todo ≠ [] then none
    else if w.died then
      some { s with joined := s.joined + 1, failed := s.failed.or (some s.joined) }
    else some { s with joined := s.joined + 1, outputs := s.outputs ++ [w.storage] }

/-- A worker that has been started makes its next move. -/
def worker? (s : State ο) (number : Nat) : Option (State ο) :=
  if number < s.started then do
    let w ← s.workers[number]?
    let (next, counted) ← w.move?
    some { s with counter := s.counter + counted, workers := s.workers.set number next }
  else none

/-- One step of the phase, unless the thread whose turn it is has to wait or is done. -/
def step? (s : State ο) : Turn → Option (State ο)
  | .main => s.main?
  | .worker number => s.worker? number

/-- The phase goes on for the given turns. -/
def run? (s : State ο) : List Turn → Option (State ο)
  | [] => some s
  | turn :: turns => do (← s.step? turn).run? turns

/-- What comes out of the phase, once all workers have been joined. -/
def outcome? (name : String) (s : State ο) : Option (Except Failure (PhaseResult ο)) :=
  if s.joined = s.workers.length then
    some (match s.failed with
      | some number => .error (.workerDied name number)
      | none => .ok ⟨s.outputs.flatten, s.counter⟩)
  else none

/-- At most as many steps are left. -/
def remaining (s : State ο) : Nat :=
  (s.workers.map (·.todo.length)).sum + (s.workers.length - s.started) +
    (s.workers.length - s.joined)

end State

/-- The moves for items that are handled one by one: everything for an item is put out, and then the
item is counted. -/
def handling {ι ο : Type} (f : ι → List ο) (items : List ι) : List (Move ο) :=
  items.flatMap fun item => (f item).map Move.push ++ [.count]

/-- A routine that handles its items one by one, unless it panics somewhere on the way. -/
def Routine.HandlesEach {ι ο : Type} (routine : Routine ι ο) (f : ι → List ο) : Prop :=
  ∀ items, routine items = handling f items ∨
    ∃ done, done <+: handling f items ∧ routine items = done ++ [.panic]

/-- The worker with this number is going to panic. -/
def Panics {ι ο : Type} (items : List ι) (routines : List (Routine ι ο)) (number : Nat) : Prop :=
  ∃ plan, (State.plans items routines)[number]? = some plan ∧ .panic ∈ plan

/-- The step of a phase whose items need nothing that workers share. -/
def alone {τ ι ο : Type} (handle : ι → τ → Except Violation (List ο × τ)) : ItemStep Unit τ ι ο :=
  fun item t s => (handle item t, s)

/-- The routine of a worker that begins in a state of its own. A violation makes it panic. -/
def routineOf {τ ι ο : Type} (handle : ι → τ → Except Violation (List ο × τ)) (t : τ) :
    Routine ι ο
  | [] => []
  | item :: items =>
    match handle item t with
    | .error _ => [.panic]
    | .ok (output, t) => output.map Move.push ++ .count :: routineOf handle t items

/-! ## What workers will have done -/

section Workers

variable {τ ι ο : Type}

/-- What a plan amounts to if it is carried out without a break. -/
def carryOut : List (Move ο) → WorkerRun ο
  | [] => ⟨[], 0, false⟩
  | .push o :: todo => { carryOut todo with output := o :: (carryOut todo).output }
  | .count :: todo => { carryOut todo with processed := (carryOut todo).processed + 1 }
  | .panic :: _ => ⟨[], 0, true⟩

theorem carryOut_push_append (output : List ο) (todo : List (Move ο)) :
    carryOut (output.map Move.push ++ todo) =
      { carryOut todo with output := output ++ (carryOut todo).output } := by
  induction output with
  | nil => rfl
  | cons o output ih => simp [carryOut, ih]

theorem died_carryOut_iff (todo : List (Move ο)) :
    (carryOut todo).died = true ↔ Move.panic ∈ todo := by
  induction todo with
  | nil => simp [carryOut]
  | cons move todo ih => cases move <;> simp [carryOut, ih]

theorem carryOut_handling (f : ι → List ο) (items : List ι) :
    carryOut (handling f items) = ⟨items.flatMap f, items.length, false⟩ := by
  unfold handling
  induction items with
  | nil => rfl
  | cons item items ih =>
    simp [List.append_assoc, carryOut_push_append, carryOut, ih]

/-- Each item that is handled is counted once. -/
theorem countP_handling (f : ι → List ο) (items : List ι) :
    (handling f items).countP (· matches .count) = items.length := by
  unfold handling
  induction items with
  | nil => rfl
  | cons item items ih => simp [List.countP_append, List.countP_map, Function.comp_def, ih]

/-- A routine that handles its items one by one counts none of them twice. -/
theorem processed_carryOut_le {routine : Routine ι ο} {f : ι → List ο}
    (h : routine.HandlesEach f) (items : List ι) :
    (carryOut (routine items)).processed ≤ items.length := by
  have hcounts (todo : List (Move ο)) :
      (carryOut todo).processed ≤ todo.countP (· matches .count) := by
    induction todo with
    | nil => simp [carryOut]
    | cons move todo ih => cases move <;> simp [carryOut, ih]
  rcases h items with hall | ⟨done, hprefix, hpanics⟩
  · apply Nat.le_of_eq
    rw [hall, carryOut_handling]
  · have hdone := hprefix.sublist.countP_le (p := (· matches .count))
    have hle := hcounts (done ++ [.panic])
    rw [countP_handling] at hdone
    rw [hpanics]
    simp at hle
    omega

/-- What a worker does with its range when it is alone is what its routine amounts to. -/
theorem runSlice_alone (handle : ι → τ → Except Violation (List ο × τ)) (items : List ι) (t : τ) :
    runSlice (alone handle) items t () = (carryOut (routineOf handle t items), ()) := by
  induction items generalizing t with
  | nil => rfl
  | cons item items ih =>
    unfold runSlice routineOf alone
    rcases handle item t with _ | ⟨output, t'⟩
    · rfl
    · have hrest := ih t'
      unfold alone at hrest
      simp [hrest, carryOut_push_append, carryOut]

/-- The phase that lets its workers run one after the other joins what their plans amount to. -/
theorem runPhase_alone (name : String) (handle : ι → τ → Except Violation (List ο × τ))
    (states : List τ) (items : List ι) :
    (runPhase name (alone handle) states items ()).1 =
      joinRuns name ((State.plans items (states.map (routineOf handle))).map carryOut) := by
  have hworkers (pairs : List (Span × τ)) : runWorkers (alone handle) items pairs () =
      (pairs.map fun pair => carryOut (routineOf handle pair.2 (pair.1.slice items)), ()) := by
    induction pairs with
    | nil => rfl
    | cons pair pairs ih =>
      rw [runWorkers, runSlice_alone]
      dsimp only
      rw [ih]
      rfl
  unfold runPhase State.plans
  rw [hworkers, List.length_map, List.zip_map_right, List.map_map, List.map_map]
  rfl

/-- What a worker will have put out, how often it is yet to count, and whether it will have
died. -/
def Worker.eventual (w : Worker ο) : WorkerRun ο :=
  ⟨w.storage ++ (carryOut w.todo).output, (carryOut w.todo).processed,
    w.died || (carryOut w.todo).died⟩

/-- A move brings a worker closer to what it will have done anyway. -/
theorem Worker.move?_spec {w next : Worker ο} {counted : Nat}
    (h : w.move? = some (next, counted)) :
    next.eventual.output = w.eventual.output ∧ next.eventual.died = w.eventual.died ∧
      counted + next.eventual.processed = w.eventual.processed ∧
      next.todo.length < w.todo.length := by
  unfold move? at h
  split at h
  next => cases h
  next htodo =>
    cases h
    simp [eventual, htodo, carryOut]
  next htodo =>
    cases h
    simp [eventual, htodo, carryOut, Nat.add_comm]
  next htodo =>
    cases h
    simp [eventual, htodo, carryOut]

end Workers

/-! ## What turns keep -/

section Turns

variable {ι ο : Type} {s s' : State ο}

/-- A step of the phase is a start, a join or the move of a worker. -/
theorem State.step?_cases {turn : Turn} (h : s.step? turn = some s') :
    (s.started < s.workers.length ∧ s' = { s with started := s.started + 1 }) ∨
      (∃ w, s.workers[s.joined]? = some w ∧ w.todo = [] ∧
        s' = if w.died then
            { s with joined := s.joined + 1, failed := s.failed.or (some s.joined) }
          else { s with joined := s.joined + 1, outputs := s.outputs ++ [w.storage] }) ∨
      ∃ number w next counted, number < s.started ∧ s.workers[number]? = some w ∧
        w.move? = some (next, counted) ∧
        s' = { s with
          counter := s.counter + counted
          workers := s.workers.set number next } := by
  cases turn with
  | main =>
    simp only [step?, main?] at h
    split at h
    next hstarted =>
      cases h
      exact .inl ⟨hstarted, rfl⟩
    next =>
      obtain ⟨w, hw, h⟩ := Option.bind_eq_some_iff.mp h
      split at h
      next => cases h
      next hdone =>
        refine .inr (.inl ⟨w, hw, not_not.mp hdone, ?_⟩)
        split at h <;> simp_all
  | worker number =>
    simp only [step?, worker?] at h
    split at h
    next hstarted =>
      obtain ⟨w, hw, h⟩ := Option.bind_eq_some_iff.mp h
      obtain ⟨⟨next, counted⟩, hmove, h⟩ := Option.bind_eq_some_iff.mp h
      cases h
      exact .inr (.inr ⟨number, w, next, counted, hstarted, hw, hmove, rfl⟩)
    next => cases h

/-- The phase is on its way to what its workers will have done. Of those that have been joined
nothing is left to do, and the main thread has kept their outputs, or the first that died. -/
structure State.Ahead (runs : List (WorkerRun ο)) (s : State ο) : Prop where
  output_eq : s.workers.map (·.eventual.output) = runs.map WorkerRun.output
  died_eq : s.workers.map (·.eventual.died) = runs.map WorkerRun.died
  counter_add : s.counter + (s.workers.map (·.eventual.processed)).sum = processedBy runs
  joined_le : s.joined ≤ s.workers.length
  finished : ∀ w ∈ s.workers.take s.joined, w.todo = []
  failed_eq : s.failed = (s.workers.take s.joined).findIdx? Worker.died
  outputs_eq : s.failed = none →
    s.outputs.flatten = (s.workers.take s.joined).flatMap Worker.storage

theorem State.ahead_start (items : List ι) (routines : List (Routine ι ο)) :
    (start items routines).Ahead ((plans items routines).map carryOut) := by
  refine ⟨?_, ?_, ?_, Nat.zero_le _, ?_, ?_, ?_⟩
  · simp [start, Worker.eventual]
  · simp [start, Worker.eventual]
  · simp [start, Worker.eventual, processedBy_eq_sum, Function.comp_def]
  · simp [start]
  · simp [start]
  · simp [start]

/-- Each step keeps what the workers will have done, never decrements the counter, and leaves less to
do. -/
theorem State.Ahead.step {runs : List (WorkerRun ο)} (h : s.Ahead runs) {turn : Turn}
    (hstep : s.step? turn = some s') :
    s'.Ahead runs ∧ s.counter ≤ s'.counter ∧ s'.remaining < s.remaining := by
  have hjoined_le := h.joined_le
  rcases step?_cases hstep with
    ⟨hstarted, rfl⟩ | ⟨w, hw, hdone, rfl⟩ | ⟨number, w, next, counted, -, hw, hmove, rfl⟩
  · refine ⟨⟨h.output_eq, h.died_eq, h.counter_add, h.joined_le, h.finished, h.failed_eq,
      h.outputs_eq⟩, Nat.le_refl _, ?_⟩
    simp only [remaining]
    omega
  · obtain ⟨hlt, -⟩ := List.getElem?_eq_some_iff.mp hw
    have htake : s.workers.take (s.joined + 1) = s.workers.take s.joined ++ [w] := by
      rw [List.take_add_one, hw]
      rfl
    have hfinished : ∀ w ∈ s.workers.take (s.joined + 1), w.todo = [] := by
      rw [htake]
      simpa [or_imp, forall_and, hdone] using h.finished
    have hfailed : (s.workers.take (s.joined + 1)).findIdx? Worker.died =
        if w.died then s.failed.or (some s.joined) else s.failed := by
      rw [htake, List.findIdx?_append, ← h.failed_eq, List.length_take, Nat.min_eq_left hjoined_le]
      by_cases hdied : w.died = true <;> simp [hdied, List.findIdx?_cons]
    have hless : s.workers.length - (s.joined + 1) < s.workers.length - s.joined := by omega
    split
    next hdied =>
      rw [if_pos hdied] at hfailed
      refine ⟨⟨h.output_eq, h.died_eq, h.counter_add, hlt, hfinished, hfailed.symm, ?_⟩,
        Nat.le_refl _, Nat.add_lt_add_left hless _⟩
      simp
    next hdied =>
      rw [if_neg hdied] at hfailed
      refine ⟨⟨h.output_eq, h.died_eq, h.counter_add, hlt, hfinished, hfailed.symm, ?_⟩,
        Nat.le_refl _, Nat.add_lt_add_left hless _⟩
      intro hnone
      simp [htake, h.outputs_eq hnone]
  · obtain ⟨houtput, hdied, hprocessed, hless⟩ := Worker.move?_spec hmove
    obtain ⟨hlt, hget⟩ := List.getElem?_eq_some_iff.mp hw
    -- a worker that has been joined has nothing left to do, so this one has not been joined
    have hunjoined : s.joined ≤ number := by
      by_contra hjoined
      have hmem : w ∈ s.workers.take s.joined :=
        List.mem_of_getElem? ((List.getElem?_take_of_lt (by omega)).trans hw)
      simp [h.finished w hmem] at hless
    have htake : (s.workers.set number next).take s.joined = s.workers.take s.joined :=
      List.take_set_of_le hunjoined
    obtain ⟨before, after, hworkers, -, hset⟩ :
        ∃ before after, s.workers = before ++ s.workers[number] :: after ∧ before.length = number ∧
          s.workers.set number next = before ++ next :: after := List.exists_of_set hlt
    rw [hget] at hworkers
    refine ⟨⟨?_, ?_, ?_, ?_, ?_, ?_, ?_⟩, Nat.le_add_right _ _, ?_⟩
    · rw [← h.output_eq, hset, hworkers]
      simp [houtput]
    · rw [← h.died_eq, hset, hworkers]
      simp [hdied]
    · rw [← h.counter_add, hset, hworkers]
      simp only [List.map_append, List.map_cons, List.sum_append, List.sum_cons]
      omega
    · simpa using hjoined_le
    · simpa [htake] using h.finished
    · simpa [htake] using h.failed_eq
    · simpa [htake] using h.outputs_eq
    · simp only [remaining, List.length_set]
      rw [hset, hworkers]
      simp only [List.map_append, List.map_cons, List.sum_append, List.sum_cons]
      omega

/-- What each step keeps, an execution keeps; it takes no more steps than there were left. -/
theorem State.Ahead.run {runs : List (WorkerRun ο)} {turns : List Turn} (h : s.Ahead runs)
    (hrun : s.run? turns = some s') :
    s'.Ahead runs ∧ turns.length + s'.remaining ≤ s.remaining := by
  induction turns generalizing s with
  | nil =>
    cases hrun
    exact ⟨h, by simp⟩
  | cons turn turns ih =>
    obtain ⟨next, hstep, hrun⟩ := Option.bind_eq_some_iff.mp hrun
    obtain ⟨hnext, -, hless⟩ := h.step hstep
    obtain ⟨hahead, hle⟩ := ih hnext hrun
    refine ⟨hahead, ?_⟩
    rw [List.length_cons]
    omega

/-- As long as not all workers have been joined, somebody can take a turn: the main thread, or the
worker that it waits for. -/
theorem State.Ahead.exists_step {runs : List (WorkerRun ο)} (h : s.Ahead runs)
    (hunjoined : s.joined ≠ s.workers.length) : ∃ turn, (s.step? turn).isSome := by
  have hjoined : s.joined < s.workers.length := Nat.lt_of_le_of_ne h.joined_le hunjoined
  by_cases hstarted : s.started < s.workers.length
  · exact ⟨.main, by simp [step?, main?, hstarted]⟩
  · have hget := List.getElem?_eq_getElem hjoined
    cases htodo : s.workers[s.joined].todo with
    | nil =>
      refine ⟨.main, ?_⟩
      simp only [step?, main?, if_neg hstarted, hget]
      by_cases hdied : s.workers[s.joined].died = true <;> simp [hdied, htodo]
    | cons move todo =>
      have hmoves : s.joined < s.started := by omega
      refine ⟨.worker s.joined, ?_⟩
      simp only [step?, worker?, if_pos hmoves, hget]
      cases move <;> simp [Worker.move?, htodo]

/-- When all workers have been joined, the outcome is what their runs are joined to. -/
theorem State.Ahead.outcome_eq {runs : List (WorkerRun ο)} (h : s.Ahead runs) {name : String}
    {outcome : Except Failure (PhaseResult ο)} (houtcome : s.outcome? name = some outcome) :
    outcome = joinRuns name runs := by
  unfold outcome? at houtcome
  split at houtcome
  next hjoined =>
    have hfinished := h.finished
    have hfailed := h.failed_eq
    have houtputs := h.outputs_eq
    rw [hjoined, List.take_length] at hfinished hfailed houtputs
    have heventual : ∀ w ∈ s.workers, w.eventual = ⟨w.storage, 0, w.died⟩ := by
      intro w hw
      simp [Worker.eventual, hfinished w hw, carryOut]
    have hdied : runs.findIdx? WorkerRun.died = s.failed := by
      have hmap : s.workers.map Worker.died = runs.map WorkerRun.died := by
        rw [← h.died_eq]
        exact List.map_congr_left fun w hw => by rw [heventual w hw]
      have hfind := congrArg (List.findIdx? id) hmap
      rw [List.findIdx?_map, List.findIdx?_map] at hfind
      rw [hfailed]
      exact hfind.symm
    have hcounter : processedBy runs = s.counter := by
      rw [← h.counter_add]
      have hnone : s.workers.map (·.eventual.processed) = s.workers.map fun _ => 0 :=
        List.map_congr_left fun w hw => by rw [heventual w hw]
      simp [hnone]
    cases houtcome
    unfold joinRuns
    rw [hdied]
    cases hnone : s.failed with
    | some number => rfl
    | none =>
      have houtput : s.outputs.flatten = runs.flatMap WorkerRun.output := by
        rw [houtputs hnone, List.flatMap_def, List.flatMap_def, ← h.output_eq]
        exact congrArg List.flatten (List.map_congr_left fun w hw => by rw [heventual w hw])
      rw [houtput, ← hcounter]
      rfl
  next => cases houtcome

end Turns

/-! ## The outcome of an execution -/

section Outcomes

variable {ι ο : Type} {items : List ι} {routines : List (Routine ι ο)} {f : ι → List ο}

/-- Routines that handle their items one by one count no more items than there are. -/
theorem processedBy_plans_le (items : List ι) (hsome : routines ≠ [])
    (heach : ∀ routine ∈ routines, routine.HandlesEach f) :
    processedBy ((State.plans items routines).map carryOut) ≤ items.length := by
  have hle (pairs : List (Span × Routine ι ο)) (h : ∀ pair ∈ pairs, pair.2.HandlesEach f) :
      processedBy (pairs.map fun pair => carryOut (pair.2 (pair.1.slice items))) ≤
        (pairs.flatMap (·.1.slice items)).length := by
    induction pairs with
    | nil => exact Nat.le_refl 0
    | cons pair pairs ih =>
      obtain ⟨hpair, hpairs⟩ := List.forall_mem_cons.mp h
      have hfirst := processed_carryOut_le hpair (pair.1.slice items)
      have hothers := ih hpairs
      rw [List.map_cons, processedBy_cons, List.flatMap_cons, List.length_append]
      omega
  have hzip := hle ((partition items.length routines.length).zip routines)
    fun pair hpair => heach pair.2 (List.of_mem_zip hpair).2
  rw [zip_fst_flatMap_slice items hsome] at hzip
  simpa [State.plans, Function.comp_def] using hzip

/-- If nobody panics, the workers' outputs make up the output for all items. -/
theorem joinRuns_plans_of_forall_not_panics (hsome : routines ≠ [])
    (heach : ∀ routine ∈ routines, routine.HandlesEach f)
    (hsafe : ∀ number, ¬Panics items routines number) (name : String) :
    joinRuns name ((State.plans items routines).map carryOut) =
      .ok ⟨items.flatMap f, items.length⟩ := by
  have hruns : (State.plans items routines).map carryOut =
      ((partition items.length routines.length).zip routines).map fun pair =>
        ⟨(pair.1.slice items).flatMap f, (pair.1.slice items).length, false⟩ := by
    unfold State.plans
    rw [List.map_map]
    refine List.map_congr_left fun pair hpair => ?_
    rcases heach pair.2 (List.of_mem_zip hpair).2 (pair.1.slice items) with
      hall | ⟨done, -, hpanics⟩
    · exact (congrArg carryOut hall).trans (carryOut_handling f _)
    · obtain ⟨number, hnumber, hget⟩ := List.getElem_of_mem hpair
      have hplan : (State.plans items routines)[number]? = some (done ++ [.panic]) := by
        simp [State.plans, List.getElem?_eq_getElem hnumber, hget, hpanics]
      exact absurd ⟨_, hplan, by simp⟩ (hsafe number)
  rw [joinRuns_eq_ok_iff, hruns]
  have hitems := zip_fst_flatMap_slice items hsome
  refine ⟨List.forall_mem_map.mpr fun _ _ => rfl, ?_, ?_⟩
  · rw [List.flatMap_map, ← List.flatMap_assoc, hitems]
  · have hlength := congrArg List.length hitems
    rw [List.length_flatMap] at hlength
    rw [processedBy_eq_sum, List.map_map]
    exact hlength

theorem panics_iff (number : Nat) : Panics items routines number ↔
    ∃ run, ((State.plans items routines).map carryOut)[number]? = some run ∧ run.died = true := by
  simp [Panics, died_carryOut_iff]

/-- The first that panics decides. -/
theorem joinRuns_plans_of_panics {number : Nat} (hpanics : Panics items routines number)
    (hfirst : ∀ earlier < number, ¬Panics items routines earlier) (name : String) :
    joinRuns name ((State.plans items routines).map carryOut) = .error (.workerDied name number) := by
  have hfind : ((State.plans items routines).map carryOut).findIdx? WorkerRun.died =
      some number := by
    obtain ⟨run, hrun, hdied⟩ := (panics_iff number).mp hpanics
    obtain ⟨hlt, rfl⟩ := List.getElem?_eq_some_iff.mp hrun
    refine List.findIdx?_eq_some_iff_getElem.mpr ⟨hlt, hdied, ?_⟩
    intro earlier hearlier hdied'
    have hget := List.getElem?_eq_getElem (Nat.lt_trans hearlier hlt)
    exact hfirst earlier hearlier ((panics_iff earlier).mpr ⟨_, hget, hdied'⟩)
  unfold joinRuns
  rw [hfind]

end Outcomes

/-- Whatever the order in which the threads of a phase take their turns, it comes to an end, and with
the same outcome. The counter never decreases, and if the routines handle their items one by one, it
never exceeds the number of items. If they do and nobody panics, all items have been processed, and
the output is that for the items in their order. If somebody panics, whatever the others do, the
first in the order of the workers decides the failure. It is the outcome of `runPhase`, where routines
are those of an item step. -/
theorem execution_determined {ι ο : Type} (name : String) (items : List ι)
    (routines : List (Routine ι ο)) (f : ι → List ο) (hsome : routines ≠ [])
    (turns : List Turn) (s : State ο) (hrun : (State.start items routines).run? turns = some s) :
    (turns.length ≤ (State.start items routines).remaining ∧
        ((s.outcome? name).isSome ∨ ∃ turn, (s.step? turn).isSome)) ∧
      (∀ turn s', s.step? turn = some s' → s.counter ≤ s'.counter) ∧
      ((∀ routine ∈ routines, routine.HandlesEach f) → s.counter ≤ items.length) ∧
      ∀ outcome, s.outcome? name = some outcome →
        ((∀ routine ∈ routines, routine.HandlesEach f) →
          (∀ number, ¬Panics items routines number) →
            outcome = .ok ⟨items.flatMap f, items.length⟩) ∧
          (∀ number, Panics items routines number →
            (∀ earlier < number, ¬Panics items routines earlier) →
              outcome = .error (.workerDied name number)) ∧
          ∀ (τ : Type) (handle : ι → τ → Except Violation (List ο × τ)) (states : List τ),
            routines = states.map (routineOf handle) →
              outcome = (runPhase name (alone handle) states items ()).1 := by
  obtain ⟨hahead, hlength⟩ := (State.ahead_start items routines).run hrun
  refine ⟨⟨by omega, ?_⟩, ?_, ?_, ?_⟩
  · by_cases hjoined : s.joined = s.workers.length
    · left
      unfold State.outcome?
      rw [if_pos hjoined]
      rfl
    · right
      exact hahead.exists_step hjoined
  · intro turn s' hstep
    exact (hahead.step hstep).2.1
  · intro heach
    have hcounter := hahead.counter_add
    have hle := processedBy_plans_le items hsome heach
    omega
  · intro outcome houtcome
    rw [hahead.outcome_eq houtcome]
    refine ⟨?_, ?_, ?_⟩
    · intro heach hsafe
      exact joinRuns_plans_of_forall_not_panics hsome heach hsafe name
    · intro number hpanics hfirst
      exact joinRuns_plans_of_panics hpanics hfirst name
    · rintro τ handle states rfl
      exact (runPhase_alone name handle states items).symm

/-- Puts each number out twice. -/
def doubling : Routine Nat Nat := handling fun n => [n, n]

/-- Panics at once. -/
def panicking : Routine Nat Nat := fun _ => [.panic]

theorem doubling_handlesEach : doubling.HandlesEach fun n => [n, n] := fun _ => .inl rfl

/-- Two workers take turns and both get through their items. Of three workers the last panics before
the second does, but the second decides. -/
theorem outcomes_of_two_executions :
    (∃ s, (State.start [1, 2, 3] [doubling, doubling]).run?
        [.main, .main, .worker 1, .worker 0, .worker 1, .worker 0, .worker 1, .worker 0, .worker 0,
          .worker 0, .worker 0, .main, .main] = some s ∧
      s.outcome? "phase" = some (.ok ⟨[1, 1, 2, 2, 3, 3], 3⟩)) ∧
    ∃ s, (State.start [1, 2, 3] [doubling, panicking, panicking]).run?
        [.main, .main, .main, .worker 2, .worker 1, .worker 0, .worker 0, .worker 0, .main, .main,
          .main] = some s ∧
      s.outcome? "phase" = some (.error (.workerDied "phase" 1)) := by
  constructor
  · have hsafe : ∀ number, ¬Panics [1, 2, 3] [doubling, doubling] number := by
      rintro number ⟨plan, hplan, hpanic⟩
      have hplans : ∀ plan ∈ State.plans [1, 2, 3] [doubling, doubling], Move.panic ∉ plan := by
        decide
      exact hplans plan (List.mem_of_getElem? hplan) hpanic
    have heach : ∀ routine ∈ [doubling, doubling], routine.HandlesEach fun n => [n, n] := by
      simp [doubling_handlesEach]
    refine ⟨_, rfl, ?_⟩
    rcases houtcome : State.outcome? "phase" _ with _ | outcome
    · cases houtcome
    · obtain ⟨-, -, -, hdetermined⟩ := execution_determined "phase" [1, 2, 3] [doubling, doubling]
        (fun n => [n, n]) (List.cons_ne_nil _ _)
        [.main, .main, .worker 1, .worker 0, .worker 1, .worker 0, .worker 1, .worker 0, .worker 0,
          .worker 0, .worker 0, .main, .main] _ rfl
      rw [(hdetermined outcome houtcome).1 heach hsafe]
      rfl
  · have hfirst : ∀ earlier < 1, ¬Panics [1, 2, 3] [doubling, panicking, panicking] earlier := by
      rintro earlier hearlier ⟨plan, hplan, hpanic⟩
      obtain rfl : earlier = 0 := by omega
      cases hplan
      exact absurd hpanic (by decide)
    refine ⟨_, rfl, ?_⟩
    rcases houtcome : State.outcome? "phase" _ with _ | outcome
    · cases houtcome
    · obtain ⟨-, -, -, hdetermined⟩ := execution_determined "phase" [1, 2, 3]
        [doubling, panicking, panicking] (fun n => [n, n]) (List.cons_ne_nil _ _)
        [.main, .main, .main, .worker 2, .worker 1, .worker 0, .worker 0, .worker 0, .main, .main,
          .main] _ rfl
      rw [(hdetermined outcome houtcome).2.1 1 ⟨[.panic], rfl, List.mem_singleton_self _⟩ hfirst]

end Interleaving

end MutationTester
