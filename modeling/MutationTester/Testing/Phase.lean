import MutationTester.Mutation.Violation
import MutationTester.Testing.Failure
import MutationTester.Testing.Partition

/-!
# Phases

A phase is one pass over a list of items by several workers. Each worker has a state of its
own and a contiguous range of the items, and handles one item after the other; what the
workers put out is joined in their order. A worker that violates a contract dies, but the
others finish their ranges. Workers do not see each other, so it makes no difference to the
outcome that here one finishes before the next begins.

It is assumed that the system starts a thread for every worker. Where it refuses one, the phase fails
as if that worker had died; this is a matter of the system and not of the items, and is left out.
-/

set_option autoImplicit false

namespace MutationTester

/-- How a worker handles an item: from its own state and the state `σ` that all share, to the
output for the item and the states after it, or to a violation. -/
abbrev ItemStep (σ τ ι ο : Type) := ι → τ → σ → Except Violation (List ο × τ) × σ

/-- What a worker has done: its output, the number of items it has handled, and whether it has
died. -/
structure WorkerRun (ο : Type) where
  output : List ο
  processed : Nat
  died : Bool

/-- What comes out of a phase in which no worker died. -/
structure PhaseResult (ο : Type) where
  output : List ο
  processed : Nat

/-- A worker handles the items of its range. -/
def runSlice {σ τ ι ο : Type} (step : ItemStep σ τ ι ο) : List ι → τ → σ → WorkerRun ο × σ
  | [], _, s => (⟨[], 0, false⟩, s)
  | item :: items, t, s =>
    match step item t s with
    | (.error _, s) => (⟨[], 0, true⟩, s)
    | (.ok (output, t), s) =>
      let (rest, s) := runSlice step items t s
      (⟨output ++ rest.output, rest.processed + 1, rest.died⟩, s)

/-- The workers handle their ranges. -/
def runWorkers {σ τ ι ο : Type} (step : ItemStep σ τ ι ο) (items : List ι) :
    List (Span × τ) → σ → List (WorkerRun ο) × σ
  | [], s => ([], s)
  | (span, t) :: rest, s =>
    let (run, s) := runSlice step (span.slice items) t s
    let (runs, s) := runWorkers step items rest s
    (run :: runs, s)

/-- What the runs of all workers amount to: the first that died decides the failure. -/
def joinRuns {ο : Type} (name : String) (runs : List (WorkerRun ο)) :
    Except Failure (PhaseResult ο) :=
  match runs.findIdx? WorkerRun.died with
  | some worker => .error (.workerDied name worker)
  | none => .ok ⟨runs.flatMap WorkerRun.output, runs.foldl (fun n run => n + run.processed) 0⟩

/-- A phase over some items, with one worker for each of the given states, all of which are started.
Without workers nothing is handled. -/
def runPhase {σ τ ι ο : Type} (name : String) (step : ItemStep σ τ ι ο) (workers : List τ)
    (items : List ι) (s : σ) : Except Failure (PhaseResult ο) × σ :=
  let (runs, s) := runWorkers step items ((partition items.length workers.length).zip workers) s
  (joinRuns name runs, s)

end MutationTester
