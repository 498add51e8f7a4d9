import MutationTester.Mutation.Violation
import MutationTester.Testing.Outcome

/-!
# Reports

A report lists the results of all mutants and all tests of a run, with their counts and the
score: the part of the mutants with a verdict that was killed.
-/

set_option autoImplicit false

namespace MutationTester

/-- What a report says of a test. A test that was not run has no status. -/
structure TestReport where
  name : String
  status : Option RunStatus
  durationMs : Nat
  deriving DecidableEq

/-- The report of a run. Of the killed mutants, those are counted on their own whose first
detecting run timed out or crashed. -/
structure Report where
  score : Float
  total : Nat
  killed : Nat
  survived : Nat
  notCovered : Nat
  compileErrors : Nat
  timedOut : Nat
  crashed : Nat
  durationMs : Nat
  mutants : List MutantResult
  tests : List TestReport

/-- The part of the scored mutants that was killed; all of them if none was scored. -/
def mutationScore (killed survived : Nat) : Float :=
  if killed + survived = 0 then 1.0
  else Float.ofNat killed / Float.ofNat (killed + survived)

/-- The number of scored mutants, given two counts from anywhere. Those of one list always add up
to a word; others need not, and then there is no such number. -/
def scoredCount (killed survived : Nat) : Except Violation Nat :=
  if killed + survived < UInt64.size then .ok (killed + survived) else .error .countOutOfRange

/-- The score of two counts from anywhere. -/
def checkedScore (killed survived : Nat) : Except Violation Float := do
  let _ ← scoredCount killed survived
  return mutationScore killed survived

/-- What a report says of a test. -/
def Test.report (t : Test) : TestReport where
  name := t.name
  status := t.result.map RunResult.status
  durationMs := (t.result.map fun r => r.duration.toMilliseconds).getD 0

namespace Report

/-- The number of mutants with a verdict. -/
def countStatus (mutants : List MutantResult) (status : MutantStatus) : Nat :=
  mutants.countP fun m => m.status = status

/-- The number of killed mutants whose first detecting run had a status. -/
def countKilledBy (mutants : List MutantResult) (status : RunStatus) : Nat :=
  mutants.countP fun m =>
    m.status = .killed && m.killers.head?.any fun kill => kill.status = status

/-- The report of the given results. -/
def aggregate (mutants : List MutantResult) (tests : List Test) (elapsed : Duration) : Report :=
  let killed := countStatus mutants .killed
  let survived := countStatus mutants .survived
  { score := mutationScore killed survived
    total := mutants.length
    killed := killed
    survived := survived
    notCovered := countStatus mutants .notCovered
    compileErrors := countStatus mutants .compileError
    timedOut := countKilledBy mutants .timedOut
    crashed := countKilledBy mutants .crashed
    durationMs := elapsed.toMilliseconds
    mutants := mutants
    tests := tests.map Test.report }

/-- The mutants that no test detected, in their order. -/
def survivors (r : Report) : List MutantResult :=
  r.mutants.filter fun m => m.status = .survived

end Report

end MutationTester
