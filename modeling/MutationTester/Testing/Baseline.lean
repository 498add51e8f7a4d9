import MutationTester.Testing.Phase
import MutationTester.Testing.Testee

/-!
# The baseline phase

Each test is run once on the unchanged program, tracked while it runs. Its result is recorded
in the test. What a test has reached counts only if the test passes.
-/

set_option autoImplicit false

namespace MutationTester

/-- A test after its run on the unchanged program, and the points it has reached. -/
structure BaselineRun where
  test : Test
  testees : List Testee

namespace Baseline

/-- What the baseline phase is called. -/
def phaseName : String := "running original tests"

/-- Runs one test. The coverage is kept in the tracking record only, and only until the test
has been handled. -/
def step {σ : Type} (p : Program) (x : Executable) (sandbox : Sandbox σ) (limits : Limits)
    (config : Config) : ItemStep σ Tracking Test BaselineRun :=
  fun test tracking s =>
    let tracking := tracking.setup test
    let (result, s) := sandbox.run (.ofTest x limits true test.entry) config.timeout s
    match test.record { result with coverage := none } with
    | .error v => (.error v, s)
    | .ok recorded =>
      let tracking :=
        if result.status = .passed then tracking.record test (result.coverage.getD .empty)
        else tracking
      let testees :=
        if result.status = .passed then
          (tracking.testees p test config.filter config.maxDistance).testees
        else []
      (.ok ([⟨recorded, testees⟩], tracking.cleanup test), s)

/-- Runs all tests. -/
def run {σ : Type} (p : Program) (x : Executable) (sandbox : Sandbox σ) (limits : Limits)
    (config : Config) (tests : List Test) (s : σ) :
    Except Failure (PhaseResult BaselineRun) × σ :=
  runPhase phaseName (step p x sandbox limits config)
    (List.replicate (config.workersFor tests.length) (Tracking.start config.mutateTestBodies))
    tests s

end Baseline

end MutationTester
