import MutationTester.Build.CompiledProgram
import MutationTester.Testing.Outcome
import MutationTester.Testing.Phase
import MutationTester.Text.Diff

/-!
# The mutant phase

Each mutant is applied to the worker's copy of the program and built, the tests that reach it
are run on it, and it is reverted. Only tests that passed on the unchanged program are run. A
run in which the sandbox failed does not count.
-/

set_option autoImplicit false

namespace MutationTester

/-- What the runs on one mutant have shown so far. -/
structure Tally where
  killers : List Kill
  eligible : Nat
  sandboxError : Option String

namespace Tally

/-- Nothing has been run. -/
def start : Tally := ⟨[], 0, none⟩

/-- Counts one run of a test. -/
def count (t : Tally) (test : Test) (r : RunResult) : Tally :=
  match r.status with
  | .error => { t with sandboxError := t.sandboxError.or (some r.output) }
  | .passed => { t with eligible := t.eligible + 1 }
  | status =>
    { t with eligible := t.eligible + 1, killers := t.killers ++ [⟨test.name, status⟩] }

end Tally

namespace MutantRun

/-- What the mutant phase is called. -/
def phaseName : String := "running mutants"

/-- Whether a run has detected the mutant. -/
def isKill (r : RunResult) : Bool := r.status ≠ .passed && r.status ≠ .error

/-- Runs the tests of the given testees on a mutant, in their order, until one detects it if
the configuration asks for that. -/
def runTestees {σ : Type} (x : Executable) (sandbox : Sandbox σ) (limits : Limits)
    (config : Config) (tests : List Test) :
    List Testee → Tally → σ → Except Violation Tally × σ
  | [], tally, s => (.ok tally, s)
  | testee :: rest, tally, s =>
    match tests[testee.test]? with
    | none => runTestees x sandbox limits config tests rest tally s
    | some test =>
      match test.passedResult? with
      | none => runTestees x sandbox limits config tests rest tally s
      | some baseline =>
        match config.mutantTimeout? baseline.duration with
        | none => (.error .durationOutOfRange, s)
        | some time =>
          let (result, s) := sandbox.run (.ofTest x limits false test.entry) time s
          let tally := tally.count test result
          if isKill result && config.stopOnFirstKill then (.ok tally, s)
          else runTestees x sandbox limits config tests rest tally s

/-- The listing of a function, or nothing if there is no such function. -/
def listingOf (p : Program) (f : FuncId) : String := ((p.function? f).map Func.listing).getD ""

/-- The result of a mutant that could not be built. -/
def unbuilt (point : Point) (diff : String) (e : BuildError) : MutantResult :=
  { MutantResult.bare point .compileError with diff := diff, error := some e.message }

/-- The result of a mutant whose tests have been run. -/
def judged (mutant : Mutant) (diff : String) (tally : Tally) : MutantResult :=
  let status := classify mutant.testees.length tally.eligible tally.killers
  { MutantResult.bare mutant.point status with
    killers := tally.killers
    runs := tally.eligible
    diff := diff
    error := if status = .compileError then tally.sandboxError else none }

/-- Builds the program that a mutant has been applied to and runs the mutant's tests on it. -/
def runApplied {σ : Type} (compiled : CompiledProgram) (sandbox : Sandbox σ) (limits : Limits)
    (config : Config) (tests : List Test) (mutant : Mutant) (mutated : Program) (diff : String)
    (s : σ) : Except Violation MutantResult × σ :=
  let dirty := mutant.point.site.module
  if !compiled.hasPlaceFor mutated dirty then (.error .moduleNotCompiled, s)
  else
    match compiled.executableFor mutated dirty with
    | .error e => (.ok (unbuilt mutant.point diff e), s)
    | .ok x =>
      match runTestees x sandbox limits config tests mutant.testees .start s with
      | (.error v, s) => (.error v, s)
      | (.ok tally, s) => (.ok (judged mutant diff tally), s)

/-- Handles one mutant: what no test reaches is not run, everything else is applied, run and
reverted. -/
def execute {σ : Type} (compiled : CompiledProgram) (sandbox : Sandbox σ) (limits : Limits)
    (config : Config) (tests : List Test) (mutant : Mutant) (p : Program) (s : σ) :
    Except Violation (MutantResult × Program) × σ :=
  let point := mutant.point
  if mutant.testees.isEmpty then
    (.ok (MutantResult.bare point (classify 0 0 []), p), s)
  else
    match point.operator.mutate p point.site with
    | .error v => (.error v, s)
    | .ok (token, mutated) =>
      let f := point.site.funcId
      let diff := Text.diff (listingOf p f) (listingOf mutated f)
      match runApplied compiled sandbox limits config tests mutant mutated diff s with
      | (.error v, s) => (.error v, s)
      | (.ok result, s) => ((point.operator.revert mutated token).map (result, ·), s)

/-- Handles one item of the phase. -/
def step {σ : Type} (compiled : CompiledProgram) (sandbox : Sandbox σ) (limits : Limits)
    (config : Config) (tests : List Test) : ItemStep σ Program Mutant MutantResult :=
  fun mutant p s =>
    let (outcome, s) := execute compiled sandbox limits config tests mutant p s
    (outcome.map fun (result, p) => ([result], p), s)

/-- Runs all mutants, each worker on a copy of the program. -/
def run {σ : Type} (p : Program) (compiled : CompiledProgram) (sandbox : Sandbox σ)
    (limits : Limits) (config : Config) (tests : List Test) (mutants : List Mutant) (s : σ) :
    Except Failure (PhaseResult MutantResult) × σ :=
  runPhase phaseName (step compiled sandbox limits config tests)
    (List.replicate (config.workersFor mutants.length) p) mutants s

end MutantRun

end MutationTester
