import MutationTester.Capacity
import MutationTester.Report.Basic
import MutationTester.Testing.Baseline
import MutationTester.Testing.MutantRun

/-!
# Campaigns

A campaign is a whole mutation testing run: build the program, find its tests, run them on it,
assemble the mutants, run them, and report.
-/

set_option autoImplicit false

namespace MutationTester

namespace Campaign

/-- The second half of a campaign: the mutants of what the tests have reached are run. -/
def runMutants {σ : Type} (p : Program) (compiled : CompiledProgram) (sandbox : Sandbox σ)
    (limits : Limits) (config : Config) (baseline : List BaselineRun) (s : σ) :
    Except Failure Report × σ :=
  let tests := baseline.map BaselineRun.test
  let mutants := Mutant.assemble p config (baseline.flatMap BaselineRun.testees)
  match MutantRun.run p compiled sandbox limits config tests mutants s with
  | (.error e, s) => (.error e, s)
  | (.ok results, s) => (.ok (.aggregate results.output tests 0), s)

/-- A campaign on a program that has been built. -/
def runBuilt {σ : Type} (p : Program) (compiled : CompiledProgram) (x : Executable)
    (sandbox : Sandbox σ) (limits : Limits) (config : Config) (s : σ) :
    Except Failure Report × σ :=
  let tests := p.findTests config
  if tests.isEmpty then (.error (.noTests config.testPrefix), s)
  else
    match Baseline.run p x sandbox limits config tests s with
    | (.error e, s) => (.error e, s)
    | (.ok baseline, s) => runMutants p compiled sandbox limits config baseline.output s

/-- A campaign. The configuration is normalized first. -/
def run {σ : Type} (p : Program) (sandbox : Sandbox σ) (limits : Limits) (config : Config)
    (s : σ) : Except Failure Report × σ :=
  let config := config.normalize
  match p.compile with
  | .error e => (.error (.build e), s)
  | .ok compiled =>
    match compiled.executable with
    | .error e => (.error (.build e), s)
    | .ok x => runBuilt p compiled x sandbox limits config s

/-- Why a campaign ends before any test is run, if it does. -/
def obstacle? (p : Program) (config : Config) : Option Failure :=
  match p.compile >>= CompiledProgram.executable with
  | .error e => some (.build e)
  | .ok _ => if (p.findTests config).isEmpty then some (.noTests config.testPrefix) else none

/-- The bytes that the place of a worker takes. -/
def placeSize : Nat := 104

/-- A campaign in bounded memory. The places of all workers are laid out in a row before any
test is run, whether they will have something to do or not. -/
def runInMemory {σ : Type} (p : Program) (sandbox : Sandbox σ) (limits : Limits)
    (config : Config) (s : σ) : Except Violation (Except Failure Report) × σ :=
  match Capacity.request config.workers placeSize with
  | .granted =>
    let (outcome, s) := run p sandbox limits config s
    (.ok outcome, s)
  | answer =>
    match obstacle? p config with
    | some e => (.ok (.error e), s)
    | none => (.error (.tooManyWorkers answer), s)

end Campaign

end MutationTester
