import MutationTester.Proofs.Testing.BuiltMutants
import MutationTester.Proofs.Testing.Pristine
import MutationTester.Proofs.Testing.Workers

/-!
# What a campaign can fail for

The workers of a campaign get fresh tests and mutants that can be applied, built and reverted, so
whatever the sandbox answers they violate no contract, if only no answer takes so long that the time
for a mutant goes out of range (`Campaign.neverViolates`). So a campaign fails for what it is given
and for nothing else: a program that does not build, no tests, or more workers than there is room
for (`Campaign.fails_only_for_its_input`).
-/

set_option autoImplicit false

namespace MutationTester

/-- The sandbox takes no longer for anything than leaves the time for a mutant in range. -/
def Sandbox.KeepsTime {σ : Type} (sandbox : Sandbox σ) (config : Config) : Prop :=
  ∀ work time s, (config.mutantTimeout? (sandbox.run work time s).1.duration).isSome = true

/-- If each mutant has a result on the program, in whatever state of the sandbox, then the mutant
phase has an outcome. -/
theorem MutantRun.exists_run_eq_ok {σ : Type} {p : Program} {compiled : CompiledProgram}
    {sandbox : Sandbox σ} {limits : Limits} {config : Config} {tests : List Test}
    {mutants : List Mutant} (hworkers : config.workers ≠ 0)
    (happlies : ∀ mutant ∈ mutants, mutant.point.operator.applies p mutant.point.site = true)
    (hresults : ∀ mutant ∈ mutants, ∀ s, ∃ result,
      (execute compiled sandbox limits config tests mutant p s).1 = .ok (result, p)) (s : σ) :
    ∃ r, (run p compiled sandbox limits config tests mutants s).1 = .ok r := by
  have halive : (session compiled sandbox limits config tests mutants p s).any (!·.isOk) =
      false := by
    rw [List.any_eq_false]
    intro outcome houtcome
    obtain ⟨i, hi⟩ := List.mem_iff_getElem?.mp houtcome
    obtain ⟨mutant, s', hmutant, rfl⟩ := exists_of_getElem?_session happlies hi
    obtain ⟨result, hresult⟩ := hresults mutant (List.mem_of_getElem? hmutant) s'
    rw [hresult]
    exact Bool.false_ne_true
  have hslice : (runSlice (step compiled sandbox limits config tests) mutants p s).1 = _ :=
    runSlice_step_eq mutants s
  dsimp only at hslice
  rw [halive] at hslice
  -- one worker gets through all mutants, so the workers get through theirs
  have hphase := (runPhase_replicate_eq_ok_iff restores_step phaseName mutants
    (Config.workersFor_pos hworkers mutants) s ⟨_, _⟩ _).mpr (Prod.ext hslice rfl)
  exact ⟨_, congrArg Prod.fst hphase⟩

namespace Campaign

section Contracts

variable {σ : Type} (p : Program) (compiled : CompiledProgram) (x : Executable)
  (sandbox : Sandbox σ) (limits : Limits) (config : Config) (s : σ)

/-- Nothing that a campaign has to handle makes a worker violate a contract, in whatever state the
sandbox is: each test has its result recorded, each mutant has a result and is reverted. -/
structure NeverViolates : Prop where
  tests : ∀ test ∈ p.findTests config, ∀ s', ∃ r,
    (Baseline.step p x sandbox limits config.normalize test
      (Tracking.start config.mutateTestBodies) s').1 =
        .ok ([r], Tracking.start config.mutateTestBodies)
  mutants : ∀ mutant ∈ mutants p x sandbox limits config s, ∀ s', ∃ result,
    (MutantRun.execute compiled sandbox limits config.normalize
      ((baseline p x sandbox limits config s).map BaselineRun.test) mutant p s').1 =
        .ok (result, p)

variable {p compiled x sandbox config}

/-- No testee that a campaign finds is late, if the sandbox keeps the time. -/
theorem not_late_of_mem_testees (htimes : sandbox.KeepsTime config.normalize) {testee : Testee}
    (h : testee ∈ testees p x sandbox limits config s) :
    ¬MutantRun.Late config.normalize ((baseline p x sandbox limits config s).map BaselineRun.test)
      testee := by
  obtain ⟨test, answer, hanswer, -, hpassed, hplace⟩ :=
    exists_passed_of_mem_testees p x sandbox limits config s h
  obtain ⟨s', rfl⟩ := Baseline.exists_eq_of_mem_zip_answers x sandbox limits config.normalize
    hanswer
  have hkept := htimes (.ofTest x limits true test.entry) config.normalize.timeout s'
  rintro ⟨test', baseline, htest', hbaseline, htime⟩
  -- the baseline of a testee is the answer of the sandbox without its coverage
  obtain rfl := Option.some.inj (hplace.symm.trans htest')
  obtain ⟨hresult, -⟩ := Option.filter_eq_some_iff.mp hbaseline
  obtain rfl := Option.some.inj hresult
  rw [htime] at hkept
  cases hkept

/-- The workers of a campaign violate no contract, if the sandbox keeps the time. -/
theorem neverViolates (hcompile : p.compile = .ok compiled) (hlink : compiled.executable = .ok x)
    (htimes : sandbox.KeepsTime config.normalize) :
    NeverViolates p compiled x sandbox limits config s where
  tests := by
    intro test htest s'
    have hfresh : test.result = none := (Program.mem_findTests htest).2
    exact ⟨_, congrArg Prod.fst
      (Baseline.step_eq p x sandbox limits config.normalize hfresh s')⟩
  mutants := by
    intro mutant hmutant s'
    have happlies := applies_of_mem_mutants hmutant
    have hleaves : MutantRun.Leaves compiled config.normalize
        ((baseline p x sandbox limits config s).map BaselineRun.test) p mutant
        (MutantRun.execute compiled sandbox limits config.normalize
          ((baseline p x sandbox limits config s).map BaselineRun.test) mutant p s').1 :=
      MutantRun.leaves_execute happlies s'
    generalize (MutantRun.execute compiled sandbox limits config.normalize _ mutant p s').1 =
      outcome at hleaves
    cases hleaves with
    | program result => exact ⟨result, rfl⟩
    | @unplaced token mutated hmutate hplace =>
      obtain ⟨token', mutated', y, hmutate', hplace', -⟩ :=
        Program.exists_build_of_applies hcompile hlink happlies
      obtain ⟨-, rfl⟩ := Prod.mk.inj (Except.ok.inj (hmutate.symm.trans hmutate'))
      rw [hplace] at hplace'
      cases hplace'
    | late htestee hlate =>
      exact absurd hlate (not_late_of_mem_testees limits s htimes
        (mem_testees_of_mem_mutants hmutant htestee))

/-- A campaign on a program that builds and has tests reports, if the sandbox keeps the time. -/
theorem exists_report_of_tests (hcompile : p.compile = .ok compiled)
    (hlink : compiled.executable = .ok x) (htests : p.findTests config ≠ [])
    (htimes : sandbox.KeepsTime config.normalize) :
    ∃ report, (run p sandbox limits config s).1 = .ok report := by
  obtain ⟨-, hmutants⟩ := neverViolates limits s hcompile hlink htimes
  rw [run_of_tests hcompile hlink htests]
  dsimp only
  obtain ⟨r, hr⟩ := MutantRun.exists_run_eq_ok config.workers_normalize_ne_zero
    (fun _ => applies_of_mem_mutants) hmutants _
  exact ⟨_, by rw [hr]; rfl⟩

/-- The build stands in the way of a campaign if it fails. -/
theorem obstacle?_eq_build_iff {e : BuildError} :
    obstacle? p config = some (.build e) ↔
      p.compile >>= CompiledProgram.executable = .error e := by
  unfold obstacle?
  cases p.compile >>= CompiledProgram.executable with
  | error e' => simp
  | ok x => cases (p.findTests config).isEmpty <;> simp

/-- The lack of tests stands in the way of a campaign on a program that builds. -/
theorem obstacle?_eq_noTests_iff {testPrefix : String} :
    obstacle? p config = some (.noTests testPrefix) ↔
      testPrefix = config.testPrefix ∧ (∃ x, p.Builds x) ∧ p.findTests config = [] := by
  unfold obstacle? Program.Builds
  cases p.compile >>= CompiledProgram.executable with
  | error e => simp
  | ok x =>
    have hbuilds : ∃ y, (.ok x : Except BuildError Executable) = .ok y := ⟨x, rfl⟩
    by_cases htests : p.findTests config = []
    · simp only [htests, List.isEmpty_nil, if_true, Option.some.injEq, Failure.noTests.injEq,
        hbuilds, and_true]
      exact eq_comm
    · simp [htests]

/-- Nothing stands in the way of a campaign on a program that builds and has tests. -/
theorem obstacle?_eq_none_iff :
    obstacle? p config = none ↔ (∃ x, p.Builds x) ∧ p.findTests config ≠ [] := by
  unfold obstacle? Program.Builds
  cases p.compile >>= CompiledProgram.executable with
  | error e => simp
  | ok x => simp

/-- Where nothing stands in its way, a campaign reports, or there is no room for its workers. -/
theorem runInMemory_of_unobstructed (hobstacle : obstacle? p config = none)
    (htimes : sandbox.KeepsTime config.normalize) :
    let outcome := (runInMemory p sandbox limits config s).1
    let room := Capacity.request config.workers placeSize
    (room = .granted → ∃ report, outcome = .ok (.ok report)) ∧
      (room ≠ .granted → outcome = .error (.tooManyWorkers room)) := by
  intro outcome room
  obtain ⟨compiled, x, hcompile, hlink, htests⟩ := exists_of_obstacle?_eq_none hobstacle
  constructor
  · intro hroom
    obtain ⟨report, hreport⟩ := exists_report_of_tests limits s hcompile hlink htests htimes
    refine ⟨report, ?_⟩
    show (runInMemory p sandbox limits config s).1 = _
    rw [runInMemory_eq fun _ => hroom, hreport]
  · intro hroom
    show (runInMemory p sandbox limits config s).1 = _
    unfold runInMemory
    split
    next hgranted => exact absurd hgranted hroom
    next => rw [hobstacle]

/-- A campaign fails with what stands in its way, and with nothing else. -/
theorem runInMemory_eq_error_iff (htimes : sandbox.KeepsTime config.normalize) (e : Failure) :
    (runInMemory p sandbox limits config s).1 = .ok (.error e) ↔ obstacle? p config = some e := by
  cases hobstacle : obstacle? p config with
  | some e' =>
    rw [runInMemory_eq (by simp [hobstacle]), run_of_obstacle hobstacle]
    simp
  | none =>
    obtain ⟨hreports, hcrowded⟩ := runInMemory_of_unobstructed limits s hobstacle htimes
    refine ⟨fun h => ?_, nofun⟩
    by_cases hroom : Capacity.request config.workers placeSize = .granted
    · obtain ⟨report, hreport⟩ := hreports hroom
      cases hreport.symm.trans h
    · cases (hcrowded hroom).symm.trans h

end Contracts

/-- A campaign fails only for what it is given. Whatever a sandbox answers, in so far as it does not
take so long that the time for a mutant goes out of range, a campaign fails with the error of the
build exactly if the build fails, and for lack of tests exactly if the program builds and none are
selected. Otherwise it reports, if there is room for its workers, and else ends before any test is
run. No worker dies, for nothing that it has to handle can make it violate a contract. -/
theorem fails_only_for_its_input {σ : Type} (p : Program) (sandbox : Sandbox σ) (limits : Limits)
    (config : Config) (s : σ) (htimes : sandbox.KeepsTime config.normalize) :
    let outcome := (runInMemory p sandbox limits config s).1
    let room := Capacity.request config.workers placeSize
    (∀ e, outcome = .ok (.error (.build e)) ↔
      p.compile >>= CompiledProgram.executable = .error e) ∧
    (∀ testPrefix, outcome = .ok (.error (.noTests testPrefix)) ↔
      testPrefix = config.testPrefix ∧ (∃ x, p.Builds x) ∧ p.findTests config = []) ∧
    ((∃ x, p.Builds x) → p.findTests config ≠ [] →
      (room = .granted → ∃ report, outcome = .ok (.ok report)) ∧
      (room ≠ .granted → outcome = .error (.tooManyWorkers room))) ∧
    (∀ phase worker, outcome ≠ .ok (.error (.workerDied phase worker))) ∧
    ∀ compiled x, p.compile = .ok compiled → compiled.executable = .ok x →
      NeverViolates p compiled x sandbox limits config s := by
  intro outcome room
  have hfails := runInMemory_eq_error_iff (p := p) limits s htimes
  refine ⟨?_, ?_, ?_, ?_, ?_⟩
  · exact fun e => (hfails _).trans obstacle?_eq_build_iff
  · exact fun testPrefix => (hfails _).trans obstacle?_eq_noTests_iff
  · intro hbuilds htests
    have hobstacle : obstacle? p config = none := obstacle?_eq_none_iff.mpr ⟨hbuilds, htests⟩
    exact runInMemory_of_unobstructed limits s hobstacle htimes
  · intro phase worker hdied
    have hobstacle : obstacle? p config = some (.workerDied phase worker) := (hfails _).mp hdied
    unfold obstacle? at hobstacle
    split at hobstacle
    · cases hobstacle
    · split at hobstacle <;> cases hobstacle
  · exact fun compiled x hcompile hlink => neverViolates limits s hcompile hlink htimes

/-- A program with a function that adds, and a test that does not call it. -/
def uncalledProgram : Program where
  modules :=
    [⟨"lib", [⟨"twice", 1, [.binary .add 0 0 0, .ret (some 0)]⟩]⟩,
      ⟨"tests", [⟨"test_nothing", 0, [.ret none]⟩]⟩]

/-- What the program builds to. -/
def uncalledExecutable : Executable where
  modules := uncalledProgram.lower
  symbols := [("test_nothing", ⟨1, 0⟩), ("twice", ⟨0, 0⟩)]

/-- A sandbox that runs nothing, and makes up that everything passes at once and executes the
function as well as an instruction that no program has. -/
def fancifulSandbox : Sandbox Unit where
  run _ _ s :=
    (⟨.passed, 0, "", some (.ofLists [(⟨0, 0⟩, 1), (⟨7, 7⟩, 0)] [⟨0, 0, 0⟩, ⟨7, 7, 7⟩])⟩, s)

/-- The campaign reports, although it is told of an instruction that no program has. -/
theorem reports_what_is_made_up :
    fancifulSandbox.KeepsTime ({} : Config).normalize ∧
      uncalledProgram.Builds uncalledExecutable ∧ uncalledProgram.findTests {} ≠ [] ∧
      Capacity.request ({} : Config).workers placeSize = .granted ∧
      ∃ report, (runInMemory uncalledProgram fancifulSandbox {} {} ()).1 = .ok (.ok report) := by
  have htimes : fancifulSandbox.KeepsTime ({} : Config).normalize := by
    intro work time s
    show (({} : Config).normalize.mutantTimeout? 0).isSome = true
    decide +kernel
  have hbuilds : uncalledProgram.Builds uncalledExecutable := rfl
  have htests : uncalledProgram.findTests {} ≠ [] := nofun
  have hroom : Capacity.request ({} : Config).workers placeSize = .granted := by decide
  obtain ⟨-, -, houtcome, -⟩ :=
    fails_only_for_its_input uncalledProgram fancifulSandbox {} {} () htimes
  exact ⟨htimes, hbuilds, htests, hroom, (houtcome ⟨_, hbuilds⟩ htests).1 hroom⟩

/-- With the greatest number of workers that a word can hold the campaign has no outcome at all,
although the program builds and has a test. -/
theorem no_outcome_for_greatest_number_of_workers :
    uncalledProgram.Builds uncalledExecutable ∧
      uncalledProgram.findTests { workers := UInt64.size - 1 } ≠ [] ∧
      (runInMemory uncalledProgram fancifulSandbox {} { workers := UInt64.size - 1 } ()).1 =
        .error (.tooManyWorkers .refused) ∧
      ¬∀ config : Config, fancifulSandbox.KeepsTime config.normalize →
        ∃ outcome, (runInMemory uncalledProgram fancifulSandbox {} config ()).1 = .ok outcome := by
  have hnone : (runInMemory uncalledProgram fancifulSandbox {} { workers := UInt64.size - 1 } ()).1 =
      .error (.tooManyWorkers .refused) := rfl
  refine ⟨rfl, nofun, hnone, ?_⟩
  intro h
  obtain ⟨outcome, houtcome⟩ := h { workers := UInt64.size - 1 } <| by
    intro work time s
    show (({ workers := UInt64.size - 1 } : Config).normalize.mutantTimeout? 0).isSome = true
    decide +kernel
  rw [hnone] at houtcome
  cases houtcome

end Campaign

end MutationTester
