import MutationTester.Build.CompiledProgram
import MutationTester.Proofs.Testing.Discovery
import MutationTester.Proofs.Testing.Turns

/-!
# What the baseline phase owes each test

The workers of the baseline phase share the sandbox, and take turns in any order. A worker that has
handled a test tracks no test, whatever became of the run, so each test is handled as by a worker that
has just begun (`asksAbout_step`). When the phase is over, the sandbox has been called once for each
test, each test holds the answer to its call, and the testees are those of the tests that passed, test by
test (`runs_each_test_once`).
-/

set_option autoImplicit false

namespace MutationTester

/-- A call of a sandbox, with its answer. -/
structure SandboxCall where
  work : Work
  time : Duration
  answer : RunResult

/-- The sandbox, with its calls noted down one after the other. -/
def Sandbox.logged {σ : Type} (sandbox : Sandbox σ) : Sandbox (σ × List SandboxCall) where
  run work time := fun (s, calls) =>
    let (answer, s) := sandbox.run work time s
    (answer, s, calls ++ [⟨work, time, answer⟩])

namespace Baseline

open Sharing

variable {σ : Type} (p : Program) (x : Executable) (sandbox : Sandbox σ) (limits : Limits)
  (config : Config)

/-- The sandbox is asked about a test. -/
def ask (test : Test) (s : σ) : RunResult × σ :=
  sandbox.run (.ofTest x limits true test.entry) config.timeout s

/-- The call for a test that got an answer. -/
def callFor (test : Test) (answer : RunResult) : SandboxCall :=
  ⟨.ofTest x limits true test.entry, config.timeout, answer⟩

/-- Each of the tests has been run once, and got an answer. It holds the answer without the coverage.
What it has reached counts if it passed: then its testees are those of a worker that tracks it, and only
it, and has recorded its coverage; else it has none. The testees come test by test. -/
structure RunsEachOnce (tests : List Test) (answered : List (Test × RunResult))
    (calls : List SandboxCall) (r : PhaseResult BaselineRun) : Prop where
  tests_eq : answered.map Prod.fst = tests
  calls_perm : calls.Perm (answered.map fun (test, answer) => callFor x limits config test answer)
  results_eq : r.output.map BaselineRun.test = answered.map fun (test, answer) =>
    { test with result := some { answer with coverage := none } }
  testees_eq : r.output.flatMap BaselineRun.testees = answered.flatMap fun (test, answer) =>
    if answer.status = .passed then
      ((Tracking.after config test (answer.coverage.getD .empty)).testees p test config.filter
        config.maxDistance).testees
    else []
  ordered : ((r.output.flatMap BaselineRun.testees).map Testee.test).Pairwise (· ≤ ·)
  passed : ∀ testee ∈ r.output.flatMap BaselineRun.testees, ∃ test answer,
    answered[testee.test]? = some (test, answer) ∧ answer.status = .passed
  processed_eq : r.processed = tests.length

/-- A worker that tracks no test handles a fresh test by asking the sandbox about it, and tracks no test
again. -/
theorem asksAbout_step {test : Test} (hfresh : test.result = none) :
    AsksAbout (step p x sandbox limits config) (Tracking.start config.mutateTestBodies)
      (ask x sandbox limits config)
      (fun test answer => [BaselineRun.ofAnswer p config test answer]) test :=
  step_eq p x sandbox limits config hfresh

/-- What has been asked has been noted down. -/
theorem calls_of_asked {s s' : σ × List SandboxCall} {log : List (Test × RunResult)}
    (h : Asked (ask x sandbox.logged limits config) s log s') :
    s'.2 = s.2 ++ log.map fun (test, answer) => callFor x limits config test answer := by
  induction h with
  | none => simp
  | more _ test ih =>
    rw [List.map_append, ← List.append_assoc, ← ih]
    rfl

variable {p config} in
theorem test_of_mem_testees {test : Test} {answer : RunResult} {testee : Testee}
    (h : testee ∈ (BaselineRun.ofAnswer p config test answer).testees) : testee.test = test.id := by
  obtain ⟨-, key, distance, -, -, rfl⟩ := (BaselineRun.mem_testees_ofAnswer_iff ..).mp h
  rfl

/-- The outcome for the answers to all tests is what the phase owes them. -/
theorem runsEachOnce_of_answered {tests : List Test}
    (hids : ∀ (i : Nat) (test : Test), tests[i]? = some test → test.id = i)
    {answered : List (Test × RunResult)}
    (htests : answered.map Prod.fst = tests) {calls : List SandboxCall}
    (hcalls : calls.Perm (answered.map fun (test, answer) => callFor x limits config test answer)) :
    RunsEachOnce p x limits config tests answered calls
      ⟨answered.flatMap fun (test, answer) => [BaselineRun.ofAnswer p config test answer],
        tests.length⟩ := by
  have hid {i : Nat} {test : Test} {answer : RunResult} (h : answered[i]? = some (test, answer)) :
      test.id = i := by
    apply hids
    rw [← htests, List.getElem?_map, h]
    rfl
  have houtput : (answered.flatMap fun (test, answer) => [BaselineRun.ofAnswer p config test answer]) =
      answered.map fun (test, answer) => BaselineRun.ofAnswer p config test answer :=
    List.flatMap_pure_eq_map _ _
  rw [houtput]
  refine ⟨htests, hcalls, ?_, ?_, ?_, ?_, rfl⟩
  · rw [List.map_map]
    rfl
  · rw [List.flatMap_map]
    rfl
  · rw [List.flatMap_map, List.pairwise_map, List.pairwise_flatMap]
    constructor
    · rintro ⟨test, answer⟩ -
      refine List.pairwise_of_forall_mem_list fun a ha b hb => ?_
      exact Nat.le_of_eq ((test_of_mem_testees ha).trans (test_of_mem_testees hb).symm)
    · refine List.pairwise_iff_getElem.mpr fun i j hi hj hlt a ha b hb => ?_
      rw [test_of_mem_testees ha, test_of_mem_testees hb, hid (List.getElem?_eq_getElem hi),
        hid (List.getElem?_eq_getElem hj)]
      exact Nat.le_of_lt hlt
  · intro testee htestee
    rw [List.flatMap_map] at htestee
    obtain ⟨⟨test, answer⟩, hmem, htestee⟩ := List.mem_flatMap.mp htestee
    obtain ⟨i, hi⟩ := List.getElem?_of_mem hmem
    refine ⟨test, answer, ?_, ((BaselineRun.mem_testees_ofAnswer_iff ..).mp htestee).1⟩
    rw [test_of_mem_testees htestee, hid hi, hi]

/-- Tracking begins with no test tracked. -/
theorem isTracking_start (mutateTestBodies : Bool) (test : Test) :
    (Tracking.start mutateTestBodies).isTracking test = false :=
  Std.ExtTreeMap.contains_empty

/-- The workers of the baseline phase may take turns in any order. After every item, whatever became of
its run, no worker tracks a test. The phase comes to an end, and then it has run each of the fresh tests
once and given it what it owes it. So has the phase that lets its workers run one after the other. -/
theorem runs_each_test_once (tests : List Test) (hfresh : ∀ test ∈ tests, test.result = none)
    (hids : ∀ (i : Nat) (test : Test), tests[i]? = some test → test.id = i)
    (hworkers : config.workers ≠ 0) (s : σ) :
    let workers := List.replicate config.workers (Tracking.start config.mutateTestBodies)
    let step := step p x sandbox.logged limits config
    (∀ phase, Turns step (.start workers tests (s, [])) phase →
        (∀ w ∈ phase.workers, ∀ test, w.own.isTracking test = false) ∧
          (phase.IsOver ∨ ∃ next, Turn step phase next) ∧
          (∀ next, Turn step phase next → next.itemsLeft < phase.itemsLeft) ∧
          (phase.IsOver → ∃ r answered, phase.outcome phaseName = .ok r ∧
            RunsEachOnce p x limits config tests answered phase.shared.2 r)) ∧
      ∃ r s' calls answered, run p x sandbox.logged limits config tests (s, []) =
        (.ok r, s', calls) ∧ RunsEachOnce p x limits config tests answered calls r := by
  intro workers step
  have hasks : ∀ test ∈ tests, AsksAbout step (Tracking.start config.mutateTestBodies)
      (ask x sandbox.logged limits config)
      (fun test answer => [BaselineRun.ofAnswer p config test answer]) test :=
    fun test htest => asksAbout_step p x sandbox.logged limits config (hfresh test htest)
  -- the same for any number of workers, since the phase of `run` has no more than there are tests
  have howes {n : Nat} (hn : 0 < n ∨ tests = []) {phase : Ongoing _ _ _ _}
      (hturns : Turns step (.start (List.replicate n (Tracking.start config.mutateTestBodies)) tests
        (s, [])) phase) :
      (∀ w ∈ phase.workers, ∀ test, w.own.isTracking test = false) ∧
        (phase.IsOver → ∃ r answered, phase.outcome phaseName = .ok r ∧
          RunsEachOnce p x limits config tests answered phase.shared.2 r) := by
    obtain ⟨parts, log, hstanding⟩ := (standing_start hn).turns hasks hturns
    constructor
    · intro w hw test
      rw [hstanding.workers_eq] at hw
      obtain ⟨part, -, rfl⟩ := List.mem_map.mp hw
      exact isTracking_start config.mutateTestBodies test
    · intro hover
      obtain ⟨htests, houtcome⟩ := hstanding.outcome_eq hover phaseName
      have hcalls := calls_of_asked x sandbox limits config hstanding.asked
      rw [List.nil_append] at hcalls
      refine ⟨_, _, houtcome, runsEachOnce_of_answered p x limits config hids htests ?_⟩
      rw [hcalls]
      exact hstanding.log_perm.map _
  constructor
  · intro phase hturns
    obtain ⟨huntracked, howed⟩ := howes (.inl (Nat.pos_of_ne_zero hworkers)) hturns
    exact ⟨huntracked, isOver_or_exists_turn step phase, fun _ hturn => hturn.itemsLeft_lt, howed⟩
  · obtain ⟨phase, hturns, hover, hphase⟩ := exists_execution_of_runPhase phaseName step
      (List.replicate (config.workersFor tests.length) (Tracking.start config.mutateTestBodies)) tests
      (s, [])
    obtain ⟨-, howed⟩ := howes (Config.workersFor_pos hworkers tests) hturns
    obtain ⟨r, answered, houtcome, howes⟩ := howed hover
    refine ⟨r, phase.shared.1, phase.shared.2, answered, ?_, howes⟩
    rw [← houtcome]
    exact hphase

/-- A program with a test that passes, and one that fails. -/
def mixedProgram : Program where
  modules :=
    [⟨"lib", [⟨"double", 1, [.binary .add 0 0 0, .ret (some 0)]⟩]⟩,
      ⟨"tests", [⟨"test_zero", 0, [.const 0 0, .call (some 0) "double" [0], .assert 0, .ret none]⟩,
        ⟨"test_one", 0, [.const 0 1, .call (some 0) "double" [0], .assert 0, .ret none]⟩]⟩]

/-- The program as it is run. -/
def mixedExecutable : Except BuildError Executable :=
  mixedProgram.compile >>= CompiledProgram.executable

/-- Two workers for the tests of the program. -/
def mixedConfig : Config := { workers := 2 }

/-- What becomes of the tests of the program: their statuses, and the test of each testee. -/
def mixedOutcome? : Option (List (Option RunStatus) × List Nat) := do
  let x ← mixedExecutable.toOption
  let r ← (run mixedProgram x (Sandbox.ofKind .none).logged {} mixedConfig
    (mixedProgram.findTests mixedConfig) ((), [])).1.toOption
  return (r.output.map fun run => run.test.result.map RunResult.status,
    (r.output.flatMap BaselineRun.testees).map Testee.test)

/-- Each of the two tests has been run once. They have reached the same addition, but only the one that
passed has a testee. -/
theorem only_passed_test_has_testee :
    (∀ test ∈ mixedProgram.findTests mixedConfig, test.result = none) ∧
      (∀ (i : Nat) (test : Test), (mixedProgram.findTests mixedConfig)[i]? = some test →
        test.id = i) ∧
      mixedConfig.workers ≠ 0 ∧
      ∃ x r s calls answered, mixedExecutable = .ok x ∧
        run mixedProgram x (Sandbox.ofKind .none).logged {} mixedConfig
          (mixedProgram.findTests mixedConfig) ((), []) = (.ok r, s, calls) ∧
        RunsEachOnce mixedProgram x {} mixedConfig (mixedProgram.findTests mixedConfig) answered
          calls r ∧
        r.output.map (fun run => run.test.result.map RunResult.status) =
          [some .failed, some .passed] ∧
        (r.output.flatMap BaselineRun.testees).map Testee.test = [1] := by
  have hfresh : ∀ test ∈ mixedProgram.findTests mixedConfig, test.result = none :=
    fun _ htest => (Program.mem_findTests htest).2
  have hids : ∀ (i : Nat) (test : Test), (mixedProgram.findTests mixedConfig)[i]? = some test →
      test.id = i := fun _ _ => Program.id_of_getElem?_findTests
  have hworkers : mixedConfig.workers ≠ 0 := nofun
  refine ⟨hfresh, hids, hworkers, ?_⟩
  have houtcome : mixedOutcome? = some ([some .failed, some .passed], [1]) := by decide +kernel
  unfold mixedOutcome? at houtcome
  obtain ⟨x, hx, houtcome⟩ := Option.bind_eq_some_iff.mp houtcome
  obtain ⟨r, hr, houtcome⟩ := Option.bind_eq_some_iff.mp houtcome
  obtain ⟨-, r', s, calls, answered, hrun, howes⟩ := runs_each_test_once mixedProgram x
    (Sandbox.ofKind .none) {} mixedConfig _ hfresh hids hworkers ()
  rw [hrun] at hr
  cases hr
  cases hbuilt : mixedExecutable with
  | error e =>
    rw [hbuilt] at hx
    cases hx
  | ok x' =>
    rw [hbuilt] at hx
    cases hx
    obtain ⟨hstatuses, htestees⟩ := Prod.ext_iff.mp (Option.some.inj houtcome)
    exact ⟨x, r, s, calls, answered, rfl, hrun, howes, hstatuses, htestees⟩

end Baseline

end MutationTester
