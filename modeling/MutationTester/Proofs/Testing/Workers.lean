import MutationTester.Proofs.Testing.Answers
import MutationTester.Proofs.Testing.Campaigns

/-!
# Reports do not depend on the workers

The baseline phase keeps of the answers of the sandbox what does not depend on the time, so the
mutants that are assembled, and the tests that are run on them, are those of the answers
(`Campaign.map_baseline_of_answers`). Each mutant is handled on the program as it was, so its result
follows from the answers as well. The number of workers decides only who handles which item, and so
the reports for any two numbers say the same, the times left out, if there is room for the workers
and none of them dies (`Campaign.report_independent_of_workers`).
-/

set_option autoImplicit false

namespace MutationTester

/-- The configuration with another number of workers. -/
def Config.withWorkers (config : Config) (workers : Nat) : Config :=
  { config with workers := workers }

/-! ## Reports without their times -/

/-- What a report says of a mutant, without the time that its runs took. -/
def MutantResult.timeless (r : MutantResult) : MutantResult := { r with durationMs := 0 }

/-- What a report says of a test, without the time that its run took. -/
def TestReport.timeless (r : TestReport) : TestReport := { r with durationMs := 0 }

/-- A report without any times. -/
def Report.timeless (r : Report) : Report :=
  { r with
    durationMs := 0
    mutants := r.mutants.map MutantResult.timeless
    tests := r.tests.map TestReport.timeless }

/-- What a report says of a test but for the time follows from the test but for the time. -/
theorem Test.timeless_report (t : Test) : t.report.timeless = t.timeless.report := by
  have hzero : Duration.toMilliseconds 0 = 0 := by decide
  unfold report timeless TestReport.timeless
  cases t.result with
  | none => rfl
  | some r => simp [RunResult.timeless, hzero]

/-- Reports on the same results and on tests alike say the same but for the time. -/
theorem Report.timeless_aggregate (results : List MutantResult) {tests tests' : List Test}
    (h : tests.map Test.timeless = tests'.map Test.timeless) (elapsed elapsed' : Duration) :
    (aggregate results tests elapsed).timeless = (aggregate results tests' elapsed').timeless := by
  have htests : ∀ tests : List Test, (tests.map Test.report).map TestReport.timeless =
      (tests.map Test.timeless).map Test.report := by
    intro tests
    rw [List.map_map, List.map_map]
    exact List.map_congr_left fun test _ => test.timeless_report
  unfold timeless aggregate
  dsimp only
  rw [htests, htests, h]

/-! ## The phases -/

/-- Lists that are related to one list item by item are the same, if related items are. -/
theorem eq_of_forall₂ {α β : Type} {R S : α → β → Prop} (h : ∀ {a b c}, R a b → S a c → b = c)
    {as : List α} {bs cs : List β} (hbs : List.Forall₂ R as bs) (hcs : List.Forall₂ S as cs) :
    bs = cs := by
  induction hbs generalizing cs with
  | nil =>
    cases hcs
    rfl
  | cons hb _ ih =>
    cases hcs with
    | cons hc hcs => rw [h hb hc, ih hcs]

/-- The answers to the baseline runs are those to the tests, but for the time. -/
theorem Baseline.timeless_answers {σ : Type} {sandbox : Sandbox σ} {answer : Work → RunResult}
    (h : sandbox.Answers answer) (x : Executable) (limits : Limits) (config : Config)
    (tests : List Test) (s : σ) :
    (answers x sandbox limits config tests s).1.map RunResult.timeless =
      tests.map fun test => answer (.ofTest x limits true test.entry) := by
  induction tests generalizing s with
  | nil => rfl
  | cons test tests ih =>
    rw [answers, List.map_cons, List.map_cons, ih, h]

namespace MutantRun

section Phase

variable {σ σ' : Type} {p : Program} {compiled : CompiledProgram} {sandbox : Sandbox σ}
  {sandbox' : Sandbox σ'} {limits : Limits} {config config' : Config} {tests tests' : List Test}
  {mutants : List Mutant} {s t : σ} {s' t' : σ'} {r r' : PhaseResult MutantResult}

/-- The mutant phase only fails because a worker dies. -/
theorem exists_worker_of_run {e : Failure}
    (h : (run p compiled sandbox limits config tests mutants s).1 = .error e) :
    ∃ worker, e = .workerDied phaseName worker := by
  unfold run runPhase joinRuns at h
  dsimp only at h
  split at h
  next worker _ =>
    cases h
    exact ⟨worker, rfl⟩
  next => cases h

/-- Mutant phases with the same answers put out the same, if no worker dies, for tests that passed
alike. -/
theorem output_eq_of_run
    (h : run p compiled sandbox limits config tests mutants s = (.ok r, t))
    (h' : run p compiled sandbox' limits config' tests' mutants s' = (.ok r', t'))
    {answer : Work → RunResult} (hanswers : sandbox.Answers answer)
    (hanswers' : sandbox'.Answers answer)
    (hstop : config.stopOnFirstKill = config'.stopOnFirstKill)
    (htests : tests.map Test.timeless = tests'.map Test.timeless)
    (hworkers : config.workers ≠ 0) (hworkers' : config'.workers ≠ 0) :
    r.output = r'.output := by
  refine eq_of_forall₂ ?_ (forall₂_execute_of_run hworkers h) (forall₂_execute_of_run hworkers' h')
  rintro mutant result result' ⟨s, hexecute⟩ ⟨s', hexecute'⟩
  rcases agree_execute hanswers hanswers' hstop htests s s' with hsame | ⟨-, hstopped⟩
  · rw [hexecute, hexecute'] at hsame
    cases hsame
    rfl
  · -- neither worker was stopped, as both have put out a result
    rw [hexecute, hexecute'] at hstopped
    rcases hstopped with hstopped | hstopped <;> cases hstopped

end Phase

end MutantRun

namespace Campaign

/-! ## Two campaigns -/

section Answers

variable {σ : Type} {p : Program} {x : Executable} {sandbox : Sandbox σ} {limits : Limits}
  {config : Config} {answer : Work → RunResult}

/-- What does not depend on the times of the baseline phase follows from the answers. -/
theorem map_baseline_of_answers (h : sandbox.Answers answer) {β : Type} (f : BaselineRun → β)
    (g : Test → RunResult → β)
    (hf : ∀ test result, f (.ofAnswer p config.normalize test result) = g test result.timeless)
    (s : σ) :
    (baseline p x sandbox limits config s).map f =
      (p.findTests config.normalize).map fun test =>
        g test (answer (.ofTest x limits true test.entry)) := by
  have hanswers := Baseline.timeless_answers h x limits config.normalize
    (p.findTests config.normalize) s
  rw [baseline_eq, List.map_zipWith]
  simp only [hf]
  unfold answers
  rw [← List.zipWith_map_right, hanswers, List.zipWith_map_right, List.zipWith_self]

/-- The tests of a campaign, but for the time, follow from the answers. -/
theorem timeless_tests_of_answers (h : sandbox.Answers answer) (s : σ) :
    ((baseline p x sandbox limits config s).map BaselineRun.test).map Test.timeless =
      (p.findTests config.normalize).map fun test =>
        { test with
          result := some { answer (.ofTest x limits true test.entry) with
            coverage := none
            duration := 0 } } := by
  rw [List.map_map]
  exact map_baseline_of_answers h (Test.timeless ∘ BaselineRun.test)
    (fun test result =>
      { test with result := some { result with coverage := none, duration := 0 } })
    (fun _ _ => rfl) s

/-- The testees that a campaign finds follow from the answers. -/
theorem testees_of_answers (h : sandbox.Answers answer) (s : σ) :
    testees p x sandbox limits config s =
      (p.findTests config.normalize).flatMap fun test =>
        (BaselineRun.ofAnswer p config.normalize test
          (answer (.ofTest x limits true test.entry))).testees := by
  unfold testees
  rw [List.flatMap_def, List.flatMap_def, map_baseline_of_answers h BaselineRun.testees
    (fun test result => (BaselineRun.ofAnswer p config.normalize test result).testees)
    (fun _ _ => rfl)]

/-- The mutants of a campaign follow from the answers. -/
theorem mutants_of_answers (h : sandbox.Answers answer) (s : σ) :
    mutants p x sandbox limits config s =
      Mutant.assemble p config.normalize ((p.findTests config.normalize).flatMap fun test =>
        (BaselineRun.ofAnswer p config.normalize test
          (answer (.ofTest x limits true test.entry))).testees) := by
  unfold mutants
  rw [testees_of_answers h]

end Answers

section Workers

variable {σ σ' : Type} {p : Program} {compiled : CompiledProgram} {x : Executable}
  {sandbox : Sandbox σ} {sandbox' : Sandbox σ'} {limits : Limits} {config : Config}
  {answer : Work → RunResult} {s : σ} {s' : σ'}

/-- A campaign in which no worker dies reports what its mutant phase puts out. -/
theorem exists_phase_of_alive (hcompile : p.compile = .ok compiled)
    (hlink : compiled.executable = .ok x) (htests : p.findTests config.normalize ≠ [])
    (halive : ∀ phase worker, (run p sandbox limits config s).1 ≠
      .error (.workerDied phase worker)) :
    ∃ t r t', MutantRun.run p compiled sandbox limits config.normalize
        ((baseline p x sandbox limits config s).map BaselineRun.test)
        (mutants p x sandbox limits config s) t = (.ok r, t') ∧
      (run p sandbox limits config s).1 = .ok (.aggregate r.output
        ((baseline p x sandbox limits config s).map BaselineRun.test) 0) := by
  rw [run_of_tests hcompile hlink htests] at halive ⊢
  dsimp only at halive ⊢
  generalize hphase : MutantRun.run p compiled sandbox limits config.normalize _ _ _ = phase
    at halive ⊢
  obtain ⟨e | r, t'⟩ := phase
  · obtain ⟨worker, rfl⟩ := MutantRun.exists_worker_of_run (congrArg Prod.fst hphase)
    exact absurd rfl (halive _ worker)
  · exact ⟨_, r, t', hphase, rfl⟩

/-- Campaigns with any two numbers of workers, none of which dies, fail alike or report alike. -/
theorem run_eq_of_answers (hanswers : sandbox.Answers answer) (hanswers' : sandbox'.Answers answer)
    (workers workers' : Nat)
    (halive : ∀ phase worker, (run p sandbox limits (config.withWorkers workers) s).1 ≠
      .error (.workerDied phase worker))
    (halive' : ∀ phase worker, (run p sandbox' limits (config.withWorkers workers') s').1 ≠
      .error (.workerDied phase worker)) :
    (run p sandbox limits (config.withWorkers workers) s).1.map Report.timeless =
      (run p sandbox' limits (config.withWorkers workers') s').1.map Report.timeless := by
  cases hobstacle : obstacle? p config with
  | some e =>
    have hobstacle : ∀ workers, obstacle? p (config.withWorkers workers) = some e :=
      fun _ => hobstacle
    rw [run_of_obstacle (hobstacle workers), run_of_obstacle (hobstacle workers')]
  | none =>
    obtain ⟨compiled, x, hcompile, hlink, htests⟩ := exists_of_obstacle?_eq_none hobstacle
    have htests : ∀ workers, p.findTests (config.withWorkers workers).normalize ≠ [] :=
      fun _ => htests
    obtain ⟨t, r, u, hphase, hreport⟩ :=
      exists_phase_of_alive hcompile hlink (htests workers) halive
    obtain ⟨t', r', u', hphase', hreport'⟩ :=
      exists_phase_of_alive hcompile hlink (htests workers') halive'
    -- the answers determine which mutants there are, and which tests pass
    have hmutants : mutants p x sandbox limits (config.withWorkers workers) s =
        mutants p x sandbox' limits (config.withWorkers workers') s' := by
      rw [mutants_of_answers hanswers, mutants_of_answers hanswers']
      rfl
    have htimeless :
        ((baseline p x sandbox limits (config.withWorkers workers) s).map
            BaselineRun.test).map Test.timeless =
          ((baseline p x sandbox' limits (config.withWorkers workers') s').map
            BaselineRun.test).map Test.timeless := by
      rw [timeless_tests_of_answers hanswers, timeless_tests_of_answers hanswers']
      rfl
    rw [hmutants] at hphase
    have houtput := MutantRun.output_eq_of_run hphase hphase' hanswers hanswers' rfl htimeless
      (Config.workers_normalize_ne_zero _) (Config.workers_normalize_ne_zero _)
    rw [hreport, hreport', houtput]
    exact congrArg Except.ok (Report.timeless_aggregate r'.output htimeless 0 0)

/-- If there is room for the workers, or none are needed, memory makes no difference to a
campaign. -/
theorem runInMemory_eq
    (hroom : obstacle? p config = none → Capacity.request config.workers placeSize = .granted) :
    runInMemory p sandbox limits config s =
      (.ok (run p sandbox limits config s).1, (run p sandbox limits config s).2) := by
  unfold runInMemory
  cases hobstacle : obstacle? p config with
  | none =>
    rw [hroom hobstacle]
  | some e =>
    rw [run_of_obstacle hobstacle]
    dsimp only
    split
    · rfl
    · rfl

end Workers

/-- A report does not depend on the number of workers. Let two sandboxes give the same answers to
the same work, whatever the time, and let memory have room for either number of workers, unless the
program does not build or has no tests. If no worker dies, then the campaigns come to an end, and
either they fail with the same error, or their reports are the same in everything but times. -/
theorem report_independent_of_workers {σ σ' : Type} (p : Program) (sandbox : Sandbox σ)
    (sandbox' : Sandbox σ') (answer : Work → RunResult) (limits : Limits) (config : Config)
    (workers workers' : Nat) (s : σ) (s' : σ') (hanswers : sandbox.Answers answer)
    (hanswers' : sandbox'.Answers answer)
    (hroom : obstacle? p config = none → Capacity.request workers placeSize = .granted)
    (hroom' : obstacle? p config = none → Capacity.request workers' placeSize = .granted)
    (halive : ∀ phase worker,
      (runInMemory p sandbox limits (config.withWorkers workers) s).1 ≠
        .ok (.error (.workerDied phase worker)))
    (halive' : ∀ phase worker,
      (runInMemory p sandbox' limits (config.withWorkers workers') s').1 ≠
        .ok (.error (.workerDied phase worker))) :
    ∃ outcome outcome',
      (runInMemory p sandbox limits (config.withWorkers workers) s).1 = .ok outcome ∧
        (runInMemory p sandbox' limits (config.withWorkers workers') s').1 = .ok outcome' ∧
        outcome.map Report.timeless = outcome'.map Report.timeless := by
  have hmemory : runInMemory p sandbox limits (config.withWorkers workers) s = _ :=
    runInMemory_eq hroom
  have hmemory' : runInMemory p sandbox' limits (config.withWorkers workers') s' = _ :=
    runInMemory_eq hroom'
  rw [hmemory] at halive ⊢
  rw [hmemory'] at halive' ⊢
  refine ⟨_, _, rfl, rfl, run_eq_of_answers hanswers hanswers' workers workers' ?_ ?_⟩
  · exact fun phase worker h => halive phase worker (congrArg Except.ok h)
  · exact fun phase worker h => halive' phase worker (congrArg Except.ok h)

/-- A program with two functions, and a test of each. -/
def twoTestProgram : Program where
  modules :=
    [⟨"lib", [⟨"double", 1, [.binary .add 0 0 0, .ret (some 0)]⟩,
        ⟨"same", 2, [.compare .eq 0 0 1, .ret (some 0)]⟩]⟩,
      ⟨"tests", [⟨"test_double", 0, [.const 0 3, .call (some 1) "double" [0], .assert 1,
          .ret none]⟩,
        ⟨"test_same", 0, [.const 0 3, .call (some 1) "same" [0, 0], .assert 1,
          .ret none]⟩]⟩]

/-- What a campaign on the program comes to with a number of workers. -/
def twoTestOutcome (workers : Nat) : Except Violation (Except Failure Report) :=
  (runInMemory twoTestProgram (Sandbox.ofKind .none) {} (({} : Config).withWorkers workers) ()).1

/-- The verdicts that the campaign reports with a number of workers, if it reports. -/
def twoTestVerdicts? (workers : Nat) : Option (List MutantStatus) :=
  ((twoTestOutcome workers).toOption.bind Except.toOption).map
    (·.mutants.map MutantResult.status)

/-- A campaign whose verdicts are known has reported them. -/
theorem exists_report_of_twoTestVerdicts? {workers : Nat} {verdicts : List MutantStatus}
    (h : twoTestVerdicts? workers = some verdicts) :
    ∃ report, twoTestOutcome workers = .ok (.ok report) ∧
      report.mutants.map MutantResult.status = verdicts := by
  unfold twoTestVerdicts? at h
  obtain ⟨report, hreport, hverdicts⟩ := Option.map_eq_some_iff.mp h
  cases houtcome : twoTestOutcome workers with
  | error v =>
    rw [houtcome] at hreport
    cases hreport
  | ok outcome =>
    rw [houtcome] at hreport
    cases outcome with
    | error e => cases hreport
    | ok report' =>
      cases hreport
      exact ⟨report, rfl, hverdicts⟩

/-- The program is tested alike by one worker, and by more than there are tests and mutants. -/
theorem tests_alike_with_three_workers :
    Capacity.request 1 placeSize = .granted ∧ Capacity.request 3 placeSize = .granted ∧
      ∃ report report', twoTestOutcome 1 = .ok (.ok report) ∧
        twoTestOutcome 3 = .ok (.ok report') ∧
        report.mutants.map MutantResult.status = [.killed, .killed] ∧
        report.timeless = report'.timeless := by
  have hroom : Capacity.request 1 placeSize = .granted := by decide
  have hroom' : Capacity.request 3 placeSize = .granted := by decide
  obtain ⟨report, hreport, hverdicts⟩ := exists_report_of_twoTestVerdicts?
    (show twoTestVerdicts? 1 = some [.killed, .killed] by decide +kernel)
  obtain ⟨report', hreport', -⟩ := exists_report_of_twoTestVerdicts?
    (show twoTestVerdicts? 3 = some [.killed, .killed] by decide +kernel)
  obtain ⟨outcome, outcome', houtcome, houtcome', hsame⟩ :=
    report_independent_of_workers twoTestProgram (Sandbox.ofKind .none) (Sandbox.ofKind .none) _ {}
      {} 1 3 () () Sandbox.answers_ofKind_none Sandbox.answers_ofKind_none (fun _ => hroom)
      (fun _ => hroom') (fun _ _ h => nomatch hreport.symm.trans h)
      (fun _ _ h => nomatch hreport'.symm.trans h)
  obtain rfl := Except.ok.inj (hreport.symm.trans houtcome)
  obtain rfl := Except.ok.inj (hreport'.symm.trans houtcome')
  exact ⟨hroom, hroom', report, report', hreport, hreport', hverdicts, Except.ok.inj hsame⟩

/-- With the greatest number of workers that a word can hold there is no outcome at all, neither an
error nor a report, while one worker reports. No worker dies, for there is none yet. -/
theorem too_many_workers_end_campaign :
    (Sandbox.ofKind .none).Answers (fun work => (work.runInProcess Work.unwatched).timeless) ∧
      (∃ report, twoTestOutcome 1 = .ok (.ok report)) ∧
      twoTestOutcome (UInt64.size - 1) = .error (.tooManyWorkers .refused) ∧
      ¬∀ workers workers',
        (∀ phase worker, twoTestOutcome workers ≠ .ok (.error (.workerDied phase worker))) →
        (∀ phase worker, twoTestOutcome workers' ≠ .ok (.error (.workerDied phase worker))) →
        (twoTestOutcome workers).map (·.map Report.timeless) =
          (twoTestOutcome workers').map (·.map Report.timeless) := by
  have hmany : twoTestOutcome (UInt64.size - 1) = .error (.tooManyWorkers .refused) := rfl
  obtain ⟨report, hreport, -⟩ := exists_report_of_twoTestVerdicts?
    (show twoTestVerdicts? 1 = some [.killed, .killed] by decide +kernel)
  refine ⟨Sandbox.answers_ofKind_none, ⟨report, hreport⟩, hmany, ?_⟩
  intro hsame
  have h := hsame 1 (UInt64.size - 1) (fun _ _ h => nomatch hreport.symm.trans h)
    (fun _ _ h => nomatch hmany.symm.trans h)
  rw [hreport, hmany] at h
  cases h

end Campaign

end MutationTester
