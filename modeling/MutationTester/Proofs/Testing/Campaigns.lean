import MutationTester.Testing.Campaign
import MutationTester.Proofs.Build.Linking
import MutationTester.Proofs.Testing.Assembly

/-!
# What a campaign that reports has done

A campaign that reports has handled each of the mutants it assembled, on the program as it was, and
lists their results in the order of the mutants (`Campaign.forall₂_handled_of_run`). What can come
of a mutant is said once, by `MutantRun.Handled`.
-/

set_option autoImplicit false

namespace MutationTester

/-- A result is about a point. -/
structure MutantResult.IsOf (point : Point) (r : MutantResult) : Prop where
  id_eq : r.id = point.id
  operator_eq : r.operator = point.operator.name
  function_eq : r.function = point.function
  index_eq : r.index = point.site.index

namespace MutantRun

section Handling

variable {σ : Type} (compiled : CompiledProgram) (sandbox : Sandbox σ) (limits : Limits)
  (config : Config) (tests : List Test) (p : Program)

/-- What can come of a mutant: no testee reaches it, it cannot be built, or the tests of its
testees have been run on what it was built to. -/
inductive Handled (mutant : Mutant) : MutantResult → Prop
  | uncovered (hnone : mutant.testees = []) :
      Handled mutant (.bare mutant.point .notCovered)
  | unbuilt {token : Applied} {mutated : Program} {diff : String} {e : BuildError}
      (hsome : mutant.testees ≠ [])
      (hmutate : mutant.point.operator.mutate p mutant.point.site = .ok (token, mutated))
      (hbuild : compiled.executableFor mutated mutant.point.site.module = .error e) :
      Handled mutant (MutantRun.unbuilt mutant.point diff e)
  | judged {token : Applied} {mutated : Program} {diff : String} {y : Executable} {tally : Tally}
      {s s' : σ} (hsome : mutant.testees ≠ [])
      (hmutate : mutant.point.operator.mutate p mutant.point.site = .ok (token, mutated))
      (hbuild : compiled.executableFor mutated mutant.point.site.module = .ok y)
      (hruns : runTestees y sandbox limits config tests mutant.testees .start s =
        (.ok tally, s')) :
      Handled mutant (MutantRun.judged mutant diff tally)

/-- A result is about the point of the mutant that was handled. -/
theorem Handled.isOf {mutant : Mutant} {result : MutantResult}
    (h : Handled compiled sandbox limits config tests p mutant result) :
    result.IsOf mutant.point := by
  cases h <;> exact ⟨rfl, rfl, rfl, rfl⟩

variable {compiled sandbox limits config tests p} {mutant : Mutant} {mutated : Program}

/-- A mutant that no testee reaches is not run. -/
theorem execute_of_uncovered (h : mutant.testees = []) (s : σ) :
    execute compiled sandbox limits config tests mutant p s =
      (.ok (.bare mutant.point .notCovered, p), s) := by
  unfold execute
  rw [h]
  rfl

/-- A mutant that testees reach is not run if it cannot be applied. -/
theorem execute_of_error {v : Violation} (hsome : mutant.testees ≠ [])
    (hmutate : mutant.point.operator.mutate p mutant.point.site = .error v) (s : σ) :
    execute compiled sandbox limits config tests mutant p s = (.error v, s) := by
  have hsome : ¬mutant.testees.isEmpty = true := mt List.isEmpty_iff.mp hsome
  unfold execute
  dsimp only
  rw [if_neg hsome, hmutate]

/-- A mutant that testees reach is run applied, and gives the program back. -/
theorem execute_of_mutate {token : Applied} (hsome : mutant.testees ≠ [])
    (hmutate : mutant.point.operator.mutate p mutant.point.site = .ok (token, mutated)) (s : σ) :
    execute compiled sandbox limits config tests mutant p s =
      let f := mutant.point.site.funcId
      let r := runApplied compiled sandbox limits config tests mutant mutated
        (Text.diff (listingOf p f) (listingOf mutated f)) s
      (r.1.map (·, p), r.2) := by
  have hsome : ¬mutant.testees.isEmpty = true := mt List.isEmpty_iff.mp hsome
  unfold execute
  dsimp only
  rw [if_neg hsome, hmutate]
  dsimp only
  generalize runApplied compiled sandbox limits config tests mutant mutated _ s = r
  obtain ⟨_ | result, s'⟩ := r
  · rfl
  · dsimp only
    rw [Operator.revert_of_mutate _ _ _ _ _ hmutate]
    rfl

/-- A mutant whose module has no place is not run. -/
theorem runApplied_of_not_place
    (hplace : compiled.hasPlaceFor mutated mutant.point.site.module = false) (diff : String)
    (s : σ) :
    runApplied compiled sandbox limits config tests mutant mutated diff s =
      (.error .moduleNotCompiled, s) := by
  unfold runApplied
  simp only [hplace]
  rfl

/-- A mutant that cannot be built is not run. -/
theorem runApplied_of_error {e : BuildError}
    (hplace : compiled.hasPlaceFor mutated mutant.point.site.module = true)
    (hbuild : compiled.executableFor mutated mutant.point.site.module = .error e)
    (diff : String) (s : σ) :
    runApplied compiled sandbox limits config tests mutant mutated diff s =
      (.ok (unbuilt mutant.point diff e), s) := by
  unfold runApplied
  simp only [hplace, hbuild]
  rfl

/-- A mutant that has been built has the tests of its testees run, and is judged by their runs. -/
theorem runApplied_of_build {y : Executable}
    (hplace : compiled.hasPlaceFor mutated mutant.point.site.module = true)
    (hbuild : compiled.executableFor mutated mutant.point.site.module = .ok y) (diff : String)
    (s : σ) :
    runApplied compiled sandbox limits config tests mutant mutated diff s =
      let r := runTestees y sandbox limits config tests mutant.testees .start s
      (r.1.map (judged mutant diff), r.2) := by
  unfold runApplied
  simp only [hplace, hbuild]
  generalize runTestees y sandbox limits config tests mutant.testees .start s = r
  obtain ⟨_ | _, _⟩ := r
  · rfl
  · rfl

/-- A mutant that has been handled is reverted, and what came of it is one of the possible
results. -/
theorem execute_eq_ok {result : MutantResult} {p' : Program} {s s' : σ}
    (h : execute compiled sandbox limits config tests mutant p s = (.ok (result, p'), s')) :
    p' = p ∧ Handled compiled sandbox limits config tests p mutant result := by
  by_cases htestees : mutant.testees = []
  · rw [execute_of_uncovered htestees] at h
    cases h
    exact ⟨rfl, .uncovered htestees⟩
  cases hmutate : mutant.point.operator.mutate p mutant.point.site with
  | error v =>
    rw [execute_of_error htestees hmutate] at h
    cases h
  | ok applied =>
    obtain ⟨token, mutated⟩ := applied
    rw [execute_of_mutate htestees hmutate] at h
    dsimp only at h
    cases hplace : compiled.hasPlaceFor mutated mutant.point.site.module with
    | false =>
      rw [runApplied_of_not_place hplace] at h
      cases h
    | true =>
      cases hbuild : compiled.executableFor mutated mutant.point.site.module with
      | error e =>
        rw [runApplied_of_error hplace hbuild] at h
        cases h
        exact ⟨rfl, .unbuilt htestees hmutate hbuild⟩
      | ok y =>
        rw [runApplied_of_build hplace hbuild] at h
        dsimp only at h
        generalize hruns : runTestees y sandbox limits config tests mutant.testees .start s = r
          at h
        obtain ⟨_ | tally, s₁⟩ := r
        · cases h
        · cases h
          exact ⟨rfl, .judged htestees hmutate hbuild hruns⟩

/-- A worker puts out the result of each mutant that it handles. -/
theorem step_eq (mutant : Mutant) (p : Program) (s : σ) :
    step compiled sandbox limits config tests mutant p s =
      let r := execute compiled sandbox limits config tests mutant p s
      (r.1.map fun (result, p) => ([result], p), r.2) :=
  rfl

/-- Handling a mutant gives the worker its program back. -/
theorem restores_step : (step compiled sandbox limits config tests).Restores p := by
  intro mutant s output p' s' h
  rw [step_eq] at h
  rcases hexecute : execute compiled sandbox limits config tests mutant p s with
    ⟨_ | ⟨result, p''⟩, s''⟩
  · rw [hexecute] at h
    cases h
  · rw [hexecute] at h
    cases h
    exact (execute_eq_ok hexecute).1

/-- In a mutant phase in which no worker dies each mutant has been handled on the program, and its
result is put out. -/
theorem forall₂_execute_of_run {mutants : List Mutant} {s s' : σ} {r : PhaseResult MutantResult}
    (hworkers : config.workers ≠ 0)
    (h : run p compiled sandbox limits config tests mutants s = (.ok r, s')) :
    List.Forall₂ (fun mutant result => ∃ s,
        (execute compiled sandbox limits config tests mutant p s).1 = .ok (result, p))
      mutants r.output := by
  unfold run at h
  obtain ⟨outputs, hflatten, houtputs⟩ := forall₂_of_runSlice restores_step
    ((runPhase_replicate_eq_ok_iff restores_step _ mutants
      (Config.workersFor_pos hworkers mutants) s r s').mp h)
  rw [← hflatten]
  clear hflatten h
  induction houtputs with
  | nil => exact .nil
  | @cons mutant output mutants outputs hstep _ ih =>
    obtain ⟨s, s', hstep⟩ := hstep
    rw [step_eq] at hstep
    rcases hexecute : execute compiled sandbox limits config tests mutant p s with
      ⟨_ | ⟨result, p'⟩, s''⟩
    · rw [hexecute] at hstep
      cases hstep
    · rw [hexecute] at hstep
      cases hstep
      exact .cons ⟨s, by rw [hexecute]⟩ ih

/-- In a mutant phase in which no worker dies something that is possible comes of each mutant. -/
theorem forall₂_handled_of_run {mutants : List Mutant} {s s' : σ}
    {r : PhaseResult MutantResult} (hworkers : config.workers ≠ 0)
    (h : run p compiled sandbox limits config tests mutants s = (.ok r, s')) :
    List.Forall₂ (Handled compiled sandbox limits config tests p) mutants r.output := by
  refine (forall₂_execute_of_run hworkers h).imp ?_
  rintro mutant result ⟨s, hexecute⟩
  exact (execute_eq_ok (Prod.ext hexecute rfl)).2

end Handling

end MutantRun

namespace Campaign

section Runs

variable {σ : Type} (p : Program) (x : Executable) (sandbox : Sandbox σ) (limits : Limits)
  (config : Config) (s : σ)

/-- What the baseline phase of a campaign puts out. -/
def baseline : List BaselineRun :=
  match (Baseline.run p x sandbox limits config.normalize (p.findTests config.normalize) s).1 with
  | .ok r => r.output
  | .error _ => []

/-- The testees that a campaign finds. -/
def testees : List Testee := (baseline p x sandbox limits config s).flatMap BaselineRun.testees

/-- The mutants that a campaign assembles. -/
def mutants : List Mutant :=
  Mutant.assemble p config.normalize (testees p x sandbox limits config s)

/-- The answers that a campaign gets to its baseline runs. -/
def answers : List RunResult :=
  (Baseline.answers x sandbox limits config.normalize (p.findTests config.normalize) s).1

/-- The baseline phase always has an outcome, which is that of the answers it gets. -/
theorem baselineRun_eq :
    Baseline.run p x sandbox limits config.normalize (p.findTests config.normalize) s =
      (.ok ⟨(p.findTests config.normalize).zipWith (BaselineRun.ofAnswer p config.normalize)
          (answers p x sandbox limits config s), (p.findTests config.normalize).length⟩,
        (Baseline.answers x sandbox limits config.normalize (p.findTests config.normalize) s).2) :=
  Baseline.run_eq p x sandbox limits config.normalize
    (fun _ htest => (Program.mem_findTests htest).2) config.workers_normalize_ne_zero s

/-- What the baseline phase of a campaign puts out is what it makes of the answers. -/
theorem baseline_eq :
    baseline p x sandbox limits config s =
      (p.findTests config.normalize).zipWith (BaselineRun.ofAnswer p config.normalize)
        (answers p x sandbox limits config s) := by
  unfold baseline
  rw [baselineRun_eq]

/-- In the baseline phase of a campaign a test passes and discovers a point. -/
def Reaches (test : Test) (key : PointKey) : Prop :=
  ∃ answer, (test, answer) ∈ (p.findTests config.normalize).zip
      (answers p x sandbox limits config s) ∧
    answer.status = .passed ∧
      test.Discovers p config.normalize (answer.coverage.getD .empty) key

/-- Every testee is a point that its test reaches. -/
theorem reaches_of_mem_testees {testee : Testee}
    (h : testee ∈ testees p x sandbox limits config s) :
    testee.point = testee.point.key.point p ∧
      ∃ test, test.id = testee.test ∧
        Reaches p x sandbox limits config s test testee.point.key := by
  unfold testees at h
  rw [baseline_eq, ← List.map_uncurry_zip_eq_zipWith] at h
  obtain ⟨run, hrun, htestee⟩ := List.mem_flatMap.mp h
  obtain ⟨⟨test, answer⟩, hmem, rfl⟩ := List.mem_map.mp hrun
  obtain ⟨hpassed, key, distance, hdiscovers, -, rfl⟩ :=
    (BaselineRun.mem_testees_ofAnswer_iff ..).mp htestee
  exact ⟨rfl, test, rfl, answer, hmem, hpassed, hdiscovers⟩

/-- The test of a testee passed in the baseline phase, and is found by its number. -/
theorem exists_passed_of_mem_testees {testee : Testee}
    (h : testee ∈ testees p x sandbox limits config s) :
    ∃ test answer, (test, answer) ∈ (p.findTests config.normalize).zip
        (answers p x sandbox limits config s) ∧
      test.id = testee.test ∧ answer.status = .passed ∧
      ((baseline p x sandbox limits config s).map BaselineRun.test)[testee.test]? =
        some { test with result := some { answer with coverage := none } } := by
  obtain ⟨-, test, hid, answer, hanswer, hpassed, -⟩ :=
    reaches_of_mem_testees p x sandbox limits config s h
  obtain ⟨i, hi⟩ := List.mem_iff_getElem?.mp hanswer
  obtain ⟨hgetTest, hgetAnswer⟩ := List.getElem?_zip_eq_some.mp hi
  have hplace : testee.test = i := hid.symm.trans (Program.id_of_getElem?_findTests hgetTest)
  refine ⟨test, answer, hanswer, hid, hpassed, ?_⟩
  rw [baseline_eq, hplace, List.getElem?_map, List.getElem?_zipWith, hgetTest, hgetAnswer]
  rfl

/-- For every point that a test reaches there is a testee of that test. -/
theorem exists_testee_of_reaches {test : Test} {key : PointKey}
    (h : Reaches p x sandbox limits config s test key) :
    ∃ testee ∈ testees p x sandbox limits config s,
      testee.test = test.id ∧ testee.point.key = key := by
  obtain ⟨answer, hmem, hpassed, hdiscovers⟩ := h
  obtain ⟨distance, hdistance, -⟩ := hdiscovers.near
  refine ⟨⟨test.id, key.point p, distance⟩, ?_, rfl, rfl⟩
  unfold testees
  rw [baseline_eq, ← List.map_uncurry_zip_eq_zipWith]
  exact List.mem_flatMap.mpr ⟨_, List.mem_map.mpr ⟨(test, answer), hmem, rfl⟩,
    (BaselineRun.mem_testees_ofAnswer_iff ..).mpr
      ⟨hpassed, key, distance, hdiscovers, hdistance, rfl⟩⟩

/-- The mutants of a campaign are the points of strictly increasing keys: those that a test reaches,
and those that the static scan finds. -/
theorem mutants_eq :
    ∃ keys : List PointKey, keys.Pairwise (fun a b => compare a b = .lt) ∧
      mutants p x sandbox limits config s =
        keys.map (fun key =>
          ⟨key.point p, Mutant.testeesOf key (testees p x sandbox limits config s)⟩) ∧
      ∀ key, key ∈ keys ↔
        (∃ test, Reaches p x sandbox limits config s test key) ∨
          key.Scanned p config.normalize := by
  obtain ⟨keys, hordered, hmutants, hkeys⟩ := Mutant.assemble_eq p config.normalize
    fun _ h => (reaches_of_mem_testees p x sandbox limits config s h).1
  refine ⟨keys, hordered, hmutants, fun key => (hkeys key).trans (or_congr_left ?_)⟩
  constructor
  · rintro ⟨testee, htestee, rfl⟩
    obtain ⟨-, test, -, hreaches⟩ := reaches_of_mem_testees p x sandbox limits config s htestee
    exact ⟨test, hreaches⟩
  · rintro ⟨test, hreaches⟩
    obtain ⟨testee, htestee, -, hkey⟩ :=
      exists_testee_of_reaches p x sandbox limits config s hreaches
    exact ⟨testee, htestee, hkey⟩

variable {p x sandbox limits config s}

/-- A program that compiles is built by linking what it compiles to. -/
theorem executable_of_compile {compiled : CompiledProgram} (h : p.compile = .ok compiled) :
    p.compile >>= CompiledProgram.executable = compiled.executable := by
  rw [h]
  rfl

/-- A program without an obstacle builds and has tests. -/
theorem exists_of_obstacle?_eq_none (h : obstacle? p config = none) :
    ∃ compiled x, p.compile = .ok compiled ∧ compiled.executable = .ok x ∧
      p.findTests config ≠ [] := by
  unfold obstacle? at h
  cases hcompile : p.compile with
  | error e =>
    rw [hcompile] at h
    cases h
  | ok compiled =>
    rw [executable_of_compile hcompile] at h
    cases hlink : compiled.executable with
    | error e =>
      rw [hlink] at h
      cases h
    | ok x =>
      rw [hlink] at h
      refine ⟨compiled, x, rfl, hlink, ?_⟩
      rintro htests
      rw [htests] at h
      cases h

/-- An obstacle is what a campaign fails with. -/
theorem run_of_obstacle {e : Failure} (h : obstacle? p config = some e) :
    run p sandbox limits config s = (.error e, s) := by
  unfold obstacle? at h
  unfold run
  dsimp only
  cases hcompile : p.compile with
  | error e =>
    rw [hcompile] at h
    cases h
    rfl
  | ok compiled =>
    rw [executable_of_compile hcompile] at h
    dsimp only
    cases hlink : compiled.executable with
    | error e =>
      rw [hlink] at h
      cases h
      rfl
    | ok x =>
      rw [hlink] at h
      dsimp only at h ⊢
      unfold runBuilt
      split at h
      next htests =>
        cases h
        exact if_pos htests
      next => cases h

/-- A campaign on a program that builds and has tests runs the mutants that it assembles. -/
theorem run_of_tests {compiled : CompiledProgram} (hcompile : p.compile = .ok compiled)
    (hlink : compiled.executable = .ok x) (htests : p.findTests config.normalize ≠ []) :
    run p sandbox limits config s =
      let r := MutantRun.run p compiled sandbox limits config.normalize
        ((baseline p x sandbox limits config s).map BaselineRun.test)
        (mutants p x sandbox limits config s)
        (Baseline.answers x sandbox limits config.normalize (p.findTests config.normalize) s).2
      (r.1.map fun results =>
        .aggregate results.output ((baseline p x sandbox limits config s).map BaselineRun.test) 0,
        r.2) := by
  unfold run
  dsimp only
  rw [hcompile]
  dsimp only
  rw [hlink]
  dsimp only
  unfold runBuilt
  dsimp only
  rw [if_neg (mt List.isEmpty_iff.mp htests), baselineRun_eq, ← baseline_eq]
  dsimp only
  unfold runMutants
  dsimp only
  unfold mutants testees
  generalize MutantRun.run p compiled sandbox limits config.normalize _ _ _ = r
  obtain ⟨_ | results, s'⟩ := r
  · rfl
  · rfl

/-- A campaign that reports has built the program and handled each mutant that it assembled. -/
theorem forall₂_handled_of_run {report : Report} {s' : σ} (hx : p.Builds x)
    (h : run p sandbox limits config s = (.ok report, s')) :
    ∃ compiled, p.compile = .ok compiled ∧ compiled.executable = .ok x ∧
      List.Forall₂
        (MutantRun.Handled compiled sandbox limits config.normalize
          ((baseline p x sandbox limits config s).map BaselineRun.test) p)
        (mutants p x sandbox limits config s) report.mutants := by
  cases hobstacle : obstacle? p config with
  | some e =>
    rw [run_of_obstacle hobstacle] at h
    cases h
  | none =>
    obtain ⟨compiled, x', hcompile, hlink, htests⟩ := exists_of_obstacle?_eq_none hobstacle
    unfold Program.Builds at hx
    rw [hcompile] at hx
    obtain rfl : x' = x := Except.ok.inj (hlink.symm.trans hx)
    refine ⟨compiled, hcompile, hlink, ?_⟩
    rw [run_of_tests hcompile hlink htests] at h
    dsimp only at h
    generalize hresults : MutantRun.run p compiled sandbox limits config.normalize _ _ _ = r at h
    obtain ⟨_ | results, s₁⟩ := r
    · cases h
    · cases h
      exact MutantRun.forall₂_handled_of_run config.workers_normalize_ne_zero hresults

end Runs

end Campaign

end MutationTester
