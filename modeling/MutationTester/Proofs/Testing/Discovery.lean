import MutationTester.Testing.Baseline
import MutationTester.Proofs.Program.Editing
import MutationTester.Proofs.Testing.Phases

/-!
# What the baseline phase finds out

The baseline phase asks the sandbox about every test once, in program order, and keeps each answer
with its test. Its outcome is a function of these answers and of nothing else, however many workers
there are (`Baseline.run_eq`). The testees of a test that passed are the points that its coverage
discovers (`Test.Discovers`).
-/

set_option autoImplicit false

namespace MutationTester

/-! ## The tests of a program -/

/-- The tests are numbered by their places. -/
theorem Program.id_of_getElem?_findTests {p : Program} {config : Config} {i : Nat} {test : Test}
    (h : (p.findTests config)[i]? = some test) : test.id = i := by
  unfold findTests at h
  rw [List.getElem?_map, List.getElem?_zipIdx, Nat.zero_add] at h
  obtain ⟨⟨entry, id⟩, hentry, rfl⟩ := Option.map_eq_some_iff.mp h
  obtain ⟨_, -, hid⟩ := Option.map_eq_some_iff.mp hentry
  cases hid
  rfl

/-- A test is a selected test function of the program, and has no result yet. -/
theorem Program.mem_findTests {p : Program} {config : Config} {test : Test}
    (h : test ∈ p.findTests config) :
    (∃ f, p.function? test.entry = some f ∧ f.isTest config = true ∧ test.name = f.name) ∧
      test.result = none := by
  unfold findTests at h
  obtain ⟨⟨⟨entry, f⟩, id⟩, hentry, rfl⟩ := List.mem_map.mp h
  obtain ⟨hmem, hselected⟩ :=
    List.mem_filter.mp (List.mem_of_getElem? (List.mem_zipIdx_iff_getElem?.mp hentry))
  have hfunction := (p.mem_functions_iff entry f).mp hmem
  exact ⟨⟨f, hfunction, (Bool.and_eq_true_iff.mp hselected).1, rfl⟩, rfl⟩

/-! ## The points that a test discovers -/

/-- The point of a key. -/
def PointKey.point (p : Program) (key : PointKey) : Point :=
  Point.create p key.operator key.site

/-- All operators that a filter includes are enabled, and no others. -/
theorem Filter.mem_enabledOperators_iff (filter : Filter) (op : Operator) :
    op ∈ filter.enabledOperators ↔ filter.includesOperator op = true := by
  unfold enabledOperators
  rw [List.mem_filter]
  have hall : op ∈ Operator.all := by cases op <;> decide
  exact and_iff_right hall

/-- The points at a site are those of the enabled operators that can be applied there. -/
theorem Point.mem_ofSite_iff (p : Program) (filter : Filter) (site : Site) (point : Point) :
    point ∈ ofSite p filter.enabledOperators site ↔
      ∃ op, filter.includesOperator op = true ∧ op.applies p site = true ∧
        point = PointKey.point p ⟨site, op⟩ := by
  unfold ofSite
  simp only [List.mem_map, List.mem_filter, Filter.mem_enabledOperators_iff, and_assoc]
  constructor
  · rintro ⟨op, henabled, happlies, rfl⟩
    exact ⟨op, henabled, happlies, rfl⟩
  · rintro ⟨op, henabled, happlies, rfl⟩
    exact ⟨op, henabled, happlies, rfl⟩

/-- A test whose run left a record discovers a point: an included operator can be applied at the
executed site, whose function is included and was entered near enough, and is not the test itself
unless test bodies are mutated. -/
structure Test.Discovers (p : Program) (config : Config) (test : Test) (c : Coverage)
    (key : PointKey) : Prop where
  executed : c.isExecuted key.site = true
  notOwn : key.site.funcId = test.entry → config.mutateTestBodies = true
  near : ∃ distance, c.distance? key.site.funcId = some distance ∧ distance ≤ config.maxDistance
  included : ∃ f, p.function? key.site.funcId = some f ∧
    config.filter.includesFunction f.name = true
  enabled : config.filter.includesOperator key.operator = true
  applies : key.operator.applies p key.site = true

namespace Tracking

/-- The depth of a function counts if the function is included, near enough and not the test
itself, unless test bodies are mutated. -/
theorem distanceWithin?_eq_some_iff (t : Tracking) (p : Program) (test : Test) (filter : Filter)
    (maxDistance : Nat) (c : Coverage) (id : FuncId) (distance : Nat) :
    t.distanceWithin? p test filter maxDistance c id = some distance ↔
      (id = test.entry → t.mutateTestBodies = true) ∧ c.distance? id = some distance ∧
        distance ≤ maxDistance ∧
        ∃ f, p.function? id = some f ∧ filter.includesFunction f.name = true := by
  unfold distanceWithin?
  split
  next hown =>
    obtain ⟨hentry, hbodies⟩ := hown
    constructor
    · exact nofun
    · rintro ⟨htolerated, -⟩
      exact absurd (htolerated hentry) hbodies
  next hown =>
    have htolerated : id = test.entry → t.mutateTestBodies = true := by
      intro hentry
      by_contra hbodies
      exact hown ⟨hentry, hbodies⟩
    simp only [Option.bind_eq_bind, Option.bind_eq_some_iff, Option.ite_none_right_eq_some,
      Option.some.injEq]
    constructor
    · rintro ⟨d, hd, f, hf, ⟨hnear, hincluded⟩, rfl⟩
      exact ⟨htolerated, hd, hnear, f, hf, hincluded⟩
    · rintro ⟨-, hd, hnear, f, hf, hincluded⟩
      exact ⟨distance, hd, f, hf, ⟨hnear, hincluded⟩, rfl⟩

/-- The tracking record of a worker when a test has run that left a record. -/
def after (config : Config) (test : Test) (c : Coverage) : Tracking :=
  ((start config.mutateTestBodies).setup test).record test c

/-- The record that a test left is kept under its number. -/
theorem getElem?_records_after (config : Config) (test : Test) (c : Coverage) :
    (after config test c).records[test.id]? = some c := by
  unfold after record setup
  rw [Std.ExtTreeMap.getElem?_modify_self, Std.ExtTreeMap.getElem?_insert_self]
  rfl

/-- The testees of a test that has run are the points that it discovers, with the depths at which
their functions were entered. -/
theorem mem_testees_after_iff (p : Program) (config : Config) (test : Test) (c : Coverage)
    (testee : Testee) :
    testee ∈ ((after config test c).testees p test config.filter config.maxDistance).testees ↔
      ∃ key distance, test.Discovers p config c key ∧
        c.distance? key.site.funcId = some distance ∧
        testee = ⟨test.id, key.point p, distance⟩ := by
  have hbodies : (after config test c).mutateTestBodies = config.mutateTestBodies := rfl
  unfold testees
  rw [getElem?_records_after, List.mem_mergeSort, List.mem_flatMap]
  constructor
  · rintro ⟨site, hsite, htestee⟩
    unfold testeesAt at htestee
    split at htestee
    next => cases htestee
    next distance hdistance =>
      obtain ⟨hown, hd, hnear, hincluded⟩ := (distanceWithin?_eq_some_iff ..).mp hdistance
      obtain ⟨point, hpoint, rfl⟩ := List.mem_map.mp htestee
      obtain ⟨op, henabled, happlies, rfl⟩ :=
        (Point.mem_ofSite_iff p config.filter site point).mp hpoint
      have hexecuted : c.isExecuted site = true :=
        Std.ExtTreeSet.contains_iff_mem.mpr (Std.ExtTreeSet.mem_toList.mp hsite)
      exact ⟨⟨site, op⟩, distance,
        ⟨hexecuted, hown, ⟨distance, hd, hnear⟩, hincluded, henabled, happlies⟩, hd, rfl⟩
  · rintro ⟨⟨site, op⟩, distance, hdiscovers, hd, rfl⟩
    -- the record has one depth for the function, so it is the near one
    obtain ⟨distance', hd', hnear⟩ := hdiscovers.near
    obtain rfl : distance' = distance := Option.some.inj (hd'.symm.trans hd)
    refine ⟨site, Std.ExtTreeSet.mem_toList.mpr
      (Std.ExtTreeSet.contains_iff_mem.mp hdiscovers.executed), ?_⟩
    unfold testeesAt
    rw [(distanceWithin?_eq_some_iff ..).mpr
      ⟨hdiscovers.notOwn, hd, hnear, hdiscovers.included⟩]
    exact List.mem_map.mpr ⟨_, (Point.mem_ofSite_iff p config.filter site _).mpr
      ⟨op, hdiscovers.enabled, hdiscovers.applies, rfl⟩, rfl⟩

/-- A test that was tracked leaves nothing behind. -/
theorem cleanup_setup (mutateTestBodies : Bool) (test : Test) :
    ((start mutateTestBodies).setup test).cleanup test = start mutateTestBodies := by
  unfold cleanup setup start
  congr 1
  apply Std.ExtTreeMap.ext_getElem?
  intro id
  rw [Std.ExtTreeMap.getElem?_erase, Std.ExtTreeMap.getElem?_insert]
  split
  · rfl
  · rfl

/-- What is recorded for a test is gone when it is no longer tracked. -/
theorem cleanup_record (t : Tracking) (test : Test) (c : Coverage) :
    (t.record test c).cleanup test = t.cleanup test := by
  unfold cleanup record
  congr 1
  apply Std.ExtTreeMap.ext_getElem?
  intro id
  rw [Std.ExtTreeMap.getElem?_erase, Std.ExtTreeMap.getElem?_erase,
    Std.ExtTreeMap.getElem?_modify]
  split
  · rfl
  · rfl

end Tracking

/-! ## The outcome of the phase -/

/-- What the baseline phase makes of a test and the answer of the sandbox to it. -/
def BaselineRun.ofAnswer (p : Program) (config : Config) (test : Test) (answer : RunResult) :
    BaselineRun where
  test := { test with result := some { answer with coverage := none } }
  testees :=
    if answer.status = .passed then
      ((Tracking.after config test (answer.coverage.getD .empty)).testees p test config.filter
        config.maxDistance).testees
    else []

/-- The testees of an answer are the points that the test discovers, if it passed. -/
theorem BaselineRun.mem_testees_ofAnswer_iff (p : Program) (config : Config) (test : Test)
    (answer : RunResult) (testee : Testee) :
    testee ∈ (ofAnswer p config test answer).testees ↔
      answer.status = .passed ∧
        ∃ key distance, test.Discovers p config (answer.coverage.getD .empty) key ∧
          (answer.coverage.getD .empty).distance? key.site.funcId = some distance ∧
          testee = ⟨test.id, key.point p, distance⟩ := by
  unfold ofAnswer
  dsimp only
  split
  next hpassed => rw [Tracking.mem_testees_after_iff, and_iff_right hpassed]
  next hpassed => simp [hpassed]

namespace Baseline

section Answers

variable {σ : Type} (p : Program) (x : Executable) (sandbox : Sandbox σ) (limits : Limits)
  (config : Config)

/-- The answers of the sandbox to the baseline runs of some tests, one after the other. -/
def answers : List Test → σ → List RunResult × σ
  | [], s => ([], s)
  | test :: tests, s =>
    let (answer, s) := sandbox.run (.ofTest x limits true test.entry) config.timeout s
    let (others, s) := answers tests s
    (answer :: others, s)

/-- There is one answer for each test. -/
theorem length_answers (tests : List Test) (s : σ) :
    (answers x sandbox limits config tests s).1.length = tests.length := by
  induction tests generalizing s with
  | nil => rfl
  | cons test tests ih =>
    rw [answers, List.length_cons, List.length_cons, ih]

/-- Each test has an answer. -/
theorem exists_mem_zip_answers {tests : List Test} {test : Test} (h : test ∈ tests) (s : σ) :
    ∃ answer, (test, answer) ∈ tests.zip (answers x sandbox limits config tests s).1 := by
  obtain ⟨i, hi, rfl⟩ := List.getElem_of_mem h
  have hi' : i < (answers x sandbox limits config tests s).1.length := by
    rw [length_answers]
    exact hi
  exact ⟨(answers x sandbox limits config tests s).1[i],
    List.mem_of_getElem? (List.getElem?_zip_eq_some.mpr
      ⟨List.getElem?_eq_getElem hi, List.getElem?_eq_getElem hi'⟩)⟩

/-- The answer to a test is what the sandbox gives in some state of its. -/
theorem exists_eq_of_mem_zip_answers {tests : List Test} {test : Test} {answer : RunResult}
    {s : σ} (h : (test, answer) ∈ tests.zip (answers x sandbox limits config tests s).1) :
    ∃ s', answer = (sandbox.run (.ofTest x limits true test.entry) config.timeout s').1 := by
  induction tests generalizing s with
  | nil => cases h
  | cons first tests ih =>
    rw [answers, List.zip_cons_cons] at h
    rcases List.mem_cons.mp h with hfirst | hothers
    · cases hfirst
      exact ⟨s, rfl⟩
    · exact ih hothers

/-- A worker handles a test by asking the sandbox, and keeps nothing of it. -/
theorem step_eq {test : Test} (hfresh : test.result = none) (s : σ) :
    step p x sandbox limits config test (Tracking.start config.mutateTestBodies) s =
      (.ok ([BaselineRun.ofAnswer p config test
          (sandbox.run (.ofTest x limits true test.entry) config.timeout s).1],
          Tracking.start config.mutateTestBodies),
        (sandbox.run (.ofTest x limits true test.entry) config.timeout s).2) := by
  unfold step Test.record
  generalize sandbox.run (.ofTest x limits true test.entry) config.timeout s = r
  obtain ⟨answer, s'⟩ := r
  rw [hfresh]
  unfold BaselineRun.ofAnswer
  by_cases hpassed : answer.status = .passed
  · dsimp only
    rw [if_pos hpassed, if_pos hpassed, if_pos hpassed, Tracking.cleanup_record,
      Tracking.cleanup_setup]
    rfl
  · dsimp only
    rw [if_neg hpassed, if_neg hpassed, if_neg hpassed, Tracking.cleanup_setup]

/-- Handling a fresh test gives the tracking record of the worker back, and so does handling any
other test. -/
theorem restores_step :
    (step p x sandbox limits config).Restores (Tracking.start config.mutateTestBodies) := by
  intro test s output tracking s' h
  cases hresult : test.result with
  | none =>
    rw [step_eq p x sandbox limits config hresult] at h
    cases h
    rfl
  | some r =>
    unfold step Test.record at h
    rw [hresult] at h
    cases h

/-- A worker handles any fresh tests by asking the sandbox about each. -/
theorem runSlice_eq {tests : List Test} (hfresh : ∀ test ∈ tests, test.result = none) (s : σ) :
    runSlice (step p x sandbox limits config) tests (Tracking.start config.mutateTestBodies) s =
      (⟨tests.zipWith (BaselineRun.ofAnswer p config) (answers x sandbox limits config tests s).1,
          tests.length, false⟩,
        (answers x sandbox limits config tests s).2) := by
  induction tests generalizing s with
  | nil => rfl
  | cons test tests ih =>
    obtain ⟨hfirst, hothers⟩ := List.forall_mem_cons.mp hfresh
    rw [runSlice, step_eq p x sandbox limits config hfirst]
    dsimp only
    rw [ih hothers]
    rfl

/-- The baseline phase of fresh tests has an outcome, which is that of their answers, unless there
is no worker. -/
theorem run_eq {tests : List Test} (hfresh : ∀ test ∈ tests, test.result = none)
    (hworkers : config.workers ≠ 0) (s : σ) :
    run p x sandbox limits config tests s =
      (.ok ⟨tests.zipWith (BaselineRun.ofAnswer p config)
          (answers x sandbox limits config tests s).1, tests.length⟩,
        (answers x sandbox limits config tests s).2) := by
  unfold run
  refine (runPhase_replicate_eq_ok_iff (restores_step p x sandbox limits config) _ tests
    (Config.workersFor_pos hworkers tests) s _ _).mpr ?_
  exact runSlice_eq p x sandbox limits config hfresh s

end Answers

end Baseline

end MutationTester
