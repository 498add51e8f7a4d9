import MutationTester.Proofs.Testing.Campaigns
import MutationTester.Proofs.Testing.MutantVerdicts

/-!
# What a mutant's runs depend on

A mutant that tests reach is applied, run and reverted, so handling it is running it applied and
giving the program back (`MutantRun.execute_of_mutate`). If the answers of the sandbox are, but for
the time, a function of the work (`Sandbox.Answers`), then what comes of the runs depends on these
answers and on the tests alone: neither on what the sandbox was asked before nor on how long
anything took, unless the time that a mutant may take goes out of range
(`MutantRun.agree_execute`).
-/

set_option autoImplicit false

namespace MutationTester

/-! ## Results without their times -/

/-- A result without the time that the run took. -/
def RunResult.timeless (r : RunResult) : RunResult := { r with duration := 0 }

/-- A test without the time that its run on the unchanged program took. -/
def Test.timeless (t : Test) : Test := { t with result := t.result.map RunResult.timeless }

/-- What a sandbox says of work, but for the time, is a function of the work. -/
def Sandbox.Answers {σ : Type} (sandbox : Sandbox σ) (answer : Work → RunResult) : Prop :=
  ∀ work time s, (sandbox.run work time s).1.timeless = answer work

/-- The sandbox that runs everything inside the tester gives the same answer at all times. -/
theorem Sandbox.answers_ofKind_none :
    (Sandbox.ofKind .none).Answers fun work => (work.runInProcess Work.unwatched).timeless :=
  fun _ _ _ => rfl

section Timeless

variable {r r' : RunResult} {t t' : Test}

theorem RunResult.status_eq_of_timeless (h : r.timeless = r'.timeless) : r.status = r'.status :=
  (congrArg RunResult.status h :)

/-- Whether a test passed does not depend on the time that it took. -/
theorem Test.passedResult?_timeless (t : Test) :
    t.timeless.passedResult? = t.passedResult?.map RunResult.timeless := by
  unfold passedResult? timeless
  cases t.result with
  | none => rfl
  | some r =>
    dsimp only [Option.map_some]
    rw [Option.filter_some, Option.filter_some]
    show (if decide (r.status = .passed) then _ else _) = _
    split <;> rfl

/-- A run adds to a tally what it shows, whatever time it took. -/
theorem Tally.count_eq_of_timeless (tally : Tally) (ht : t.timeless = t'.timeless)
    (hr : r.timeless = r'.timeless) : tally.count t r = tally.count t' r' := by
  have hname : t.name = t'.name := (congrArg Test.name ht :)
  have houtput : r.output = r'.output := (congrArg RunResult.output hr :)
  unfold count
  rw [RunResult.status_eq_of_timeless hr, houtput, hname]

theorem MutantRun.isKill_eq_of_timeless (h : r.timeless = r'.timeless) : isKill r = isKill r' := by
  unfold isKill
  rw [RunResult.status_eq_of_timeless h]

end Timeless

namespace MutantRun

/-! ## Running the tests of a mutant -/

/-- The test of a testee passed on the unchanged program, but took so long there that the time that
it may take on a mutant is out of range. -/
def Late (config : Config) (tests : List Test) (testee : Testee) : Prop :=
  ∃ test baseline, tests[testee.test]? = some test ∧ test.passedResult? = some baseline ∧
    config.mutantTimeout? baseline.duration = none

/-- A testee whose test passed is late if the time for its test is out of range. -/
theorem late_iff {config : Config} {tests : List Test} {testee : Testee} {test : Test}
    {baseline : RunResult} (htest : tests[testee.test]? = some test)
    (hbaseline : test.passedResult? = some baseline) :
    Late config tests testee ↔ config.mutantTimeout? baseline.duration = none := by
  constructor
  · rintro ⟨test', baseline', htest', hbaseline', htime⟩
    obtain rfl : test = test' := Option.some.inj (htest.symm.trans htest')
    obtain rfl : baseline = baseline' := Option.some.inj (hbaseline.symm.trans hbaseline')
    exact htime
  · intro htime
    exact ⟨test, baseline, htest, hbaseline, htime⟩

/-- Two runs for some testees come to the same, unless one of them is stopped, as there is a testee
that is late in one of them only. -/
def AgreeUnlessLate {α : Type} (config config' : Config) (tests tests' : List Test)
    (testees : List Testee) (outcome outcome' : Except Violation α) : Prop :=
  outcome = outcome' ∨
    (∃ testee ∈ testees, ¬(Late config tests testee ↔ Late config' tests' testee)) ∧
      (outcome = .error .durationOutOfRange ∨ outcome' = .error .durationOutOfRange)

/-- What is made of outcomes that agree unless a testee is late agrees so as well. -/
theorem AgreeUnlessLate.map {α β : Type} {config config' : Config} {tests tests' : List Test}
    {testees : List Testee} {outcome outcome' : Except Violation α}
    (h : AgreeUnlessLate config config' tests tests' testees outcome outcome') (f : α → β) :
    AgreeUnlessLate config config' tests tests' testees (outcome.map f) (outcome'.map f) := by
  rcases h with rfl | ⟨hlate, rfl | rfl⟩
  · exact .inl rfl
  · exact .inr ⟨hlate, .inl rfl⟩
  · exact .inr ⟨hlate, .inr rfl⟩

section Testees

variable {σ σ' : Type} {y : Executable} {sandbox : Sandbox σ} {limits : Limits} {config : Config}
  {tests : List Test} {testee : Testee}

/-- A testee whose test did not pass on the unchanged program is passed over. -/
theorem runTestees_cons_of_not_passed (h : tests[testee.test]?.bind Test.passedResult? = none)
    (testees : List Testee) (tally : Tally) (s : σ) :
    runTestees y sandbox limits config tests (testee :: testees) tally s =
      runTestees y sandbox limits config tests testees tally s := by
  rw [runTestees]
  cases htest : tests[testee.test]? with
  | none => rfl
  | some test =>
    rw [htest, Option.bind_some] at h
    dsimp only
    rw [h]

/-- A testee that is late stops the runs. -/
theorem runTestees_cons_of_late (h : Late config tests testee) (testees : List Testee)
    (tally : Tally) (s : σ) :
    runTestees y sandbox limits config tests (testee :: testees) tally s =
      (.error .durationOutOfRange, s) := by
  obtain ⟨test, baseline, htest, hbaseline, htime⟩ := h
  rw [runTestees, htest]
  dsimp only
  rw [hbaseline]
  dsimp only
  rw [htime]

/-- A testee is passed over, is late, or has its test run. -/
theorem testee_cases (config : Config) (tests : List Test) (testee : Testee) :
    tests[testee.test]?.bind Test.passedResult? = none ∨ Late config tests testee ∨
      ∃ test baseline time, tests[testee.test]? = some test ∧
        test.passedResult? = some baseline ∧
        config.mutantTimeout? baseline.duration = some time := by
  cases htest : tests[testee.test]? with
  | none => exact .inl rfl
  | some test =>
    cases hbaseline : test.passedResult? with
    | none => exact .inl (by rw [Option.bind_some, hbaseline])
    | some baseline =>
      cases htime : config.mutantTimeout? baseline.duration with
      | none => exact .inr (.inl ⟨test, baseline, htest, hbaseline, htime⟩)
      | some time => exact .inr (.inr ⟨test, baseline, time, rfl, hbaseline, htime⟩)

/-- Running the tests of some testees only goes wrong if one of them is late. -/
theorem late_of_runTestees {testees : List Testee} {tally : Tally} {s s' : σ} {v : Violation}
    (h : runTestees y sandbox limits config tests testees tally s = (.error v, s')) :
    v = .durationOutOfRange ∧ ∃ testee ∈ testees, Late config tests testee := by
  induction testees generalizing tally s with
  | nil => cases h
  | cons testee testees ih =>
    simp only [List.mem_cons, exists_eq_or_imp]
    rcases testee_cases config tests testee with
      hskipped | hlate | ⟨test, baseline, time, htest, hbaseline, htime⟩
    · rw [runTestees_cons_of_not_passed hskipped] at h
      exact (ih h).imp_right .inr
    · rw [runTestees_cons_of_late hlate] at h
      cases h
      exact ⟨rfl, .inl hlate⟩
    · rw [runTestees_cons htest hbaseline htime] at h
      dsimp only at h
      split at h
      next => cases h
      next => exact (ih h).imp_right .inr

/-- Tests that passed alike have results alike. -/
theorem passedResult?_eq_of_timeless {tests' : List Test}
    (htests : tests.map Test.timeless = tests'.map Test.timeless) (i : Nat) :
    (tests[i]?.bind Test.passedResult?).map RunResult.timeless =
      (tests'[i]?.bind Test.passedResult?).map RunResult.timeless := by
  have hresult : ∀ tests : List Test, (tests[i]?.bind Test.passedResult?).map RunResult.timeless =
      (tests.map Test.timeless)[i]?.bind Test.passedResult? := by
    intro tests
    rw [List.getElem?_map]
    cases tests[i]? with
    | none => rfl
    | some test => exact test.passedResult?_timeless.symm
  rw [hresult, htests, ← hresult]

/-- For tests that passed alike a testee is passed over both times, is late both times, or has tests
run both times that are alike, unless it is late only once. -/
theorem testee_cases_of_timeless {config' : Config} {tests' : List Test}
    (htests : tests.map Test.timeless = tests'.map Test.timeless)
    (hlates : Late config tests testee ↔ Late config' tests' testee) :
    (tests[testee.test]?.bind Test.passedResult? = none ∧
        tests'[testee.test]?.bind Test.passedResult? = none) ∨
      (Late config tests testee ∧ Late config' tests' testee) ∨
      ∃ test baseline time test' baseline' time',
        (tests[testee.test]? = some test ∧ test.passedResult? = some baseline ∧
          config.mutantTimeout? baseline.duration = some time) ∧
        (tests'[testee.test]? = some test' ∧ test'.passedResult? = some baseline' ∧
          config'.mutantTimeout? baseline'.duration = some time') ∧
        test.timeless = test'.timeless := by
  have hpassed := passedResult?_eq_of_timeless htests testee.test
  rcases testee_cases config tests testee with
    hskipped | hlate | ⟨test, baseline, time, htest, hbaseline, htime⟩
  · rw [hskipped] at hpassed
    exact .inl ⟨hskipped, Option.map_eq_none_iff.mp hpassed.symm⟩
  · exact .inr (.inl ⟨hlate, hlates.mp hlate⟩)
  · rcases testee_cases config' tests' testee with
      hskipped' | hlate' | ⟨test', baseline', time', htest', hbaseline', htime'⟩
    · -- a test that passed one time has passed the other
      rw [hskipped', htest, Option.bind_some, hbaseline] at hpassed
      cases hpassed
    · have hlate := (late_iff htest hbaseline).mp (hlates.mpr hlate')
      rw [htime] at hlate
      cases hlate
    · have hsame : (tests.map Test.timeless)[testee.test]? =
          (tests'.map Test.timeless)[testee.test]? := by rw [htests]
      rw [List.getElem?_map, List.getElem?_map, htest, htest'] at hsame
      exact .inr (.inr ⟨test, baseline, time, test', baseline', time',
        ⟨htest, hbaseline, htime⟩, ⟨htest', hbaseline', htime'⟩, Option.some.inj hsame⟩)

/-- Two sandboxes that give the same answers lead to outcomes of the runs that agree unless a testee
is late, for tests that passed alike. -/
theorem agree_runTestees {sandbox' : Sandbox σ'} {answer : Work → RunResult}
    (hanswers : sandbox.Answers answer) (hanswers' : sandbox'.Answers answer) {config' : Config}
    (hstop : config.stopOnFirstKill = config'.stopOnFirstKill) {tests' : List Test}
    (htests : tests.map Test.timeless = tests'.map Test.timeless) (y : Executable)
    (limits : Limits) (testees : List Testee) (tally : Tally) (s : σ) (s' : σ') :
    AgreeUnlessLate config config' tests tests' testees
      (runTestees y sandbox limits config tests testees tally s).1
      (runTestees y sandbox' limits config' tests' testees tally s').1 := by
  unfold AgreeUnlessLate
  induction testees generalizing tally s s' with
  | nil => exact .inl rfl
  | cons testee testees ih =>
    simp only [List.mem_cons, exists_eq_or_imp]
    by_cases hlates : Late config tests testee ↔ Late config' tests' testee
    · rcases testee_cases_of_timeless htests hlates with ⟨hskipped, hskipped'⟩ | ⟨hlate, hlate'⟩ |
        ⟨test, baseline, time, test', baseline', time', ⟨htest, hbaseline, htime⟩,
          ⟨htest', hbaseline', htime'⟩, hsame⟩
      · rw [runTestees_cons_of_not_passed hskipped, runTestees_cons_of_not_passed hskipped']
        exact (ih tally s s').imp_right (And.imp_left .inr)
      · rw [runTestees_cons_of_late hlate, runTestees_cons_of_late hlate']
        exact .inl rfl
      · have hentry : test.entry = test'.entry := (congrArg Test.entry hsame :)
        have hanswer : (sandbox.run (.ofTest y limits false test.entry) time s).1.timeless =
            (sandbox'.run (.ofTest y limits false test'.entry) time' s').1.timeless := by
          rw [hanswers, hanswers', hentry]
        rw [runTestees_cons htest hbaseline htime, runTestees_cons htest' hbaseline' htime']
        generalize sandbox.run (.ofTest y limits false test.entry) time s = r at hanswer ⊢
        generalize sandbox'.run (.ofTest y limits false test'.entry) time' s' = r' at hanswer ⊢
        dsimp only
        -- both runs stop here, or both go on with the same tally
        rw [isKill_eq_of_timeless hanswer, hstop, tally.count_eq_of_timeless hsame hanswer]
        split
        · exact .inl rfl
        · exact (ih _ r.2 r'.2).imp_right (And.imp_left .inr)
    · refine .inr ⟨.inl hlates, ?_⟩
      by_cases hlate : Late config tests testee
      · exact .inl (by rw [runTestees_cons_of_late hlate])
      · have hlate' : Late config' tests' testee := by simpa [hlate] using hlates
        exact .inr (by rw [runTestees_cons_of_late hlate'])

end Testees

/-! ## Handling a mutant -/

section Handling

variable {σ σ' : Type} {compiled : CompiledProgram} {sandbox : Sandbox σ} {limits : Limits}
  {config : Config} {tests : List Test} {mutant : Mutant} {p mutated : Program}

/-- Running a mutant applied only goes wrong if the module has no place among the compiled ones, or
if a testee is late. -/
theorem cause_of_runApplied {diff : String} {s : σ} {v : Violation}
    (h : (runApplied compiled sandbox limits config tests mutant mutated diff s).1 = .error v) :
    (v = .moduleNotCompiled ∧ compiled.hasPlaceFor mutated mutant.point.site.module = false) ∨
      (v = .durationOutOfRange ∧ ∃ testee ∈ mutant.testees, Late config tests testee) := by
  cases hplace : compiled.hasPlaceFor mutated mutant.point.site.module with
  | false =>
    rw [runApplied_of_not_place hplace] at h
    cases h
    exact .inl ⟨rfl, rfl⟩
  | true =>
    cases hbuild : compiled.executableFor mutated mutant.point.site.module with
    | error e =>
      rw [runApplied_of_error hplace hbuild] at h
      cases h
    | ok y =>
      rw [runApplied_of_build hplace hbuild] at h
      generalize hruns : runTestees y sandbox limits config tests mutant.testees .start s = r at h
      obtain ⟨_ | tally, s'⟩ := r
      · cases h
        exact .inr (late_of_runTestees hruns)
      · cases h

/-- Running a mutant applied comes to outcomes that agree unless a testee is late, with the same
answers and for tests that passed alike. -/
theorem agree_runApplied {sandbox' : Sandbox σ'} {answer : Work → RunResult}
    (hanswers : sandbox.Answers answer) (hanswers' : sandbox'.Answers answer) {config' : Config}
    (hstop : config.stopOnFirstKill = config'.stopOnFirstKill) {tests' : List Test}
    (htests : tests.map Test.timeless = tests'.map Test.timeless) (diff : String) (s : σ)
    (s' : σ') :
    AgreeUnlessLate config config' tests tests' mutant.testees
      (runApplied compiled sandbox limits config tests mutant mutated diff s).1
      (runApplied compiled sandbox' limits config' tests' mutant mutated diff s').1 := by
  cases hplace : compiled.hasPlaceFor mutated mutant.point.site.module with
  | false =>
    rw [runApplied_of_not_place hplace, runApplied_of_not_place hplace]
    exact .inl rfl
  | true =>
    cases hbuild : compiled.executableFor mutated mutant.point.site.module with
    | error e =>
      rw [runApplied_of_error hplace hbuild, runApplied_of_error hplace hbuild]
      exact .inl rfl
    | ok y =>
      rw [runApplied_of_build hplace hbuild, runApplied_of_build hplace hbuild]
      exact (agree_runTestees hanswers hanswers' hstop htests y limits _ _ s s').map _

/-- Handling a mutant comes to outcomes that agree unless a testee is late, with the same answers
and for tests that passed alike. -/
theorem agree_execute {sandbox' : Sandbox σ'} {answer : Work → RunResult}
    (hanswers : sandbox.Answers answer) (hanswers' : sandbox'.Answers answer) {config' : Config}
    (hstop : config.stopOnFirstKill = config'.stopOnFirstKill) {tests' : List Test}
    (htests : tests.map Test.timeless = tests'.map Test.timeless) (s : σ) (s' : σ') :
    AgreeUnlessLate config config' tests tests' mutant.testees
      (execute compiled sandbox limits config tests mutant p s).1
      (execute compiled sandbox' limits config' tests' mutant p s').1 := by
  by_cases htestees : mutant.testees = []
  · rw [execute_of_uncovered htestees, execute_of_uncovered htestees]
    exact .inl rfl
  · cases hmutate : mutant.point.operator.mutate p mutant.point.site with
    | error v =>
      rw [execute_of_error htestees hmutate, execute_of_error htestees hmutate]
      exact .inl rfl
    | ok applied =>
      obtain ⟨token, mutated⟩ := applied
      rw [execute_of_mutate htestees hmutate, execute_of_mutate htestees hmutate]
      exact (agree_runApplied hanswers hanswers' hstop htests _ s s').map _

end Handling

end MutantRun

end MutationTester
