import MutationTester.Proofs.Testing.Answers

/-!
# Which tests detect a mutant

If the answers of the sandbox to the runs on a mutant are fixed, then the killers of the mutant are
read off from them: they are what the tests of its testees find, in the order of the testees
(`MutantRun.killers_of_runTestees_of_fixes`), or the first of these where the first one is to be the
last. The answers are fixed in particular if they are, but for the time, a function of the work
(`MutantRun.fixes_of_answers`). A mutant is killed exactly if there is a killer
(`MutantRun.Handled.status_eq_killed_iff`).
-/

set_option autoImplicit false

namespace MutationTester

/-- What a test says against a mutant that is built to `y`, by the answers of the sandbox. -/
def Test.kill? (answer : Work → RunResult) (limits : Limits) (y : Executable) (test : Test) :
    Option Kill :=
  let r := answer (.ofTest y limits false test.entry)
  if MutantRun.isKill r then some ⟨test.name, r.status⟩ else none

/-- A run adds a killer to the tally if it detects the mutant. -/
theorem Tally.killers_count (tally : Tally) (test : Test) (r : RunResult) :
    (tally.count test r).killers =
      tally.killers ++ if MutantRun.isKill r then [⟨test.name, r.status⟩] else [] := by
  unfold count MutantRun.isKill
  cases r.status with
  | passed => simp
  | failed => simp
  | crashed => simp
  | timedOut => simp
  | error => simp

/-- Whatever its state, the sandbox has one answer, but for the time, to the run on `y` of each test
that passed on the unchanged program. -/
def Sandbox.Fixes {σ : Type} (sandbox : Sandbox σ) (limits : Limits) (config : Config)
    (tests : List Test) (y : Executable) (answer : Test → RunResult) : Prop :=
  ∀ test ∈ tests, ∀ baseline time, test.passedResult? = some baseline →
    config.mutantTimeout? baseline.duration = some time →
      ∀ s, (sandbox.run (.ofTest y limits false test.entry) time s).1.timeless = answer test

namespace MutantRun

/-- What the test of a testee finds, by the answers to the tests. A test that did not pass on the
unchanged program finds nothing. -/
def finding? (answer : Test → RunResult) (tests : List Test) (testee : Testee) : Option Kill :=
  (tests[testee.test]?.filter Test.passed).bind fun test =>
    let r := answer test
    if isKill r then some ⟨test.name, r.status⟩ else none

/-- What the tests of some testees find, if the first that finds something may be the last. -/
def findings (answer : Test → RunResult) (stop : Bool) (tests : List Test)
    (testees : List Testee) : List Kill :=
  let all := testees.filterMap (finding? answer tests)
  if stop then all.take 1 else all

/-- What the test of a testee says against a mutant. A test that did not pass on the unchanged
program says nothing. -/
def kill? (answer : Work → RunResult) (limits : Limits) (y : Executable) (tests : List Test)
    (testee : Testee) : Option Kill :=
  (tests[testee.test]?.filter Test.passed).bind (Test.kill? answer limits y)

/-- What the tests of some testees say against a mutant, if the first that does may be the last. -/
def kills (answer : Work → RunResult) (limits : Limits) (y : Executable) (stop : Bool)
    (tests : List Test) (testees : List Testee) : List Kill :=
  let all := testees.filterMap (kill? answer limits y tests)
  if stop then all.take 1 else all

section Findings

variable {answer : Test → RunResult} {stop : Bool} {tests : List Test} {testee : Testee}

theorem finding?_of_not_passed (h : tests[testee.test]?.bind Test.passedResult? = none) :
    finding? answer tests testee = none := by
  unfold finding?
  cases htest : tests[testee.test]? with
  | none => rfl
  | some test =>
    rw [htest, Option.bind_some] at h
    simp [Test.passed, h]

theorem finding?_of_passed {test : Test} {baseline : RunResult}
    (htest : tests[testee.test]? = some test) (hbaseline : test.passedResult? = some baseline) :
    finding? answer tests testee =
      if isKill (answer test) then some ⟨test.name, (answer test).status⟩ else none := by
  have hpassed : test.passed = true := by simp [Test.passed, hbaseline]
  unfold finding?
  rw [htest, Option.filter_some, if_pos hpassed, Option.bind_some]

/-- A testee that finds nothing makes no difference. -/
theorem findings_cons_of_none (h : finding? answer tests testee = none) (testees : List Testee) :
    findings answer stop tests (testee :: testees) = findings answer stop tests testees := by
  unfold findings
  rw [List.filterMap_cons_none h]

/-- The first testee that finds something is the last where it may be. -/
theorem findings_cons_of_some {kill : Kill} (h : finding? answer tests testee = some kill)
    (testees : List Testee) :
    findings answer stop tests (testee :: testees) =
      kill :: if stop then [] else findings answer stop tests testees := by
  unfold findings
  rw [List.filterMap_cons_some h]
  cases stop with
  | false => rfl
  | true => rfl

/-- The killers that the runs of some testees add to a tally are what their tests find. -/
theorem killers_of_runTestees_of_fixes {σ : Type} {sandbox : Sandbox σ} {limits : Limits}
    {config : Config} {y : Executable} (hfixes : sandbox.Fixes limits config tests y answer)
    {testees : List Testee} {tally tally' : Tally} {s s' : σ}
    (h : runTestees y sandbox limits config tests testees tally s = (.ok tally', s')) :
    tally'.killers =
      tally.killers ++ findings answer config.stopOnFirstKill tests testees := by
  induction testees generalizing tally s with
  | nil =>
    cases h
    cases config.stopOnFirstKill <;> exact (List.append_nil _).symm
  | cons testee testees ih =>
    rcases testee_cases config tests testee with
      hskipped | hlate | ⟨test, baseline, time, htest, hbaseline, htime⟩
    · rw [runTestees_cons_of_not_passed hskipped] at h
      rw [ih h, findings_cons_of_none (finding?_of_not_passed hskipped)]
    · rw [runTestees_cons_of_late hlate] at h
      cases h
    · have hfinding : finding? answer tests testee =
          if isKill (answer test) then some ⟨test.name, (answer test).status⟩ else none :=
        finding?_of_passed htest hbaseline
      have hanswer := hfixes test (List.mem_of_getElem? htest) baseline time hbaseline htime s
      rw [runTestees_cons htest hbaseline htime] at h
      generalize sandbox.run (.ofTest y limits false test.entry) time s = r at h hanswer
      rw [← hanswer] at hfinding
      change finding? answer tests testee =
        if isKill r.1 then some ⟨test.name, r.1.status⟩ else none at hfinding
      have hcount := tally.killers_count test r.1
      dsimp only at h
      cases hdetected : isKill r.1 with
      | false =>
        rw [hdetected, if_neg Bool.false_ne_true] at hfinding hcount
        rw [hdetected, Bool.false_and, if_neg Bool.false_ne_true] at h
        rw [ih h, hcount, List.append_nil, findings_cons_of_none hfinding]
      | true =>
        rw [hdetected, if_pos rfl] at hfinding hcount
        rw [hdetected, Bool.true_and] at h
        rw [findings_cons_of_some hfinding]
        split at h
        next hstop =>
          cases h
          rw [hcount, if_pos hstop]
        next hstop =>
          rw [ih h, hcount, if_neg hstop, List.append_assoc]
          rfl

end Findings

section Runs

variable {σ : Type} {compiled : CompiledProgram} {sandbox : Sandbox σ} {limits : Limits}
  {config : Config} {tests : List Test} {p mutated : Program} {y : Executable} {mutant : Mutant}
  {testee : Testee} {answer : Work → RunResult} {stop : Bool}

theorem kill?_of_passed {test : Test} {baseline : RunResult} (htest : tests[testee.test]? = some test)
    (hbaseline : test.passedResult? = some baseline) :
    kill? answer limits y tests testee = test.kill? answer limits y :=
  finding?_of_passed htest hbaseline

/-- Without testees nothing is said. -/
theorem kills_nil : kills answer limits y stop tests [] = [] := by
  cases stop <;> rfl

/-- Nothing is said against a mutant exactly if no test of its testees says something. -/
theorem kills_eq_nil_iff {testees : List Testee} :
    kills answer limits y stop tests testees = [] ↔
      ∀ testee ∈ testees, kill? answer limits y tests testee = none := by
  unfold kills
  cases stop with
  | false => simp
  | true => simp

/-- If the answers are a function of the work, so are those to the runs on an executable. -/
theorem fixes_of_answers (hanswers : sandbox.Answers answer) :
    sandbox.Fixes limits config tests y fun test => answer (.ofTest y limits false test.entry) :=
  fun _ _ _ time _ _ s => hanswers _ time s

/-- The killers that the runs of some testees add to a tally are what their tests say. -/
theorem killers_of_runTestees_of_answers (hanswers : sandbox.Answers answer)
    {testees : List Testee} {tally tally' : Tally} {s s' : σ}
    (h : runTestees y sandbox limits config tests testees tally s = (.ok tally', s')) :
    tally'.killers =
      tally.killers ++ kills answer limits y config.stopOnFirstKill tests testees :=
  killers_of_runTestees_of_fixes (fixes_of_answers hanswers) h

/-- The killers of a mutant that is built to `y` are what the tests of its testees say. -/
theorem Handled.killers_eq (hanswers : sandbox.Answers answer) {token : Applied}
    (hmutate : mutant.point.operator.mutate p mutant.point.site = .ok (token, mutated))
    (hbuild : compiled.executableFor mutated mutant.point.site.module = .ok y)
    {result : MutantResult} (h : Handled compiled sandbox limits config tests p mutant result) :
    result.killers = kills answer limits y config.stopOnFirstKill tests mutant.testees := by
  cases h with
  | uncovered hnone =>
    rw [hnone, kills_nil]
    rfl
  | unbuilt _ hmutate' hbuild' =>
    obtain ⟨-, rfl⟩ := Prod.mk.inj (Except.ok.inj (hmutate.symm.trans hmutate'))
    cases hbuild.symm.trans hbuild'
  | judged _ hmutate' hbuild' hruns =>
    obtain ⟨-, rfl⟩ := Prod.mk.inj (Except.ok.inj (hmutate.symm.trans hmutate'))
    obtain rfl := Except.ok.inj (hbuild.symm.trans hbuild')
    exact killers_of_runTestees_of_answers hanswers hruns

/-- A mutant is killed exactly if it has a killer. -/
theorem Handled.status_eq_killed_iff {result : MutantResult}
    (h : Handled compiled sandbox limits config tests p mutant result) :
    result.status = .killed ↔ result.killers ≠ [] := by
  cases h with
  | uncovered hnone => exact ⟨nofun, fun h => absurd rfl h⟩
  | unbuilt => exact ⟨nofun, fun h => absurd rfl h⟩
  | @judged _ _ _ _ tally _ _ hsome =>
    have hcovering : mutant.testees.length ≠ 0 := mt List.eq_nil_of_length_eq_zero hsome
    unfold MutantRun.judged classify
    dsimp only [MutantResult.bare]
    rw [if_neg hcovering]
    cases tally.killers with
    | nil => by_cases hnone : tally.eligible = 0 <;> simp [hnone]
    | cons kill killers => simp

end Runs

end MutantRun

end MutationTester
