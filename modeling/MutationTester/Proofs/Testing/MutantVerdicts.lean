import MutationTester.Testing.MutantRun

/-!
# The verdict that a mutant's tests lead to

Where the sandbox has a verdict on every run, a mutant that testees reach survives if the tests of
all its testees pass, and is killed otherwise, whether or not the first test that detects it is the
last that is run (`MutantRun.status_judged`).
-/

set_option autoImplicit false

namespace MutationTester

namespace Tally

/-- A run with a verdict counts. -/
theorem eligible_count (t : Tally) (test : Test) {r : RunResult} (h : r.status ≠ .error) :
    (t.count test r).eligible = t.eligible + 1 := by
  unfold count
  cases hstatus : r.status with
  | error => exact absurd hstatus h
  | passed => rfl
  | failed => rfl
  | crashed => rfl
  | timedOut => rfl

/-- A run with a verdict detects the mutant unless it passed. -/
theorem killers_count_eq_nil_iff (t : Tally) (test : Test) {r : RunResult}
    (h : r.status ≠ .error) :
    (t.count test r).killers = [] ↔ t.killers = [] ∧ r.status = .passed := by
  unfold count
  cases hstatus : r.status with
  | error => exact absurd hstatus h
  | passed => simp
  | failed => simp
  | crashed => simp
  | timedOut => simp

end Tally

namespace MutantRun

section Testees

variable {σ : Type} (y : Executable) (sandbox : Sandbox σ) (limits : Limits) (config : Config)
  (tests : List Test)

/-- The test of a testee passed on the unchanged program, and its run on the mutant, in whatever
state of the sandbox, has a verdict. -/
def Counts (testee : Testee) : Prop :=
  ∃ test baseline, tests[testee.test]? = some test ∧ test.passedResult? = some baseline ∧
    ∀ time, config.mutantTimeout? baseline.duration = some time → ∀ s,
      (sandbox.run (.ofTest y limits false test.entry) time s).1.status ≠ .error

/-- The test of a testee passed on the unchanged program, and its run on the mutant, in whatever
state of the sandbox, has a verdict that is known. -/
def Settled (passes : Bool) (testee : Testee) : Prop :=
  ∃ test baseline, tests[testee.test]? = some test ∧ test.passedResult? = some baseline ∧
    ∀ time, config.mutantTimeout? baseline.duration = some time → ∀ s,
      (sandbox.run (.ofTest y limits false test.entry) time s).1.status ≠ .error ∧
        ((sandbox.run (.ofTest y limits false test.entry) time s).1.status = .passed ↔
          passes = true)

variable {y sandbox limits config tests}

/-- A run whose verdict is known has one. -/
theorem Settled.counts {passes : Bool} {testee : Testee}
    (h : Settled y sandbox limits config tests passes testee) :
    Counts y sandbox limits config tests testee := by
  obtain ⟨test, baseline, htest, hbaseline, hrun⟩ := h
  exact ⟨test, baseline, htest, hbaseline, fun time htime s => (hrun time htime s).1⟩

/-- A testee whose test passed on the unchanged program has that test run, and the others follow
unless it detects the mutant and is to be the last. -/
theorem runTestees_cons {testee : Testee} {test : Test} {baseline : RunResult} {time : Duration}
    (htest : tests[testee.test]? = some test) (hbaseline : test.passedResult? = some baseline)
    (htime : config.mutantTimeout? baseline.duration = some time) (testees : List Testee)
    (tally : Tally) (s : σ) :
    runTestees y sandbox limits config tests (testee :: testees) tally s =
      let r := sandbox.run (.ofTest y limits false test.entry) time s
      if isKill r.1 && config.stopOnFirstKill then (.ok (tally.count test r.1), r.2)
      else runTestees y sandbox limits config tests testees (tally.count test r.1) r.2 := by
  rw [runTestees, htest]
  dsimp only
  rw [hbaseline]
  dsimp only
  rw [htime]

/-- The runs of some testees that come to an end are counted. -/
theorem eligible_of_runTestees {testees : List Testee} {tally tally' : Tally} {s s' : σ}
    (hcounts : ∀ testee ∈ testees, Counts y sandbox limits config tests testee)
    (h : runTestees y sandbox limits config tests testees tally s = (.ok tally', s')) :
    tally.eligible ≤ tally'.eligible ∧ (testees ≠ [] → tally.eligible < tally'.eligible) := by
  induction testees generalizing tally s with
  | nil =>
    cases h
    exact ⟨Nat.le_refl _, fun hne => absurd rfl hne⟩
  | cons testee testees ih =>
    obtain ⟨hfirst, hothers⟩ := List.forall_mem_cons.mp hcounts
    obtain ⟨test, baseline, htest, hbaseline, hverdict⟩ := hfirst
    cases htime : config.mutantTimeout? baseline.duration with
    | none =>
      simp only [runTestees, htest, hbaseline, htime] at h
      cases h
    | some time =>
      have hcount := tally.eligible_count test (hverdict time htime s)
      rw [runTestees_cons htest hbaseline htime] at h
      dsimp only at h
      split at h
      next =>
        cases h
        exact ⟨by omega, fun _ => by omega⟩
      next =>
        obtain ⟨hle, -⟩ := ih hothers h
        exact ⟨by omega, fun _ => by omega⟩

/-- Running the tests of some testees detects the mutant exactly if one of them does not pass. -/
theorem killers_of_runTestees {passes : Nat → Bool} {testees : List Testee} {tally tally' : Tally}
    {s s' : σ}
    (hsettled : ∀ testee ∈ testees,
      Settled y sandbox limits config tests (passes testee.test) testee)
    (h : runTestees y sandbox limits config tests testees tally s = (.ok tally', s')) :
    tally'.killers = [] ↔ tally.killers = [] ∧ ∀ testee ∈ testees, passes testee.test = true := by
  induction testees generalizing tally s with
  | nil =>
    cases h
    simp
  | cons testee testees ih =>
    obtain ⟨hfirst, hothers⟩ := List.forall_mem_cons.mp hsettled
    obtain ⟨test, baseline, htest, hbaseline, hrun⟩ := hfirst
    cases htime : config.mutantTimeout? baseline.duration with
    | none =>
      simp only [runTestees, htest, hbaseline, htime] at h
      cases h
    | some time =>
      obtain ⟨hverdict, hpassed⟩ := hrun time htime s
      rw [runTestees_cons htest hbaseline htime] at h
      generalize sandbox.run (.ofTest y limits false test.entry) time s = r at h hverdict hpassed
      obtain ⟨result, s₁⟩ := r
      dsimp only at h hverdict hpassed
      have hkillers := tally.killers_count_eq_nil_iff test hverdict
      rw [hpassed] at hkillers
      split at h
      next hstop =>
        -- the rest is not run, but it is not needed: the mutant is detected already
        cases h
        have hdetected : ¬passes testee.test = true := by
          intro hpass
          simp [isKill, hpassed.mpr hpass] at hstop
        refine ⟨fun hnil => absurd (hkillers.mp hnil).2 hdetected, fun hall => ?_⟩
        exact absurd (hall.2 testee List.mem_cons_self) hdetected
      next =>
        rw [ih hothers h, hkillers, List.forall_mem_cons, and_assoc]

/-- The runs of a mutant that testees reach do not leave it without a verdict if each of them
counts. -/
theorem status_judged_ne_compileError {mutant : Mutant} {diff : String} {tally : Tally} {s s' : σ}
    (hsome : mutant.testees ≠ [])
    (hcounts : ∀ testee ∈ mutant.testees, Counts y sandbox limits config tests testee)
    (h : runTestees y sandbox limits config tests mutant.testees .start s = (.ok tally, s')) :
    (judged mutant diff tally).status ≠ .compileError := by
  have heligible : tally.eligible ≠ 0 :=
    Nat.ne_zero_of_lt ((eligible_of_runTestees hcounts h).2 hsome)
  unfold judged MutantResult.bare classify
  dsimp only
  rw [if_neg heligible]
  split
  · decide
  · split <;> decide

/-- The verdict on a mutant whose tests have been run is that it survived if they all pass, and that
it was killed otherwise. -/
theorem status_judged {passes : Nat → Bool} {mutant : Mutant} {diff : String} {tally : Tally}
    {s s' : σ} (hsome : mutant.testees ≠ [])
    (hsettled : ∀ testee ∈ mutant.testees,
      Settled y sandbox limits config tests (passes testee.test) testee)
    (h : runTestees y sandbox limits config tests mutant.testees .start s = (.ok tally, s')) :
    (judged mutant diff tally).status =
      if ∀ testee ∈ mutant.testees, passes testee.test = true then .survived else .killed := by
  have heligible : tally.eligible ≠ 0 := Nat.ne_zero_of_lt
    ((eligible_of_runTestees (fun testee hmem => (hsettled testee hmem).counts) h).2 hsome)
  have hcovering : mutant.testees.length ≠ 0 := mt List.eq_nil_of_length_eq_zero hsome
  have hkillers : tally.killers = [] ↔ ∀ testee ∈ mutant.testees, passes testee.test = true :=
    (killers_of_runTestees hsettled h).trans (and_iff_right rfl)
  unfold judged MutantResult.bare classify
  dsimp only
  rw [if_neg hcovering, if_neg heligible]
  by_cases hall : ∀ testee ∈ mutant.testees, passes testee.test = true
  · rw [if_pos hall, hkillers.mpr hall]
    rfl
  · rw [if_neg hall, if_pos]
    simpa using mt hkillers.mp hall

end Testees

end MutantRun

end MutationTester
