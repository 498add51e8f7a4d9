import MutationTester.Proofs.Testing.BuiltMutants
import MutationTester.Proofs.Testing.Answers

/-!
# Results are well formed

What the runs on a mutant have shown is a tally with at most one killer for each run that counts
(`Tally.Sound`). A campaign runs at least one test on each mutant that a testee reaches, so either a
run counts or the sandbox has said what went wrong (`Tally.Shown`). The verdict is read off from the
tally, so each verdict has one shape of result (`MutantResult.HasShape`), and the counts of a report
add up (`Campaign.results_well_formed`).
-/

set_option autoImplicit false

namespace MutationTester

/-- The test did not pass, and the sandbox did not fail. -/
def Kill.Detects (kill : Kill) : Prop :=
  kill.status = .failed ∨ kill.status = .crashed ∨ kill.status = .timedOut

/-- The shapes that results have, one for each verdict. -/
def MutantResult.HasShape (r : MutantResult) : MutantStatus → Prop
  | .notCovered =>
    r.status = .notCovered ∧ r.killers = [] ∧ r.runs = 0 ∧ r.diff = "" ∧ r.error = none
  | .killed =>
    r.status = .killed ∧ r.killers ≠ [] ∧ r.killers.length ≤ r.runs ∧ 1 ≤ r.runs ∧
      (∀ kill ∈ r.killers, kill.Detects) ∧ r.error = none
  | .survived => r.status = .survived ∧ r.killers = [] ∧ 1 ≤ r.runs ∧ r.error = none
  | .compileError =>
    r.status = .compileError ∧ r.killers = [] ∧ r.runs = 0 ∧ ∃ text, r.error = some text

theorem MutantResult.HasShape.status_eq {r : MutantResult} {status : MutantStatus}
    (h : r.HasShape status) : r.status = status := by
  cases status <;> exact h.1

/-! ## Tallies -/

namespace Tally

/-- Each killer has detected the mutant in a run of its own that counts. -/
structure Sound (t : Tally) : Prop where
  length_le : t.killers.length ≤ t.eligible
  detects : ∀ kill ∈ t.killers, kill.Detects

/-- A run counts, or the sandbox has failed and has said why. -/
def Shown (t : Tally) : Prop := 0 < t.eligible ∨ ∃ text, t.sandboxError = some text

theorem sound_start : start.Sound := ⟨Nat.le_refl 0, nofun⟩

theorem Sound.count {t : Tally} (h : t.Sound) (test : Test) (r : RunResult) :
    (t.count test r).Sound := by
  obtain ⟨hlength, hdetects⟩ := h
  -- a status that is neither passed nor an error adds a killer that detects, and a run for it
  have hadds {status : RunStatus} (hstatus : Kill.Detects ⟨test.name, status⟩) :
      Sound { t with
        eligible := t.eligible + 1
        killers := t.killers ++ [⟨test.name, status⟩] } := by
    refine ⟨by simpa using hlength, ?_⟩
    intro kill hkill
    rcases List.mem_append.mp hkill with hkill | hkill
    · exact hdetects kill hkill
    · rw [List.mem_singleton.mp hkill]
      exact hstatus
  unfold Tally.count
  cases r.status with
  | error => exact ⟨hlength, hdetects⟩
  | passed => exact ⟨Nat.le_succ_of_le hlength, hdetects⟩
  | failed => exact hadds (.inl rfl)
  | crashed => exact hadds (.inr (.inl rfl))
  | timedOut => exact hadds (.inr (.inr rfl))

theorem shown_count (t : Tally) (test : Test) (r : RunResult) : (t.count test r).Shown := by
  by_cases herror : r.status = .error
  · right
    unfold count
    rw [herror]
    cases t.sandboxError with
    | none => exact ⟨r.output, rfl⟩
    | some text => exact ⟨text, rfl⟩
  · left
    rw [t.eligible_count test herror]
    omega

end Tally

namespace MutantRun

section Runs

variable {σ : Type} {y : Executable} {sandbox : Sandbox σ} {limits : Limits} {config : Config}
  {tests : List Test}

/-- What each run keeps, the runs on a mutant keep. -/
theorem runTestees_invariant {P : Tally → Prop}
    (hcount : ∀ tally test r, P tally → P (tally.count test r)) {testees : List Testee}
    {tally tally' : Tally} {s s' : σ} (hstart : P tally)
    (h : runTestees y sandbox limits config tests testees tally s = (.ok tally', s')) :
    P tally' := by
  induction testees generalizing tally s with
  | nil =>
    cases h
    exact hstart
  | cons testee testees ih =>
    rcases testee_cases config tests testee with
      hskipped | hlate | ⟨test, baseline, time, htest, hbaseline, htime⟩
    · rw [runTestees_cons_of_not_passed hskipped] at h
      exact ih hstart h
    · rw [runTestees_cons_of_late hlate] at h
      cases h
    · have hnext := hcount tally test
        (sandbox.run (.ofTest y limits false test.entry) time s).1 hstart
      rw [runTestees_cons htest hbaseline htime] at h
      dsimp only at h
      split at h
      next =>
        cases h
        exact hnext
      next => exact ih hnext h

/-- If one of the tests passed on the unchanged program, at least one is run. -/
theorem shown_of_runTestees {testees : List Testee} {tally tally' : Tally} {s s' : σ}
    (hpassed : ∃ testee ∈ testees, tests[testee.test]?.bind Test.passedResult? ≠ none)
    (h : runTestees y sandbox limits config tests testees tally s = (.ok tally', s')) :
    tally'.Shown := by
  induction testees generalizing tally s with
  | nil =>
    obtain ⟨_, hmem, -⟩ := hpassed
    cases hmem
  | cons testee testees ih =>
    rcases testee_cases config tests testee with
      hskipped | hlate | ⟨test, baseline, time, htest, hbaseline, htime⟩
    · obtain ⟨other, hmem, hother⟩ := hpassed
      rw [runTestees_cons_of_not_passed hskipped] at h
      rcases List.mem_cons.mp hmem with rfl | hmem
      · exact absurd hskipped hother
      · exact ih ⟨other, hmem, hother⟩ h
    · rw [runTestees_cons_of_late hlate] at h
      cases h
    · have hnext := tally.shown_count test
        (sandbox.run (.ofTest y limits false test.entry) time s).1
      rw [runTestees_cons htest hbaseline htime] at h
      dsimp only at h
      split at h
      next =>
        cases h
        exact hnext
      next => exact runTestees_invariant (fun t test r _ => t.shown_count test r) hnext h

end Runs

/-- The result of a mutant whose tests have been run has the shape of its verdict. -/
theorem hasShape_judged {mutant : Mutant} (hsome : mutant.testees ≠ []) (diff : String)
    {tally : Tally} (hsound : tally.Sound) (hshown : tally.Shown) :
    (judged mutant diff tally).HasShape (judged mutant diff tally).status := by
  obtain ⟨hlength, hdetects⟩ := hsound
  have hcovering : mutant.testees.length ≠ 0 := mt List.eq_nil_of_length_eq_zero hsome
  unfold judged MutantResult.bare classify
  dsimp only
  rw [if_neg hcovering]
  cases hkillers : tally.killers with
  | cons kill killers =>
    rw [hkillers, List.length_cons] at hlength
    rw [hkillers] at hdetects
    have hruns : 1 ≤ tally.eligible := by omega
    exact ⟨rfl, List.cons_ne_nil kill killers, hlength, hruns, hdetects, rfl⟩
  | nil =>
    by_cases hnone : tally.eligible = 0
    · have htext : ∃ text, tally.sandboxError = some text := hshown.resolve_left (by omega)
      simp [hnone, MutantResult.HasShape, htext]
    · have hruns : 1 ≤ tally.eligible := by omega
      simp [hnone, MutantResult.HasShape, hruns]

end MutantRun

/-! ## Counts -/

namespace Report

/-- Every result has one of the four verdicts. -/
theorem length_eq_countStatus (mutants : List MutantResult) :
    mutants.length = countStatus mutants .killed + countStatus mutants .survived +
      countStatus mutants .notCovered + countStatus mutants .compileError := by
  induction mutants with
  | nil => rfl
  | cons m mutants ih =>
    unfold countStatus at ih ⊢
    simp only [List.length_cons, List.countP_cons, ih]
    cases m.status <;> simp <;> omega

/-- The first killer of a killed mutant failed, crashed or timed out. -/
theorem countStatus_killed_eq {mutants : List MutantResult}
    (h : ∀ m ∈ mutants, m.HasShape m.status) :
    countStatus mutants .killed = countKilledBy mutants .timedOut +
      countKilledBy mutants .crashed + countKilledBy mutants .failed := by
  induction mutants with
  | nil => rfl
  | cons m mutants ih =>
    obtain ⟨hshape, hothers⟩ := List.forall_mem_cons.mp h
    have ih := ih hothers
    unfold countStatus countKilledBy at ih ⊢
    simp only [List.countP_cons, ih]
    by_cases hkilled : m.status = .killed
    · rw [hkilled] at hshape
      obtain ⟨-, hsome, -, -, hdetects, -⟩ := hshape
      obtain ⟨kill, killers, hkillers⟩ := List.exists_cons_of_ne_nil hsome
      have hfirst : kill.Detects := hdetects kill (by simp [hkillers])
      rcases hfirst with hstatus | hstatus | hstatus
      · simp [hkilled, hkillers, hstatus]
        omega
      · simp [hkilled, hkillers, hstatus]
        omega
      · simp [hkilled, hkillers, hstatus]
        omega
    · simp [hkilled]

end Report

namespace Campaign

section Results

variable {σ : Type} {p : Program} {sandbox : Sandbox σ} {limits : Limits} {config : Config} {s : σ}
  {report : Report}

/-- A campaign in bounded memory that reports is a campaign that reports. -/
theorem run_of_runInMemory (h : (runInMemory p sandbox limits config s).1 = .ok (.ok report)) :
    (run p sandbox limits config s).1 = .ok report := by
  unfold runInMemory at h
  split at h
  next => exact Except.ok.inj h
  next =>
    split at h
    next => cases h
    next => cases h

/-- A report lists what came of the assembled mutants, and counts it. -/
theorem exists_handled_of_report (h : (run p sandbox limits config s).1 = .ok report) :
    ∃ compiled x, p.compile = .ok compiled ∧ compiled.executable = .ok x ∧
      List.Forall₂
        (MutantRun.Handled compiled sandbox limits config.normalize
          ((baseline p x sandbox limits config s).map BaselineRun.test) p)
        (mutants p x sandbox limits config s) report.mutants ∧
      report = .aggregate report.mutants
        ((baseline p x sandbox limits config s).map BaselineRun.test) 0 := by
  cases hobstacle : obstacle? p config with
  | some e =>
    rw [run_of_obstacle hobstacle] at h
    cases h
  | none =>
    obtain ⟨compiled, x, hcompile, hlink, htests⟩ := exists_of_obstacle?_eq_none hobstacle
    refine ⟨compiled, x, hcompile, hlink, ?_⟩
    rw [run_of_tests hcompile hlink htests] at h
    dsimp only at h
    generalize hphase : MutantRun.run p compiled sandbox limits config.normalize _ _ _ = r at h
    obtain ⟨_ | results, s₁⟩ := r
    · cases h
    · cases h
      exact ⟨MutantRun.forall₂_handled_of_run config.workers_normalize_ne_zero hphase, rfl⟩

/-- What comes of an assembled mutant has the shape of its verdict, whatever the sandbox says. -/
theorem hasShape_of_handled {compiled : CompiledProgram} {x : Executable} {mutant : Mutant}
    (hmutant : mutant ∈ mutants p x sandbox limits config s) {result : MutantResult}
    (h : MutantRun.Handled compiled sandbox limits config.normalize
      ((baseline p x sandbox limits config s).map BaselineRun.test) p mutant result) :
    result.HasShape result.status := by
  cases h with
  | uncovered hnone => exact ⟨rfl, rfl, rfl, rfl, rfl⟩
  | unbuilt hsome hmutate hbuild => exact ⟨rfl, rfl, rfl, _, rfl⟩
  | judged hsome hmutate hbuild hruns =>
    obtain ⟨testee, htestee⟩ := List.exists_mem_of_ne_nil _ hsome
    obtain ⟨test, answer, -, -, hpassed, hplace⟩ :=
      exists_passed_of_mem_testees p x sandbox limits config s
        (mem_testees_of_mem_mutants hmutant htestee)
    have hsound := MutantRun.runTestees_invariant (fun _ test r h => h.count test r)
      Tally.sound_start hruns
    have hshown := MutantRun.shown_of_runTestees
      ⟨testee, htestee, by simp [hplace, Test.passedResult?, hpassed]⟩ hruns
    exact MutantRun.hasShape_judged hsome _ hsound hshown

end Results

/-- Every result that a campaign reports is well formed, and the counts add up. Whatever the sandbox
says, each result has the shape of one verdict and of no other. The counts are those of the verdicts,
together they make up the total, and the killed mutants are those whose first killer timed out,
crashed or failed. The score is the part of the scored mutants that was killed, and the results are
those of points whose keys increase, which is the order of the program. -/
theorem results_well_formed {σ : Type} (p : Program) (sandbox : Sandbox σ) (limits : Limits)
    (config : Config) (s : σ) (report : Report)
    (hreport : (runInMemory p sandbox limits config s).1 = .ok (.ok report)) :
    (∀ result ∈ report.mutants, ∃! status, result.HasShape status) ∧
      (report.killed = Report.countStatus report.mutants .killed ∧
        report.survived = Report.countStatus report.mutants .survived ∧
        report.notCovered = Report.countStatus report.mutants .notCovered ∧
        report.compileErrors = Report.countStatus report.mutants .compileError ∧
        report.timedOut = Report.countKilledBy report.mutants .timedOut ∧
        report.crashed = Report.countKilledBy report.mutants .crashed) ∧
      report.total = report.mutants.length ∧
      report.total =
        report.killed + report.survived + report.notCovered + report.compileErrors ∧
      report.killed =
        report.timedOut + report.crashed + Report.countKilledBy report.mutants .failed ∧
      report.score = (if report.killed + report.survived = 0 then 1.0
        else Float.ofNat report.killed / Float.ofNat (report.killed + report.survived)) ∧
      ∃ keys : List PointKey, keys.Pairwise (fun a b => compare a b = .lt) ∧
        List.Forall₂ (fun key result => result.IsOf (key.point p)) keys report.mutants := by
  obtain ⟨compiled, x, -, -, hhandled, haggregate⟩ :=
    exists_handled_of_report (run_of_runInMemory hreport)
  have hshapes : ∀ result ∈ report.mutants, result.HasShape result.status := by
    intro result hresult
    obtain ⟨i, hi, rfl⟩ := List.getElem_of_mem hresult
    have hi' : i < (mutants p x sandbox limits config s).length := by
      rw [hhandled.length_eq]
      exact hi
    exact hasShape_of_handled (List.getElem_mem hi') (hhandled.get hi' hi)
  obtain ⟨keys, hordered, hmutants, -⟩ := mutants_eq p x sandbox limits config s
  have hkeys : List.Forall₂ (fun key result => result.IsOf (key.point p)) keys report.mutants := by
    rw [hmutants, List.forall₂_map_left_iff] at hhandled
    exact hhandled.imp fun _ _ h => h.isOf
  have hlength := Report.length_eq_countStatus report.mutants
  have hkilled := Report.countStatus_killed_eq hshapes
  refine ⟨?_, ?_, ?_, ?_, ?_, ?_, keys, hordered, hkeys⟩
  · intro result hresult
    exact ⟨result.status, hshapes result hresult, fun _ h => h.status_eq.symm⟩
  all_goals rw [haggregate]
  · exact ⟨rfl, rfl, rfl, rfl, rfl, rfl⟩
  · rfl
  · exact hlength
  · exact hkilled
  · rfl

/-- A program with three functions that its tests are said to reach, and one that they are not. -/
def fourPointProgram : Program where
  modules :=
    [⟨"lib", [⟨"twice", 1, [.binary .add 0 0 0, .ret (some 0)]⟩,
        ⟨"same", 2, [.compare .eq 0 0 1, .ret (some 0)]⟩,
        ⟨"tell", 0, [.call none "note" [], .ret none]⟩, ⟨"note", 0, [.ret none]⟩,
        ⟨"idle", 1, [.binary .add 0 0 0, .ret (some 0)]⟩]⟩,
      ⟨"tests", [⟨"test_twice", 0, [.ret none]⟩, ⟨"test_same", 0, [.ret none]⟩,
        ⟨"test_tell", 0, [.ret none]⟩]⟩]

/-- A sandbox that runs nothing. Its first three runs pass and reach a function each, the next one
runs out of time, the next one passes, and then the sandbox fails. -/
def fickleSandbox : Sandbox Nat where
  run _ _ n :=
    (if n < 3 then ⟨.passed, 0, "", some (.ofLists [(⟨0, n⟩, 1)] [⟨0, n, 0⟩])⟩
      else if n = 3 then ⟨.timedOut, 0, "", none⟩
      else if n = 4 then ⟨.passed, 0, "", none⟩
      else ⟨.error, 0, "no more processes", none⟩, n + 1)

/-- The campaign reports a result of each shape, and its counts add up. -/
theorem reports_result_of_each_shape :
    ∃ report, (runInMemory fourPointProgram fickleSandbox {} {} 0).1 = .ok (.ok report) ∧
      report.mutants.map MutantResult.status = [.killed, .survived, .compileError, .notCovered] ∧
      (∀ result ∈ report.mutants, ∃! status, result.HasShape status) ∧
      report.killed =
        report.timedOut + report.crashed + Report.countKilledBy report.mutants .failed ∧
      report.total =
        report.killed + report.survived + report.notCovered + report.compileErrors := by
  have hstatuses : (runInMemory fourPointProgram fickleSandbox {} {} 0).1.toOption.map
      (·.toOption.map (·.mutants.map MutantResult.status)) =
        some (some [.killed, .survived, .compileError, .notCovered]) := by decide +kernel
  rcases houtcome : (runInMemory fourPointProgram fickleSandbox {} {} 0).1 with _ | _ | report
  · rw [houtcome] at hstatuses
    cases hstatuses
  · rw [houtcome] at hstatuses
    cases hstatuses
  · rw [houtcome] at hstatuses
    obtain ⟨hshapes, -, -, htotal, hkilled, -⟩ :=
      results_well_formed fourPointProgram fickleSandbox {} {} 0 report houtcome
    exact ⟨report, rfl, Option.some.inj (Option.some.inj hstatuses), hshapes, hkilled, htotal⟩

end Campaign

end MutationTester
