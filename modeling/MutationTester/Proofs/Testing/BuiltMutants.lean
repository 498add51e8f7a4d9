import MutationTester.Proofs.Machine.Invisibility
import MutationTester.Proofs.Testing.Campaigns
import MutationTester.Proofs.Testing.Faithful
import MutationTester.Proofs.Testing.MutantVerdicts

/-!
# Every mutant is built

A mutation keeps whatever the build checks, so a mutant of a program that builds is built as well.
A campaign makes mutants at points where their operators apply (`Campaign.applies_of_mem_mutants`),
and runs on them tests that passed before (`Campaign.counts_of_mem_testees`). So unless the sandbox
fails, it has a verdict on each mutant, and no error to report.
-/

set_option autoImplicit false

namespace MutationTester

/-- The sandbox never fails, whatever the work, the time and the state. -/
def Sandbox.NeverFails {σ : Type} (sandbox : Sandbox σ) : Prop :=
  ∀ work time s, (sandbox.run work time s).1.status ≠ .error

/-- Whoever runs everything inside the tester never fails. -/
theorem Sandbox.neverFails_ofKind_none : (Sandbox.ofKind .none).NeverFails := by
  intro work time s
  show (work.runInProcess Work.unwatched).status ≠ .error
  exact (work.reports_runInProcess Work.unwatched).status_ne_error

/-- A mutant of a program that builds is built in the place of the module that it changes. -/
theorem Program.exists_build_of_applies {p : Program} {compiled : CompiledProgram} {x : Executable}
    (hcompile : p.compile = .ok compiled) (hlink : compiled.executable = .ok x) {op : Operator}
    {site : Site} (happlies : op.applies p site = true) :
    ∃ token mutated y, op.mutate p site = .ok (token, mutated) ∧
      compiled.hasPlaceFor mutated site.module = true ∧
      compiled.executableFor mutated site.module = .ok y := by
  obtain ⟨token, mutated, y, hmutate, -, hbuild, -⟩ :=
    exists_executableFor_of_applies hcompile hlink happlies
  refine ⟨token, mutated, y, hmutate, ?_, hbuild⟩
  obtain ⟨before, -, hbefore, -⟩ := (op.applies_iff p site).mp happlies
  obtain ⟨-, rfl⟩ := (compile_eq_ok_iff p compiled).mp hcompile
  exact CompiledProgram.hasPlaceFor_lower p mutated site.module (module_lt_of_instruction? hbefore)

/-- A result carries an error only if its status says that there is no verdict. -/
theorem MutantRun.error_judged {mutant : Mutant} {diff : String} {tally : Tally}
    (h : (judged mutant diff tally).status ≠ .compileError) :
    (judged mutant diff tally).error = none :=
  if_neg h

namespace Campaign

section Mutants

variable {σ : Type} {p : Program} {x : Executable} {sandbox : Sandbox σ} {limits : Limits}
  {config : Config} {s : σ} {mutant : Mutant}

/-- The operator of an assembled mutant applies at its site. -/
theorem applies_of_mem_mutants (h : mutant ∈ mutants p x sandbox limits config s) :
    mutant.point.operator.applies p mutant.point.site = true := by
  obtain ⟨keys, -, hmutants, hkeys⟩ := mutants_eq p x sandbox limits config s
  rw [hmutants] at h
  obtain ⟨key, hkey, rfl⟩ := List.mem_map.mp h
  rcases (hkeys key).mp hkey with ⟨test, answer, -, -, hdiscovers⟩ | hscanned
  · exact hdiscovers.applies
  · exact hscanned.applies

/-- The testees of an assembled mutant are among those that the campaign found. -/
theorem mem_testees_of_mem_mutants (h : mutant ∈ mutants p x sandbox limits config s)
    {testee : Testee} (htestee : testee ∈ mutant.testees) :
    testee ∈ testees p x sandbox limits config s := by
  obtain ⟨keys, -, hmutants, -⟩ := mutants_eq p x sandbox limits config s
  rw [hmutants] at h
  obtain ⟨key, -, rfl⟩ := List.mem_map.mp h
  exact ((Mutant.mem_testeesOf_iff ..).mp htestee).1

/-- A sandbox that never fails has a verdict on each run of a testee that a campaign finds. -/
theorem counts_of_mem_testees (hsandbox : sandbox.NeverFails) {testee : Testee}
    (h : testee ∈ testees p x sandbox limits config s) (y : Executable) :
    MutantRun.Counts y sandbox limits config.normalize
      ((baseline p x sandbox limits config s).map BaselineRun.test) testee := by
  obtain ⟨test, answer, -, -, hpassed, hplace⟩ :=
    exists_passed_of_mem_testees p x sandbox limits config s h
  refine ⟨_, { answer with coverage := none }, hplace, ?_, fun time _ s => hsandbox _ time s⟩
  simp [Test.passedResult?, hpassed]

/-- What comes of an assembled mutant, when the sandbox never fails, is a verdict without an
error. -/
theorem verdict_of_handled {compiled : CompiledProgram} (hcompile : p.compile = .ok compiled)
    (hlink : compiled.executable = .ok x) (hsandbox : sandbox.NeverFails)
    (hmutant : mutant ∈ mutants p x sandbox limits config s) {result : MutantResult}
    (h : MutantRun.Handled compiled sandbox limits config.normalize
      ((baseline p x sandbox limits config s).map BaselineRun.test) p mutant result) :
    result.status ≠ .compileError ∧ result.error = none := by
  cases h with
  | uncovered hnone => exact ⟨nofun, rfl⟩
  | unbuilt hsome hmutate hbuild =>
    -- there is no such mutant: the build of each succeeds
    obtain ⟨token, mutated, y, hmutate', -, hbuild'⟩ :=
      Program.exists_build_of_applies hcompile hlink (applies_of_mem_mutants hmutant)
    obtain ⟨-, rfl⟩ := Prod.mk.inj (Except.ok.inj (hmutate.symm.trans hmutate'))
    cases hbuild.symm.trans hbuild'
  | @judged _ _ diff y tally _ _ hsome hmutate hbuild hruns =>
    have hcounts : ∀ testee ∈ mutant.testees, MutantRun.Counts y sandbox limits config.normalize
        ((baseline p x sandbox limits config s).map BaselineRun.test) testee :=
      fun _ htestee => counts_of_mem_testees hsandbox (mem_testees_of_mem_mutants hmutant htestee) y
    have hstatus : (MutantRun.judged mutant diff tally).status ≠ .compileError :=
      MutantRun.status_judged_ne_compileError hsome hcounts hruns
    exact ⟨hstatus, MutantRun.error_judged hstatus⟩

end Mutants

/-- Mutants always compile. Wherever an operator applies in a program that compiles and links, the
mutation is made, and compiling the changed module alone and linking it with the others succeeds.
So if the sandbox never fails, no result of a report says that the mutant could not be built, and
none carries an error. -/
theorem mutants_always_compile (p : Program) (compiled : CompiledProgram) (x : Executable)
    (hcompile : p.compile = .ok compiled) (hlink : compiled.executable = .ok x) :
    (∀ (op : Operator) (site : Site), op.applies p site = true →
      ∃ token mutated y, op.mutate p site = .ok (token, mutated) ∧
        compiled.hasPlaceFor mutated site.module = true ∧
        compiled.executableFor mutated site.module = .ok y) ∧
    ∀ {σ : Type} (sandbox : Sandbox σ), sandbox.NeverFails →
      ∀ (limits : Limits) (config : Config) (s s' : σ) (report : Report),
        run p sandbox limits config s = (.ok report, s') →
          ∀ result ∈ report.mutants, result.status ≠ .compileError ∧ result.error = none := by
  refine ⟨fun _ _ happlies => Program.exists_build_of_applies hcompile hlink happlies, ?_⟩
  intro σ sandbox hsandbox limits config s s' report hrun result hresult
  have hbuilds : p.Builds x := by
    unfold Program.Builds
    rw [hcompile]
    exact hlink
  obtain ⟨compiled', hcompile', -, hhandled⟩ := forall₂_handled_of_run hbuilds hrun
  obtain rfl : compiled = compiled' := Except.ok.inj (hcompile.symm.trans hcompile')
  obtain ⟨i, hi, rfl⟩ := List.getElem_of_mem hresult
  have hi' : i < (mutants p x sandbox limits config s).length := by
    rw [hhandled.length_eq]
    exact hi
  exact verdict_of_handled hcompile hlink hsandbox (List.getElem_mem hi') (hhandled.get hi' hi)

/-- A program whose function tells another module what it has found out. -/
def recordingProgram : Program where
  modules :=
    [⟨"lib", [⟨"square", 1, [.binary .mul 1 0 0, .call none "record" [0, 1], .ret (some 1)]⟩]⟩,
      ⟨"log", [⟨"record", 2, [.ret none]⟩]⟩,
      ⟨"tests", [⟨"test_square", 0, [.const 0 3, .call (some 1) "square" [0], .assert 1,
        .ret none]⟩]⟩]

/-- What the program builds to. -/
def recordingExecutable : Executable where
  modules := recordingProgram.lower
  symbols := [("test_square", ⟨2, 0⟩), ("record", ⟨1, 0⟩), ("square", ⟨0, 0⟩)]

/-- The call to the other module can be removed, and the report has a verdict on that mutant. -/
theorem removed_call_compiles :
    recordingProgram.compile = .ok ⟨recordingProgram.lower⟩ ∧
      (⟨recordingProgram.lower⟩ : CompiledProgram).executable = .ok recordingExecutable ∧
      (∃ token mutated y,
        Operator.removeVoidCall.mutate recordingProgram ⟨0, 0, 1⟩ = .ok (token, mutated) ∧
        (⟨recordingProgram.lower⟩ : CompiledProgram).hasPlaceFor mutated 0 = true ∧
        (⟨recordingProgram.lower⟩ : CompiledProgram).executableFor mutated 0 = .ok y) ∧
      ∃ report, run recordingProgram (Sandbox.ofKind .none) {} {} () = (.ok report, ()) ∧
        report.mutants.length = 1 ∧
        ∀ result ∈ report.mutants, result.status ≠ .compileError ∧ result.error = none := by
  have hcompile : recordingProgram.compile = .ok ⟨recordingProgram.lower⟩ := rfl
  have hlink : (⟨recordingProgram.lower⟩ : CompiledProgram).executable = .ok recordingExecutable :=
    rfl
  obtain ⟨hbuild, hverdict⟩ := mutants_always_compile recordingProgram
    ⟨recordingProgram.lower⟩ recordingExecutable hcompile hlink
  have hreports : (run recordingProgram (Sandbox.ofKind .none) {} {} ()).1.toOption.map
      (·.mutants.length) = some 1 := by decide +kernel
  refine ⟨hcompile, hlink, hbuild .removeVoidCall ⟨0, 0, 1⟩ (by decide), ?_⟩
  rcases hrun : run recordingProgram (Sandbox.ofKind .none) {} {} () with ⟨_ | report, s⟩
  · rw [hrun] at hreports
    cases hreports
  · rw [hrun] at hreports
    exact ⟨report, rfl, Option.some.inj hreports,
      hverdict _ Sandbox.neverFails_ofKind_none {} {} () () report hrun⟩

end Campaign

end MutationTester
