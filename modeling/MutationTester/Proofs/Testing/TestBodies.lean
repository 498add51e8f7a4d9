import MutationTester.Proofs.Testing.Campaigns

/-!
# Mutants in the bodies of tests

The static scan leaves tests out unless test bodies are mutated, and no test discovers its own
body. A test does discover the bodies of the other tests that it calls
(`Test.discovers_and_inTest_iff`), so a campaign that is not to mutate test bodies does so exactly
if some test that passes executes an instruction of another test to which an operator can be
applied.
-/

set_option autoImplicit false

namespace MutationTester

/-- A mutant changes the body of a test. -/
def Mutant.InTest (p : Program) (config : Config) (mutant : Mutant) : Prop :=
  ∃ f, p.function? mutant.point.site.funcId = some f ∧ f.isTest config = true

/-- The record of a test shows that it executed an instruction of another test to which an included
operator can be applied, where the other test is an included function and was entered near
enough. -/
structure Test.ExecutesTest (p : Program) (config : Config) (test : Test) (c : Coverage)
    (key : PointKey) : Prop where
  executed : c.isExecuted key.site = true
  notOwn : key.site.funcId ≠ test.entry
  near : ∃ distance, c.distance? key.site.funcId = some distance ∧ distance ≤ config.maxDistance
  inTest : ∃ f, p.function? key.site.funcId = some f ∧ f.isTest config = true ∧
    config.filter.includesFunction f.name = true
  enabled : config.filter.includesOperator key.operator = true
  applies : key.operator.applies p key.site = true

/-- Without mutation of test bodies a test discovers a point in a test if it has executed that
other test there. -/
theorem Test.discovers_and_inTest_iff (p : Program) {config : Config} (test : Test) (c : Coverage)
    (key : PointKey) (hbodies : config.mutateTestBodies = false) :
    (test.Discovers p config.normalize c key ∧
        ∃ f, p.function? key.site.funcId = some f ∧ f.isTest config = true) ↔
      test.ExecutesTest p config c key := by
  constructor
  · rintro ⟨h, f, hf, htest⟩
    obtain ⟨g, hg, hincluded⟩ := h.included
    obtain rfl : f = g := Option.some.inj (hf.symm.trans hg)
    refine ⟨h.executed, fun hown => ?_, h.near, ⟨f, hf, htest, hincluded⟩, h.enabled, h.applies⟩
    exact Bool.false_ne_true (hbodies.symm.trans (h.notOwn hown))
  · intro h
    obtain ⟨f, hf, htest, hincluded⟩ := h.inTest
    exact ⟨⟨h.executed, fun hown => absurd hown h.notOwn, h.near, ⟨f, hf, hincluded⟩, h.enabled,
      h.applies⟩, f, hf, htest⟩

/-- Without mutation of test bodies the static scan finds nothing in a test. -/
theorem PointKey.Scanned.not_inTest {p : Program} {config : Config} {key : PointKey}
    (h : key.Scanned p config.normalize) (hbodies : config.mutateTestBodies = false) :
    ¬∃ f, p.function? key.site.funcId = some f ∧ f.isTest config = true := by
  rintro ⟨f, hf, htest⟩
  obtain ⟨g, hg, hcandidate⟩ := h.candidate
  obtain rfl : f = g := Option.some.inj (hf.symm.trans hg)
  have hbodies : config.normalize.mutateTestBodies = false := hbodies
  have htest : f.isTest config.normalize = true := htest
  unfold Mutant.isCandidate at hcandidate
  rw [hbodies, htest] at hcandidate
  cases hcandidate

namespace Campaign

/-- A campaign that is not to mutate test bodies assembles a mutant in the body of a test exactly
if one of the selected tests passed in the baseline phase and its record shows that it executed
another test at a place where an operator can be applied. What the campaign reports, if it
reports, is about the assembled mutants, one by one. -/
theorem mutates_test_body_iff {σ : Type} (p : Program) (x : Executable) (sandbox : Sandbox σ)
    (limits : Limits) (config : Config) (s : σ) (hx : p.Builds x)
    (hbodies : config.mutateTestBodies = false) :
    ((∃ mutant ∈ mutants p x sandbox limits config s, mutant.InTest p config) ↔
      ∃ test answer key,
        (test, answer) ∈ (p.findTests config).zip (answers p x sandbox limits config s) ∧
        answer.status = .passed ∧
        test.ExecutesTest p config (answer.coverage.getD .empty) key) ∧
    ∀ report s', run p sandbox limits config s = (.ok report, s') →
      List.Forall₂ (fun mutant result => result.IsOf mutant.point)
        (mutants p x sandbox limits config s) report.mutants := by
  refine ⟨?_, ?_⟩
  · obtain ⟨keys, -, hmutants, hkeys⟩ := mutants_eq p x sandbox limits config s
    rw [hmutants]
    constructor
    · rintro ⟨mutant, hmutant, htest⟩
      obtain ⟨key, hkey, rfl⟩ := List.mem_map.mp hmutant
      rcases (hkeys key).mp hkey with ⟨test, answer, hanswer, hpassed, hdiscovers⟩ | hscanned
      · exact ⟨test, answer, key, hanswer, hpassed,
          (test.discovers_and_inTest_iff p _ key hbodies).mp ⟨hdiscovers, htest⟩⟩
      · exact absurd htest (hscanned.not_inTest hbodies)
    · rintro ⟨test, answer, key, hanswer, hpassed, hexecutes⟩
      obtain ⟨hdiscovers, htest⟩ := (test.discovers_and_inTest_iff p _ key hbodies).mpr hexecutes
      have hkey := (hkeys key).mpr (.inl ⟨test, answer, hanswer, hpassed, hdiscovers⟩)
      exact ⟨_, List.mem_map.mpr ⟨key, hkey, rfl⟩, htest⟩
  · intro report s' hrun
    obtain ⟨compiled, -, -, hhandled⟩ := forall₂_handled_of_run hx hrun
    exact hhandled.imp fun _ _ h => h.isOf

/-- A test with an addition. -/
def calledTest : Func := ⟨"test_callee", 0, [.const 0 1, .binary .add 0 0 0, .ret none]⟩

/-- A program whose first test calls its second. -/
def testCallingProgram : Program where
  modules :=
    [⟨"suite", [⟨"test_caller", 0, [.call none "test_callee" [], .ret none]⟩, calledTest]⟩]

/-- What the program builds to. -/
def testCallingExecutable : Executable where
  modules := testCallingProgram.lower
  symbols := [("test_callee", ⟨0, 1⟩), ("test_caller", ⟨0, 0⟩)]

/-- The first test of the program passes and has executed the second, so the second is mutated. -/
theorem mutates_test_body_of_execution :
    testCallingProgram.Builds testCallingExecutable ∧
      ({} : Config).mutateTestBodies = false ∧
      ∃ mutant ∈ mutants testCallingProgram testCallingExecutable (Sandbox.ofKind .none) {} {} (),
        mutant.InTest testCallingProgram {} := by
  have hbuilds : testCallingProgram.Builds testCallingExecutable := rfl
  refine ⟨hbuilds, rfl, (mutates_test_body_iff testCallingProgram testCallingExecutable
    (Sandbox.ofKind .none) {} {} () hbuilds rfl).1.mpr ?_⟩
  refine ⟨⟨0, "test_caller", ⟨0, 0⟩, none⟩,
    ((Sandbox.ofKind .none).run (.ofTest testCallingExecutable {} true ⟨0, 0⟩)
      ({} : Config).timeout ()).1, ⟨⟨0, 1, 1⟩, .addToSub⟩,
    List.mem_of_getElem? (i := 0) rfl, rfl, ?_⟩
  exact ⟨rfl, by decide, ⟨1, rfl, by decide⟩, ⟨_, rfl, rfl, rfl⟩, rfl, rfl⟩

/-- A campaign that is not to mutate test bodies assembles and reports a mutant in the body of a
test. -/
theorem reports_mutant_in_called_test :
    testCallingProgram.Builds testCallingExecutable ∧
      ({} : Config).mutateTestBodies = false ∧
      (¬∀ mutant ∈ mutants testCallingProgram testCallingExecutable (Sandbox.ofKind .none) {} {} (),
        ¬mutant.InTest testCallingProgram {}) ∧
      ((run testCallingProgram (Sandbox.ofKind .none) {} {} ()).1.map fun report =>
        report.mutants.map MutantResult.id).toOption =
          some ["add_to_sub@suite::test_callee#1"] := by
  refine ⟨rfl, rfl, ?_, by decide +kernel⟩
  intro hnone
  have hsites : (mutants testCallingProgram testCallingExecutable (Sandbox.ofKind .none) {} {}
      ()).map (·.point.site) = [⟨0, 1, 1⟩] := by decide +kernel
  have hsite : (⟨0, 1, 1⟩ : Site) ∈ (mutants testCallingProgram testCallingExecutable
      (Sandbox.ofKind .none) {} {} ()).map (·.point.site) := by
    rw [hsites]
    exact List.mem_cons_self
  obtain ⟨mutant, hmutant, hmutantSite⟩ := List.mem_map.mp hsite
  refine hnone mutant hmutant ⟨calledTest, ?_, by decide⟩
  rw [hmutantSite]
  rfl

end Campaign

end MutationTester
