import MutationTester.Proofs.Testing.Campaigns
import MutationTester.Proofs.Testing.MutantVerdicts
import MutationTester.Proofs.Testing.Selection

/-!
# Agreement with exhaustive testing

Exhaustive testing builds every mutant from nothing and runs on it all tests that pass on the
program. A campaign builds the one module that was mutated, and runs only the tests that have
executed the mutated instruction. Both come to the same verdicts, if no call is too deep to be
mutated and the sandbox is faithful: a test reaches a point exactly if it passes and executes the
instruction there (`Campaign.reaches_iff`), and the tests that do not cannot tell the mutant from
the program.
-/

set_option autoImplicit false

namespace MutationTester

/-- The verdict of exhaustive testing on a mutant of an instruction. Of the tests that pass on the
program, which is built to `x`, all are run on the mutant, which is built to `y`: it is killed if
one of them does not pass. Otherwise it survives if one of them executes the instruction on the
program. -/
def exhaustiveStatus (tests : List Test) (x y : Executable) (limits : Limits)
    (patience budget : FuncId → Nat) (site : Site) : MutantStatus :=
  let passing := tests.filter fun test =>
    (Work.ofTest x limits true test.entry).passes (patience test.entry)
  if passing.any fun test =>
      !(Work.ofTest y limits false test.entry).passes (budget test.entry) then .killed
  else if passing.any fun test =>
      (Work.ofTest x limits true test.entry).executes (patience test.entry) site then .survived
  else .notCovered

/-- What the static scan finds does not depend on what normalization changes. -/
theorem PointKey.scanned_normalize_iff {p : Program} {config : Config} {key : PointKey} :
    key.Scanned p config.normalize ↔ key.Scanned p config :=
  ⟨fun h => ⟨h.candidate, h.enabled, h.applies⟩, fun h => ⟨h.candidate, h.enabled, h.applies⟩⟩

/-- A test covers an instruction if it passes on the program and executes the instruction there. -/
def Test.Covers (x : Executable) (limits : Limits) (patience : FuncId → Nat) (site : Site)
    (test : Test) : Prop :=
  (Work.ofTest x limits true test.entry).passes (patience test.entry) = true ∧
    (Work.ofTest x limits true test.entry).executes (patience test.entry) site = true

namespace Campaign

section Agreement

variable {σ : Type} {p : Program} {x : Executable} {sandbox : Sandbox σ} {limits : Limits}
  {config : Config} {s : σ} {patience budget : FuncId → Nat} {key : PointKey}

/-- A test reaches a point of a candidate exactly if it is selected and covers the instruction
there. -/
theorem reaches_iff (hdepth : limits.maxCallDepth ≤ config.maxDistance)
    (hfaithful : sandbox.Faithful p x limits config.normalize patience budget)
    (hscanned : key.Scanned p config) (test : Test) :
    Reaches p x sandbox limits config s test key ↔
      test ∈ p.findTests config ∧ test.Covers x limits patience key.site := by
  constructor
  · rintro ⟨answer, hanswer, hpassed, hdiscovers⟩
    have htest := (List.of_mem_zip hanswer).1
    obtain ⟨s', heq⟩ :=
      Baseline.exists_eq_of_mem_zip_answers x sandbox limits config.normalize hanswer
    have hreports := hfaithful.baseline test htest s'
    rw [← heq] at hreports
    obtain ⟨v, hv, hcoverage⟩ := hreports.exists_verdict hpassed
    refine ⟨htest, hreports.status_eq_passed_iff.mp hpassed, ?_⟩
    unfold Work.executes
    rw [hv, Option.any_some]
    have hexecuted := hdiscovers.executed
    rw [hcoverage] at hexecuted
    cases hrecord : v.coverage with
    | none =>
      rw [hrecord, Option.getD_none, Coverage.isExecuted_empty] at hexecuted
      cases hexecuted
    | some c =>
      rw [hrecord] at hexecuted
      exact hexecuted
  · rintro ⟨htest, hpasses, hexecutes⟩
    obtain ⟨answer, hanswer⟩ :=
      Baseline.exists_mem_zip_answers x sandbox limits config.normalize htest s
    obtain ⟨s', heq⟩ :=
      Baseline.exists_eq_of_mem_zip_answers x sandbox limits config.normalize hanswer
    have hreports := hfaithful.baseline test htest s'
    rw [← heq] at hreports
    have hpassed := hreports.status_eq_passed_iff.mpr hpasses
    obtain ⟨v, hv, hcoverage⟩ := hreports.exists_verdict hpassed
    unfold Work.executes at hexecutes
    rw [hv, Option.any_some] at hexecutes
    obtain ⟨c, hc, hexecuted⟩ := (Option.any_eq_true _ _).mp hexecutes
    -- the machine calls no deeper than points are looked for, so the site is near enough
    obtain ⟨depth, hdistance, hshallow⟩ := Work.near_of_executes hv hc hexecuted
    obtain ⟨f, hf, hcandidate⟩ := hscanned.candidate
    obtain ⟨hbodies, hincluded⟩ := Bool.and_eq_true_iff.mp hcandidate
    refine ⟨answer, hanswer, hpassed, ?_⟩
    rw [hcoverage, hc]
    refine ⟨hexecuted, ?_, ⟨depth, hdistance, ?_⟩, ⟨f, hf, hincluded⟩, hscanned.enabled,
      hscanned.applies⟩
    · -- a candidate is no test, unless test bodies are mutated
      intro hown
      obtain ⟨⟨g, hg, hisTest, -⟩, -⟩ := Program.mem_findTests htest
      rw [← hown, hf] at hg
      cases hg
      rw [hisTest] at hbodies
      exact hbodies
    · exact Nat.le_of_lt (Nat.lt_of_lt_of_le hshallow hdepth)

/-- A test that passes on the program without covering an instruction passes on what a mutant of
that instruction is built to. -/
theorem passes_of_not_covers {y : Executable} (hxy : Executable.DiffersAt key.site x y)
    (hfaithful : sandbox.Faithful p x limits config.normalize patience budget) {test : Test}
    (htest : test ∈ p.findTests config)
    (hpasses : (Work.ofTest x limits true test.entry).passes (patience test.entry) = true)
    (hnot : ¬test.Covers x limits patience key.site) :
    (Work.ofTest y limits false test.entry).passes (budget test.entry) = true := by
  have hnotExecutes : (Work.ofTest x limits true test.entry).executes (patience test.entry)
      key.site = false := Bool.eq_false_iff.mpr fun hexecutes => hnot ⟨hpasses, hexecutes⟩
  exact Work.passes_of_not_executes hxy hpasses hnotExecutes (hfaithful.enough test htest)

/-- Whether the test with a number passes on what a mutant is built to. -/
def passesMutant (p : Program) (y : Executable) (limits : Limits) (config : Config)
    (budget : FuncId → Nat) (number : Nat) : Bool :=
  (p.findTests config)[number]?.any fun test =>
    (Work.ofTest y limits false test.entry).passes (budget test.entry)

/-- The number of a test is its own. -/
theorem passesMutant_id {y : Executable} {test : Test} (htest : test ∈ p.findTests config) :
    passesMutant p y limits config budget test.id =
      (Work.ofTest y limits false test.entry).passes (budget test.entry) := by
  obtain ⟨i, hi, heq⟩ := List.getElem_of_mem htest
  have hget : (p.findTests config)[i]? = some test := List.getElem?_eq_some_iff.mpr ⟨hi, heq⟩
  unfold passesMutant
  rw [Program.id_of_getElem?_findTests hget, hget, Option.any_some]

/-- What a faithful sandbox says about the test of a testee on a mutant is whether it passes
there. -/
theorem settled_of_mem_testees {op : Operator} {site : Site} {token : Applied}
    {mutated : Program} {y : Executable}
    (hfaithful : sandbox.Faithful p x limits config.normalize patience budget)
    (hmutate : op.mutate p site = .ok (token, mutated)) (hy : mutated.Builds y)
    {testee : Testee} (h : testee ∈ testees p x sandbox limits config s) :
    MutantRun.Settled y sandbox limits config.normalize
      ((baseline p x sandbox limits config s).map BaselineRun.test)
      (passesMutant p y limits config budget testee.test) testee := by
  obtain ⟨test, answer, hanswer, hid, hpassed, hplace⟩ :=
    exists_passed_of_mem_testees p x sandbox limits config s h
  have htest : test ∈ p.findTests config := (List.of_mem_zip hanswer).1
  obtain ⟨s', heq⟩ :=
    Baseline.exists_eq_of_mem_zip_answers x sandbox limits config.normalize hanswer
  refine ⟨_, { answer with coverage := none }, hplace, ?_, ?_⟩
  · simp [Test.passedResult?, hpassed]
  · intro time htime s''
    have hreports := hfaithful.mutant test htest op site token mutated y hmutate hy time
      ⟨s', heq ▸ htime⟩ s''
    rw [← hid, passesMutant_id htest]
    exact ⟨hreports.status_ne_error, hreports.status_eq_passed_iff⟩

/-- Exhaustive testing kills a mutant if a test that covers its instruction does not pass on it. -/
theorem exhaustiveStatus_of_fails {tests : List Test} {y : Executable} {site : Site} {test : Test}
    (htest : test ∈ tests) (hcovers : test.Covers x limits patience site)
    (hfails : ¬(Work.ofTest y limits false test.entry).passes (budget test.entry) = true) :
    exhaustiveStatus tests x y limits patience budget site = .killed := by
  unfold exhaustiveStatus
  dsimp only
  rw [if_pos]
  exact List.any_eq_true.mpr ⟨test, List.mem_filter.mpr ⟨htest, hcovers.1⟩, by simpa using hfails⟩

/-- Exhaustive testing kills no mutant if all tests that cover its instruction pass on it. -/
theorem not_any_fails {y : Executable} (hxy : Executable.DiffersAt key.site x y)
    (hfaithful : sandbox.Faithful p x limits config.normalize patience budget)
    (hall : ∀ test ∈ p.findTests config, test.Covers x limits patience key.site →
      (Work.ofTest y limits false test.entry).passes (budget test.entry) = true) :
    ¬((p.findTests config).filter fun test =>
        (Work.ofTest x limits true test.entry).passes (patience test.entry)).any (fun test =>
      !(Work.ofTest y limits false test.entry).passes (budget test.entry)) = true := by
  intro hany
  obtain ⟨test, hmem, hfails⟩ := List.any_eq_true.mp hany
  obtain ⟨htest, hpasses⟩ := List.mem_filter.mp hmem
  have hpassesMutant :
      (Work.ofTest y limits false test.entry).passes (budget test.entry) = true := by
    by_cases hcovers : test.Covers x limits patience key.site
    · exact hall test htest hcovers
    · exact passes_of_not_covers hxy hfaithful htest hpasses hcovers
  rw [hpassesMutant] at hfails
  cases hfails

/-- In exhaustive testing a mutant survives if there are tests that cover its instruction and all of
them pass on it. -/
theorem exhaustiveStatus_of_passes {y : Executable} (hxy : Executable.DiffersAt key.site x y)
    (hfaithful : sandbox.Faithful p x limits config.normalize patience budget) {test : Test}
    (htest : test ∈ p.findTests config) (hcovers : test.Covers x limits patience key.site)
    (hall : ∀ test ∈ p.findTests config, test.Covers x limits patience key.site →
      (Work.ofTest y limits false test.entry).passes (budget test.entry) = true) :
    exhaustiveStatus (p.findTests config) x y limits patience budget key.site = .survived := by
  unfold exhaustiveStatus
  dsimp only
  rw [if_neg (not_any_fails hxy hfaithful hall), if_pos]
  exact List.any_eq_true.mpr ⟨test, List.mem_filter.mpr ⟨htest, hcovers.1⟩, hcovers.2⟩

/-- In exhaustive testing a mutant is not covered if no test covers its instruction. -/
theorem exhaustiveStatus_of_not_covers {y : Executable}
    (hxy : Executable.DiffersAt key.site x y)
    (hfaithful : sandbox.Faithful p x limits config.normalize patience budget)
    (hnone : ∀ test ∈ p.findTests config, ¬test.Covers x limits patience key.site) :
    exhaustiveStatus (p.findTests config) x y limits patience budget key.site = .notCovered := by
  unfold exhaustiveStatus
  dsimp only
  rw [if_neg (not_any_fails hxy hfaithful fun test htest hcovers =>
    absurd hcovers (hnone test htest)), if_neg]
  intro hany
  obtain ⟨test, hmem, hexecutes⟩ := List.any_eq_true.mp hany
  obtain ⟨htest, hpasses⟩ := List.mem_filter.mp hmem
  exact hnone test htest ⟨hpasses, hexecutes⟩

/-- What comes of a mutant at a candidate has the verdict of exhaustive testing. -/
theorem status_eq_of_handled {compiled : CompiledProgram} {token : Applied} {mutated : Program}
    {y : Executable} {result : MutantResult}
    (hdepth : limits.maxCallDepth ≤ config.maxDistance)
    (hfaithful : sandbox.Faithful p x limits config.normalize patience budget)
    (hscanned : key.Scanned p config)
    (hmutate : key.operator.mutate p key.site = .ok (token, mutated)) (hy : mutated.Builds y)
    (hbuild : compiled.executableFor mutated key.site.module = .ok y)
    (hxy : Executable.DiffersAt key.site x y)
    (hhandled : MutantRun.Handled compiled sandbox limits config.normalize
      ((baseline p x sandbox limits config s).map BaselineRun.test) p
      ⟨key.point p, Mutant.testeesOf key (testees p x sandbox limits config s)⟩ result) :
    result.status = exhaustiveStatus (p.findTests config) x y limits patience budget key.site := by
  have hreaches := reaches_iff (s := s) hdepth hfaithful hscanned
  -- the testees of the key are those of the tests that cover its site
  have hcovers : ∀ testee ∈ Mutant.testeesOf key (testees p x sandbox limits config s),
      ∃ test ∈ p.findTests config, test.id = testee.test ∧
        test.Covers x limits patience key.site := by
    intro testee htestee
    obtain ⟨hmem, rfl⟩ := (Mutant.mem_testeesOf_iff ..).mp htestee
    obtain ⟨-, test, hid, hreached⟩ := reaches_of_mem_testees p x sandbox limits config s hmem
    obtain ⟨htest, hcovered⟩ := (hreaches test).mp hreached
    exact ⟨test, htest, hid, hcovered⟩
  have htestee : ∀ test ∈ p.findTests config, test.Covers x limits patience key.site →
      ∃ testee ∈ Mutant.testeesOf key (testees p x sandbox limits config s),
        testee.test = test.id := by
    intro test htest hcovered
    obtain ⟨testee, hmem, hid, hkey⟩ := exists_testee_of_reaches p x sandbox limits config s
      ((hreaches test).mpr ⟨htest, hcovered⟩)
    exact ⟨testee, (Mutant.mem_testeesOf_iff ..).mpr ⟨hmem, hkey⟩, hid⟩
  cases hhandled with
  | uncovered hnone =>
    refine (exhaustiveStatus_of_not_covers hxy hfaithful fun test htest hcovered => ?_).symm
    obtain ⟨testee, hmem, -⟩ := htestee test htest hcovered
    dsimp only at hnone
    rw [hnone] at hmem
    cases hmem
  | unbuilt hsome hmutate' hbuild' =>
    obtain ⟨-, rfl⟩ := Prod.mk.inj (Except.ok.inj (hmutate.symm.trans hmutate'))
    cases hbuild.symm.trans hbuild'
  | judged hsome hmutate' hbuild' hruns =>
    obtain ⟨-, rfl⟩ := Prod.mk.inj (Except.ok.inj (hmutate.symm.trans hmutate'))
    obtain rfl := Except.ok.inj (hbuild.symm.trans hbuild')
    have hsettled : ∀ testee ∈ Mutant.testeesOf key (testees p x sandbox limits config s),
        MutantRun.Settled y sandbox limits config.normalize
          ((baseline p x sandbox limits config s).map BaselineRun.test)
          (passesMutant p y limits config budget testee.test) testee :=
      fun testee hmem => settled_of_mem_testees hfaithful hmutate hy
        ((Mutant.mem_testeesOf_iff ..).mp hmem).1
    obtain ⟨testee, hmem⟩ := List.exists_mem_of_ne_nil _ hsome
    obtain ⟨test, htest, -, hcovered⟩ := hcovers testee hmem
    rw [MutantRun.status_judged hsome hsettled hruns]
    split
    next hall =>
      refine (exhaustiveStatus_of_passes hxy hfaithful htest hcovered ?_).symm
      intro test htest hcovered
      obtain ⟨testee, hmem, hid⟩ := htestee test htest hcovered
      rw [← passesMutant_id htest, ← hid]
      exact hall testee hmem
    next hall =>
      push Not at hall
      obtain ⟨testee, hmem, hfails⟩ := hall
      obtain ⟨test, htest, hid, hcovered⟩ := hcovers testee hmem
      rw [← hid, passesMutant_id htest] at hfails
      exact (exhaustiveStatus_of_fails htest hcovered hfails).symm

end Agreement

/-- Coverage-guided testing agrees with exhaustive testing. Let a program build, let no call be so
deep that it is not mutated, and let the sandbox be faithful. Whenever a campaign reports, it
reports on the mutants that it assembled, one by one, and these have strictly increasing keys, so
there is at most one for each operator and site. For every function that is selected and is no
test, or is any where test bodies are mutated, every instruction of it and every selected operator
that can be applied there, there is a mutant, and the report has the verdict on it that exhaustive
testing has when all modules of the mutant are compiled. -/
theorem agrees_with_exhaustive_testing {σ : Type} (p : Program) (x : Executable)
    (sandbox : Sandbox σ) (limits : Limits) (config : Config) (patience budget : FuncId → Nat)
    (s s' : σ) (report : Report) (hx : p.Builds x)
    (hdepth : limits.maxCallDepth ≤ config.maxDistance)
    (hfaithful : sandbox.Faithful p x limits config.normalize patience budget)
    (hrun : run p sandbox limits config s = (.ok report, s')) :
    (mutants p x sandbox limits config s).Pairwise
        (fun a b => compare a.point.key b.point.key = .lt) ∧
      List.Forall₂ (fun mutant result => result.IsOf mutant.point)
        (mutants p x sandbox limits config s) report.mutants ∧
      ∀ key : PointKey, key.Scanned p config →
        ∃ (token : Applied) (mutated : Program) (y : Executable) (i : Nat) (mutant : Mutant)
            (result : MutantResult),
          key.operator.mutate p key.site = .ok (token, mutated) ∧ mutated.Builds y ∧
          (mutants p x sandbox limits config s)[i]? = some mutant ∧ mutant.point = key.point p ∧
          report.mutants[i]? = some result ∧
          result.status =
            exhaustiveStatus (p.findTests config) x y limits patience budget key.site := by
  obtain ⟨compiled, hcompile, hlink, hhandled⟩ := forall₂_handled_of_run hx hrun
  obtain ⟨keys, hordered, hmutants, hkeys⟩ := mutants_eq p x sandbox limits config s
  refine ⟨?_, hhandled.imp fun _ _ h => h.isOf, ?_⟩
  · rw [hmutants, List.pairwise_map]
    exact hordered
  intro key hscanned
  obtain ⟨token, mutated, y, hmutate, hy, hbuild, hxy⟩ :=
    Program.exists_executableFor_of_applies hcompile hlink hscanned.applies
  -- the key is one of those of the assembled mutants, and its place is that of its result
  have hmem := List.mem_map_of_mem (f := fun key =>
    (⟨key.point p, Mutant.testeesOf key (testees p x sandbox limits config s)⟩ : Mutant))
    ((hkeys key).mpr (.inr (PointKey.scanned_normalize_iff.mpr hscanned)))
  rw [← hmutants] at hmem
  obtain ⟨i, hi, hget⟩ := List.getElem_of_mem hmem
  have hi' : i < report.mutants.length := hhandled.length_eq ▸ hi
  have hresult := hhandled.get hi hi'
  rw [List.get_eq_getElem, List.get_eq_getElem, hget] at hresult
  exact ⟨token, mutated, y, i, _, report.mutants[i], hmutate, hy,
    List.getElem?_eq_some_iff.mpr ⟨hi, hget⟩, rfl, List.getElem?_eq_getElem hi',
    status_eq_of_handled hdepth hfaithful hscanned hmutate hy hbuild hxy hresult⟩

/-- A program that doubles a number by an instruction, and tests that. -/
def doublingProgram (double : Instruction) : Program where
  modules :=
    [⟨"lib", [⟨"double", 1, [double, .ret (some 0)]⟩]⟩,
      ⟨"tests", [⟨"test_double", 0, [.const 1 3, .call (some 2) "double" [1], .const 3 6,
        .compare .eq 0 2 3, .assert 0, .ret none]⟩]⟩]

/-- What the program builds to. -/
def doublingExecutable (double : Instruction) : Executable where
  modules := (doublingProgram double).lower
  symbols := [("test_double", ⟨1, 0⟩), ("double", ⟨0, 0⟩)]

/-- The campaign on a program that doubles by an addition reports that the mutant which subtracts is
killed, because exhaustive testing kills it. -/
theorem kills_what_exhaustive_testing_kills :
    (doublingProgram (.binary .add 0 0 0)).Builds (doublingExecutable (.binary .add 0 0 0)) ∧
      (Sandbox.ofKind .none).Faithful (doublingProgram (.binary .add 0 0 0))
        (doublingExecutable (.binary .add 0 0 0)) {} ({ maxDistance := 512 } : Config).normalize
        (fun _ => Work.unwatched) (fun _ => Work.unwatched) ∧
      ∃ report, run (doublingProgram (.binary .add 0 0 0)) (Sandbox.ofKind .none) {}
          { maxDistance := 512 } () = (.ok report, ()) ∧
        ∃ result ∈ report.mutants, result.index = 0 ∧ result.status = .killed := by
  have hbuilds : (doublingProgram (.binary .add 0 0 0)).Builds
      (doublingExecutable (.binary .add 0 0 0)) := rfl
  have hfaithful := Sandbox.faithful_ofKind_none (doublingProgram (.binary .add 0 0 0))
    (doublingExecutable (.binary .add 0 0 0)) {} ({ maxDistance := 512 } : Config).normalize
  refine ⟨hbuilds, hfaithful, ?_⟩
  have hreports : (run (doublingProgram (.binary .add 0 0 0)) (Sandbox.ofKind .none) {}
      { maxDistance := 512 } ()).1.toOption.isSome = true := by decide +kernel
  rcases hrun : run (doublingProgram (.binary .add 0 0 0)) (Sandbox.ofKind .none) {}
      { maxDistance := 512 } () with ⟨_ | report, s⟩
  · rw [hrun] at hreports
    cases hreports
  obtain ⟨-, hresults, hagrees⟩ := agrees_with_exhaustive_testing _ _ _ _ _ _ _ _ _ _ hbuilds
    (by decide) hfaithful hrun
  obtain ⟨token, mutated, y, i, mutant, result, hmutate, hy, hmutant, hpoint, hresult, hstatus⟩ :=
    hagrees ⟨⟨0, 0, 0⟩, .addToSub⟩ ⟨⟨_, rfl, rfl⟩, rfl, rfl⟩
  cases hmutate
  have hbuildsMutant : (doublingProgram (.binary .sub 0 0 0)).Builds
      (doublingExecutable (.binary .sub 0 0 0)) := rfl
  obtain rfl : doublingExecutable (.binary .sub 0 0 0) = y :=
    Except.ok.inj (hbuildsMutant.symm.trans hy)
  refine ⟨report, rfl, result, List.mem_of_getElem? hresult, ?_, hstatus.trans (by decide +kernel)⟩
  obtain ⟨hi, hget⟩ := List.getElem?_eq_some_iff.mp hmutant
  obtain ⟨hi', hget'⟩ := List.getElem?_eq_some_iff.mp hresult
  have hof := hresults.get hi hi'
  rw [List.get_eq_getElem, List.get_eq_getElem, hget, hget', hpoint] at hof
  exact hof.index_eq

end Campaign

end MutationTester
