import MutationTester.Proofs.Testing.BuiltMutants
import MutationTester.Proofs.Testing.Detection
import MutationTester.Proofs.Testing.Failures
import MutationTester.Proofs.Testing.Grouping
import MutationTester.Proofs.Testing.Scanning
import MutationTester.Proofs.Testing.Workers
import Mathlib.Data.List.Infix
import Mathlib.Data.List.Perm.Basic

/-!
# More testing never saves a mutant

A configuration that lets deeper code be mutated, or selects more of the tests, finds all points
that another one finds, and for each point at least the tests that reach it there
(`Campaign.exists_reaches_of_widens`). So a mutant that is killed stays killed
(`Campaign.more_testing_keeps_kills`). Where only the depth differs, the testees that come in are
farther away than all others, so they come last, and the first test to detect a mutant is the same
(`Campaign.prefix_testeesOf`).
-/

set_option autoImplicit false

namespace MutationTester

/-- A configuration asks for more testing of a program than another one: it lets code be mutated
that is farther away, or selects more of the tests, and is the same in everything else. -/
inductive Config.Widens (p : Program) (a : Config) : Config → Prop
  | intro (maxDistance : Nat) (tests excludeTests : List String)
      (hfarther : a.maxDistance ≤ maxDistance)
      (hmore : ∀ entry ∈ p.functions, entry.2.isTest a = true →
        a.filter.includesTest entry.2.name = true →
          { a.filter with tests, excludeTests }.includesTest entry.2.name = true) :
      Widens p a { a with maxDistance, filter := { a.filter with tests, excludeTests } }

/-- A configuration that asks for more testing but selects no more tests lets code be mutated that
is farther away. -/
theorem Config.Widens.eq_of_filter_eq {p : Program} {a b : Config} (h : a.Widens p b)
    (hfilter : b.filter = a.filter) :
    a.maxDistance ≤ b.maxDistance ∧ b = { a with maxDistance := b.maxDistance } := by
  obtain ⟨maxDistance, tests, excludeTests, hfarther, -⟩ := h
  exact ⟨hfarther, congrArg (fun filter => { a with maxDistance, filter }) hfilter⟩

/-! ## Testees that are near enough -/

/-- With a smaller bound the testees of an answer are those that are within it. -/
theorem BaselineRun.perm_testees_ofAnswer (p : Program) (a : Config) {maxDistance : Nat}
    (h : a.maxDistance ≤ maxDistance) (test : Test) (answer : RunResult) :
    (ofAnswer p a test answer).testees.Perm
      ((ofAnswer p { a with maxDistance } test answer).testees.filter
        fun testee => testee.distance ≤ a.maxDistance) := by
  unfold ofAnswer
  dsimp only
  split
  next =>
    exact .of_eq (Tracking.testees_record_eq_filter (Tracking.isTracking_setup _ test) h)
  next => exact .nil

namespace Campaign

section Widening

variable {σ : Type} {p : Program} {x : Executable} {sandbox : Sandbox σ} {limits : Limits}
  {a b : Config} {answer : Work → RunResult} {s s' : σ} {test : Test} {key : PointKey}

/-- By the answers, a test reaches a point if it is selected, passes and discovers it. -/
theorem reaches_iff_of_answers (hanswers : sandbox.Answers answer) :
    Reaches p x sandbox limits a s test key ↔
      test ∈ p.findTests a ∧ (answer (.ofTest x limits true test.entry)).status = .passed ∧
        test.Discovers p a.normalize
          ((answer (.ofTest x limits true test.entry)).coverage.getD .empty) key := by
  have hsame : ∀ result, (test, result) ∈ (p.findTests a.normalize).zip
      (answers p x sandbox limits a s) →
      result.status = (answer (.ofTest x limits true test.entry)).status ∧
        result.coverage = (answer (.ofTest x limits true test.entry)).coverage := by
    intro result hresult
    obtain ⟨s', rfl⟩ := Baseline.exists_eq_of_mem_zip_answers x sandbox limits a.normalize hresult
    rw [← hanswers _ a.normalize.timeout s']
    exact ⟨rfl, rfl⟩
  constructor
  · rintro ⟨result, hresult, hpassed, hdiscovers⟩
    obtain ⟨hstatus, hcoverage⟩ := hsame result hresult
    rw [hstatus] at hpassed
    rw [hcoverage] at hdiscovers
    exact ⟨(List.of_mem_zip hresult).1, hpassed, hdiscovers⟩
  · rintro ⟨htest, hpassed, hdiscovers⟩
    obtain ⟨result, hresult⟩ :=
      Baseline.exists_mem_zip_answers x sandbox limits a.normalize htest s
    obtain ⟨hstatus, hcoverage⟩ := hsame result hresult
    rw [← hstatus] at hpassed
    rw [← hcoverage] at hdiscovers
    exact ⟨result, hresult, hpassed, hdiscovers⟩

/-- The tests that are found have different numbers. -/
theorem eq_of_id_eq {test test' : Test} (h : test ∈ p.findTests a) (h' : test' ∈ p.findTests a)
    (hid : test.id = test'.id) : test = test' := by
  obtain ⟨i, hi⟩ := List.mem_iff_getElem?.mp h
  obtain ⟨j, hj⟩ := List.mem_iff_getElem?.mp h'
  have hij : i = j := by
    rw [← Program.id_of_getElem?_findTests hi, ← Program.id_of_getElem?_findTests hj, hid]
  rw [hij, hj] at hi
  exact (Option.some.inj hi).symm

/-- What a testee of a campaign says against a mutant is what its test does. -/
theorem kill?_of_mem_testees {testee : Testee} (h : testee ∈ testees p x sandbox limits a s)
    (htest : test ∈ p.findTests a) (hid : test.id = testee.test) (y : Executable) :
    MutantRun.kill? answer limits y ((baseline p x sandbox limits a s).map BaselineRun.test)
      testee = test.kill? answer limits y := by
  obtain ⟨test', result, hresult, hid', hpassed, hplace⟩ :=
    exists_passed_of_mem_testees p x sandbox limits a s h
  obtain rfl : test = test' := eq_of_id_eq htest (List.of_mem_zip hresult).1 (hid.trans hid'.symm)
  have hbaseline : Test.passedResult?
      { test with result := some { result with coverage := none } } =
        some { result with coverage := none } := by
    simp [Test.passedResult?, hpassed]
  rw [MutantRun.kill?_of_passed hplace hbaseline]
  rfl

/-- A test that is selected is selected as well when more is asked for. -/
theorem exists_mem_findTests_of_widens (hwidens : a.Widens p b) (htest : test ∈ p.findTests a) :
    ∃ test' ∈ p.findTests b, test'.entry = test.entry ∧ test'.name = test.name := by
  obtain ⟨maxDistance, tests, excludeTests, -, hmore⟩ := hwidens
  unfold Program.findTests at htest
  obtain ⟨⟨entry, id⟩, hentry, rfl⟩ := List.mem_map.mp htest
  obtain ⟨hmem, hselected⟩ :=
    List.mem_filter.mp (List.mem_of_getElem? (List.mem_zipIdx_iff_getElem?.mp hentry))
  obtain ⟨hisTest, hincludes⟩ := Bool.and_eq_true_iff.mp hselected
  have hselected' : entry ∈ p.functions.filter fun entry =>
      entry.2.isTest a && { a.filter with tests, excludeTests }.includesTest entry.2.name :=
    List.mem_filter.mpr
      ⟨hmem, Bool.and_eq_true_iff.mpr ⟨hisTest, hmore entry hmem hisTest hincludes⟩⟩
  obtain ⟨i, hi⟩ := List.mem_iff_getElem?.mp hselected'
  exact ⟨⟨i, entry.2.name, entry.1, none⟩,
    List.mem_map.mpr ⟨(entry, i), List.mem_zipIdx_iff_getElem?.mpr hi, rfl⟩, rfl, rfl⟩

/-- A test discovers whatever it discovers when more is asked for as well. -/
theorem discovers_of_widens (hwidens : a.Widens p b) {test' : Test} (hentry : test'.entry = test.entry)
    {c : Coverage} (h : test.Discovers p a.normalize c key) :
    test'.Discovers p b.normalize c key := by
  obtain ⟨maxDistance, tests, excludeTests, hfarther, -⟩ := hwidens
  obtain ⟨distance, hdistance, hnear⟩ := h.near
  exact {
    executed := h.executed
    notOwn := fun hown => h.notOwn (hown.trans hentry)
    near := ⟨distance, hdistance, Nat.le_trans hnear hfarther⟩
    included := h.included
    enabled := h.enabled
    applies := h.applies }

/-- A point that a test reaches is reached by this test as well when more is asked for. -/
theorem exists_reaches_of_widens (hanswers : sandbox.Answers answer) (hwidens : a.Widens p b)
    (h : Reaches p x sandbox limits a s test key) (s' : σ) :
    ∃ test', Reaches p x sandbox limits b s' test' key ∧ test'.entry = test.entry ∧
      test'.name = test.name := by
  obtain ⟨htest, hpassed, hdiscovers⟩ := (reaches_iff_of_answers hanswers).mp h
  obtain ⟨test', htest', hentry, hname⟩ := exists_mem_findTests_of_widens hwidens htest
  have hdiscovers' := discovers_of_widens hwidens hentry hdiscovers
  rw [← hentry] at hpassed hdiscovers'
  exact ⟨test', (reaches_iff_of_answers hanswers).mpr ⟨htest', hpassed, hdiscovers'⟩, hentry, hname⟩

/-- The static scan finds the same points when more is asked for. -/
theorem scanned_of_widens (hwidens : a.Widens p b) (h : key.Scanned p a.normalize) :
    key.Scanned p b.normalize := by
  obtain ⟨maxDistance, tests, excludeTests, -, -⟩ := hwidens
  exact ⟨h.candidate, h.enabled, h.applies⟩

/-- Every mutant of a campaign is one when more is asked for as well, with the testees that its point
has there. -/
theorem exists_key_of_mem_mutants (hanswers : sandbox.Answers answer) (hwidens : a.Widens p b)
    {mutant : Mutant} (h : mutant ∈ mutants p x sandbox limits a s) (s' : σ) :
    ∃ key : PointKey,
      mutant = ⟨key.point p, Mutant.testeesOf key (testees p x sandbox limits a s)⟩ ∧
      ⟨key.point p, Mutant.testeesOf key (testees p x sandbox limits b s')⟩ ∈
        mutants p x sandbox limits b s' := by
  obtain ⟨keys, -, hmutants, hkeys⟩ := mutants_eq p x sandbox limits a s
  obtain ⟨keys', -, hmutants', hkeys'⟩ := mutants_eq p x sandbox limits b s'
  rw [hmutants] at h
  obtain ⟨key, hkey, rfl⟩ := List.mem_map.mp h
  refine ⟨key, rfl, ?_⟩
  rw [hmutants']
  apply List.mem_map_of_mem
  rw [hkeys']
  rcases (hkeys key).mp hkey with ⟨test, hreaches⟩ | hscanned
  · obtain ⟨test', hreaches', -⟩ := exists_reaches_of_widens hanswers hwidens hreaches s'
    exact .inl ⟨test', hreaches'⟩
  · exact .inr (scanned_of_widens hwidens hscanned)

/-- If a test that reaches a point says something against a mutant, then so does one when more is
asked for. -/
theorem kills_ne_nil_of_widens (hanswers : sandbox.Answers answer) (hwidens : a.Widens p b)
    {stop : Bool} {y : Executable}
    (h : MutantRun.kills answer limits y stop
      ((baseline p x sandbox limits a s).map BaselineRun.test)
      (Mutant.testeesOf key (testees p x sandbox limits a s)) ≠ []) (s' : σ) :
    MutantRun.kills answer limits y stop
      ((baseline p x sandbox limits b s').map BaselineRun.test)
      (Mutant.testeesOf key (testees p x sandbox limits b s')) ≠ [] := by
  rw [ne_eq, MutantRun.kills_eq_nil_iff] at h ⊢
  intro hnone
  apply h
  intro testee htestee
  obtain ⟨hmem, hkey⟩ := (Mutant.mem_testeesOf_iff ..).mp htestee
  obtain ⟨-, test, hid, hreaches⟩ := reaches_of_mem_testees p x sandbox limits a s hmem
  rw [hkey] at hreaches
  obtain ⟨test', hreaches', hentry, hname⟩ := exists_reaches_of_widens hanswers hwidens hreaches s'
  obtain ⟨testee', hmem', hid', hkey'⟩ :=
    exists_testee_of_reaches p x sandbox limits b s' hreaches'
  have htest := ((reaches_iff_of_answers hanswers).mp hreaches).1
  have htest' := ((reaches_iff_of_answers hanswers).mp hreaches').1
  have hsilent := hnone testee' ((Mutant.mem_testeesOf_iff ..).mpr ⟨hmem', hkey'⟩)
  rw [kill?_of_mem_testees hmem' htest' hid'.symm] at hsilent
  rw [kill?_of_mem_testees hmem htest hid]
  -- the same test is run, whatever its number
  unfold Test.kill? at hsilent ⊢
  rw [hentry, hname] at hsilent
  exact hsilent

/-! ## Code that is farther away -/

section Farther

variable (p x limits) {maxDistance : Nat} (hfarther : a.maxDistance ≤ maxDistance)
  (hanswers : sandbox.Answers answer)

include hfarther hanswers

/-- Testees that are found when code may be farther away are those found before and others that are
farther away. -/
theorem perm_testees_of_farther (s s' : σ) :
    (testees p x sandbox limits a s).Perm
      ((testees p x sandbox limits { a with maxDistance } s').filter
        fun testee => testee.distance ≤ a.maxDistance) := by
  rw [testees_of_answers hanswers, testees_of_answers hanswers, List.filter_flatMap]
  apply List.Perm.flatMap_left
  intro test _
  exact BaselineRun.perm_testees_ofAnswer p a.normalize hfarther test _

/-- The testees of a point come before those that are found only when code may be farther away. -/
theorem prefix_testeesOf (key : PointKey) (s s' : σ) :
    Mutant.testeesOf key (testees p x sandbox limits a s) <+:
      Mutant.testeesOf key (testees p x sandbox limits { a with maxDistance } s') := by
  have hsorted := Mutant.pairwise_testeesOf key (testees p x sandbox limits { a with maxDistance } s')
  have hinitial : (Mutant.testeesOf key (testees p x sandbox limits { a with maxDistance } s')).filter
      (fun testee => testee.distance ≤ a.maxDistance) <+: _ :=
    filter_prefix_of_pairwise (fun hbefore hnear => by
      simp only [decide_eq_true_eq, Mutant.testeeBefore_iff] at hbefore hnear ⊢
      omega) hsorted
  have hperm : (Mutant.testeesOf key (testees p x sandbox limits a s)).Perm
      ((Mutant.testeesOf key (testees p x sandbox limits { a with maxDistance } s')).filter
        fun testee => testee.distance ≤ a.maxDistance) := by
    refine (List.mergeSort_perm _ _).trans ?_
    refine .trans ?_ ((List.mergeSort_perm _ _).symm.filter _)
    rw [List.filter_comm]
    exact (perm_testees_of_farther p x limits hfarther hanswers s s').filter _
  -- two testees of one point are the same if neither comes before the other
  have hantisymm : ∀ t u, t ∈ Mutant.testeesOf key (testees p x sandbox limits a s) →
      u ∈ (Mutant.testeesOf key (testees p x sandbox limits { a with maxDistance } s')).filter
        (fun testee => testee.distance ≤ a.maxDistance) →
      Mutant.testeeBefore t u = true → Mutant.testeeBefore u t = true → t = u := by
    intro t u ht hu htu hut
    have hpoint := Mutant.point_eq_of_mem_testeesOf
      (fun _ h => (reaches_of_mem_testees p x sandbox limits a s h).1) ht
    have hpoint' := Mutant.point_eq_of_mem_testeesOf
      (fun _ h => (reaches_of_mem_testees p x sandbox limits { a with maxDistance } s' h).1)
      (List.mem_filter.mp hu).1
    exact Mutant.eq_of_testeeBefore hpoint hpoint' htu hut
  have hsame := hperm.eq_of_pairwise hantisymm (Mutant.pairwise_testeesOf _ _)
    (hsorted.sublist List.filter_sublist)
  rw [hsame]
  exact hinitial

/-- What the tests of a point say against a mutant comes first in what they say when code may be
farther away. -/
theorem prefix_kills (key : PointKey) (stop : Bool) (y : Executable) (s s' : σ) :
    MutantRun.kills answer limits y stop
        ((baseline p x sandbox limits a s).map BaselineRun.test)
        (Mutant.testeesOf key (testees p x sandbox limits a s)) <+:
      MutantRun.kills answer limits y stop
        ((baseline p x sandbox limits { a with maxDistance } s').map BaselineRun.test)
        (Mutant.testeesOf key (testees p x sandbox limits { a with maxDistance } s')) := by
  have hinitial := prefix_testeesOf p x limits hfarther hanswers key s s'
  have hsame : ∀ testee ∈ Mutant.testeesOf key (testees p x sandbox limits a s),
      MutantRun.kill? answer limits y ((baseline p x sandbox limits a s).map BaselineRun.test)
          testee =
        MutantRun.kill? answer limits y
          ((baseline p x sandbox limits { a with maxDistance } s').map BaselineRun.test)
          testee := by
    intro testee htestee
    have hmem := ((Mutant.mem_testeesOf_iff ..).mp htestee).1
    have hmem' := ((Mutant.mem_testeesOf_iff ..).mp (hinitial.subset htestee)).1
    obtain ⟨-, test, hid, hreaches⟩ := reaches_of_mem_testees p x sandbox limits a s hmem
    have htest := ((reaches_iff_of_answers hanswers).mp hreaches).1
    rw [kill?_of_mem_testees hmem htest hid, kill?_of_mem_testees hmem' htest hid]
  unfold MutantRun.kills
  rw [List.filterMap_congr hsame]
  cases stop with
  | false => exact hinitial.filterMap _
  | true => exact List.IsPrefix.take (hinitial.filterMap _) 1

end Farther

end Widening

/-- What comes first in a list that is not empty comes first in every longer one. -/
theorem exists_head?_eq {α : Type} {l l' : List α} (hinitial : l <+: l') (hne : l ≠ []) :
    ∃ a, l.head? = some a ∧ l'.head? = some a := by
  obtain ⟨a, rest, rfl⟩ := List.exists_cons_of_ne_nil hne
  obtain ⟨others, rfl⟩ := hinitial
  exact ⟨a, rfl, rfl⟩

/-- Every item of a list has a partner in a list of the same length. -/
theorem exists_mem_zip {α β : Type} {as : List α} {bs : List β} (hlength : as.length = bs.length)
    {a : α} (h : a ∈ as) : ∃ b, (a, b) ∈ as.zip bs := by
  obtain ⟨i, hi, rfl⟩ := List.getElem_of_mem h
  have hi' : i < bs.length := hlength ▸ hi
  exact ⟨bs[i], List.mem_of_getElem? (List.getElem?_zip_eq_some.mpr
    ⟨List.getElem?_eq_getElem hi, List.getElem?_eq_getElem hi'⟩)⟩

/-- More testing never saves a mutant. Let the answers of the sandbox be a function of the work, but
for the time, and let a campaign report with one configuration, and with another that asks for more
testing. The reports list the results of the mutants that were assembled. Every mutant of the first
is one of the second, and killed there if it is killed in the first. Where no more tests are
selected, so that only the depth differs, the testees of the mutant come first among those that it
has in the second, and if it is killed the same test is the first to detect it, with the same
status. -/
theorem more_testing_keeps_kills {σ : Type} (p : Program) (x : Executable) (sandbox : Sandbox σ)
    (answer : Work → RunResult) (limits : Limits) (a b : Config) (s s' t t' : σ)
    (report report' : Report) (hx : p.Builds x) (hanswers : sandbox.Answers answer)
    (hwidens : a.Widens p b) (hrun : run p sandbox limits a s = (.ok report, t))
    (hrun' : run p sandbox limits b s' = (.ok report', t')) :
    List.Forall₂ (fun mutant result => result.IsOf mutant.point)
        (mutants p x sandbox limits a s) report.mutants ∧
      List.Forall₂ (fun mutant result => result.IsOf mutant.point)
        (mutants p x sandbox limits b s') report'.mutants ∧
      ∀ mutant result, (mutant, result) ∈ (mutants p x sandbox limits a s).zip report.mutants →
        ∃ mutant' result',
          (mutant', result') ∈ (mutants p x sandbox limits b s').zip report'.mutants ∧
          mutant'.point = mutant.point ∧ (result.status = .killed → result'.status = .killed) ∧
          (b.filter = a.filter → mutant.testees <+: mutant'.testees ∧
            (result.status = .killed → ∃ kill, result.killers.head? = some kill ∧
              result'.killers.head? = some kill)) := by
  obtain ⟨compiled, hcompile, hlink, hhandled⟩ := forall₂_handled_of_run hx hrun
  obtain ⟨compiled', hcompile', -, hhandled'⟩ := forall₂_handled_of_run hx hrun'
  obtain rfl : compiled = compiled' := Except.ok.inj (hcompile.symm.trans hcompile')
  refine ⟨hhandled.imp fun _ _ h => h.isOf, hhandled'.imp fun _ _ h => h.isOf, ?_⟩
  intro mutant result hmem
  have happlies := applies_of_mem_mutants (List.of_mem_zip hmem).1
  obtain ⟨key, rfl, hmutant'⟩ :=
    exists_key_of_mem_mutants hanswers hwidens (List.of_mem_zip hmem).1 s'
  obtain ⟨result', hmem'⟩ := exists_mem_zip hhandled'.length_eq hmutant'
  -- both results are about one executable
  have hof := (List.forall₂_iff_zip.mp hhandled).2 hmem
  have hof' := (List.forall₂_iff_zip.mp hhandled').2 hmem'
  obtain ⟨token, mutated, y, hmutate, -, hbuild⟩ :
      ∃ token mutated y, (key.point p).operator.mutate p (key.point p).site = .ok (token, mutated) ∧
        compiled.hasPlaceFor mutated (key.point p).site.module = true ∧
        compiled.executableFor mutated (key.point p).site.module = .ok y :=
    Program.exists_build_of_applies hcompile hlink happlies
  have hkillers := hof.killers_eq hanswers hmutate hbuild
  have hkillers' := hof'.killers_eq hanswers hmutate hbuild
  have hstop : b.normalize.stopOnFirstKill = a.normalize.stopOnFirstKill := by
    cases hwidens
    rfl
  rw [hstop] at hkillers'
  refine ⟨_, result', hmem', rfl, ?_, ?_⟩
  · intro hkilled
    rw [hof.status_eq_killed_iff, hkillers] at hkilled
    rw [hof'.status_eq_killed_iff, hkillers']
    exact kills_ne_nil_of_widens hanswers hwidens hkilled s'
  · intro hfilter
    obtain ⟨hfarther, hb⟩ := hwidens.eq_of_filter_eq hfilter
    generalize b.maxDistance = maxDistance at hfarther hb
    subst hb
    refine ⟨prefix_testeesOf p x limits hfarther hanswers key s s', ?_⟩
    intro hkilled
    have hinitial : result.killers <+: result'.killers := by
      rw [hkillers, hkillers']
      exact prefix_kills p x limits hfarther hanswers key _ y s s'
    exact exists_head?_eq hinitial (hof.status_eq_killed_iff.mp hkilled)

/-- A program with a function that one test calls through another function and one test calls
itself. -/
def layeredProgram : Program where
  modules :=
    [⟨"lib", [⟨"inner", 1, [.binary .add 0 0 0, .ret (some 0)]⟩,
        ⟨"outer", 1, [.call (some 1) "inner" [0], .ret (some 1)]⟩]⟩,
      ⟨"tests", [⟨"test_deep", 0, [.const 0 3, .call (some 1) "outer" [0], .const 2 6,
          .compare .eq 3 1 2, .assert 3, .ret none]⟩,
        ⟨"test_near", 0, [.const 0 3, .call (some 1) "inner" [0], .const 2 6,
          .compare .eq 3 1 2, .assert 3, .ret none]⟩]⟩]

/-- What the program builds to. -/
def layeredExecutable : Executable where
  modules := layeredProgram.lower
  symbols := [("test_near", ⟨1, 1⟩), ("test_deep", ⟨1, 0⟩), ("outer", ⟨0, 1⟩), ("inner", ⟨0, 0⟩)]

/-- A sandbox that runs everything inside the tester, and takes no time for it. -/
def untimedSandbox : Sandbox Unit where
  run work _ s := ((work.runInProcess Work.unwatched).timeless, s)

/-- The mutant of the function that is called twice is killed by the near test first, whether or not
the function is near enough to the other test. -/
theorem near_test_kills_first :
    layeredProgram.Builds layeredExecutable ∧
      ({ maxDistance := 1 } : Config).Widens layeredProgram { maxDistance := 2 } ∧
      ∃ report report',
        run layeredProgram untimedSandbox {} { maxDistance := 1 } () = (.ok report, ()) ∧
        run layeredProgram untimedSandbox {} { maxDistance := 2 } () = (.ok report', ()) ∧
        ∃ result ∈ report.mutants, ∃ result' ∈ report'.mutants, result.status = .killed ∧
          result'.status = .killed ∧ ∃ kill, result.killers.head? = some kill ∧
            result'.killers.head? = some kill := by
  have hbuilds : layeredProgram.Builds layeredExecutable := rfl
  have hwidens : ({ maxDistance := 1 } : Config).Widens layeredProgram { maxDistance := 2 } :=
    .intro 2 [] [] (by decide) fun _ _ _ h => h
  refine ⟨hbuilds, hwidens, ?_⟩
  have hanswers : untimedSandbox.Answers
      fun work => (work.runInProcess Work.unwatched).timeless := fun _ _ _ => rfl
  have hreports : ∀ maxDistance, ∃ report,
      run layeredProgram untimedSandbox {} { maxDistance } () = (.ok report, ()) := by
    intro maxDistance
    have htimes : untimedSandbox.KeepsTime ({ maxDistance } : Config).normalize := by
      intro work time s
      show (({} : Config).normalize.mutantTimeout? 0).isSome = true
      decide +kernel
    have hcompile : layeredProgram.compile = .ok ⟨layeredProgram.lower⟩ := rfl
    have htests : layeredProgram.findTests {} ≠ [] := nofun
    obtain ⟨report, hreport⟩ : ∃ report,
        (run layeredProgram untimedSandbox {} { maxDistance } ()).1 = .ok report :=
      exists_report_of_tests {} () hcompile hbuilds htests htimes
    exact ⟨report, Prod.ext hreport rfl⟩
  obtain ⟨report, hrun⟩ := hreports 1
  obtain ⟨report', hrun'⟩ := hreports 2
  refine ⟨report, report', hrun, hrun', ?_⟩
  obtain ⟨hresults, -, hmore⟩ := more_testing_keeps_kills layeredProgram layeredExecutable
    untimedSandbox _ {} _ _ () () _ _ _ _ hbuilds hanswers hwidens hrun hrun'
  have hverdicts : (run layeredProgram untimedSandbox {} { maxDistance := 1 } ()).1.toOption.map
      (·.mutants.map MutantResult.status) = some [.killed] := by decide +kernel
  rw [hrun] at hverdicts
  obtain ⟨result, hreport, hkilled⟩ := List.map_eq_singleton_iff.mp (Option.some.inj hverdicts)
  rw [hreport] at hresults hmore ⊢
  obtain ⟨mutant, hmutant⟩ := List.length_eq_one_iff.mp hresults.length_eq
  rw [hmutant] at hmore
  obtain ⟨mutant', result', hmem', -, hkeeps, hfirst⟩ := hmore mutant result (by simp)
  exact ⟨result, List.mem_singleton_self result, result', (List.of_mem_zip hmem').2, hkilled,
    hkeeps hkilled, (hfirst rfl).2 hkilled⟩

end Campaign

end MutationTester
