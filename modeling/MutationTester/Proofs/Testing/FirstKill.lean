import MutationTester.Proofs.Testing.Results
import MutationTester.Proofs.Testing.Detection

/-!
# Stopping at the first kill

A configuration may ask to stop at the first test that detects a mutant. What the runs have shown
then is the beginning of what all runs show (`Tally.Begins`), so the verdict is the same
(`MutantRun.shortens_judged`). The exception is a mutant that is detected before a test comes whose
time is out of range: to run all tests is a violation there (`MutantRun.FoundBeforeLate`).
-/

set_option autoImplicit false

namespace MutationTester

/-- The same configuration, but for whether it stops at the first kill. -/
def Config.withStop (config : Config) (stop : Bool) : Config :=
  { config with stopOnFirstKill := stop }

/-- Two outcomes are the same violation, or are related. -/
inductive AlikeBy {α : Type} (R : α → α → Prop) : Except Violation α → Except Violation α → Prop
  | violated (v : Violation) : AlikeBy R (.error v) (.error v)
  | handled {a b : α} (h : R a b) : AlikeBy R (.ok a) (.ok b)

theorem AlikeBy.map {α β : Type} {R : α → α → Prop} {S : β → β → Prop} {f : α → β}
    (hf : ∀ a b, R a b → S (f a) (f b)) {outcome outcome' : Except Violation α}
    (h : AlikeBy R outcome outcome') : AlikeBy S (outcome.map f) (outcome'.map f) := by
  cases h with
  | violated v => exact .violated v
  | handled h => exact .handled (hf _ _ h)

/-! ## What runs have shown when they stop -/

/-- A tally has the first killer of another one, at most as many runs that count, and is the same if
there is no killer. -/
structure Tally.Begins (t t' : Tally) : Prop where
  killers_eq : t.killers = t'.killers.take 1
  eligible_le : t.eligible ≤ t'.eligible
  eq_of_silent : t'.killers = [] → t = t'

theorem Tally.eligible_le_count (t : Tally) (test : Test) (r : RunResult) :
    t.eligible ≤ (t.count test r).eligible := by
  unfold count
  cases r.status <;> simp

namespace MutantRun

/-- A test detects the mutant, and one that comes later is late. No test up to the first that
detects it is late. -/
inductive FoundBeforeLate (answer : Test → RunResult) (config : Config) (tests : List Test) :
    List Testee → Prop
  | here {testee : Testee} {testees : List Testee} (hintime : ¬Late config tests testee)
      (hfound : finding? answer tests testee ≠ none)
      (hlate : ∃ later ∈ testees, Late config tests later) :
      FoundBeforeLate answer config tests (testee :: testees)
  | later {testee : Testee} {testees : List Testee} (hintime : ¬Late config tests testee)
      (hsilent : finding? answer tests testee = none)
      (h : FoundBeforeLate answer config tests testees) :
      FoundBeforeLate answer config tests (testee :: testees)

theorem FoundBeforeLate.exists_late {answer : Test → RunResult} {config : Config}
    {tests : List Test} {testees : List Testee} (h : FoundBeforeLate answer config tests testees) :
    ∃ testee ∈ testees, Late config tests testee := by
  induction h with
  | here _ _ hlate => exact List.exists_mem_cons_of_exists hlate
  | later _ _ _ ih => exact List.exists_mem_cons_of_exists ih

section Testees

variable {σ : Type} {y : Executable} {sandbox : Sandbox σ} {limits : Limits} {config : Config}
  {tests : List Test} {answer : Test → RunResult}

/-- Whether a testee is late does not depend on when the runs stop. -/
theorem late_withStop_iff {stop : Bool} {testee : Testee} :
    Late (config.withStop stop) tests testee ↔ Late config tests testee :=
  Iff.rfl

/-- If all tests are run, a test that is late is come to. -/
theorem runTestees_of_late {testees : List Testee}
    (hlate : ∃ testee ∈ testees, Late config tests testee) (tally : Tally) (s : σ) :
    (runTestees y sandbox limits (config.withStop false) tests testees tally s).1 =
      .error .durationOutOfRange := by
  induction testees generalizing tally s with
  | nil =>
    obtain ⟨_, hmem, -⟩ := hlate
    cases hmem
  | cons testee testees ih =>
    rw [List.exists_mem_cons_iff] at hlate
    rcases hlate with hfirst | hothers
    · rw [runTestees_cons_of_late (late_withStop_iff.mpr hfirst)]
    · rcases testee_cases (config.withStop false) tests testee with
        hskipped | hfirst | ⟨test, baseline, time, htest, hbaseline, htime⟩
      · rw [runTestees_cons_of_not_passed hskipped]
        exact ih hothers tally s
      · rw [runTestees_cons_of_late hfirst]
      · rw [runTestees_cons htest hbaseline htime]
        simpa [Config.withStop] using ih hothers _ _

/-- A testee that is not late adds to the tally what its test finds, whether or not the runs stop
there. -/
theorem exists_round (hfixes : sandbox.Fixes limits config tests y answer) {testee : Testee}
    (hintime : ¬Late config tests testee) (tally : Tally) :
    ∃ tally' : Tally, tally.eligible ≤ tally'.eligible ∧
      tally'.killers = tally.killers ++ (finding? answer tests testee).toList ∧
      ∀ stop testees s, ∃ s',
        (runTestees y sandbox limits (config.withStop stop) tests (testee :: testees) tally s).1 =
          if (finding? answer tests testee).isSome && stop then .ok tally'
          else (runTestees y sandbox limits (config.withStop stop) tests testees tally' s').1 := by
  rcases testee_cases config tests testee with
    hskipped | hlate | ⟨test, baseline, time, htest, hbaseline, htime⟩
  · have hsilent : finding? answer tests testee = none := finding?_of_not_passed hskipped
    rw [hsilent]
    refine ⟨tally, Nat.le_refl _, (List.append_nil _).symm, fun stop testees s => ⟨s, ?_⟩⟩
    rw [runTestees_cons_of_not_passed hskipped]
    rfl
  · exact absurd hlate hintime
  · rw [finding?_of_passed htest hbaseline]
    refine ⟨tally.count test (answer test), tally.eligible_le_count test _, ?_, ?_⟩
    · rw [tally.killers_count]
      split <;> rfl
    · intro stop testees s
      have hanswer := hfixes test (List.mem_of_getElem? htest) baseline time hbaseline htime s
      have hsame : (answer test).timeless = answer test := by
        rw [← hanswer]
        rfl
      have hanswer := hanswer.trans hsame.symm
      have htime : (config.withStop stop).mutantTimeout? baseline.duration = some time := htime
      rw [runTestees_cons htest hbaseline htime]
      generalize sandbox.run (.ofTest y limits false test.entry) time s = r at hanswer ⊢
      refine ⟨r.2, ?_⟩
      dsimp only
      rw [isKill_eq_of_timeless hanswer, tally.count_eq_of_timeless rfl hanswer]
      cases isKill (answer test) <;> cases stop <;> rfl

/-- Where a test detects a mutant before another one is late, the mutant is killed if the runs stop
there, and to run all tests is a violation. -/
theorem runTestees_of_foundBeforeLate (hfixes : sandbox.Fixes limits config tests y answer)
    {testees : List Testee} (h : FoundBeforeLate answer config tests testees) (tally : Tally)
    (s s' : σ) :
    (∃ tally', (runTestees y sandbox limits (config.withStop true) tests testees tally s).1 =
        .ok tally' ∧ tally'.killers ≠ []) ∧
      (runTestees y sandbox limits (config.withStop false) tests testees tally s').1 =
        .error .durationOutOfRange := by
  induction h generalizing tally s s' with
  | here hintime hfound hlate =>
    obtain ⟨tally', -, hkillers, hround⟩ := exists_round hfixes hintime tally
    obtain ⟨kill, hkill⟩ := Option.ne_none_iff_exists'.mp hfound
    rw [hkill] at hkillers hround
    obtain ⟨_, hstop⟩ := hround true _ s
    obtain ⟨_, hall⟩ := hround false _ s'
    refine ⟨⟨tally', hstop, by simp [hkillers]⟩, ?_⟩
    rw [hall]
    exact runTestees_of_late hlate tally' _
  | later hintime hsilent _ ih =>
    obtain ⟨tally', -, -, hround⟩ := exists_round hfixes hintime tally
    rw [hsilent] at hround
    obtain ⟨s₁, hstop⟩ := hround true _ s
    obtain ⟨s₁', hall⟩ := hround false _ s'
    rw [hstop, hall]
    exact ih tally' s₁ s₁'

/-- If no testee is late, all tests are run, and what the first of them have shown is the beginning
of what they show. -/
theorem begins_of_not_late {testees : List Testee}
    (hintime : ∀ testee ∈ testees, ¬Late config tests testee) {tally : Tally} {kill : Kill}
    (hkillers : tally.killers = [kill]) (s : σ) :
    AlikeBy Tally.Begins (.ok tally)
      (runTestees y sandbox limits (config.withStop false) tests testees tally s).1 := by
  rcases hruns : runTestees y sandbox limits (config.withStop false) tests testees tally s with
    ⟨v | tally', s'⟩
  · obtain ⟨-, testee, hmem, hlate⟩ := late_of_runTestees hruns
    exact absurd hlate (hintime testee hmem)
  · -- each run leaves the killer and the runs that count
    obtain ⟨hfirst, heligible⟩ : tally.killers <+: tally'.killers ∧
        tally.eligible ≤ tally'.eligible := by
      refine runTestees_invariant
        (P := fun t => tally.killers <+: t.killers ∧ tally.eligible ≤ t.eligible)
        ?_ ⟨List.prefix_rfl, Nat.le_refl _⟩ hruns
      rintro t test r ⟨hkillers, heligible⟩
      rw [t.killers_count]
      exact ⟨hkillers.trans (List.prefix_append _ _),
        Nat.le_trans heligible (t.eligible_le_count test r)⟩
    obtain ⟨others, hothers⟩ := hfirst
    rw [hkillers] at hothers
    refine .handled ⟨?_, heligible, ?_⟩
    · rw [hkillers, ← hothers]
      rfl
    · intro hnone
      rw [← hothers] at hnone
      cases hnone

/-- Where no test detects a mutant before another one is late, what has been shown when the runs
stop is the beginning of what all runs show. -/
theorem alikeBy_runTestees (hfixes : sandbox.Fixes limits config tests y answer)
    {testees : List Testee} (h : ¬FoundBeforeLate answer config tests testees) {tally : Tally}
    (hnone : tally.killers = []) (s s' : σ) :
    AlikeBy Tally.Begins
      (runTestees y sandbox limits (config.withStop true) tests testees tally s).1
      (runTestees y sandbox limits (config.withStop false) tests testees tally s').1 := by
  induction testees generalizing tally s s' with
  | nil =>
    have hbegins : tally.Begins tally := ⟨by simp [hnone], Nat.le_refl _, fun _ => rfl⟩
    exact .handled hbegins
  | cons testee testees ih =>
    by_cases hlate : Late config tests testee
    · rw [runTestees_cons_of_late (late_withStop_iff.mpr hlate),
        runTestees_cons_of_late (late_withStop_iff.mpr hlate)]
      exact .violated _
    · obtain ⟨tally', -, hkillers, hround⟩ := exists_round hfixes hlate tally
      obtain ⟨s₁, hstop⟩ := hround true testees s
      obtain ⟨s₁', hall⟩ := hround false testees s'
      rw [hstop, hall]
      cases hfinding : finding? answer tests testee with
      | none =>
        rw [hnone, hfinding] at hkillers
        exact ih (fun hfound => h (.later hlate hfinding hfound)) hkillers s₁ s₁'
      | some kill =>
        rw [hnone, hfinding] at hkillers
        refine begins_of_not_late (fun later hmem hlater => h ?_) hkillers s₁'
        exact .here hlate (by simp [hfinding]) ⟨later, hmem, hlater⟩

end Testees

end MutantRun

/-! ## Handling a mutant -/

/-- A mutant can be applied to a program, and what it is then can be built to `y`. -/
def Mutant.BuiltTo (mutant : Mutant) (compiled : CompiledProgram) (p : Program)
    (y : Executable) : Prop :=
  ∃ token mutated, mutant.point.operator.mutate p mutant.point.site = .ok (token, mutated) ∧
    compiled.hasPlaceFor mutated mutant.point.site.module = true ∧
    compiled.executableFor mutated mutant.point.site.module = .ok y

/-- A result has the first killer of another one and at most as many runs, and is the same in
everything else. If the mutant is not killed, it is the same result. -/
structure MutantResult.Shortens (r r' : MutantResult) : Prop where
  eq : r = { r' with killers := r'.killers.take 1, runs := r.runs }
  runs_le : r.runs ≤ r'.runs
  eq_of_not_killed : r'.status ≠ .killed → r = r'

theorem MutantResult.shortens_self {r : MutantResult} (h : r.killers = []) : r.Shortens r :=
  ⟨by rw [h, List.take_nil, ← h], Nat.le_refl _, fun _ => rfl⟩

namespace MutantRun

section Handling

variable {σ : Type} {compiled : CompiledProgram} {sandbox : Sandbox σ} {limits : Limits}
  {config : Config} {tests : List Test} {mutant : Mutant} {p : Program} {y : Executable}
  {answer : Test → RunResult}

/-- A mutant that a test has detected is killed, whatever the sandbox has failed at. -/
theorem judged_of_killers (hsome : mutant.testees ≠ []) (diff : String) {tally : Tally}
    (hkillers : tally.killers ≠ []) :
    judged mutant diff tally =
      { MutantResult.bare mutant.point .killed with
        killers := tally.killers
        runs := tally.eligible
        diff := diff } := by
  have hkilled : classify mutant.testees.length tally.eligible tally.killers = .killed := by
    simp [classify, hsome, hkillers]
  unfold judged
  rw [hkilled]
  rfl

/-- The results of tallies of which one begins the other are related so as well. -/
theorem shortens_judged (hsome : mutant.testees ≠ []) (diff : String) {tally tally' : Tally}
    (h : tally.Begins tally') :
    (judged mutant diff tally).Shortens (judged mutant diff tally') := by
  by_cases hsilent : tally'.killers = []
  · rw [h.eq_of_silent hsilent]
    exact MutantResult.shortens_self hsilent
  · have hkillers : tally.killers ≠ [] := by
      rw [h.killers_eq]
      simpa using hsilent
    rw [judged_of_killers hsome diff hkillers, judged_of_killers hsome diff hsilent,
      h.killers_eq]
    exact ⟨rfl, h.eligible_le, fun hnot => absurd rfl hnot⟩

/-- A mutant that is built has the tests of its testees run, and is judged by their runs. -/
theorem exists_execute_of_builtTo (hsome : mutant.testees ≠ [])
    (hbuilt : mutant.BuiltTo compiled p y) :
    ∃ diff, ∀ config s, (execute compiled sandbox limits config tests mutant p s).1 =
      (runTestees y sandbox limits config tests mutant.testees .start s).1.map
        fun tally => (judged mutant diff tally, p) := by
  obtain ⟨token, mutated, hmutate, hplace, hbuild⟩ := hbuilt
  refine ⟨Text.diff (listingOf p mutant.point.site.funcId)
    (listingOf mutated mutant.point.site.funcId), fun config s => ?_⟩
  rw [execute_of_mutate hsome hmutate]
  dsimp only
  rw [runApplied_of_build hplace hbuild]
  dsimp only
  generalize (runTestees y sandbox limits config tests mutant.testees .start s).1 = outcome
  cases outcome <;> rfl

/-- What comes of a mutant that no test is run on is known beforehand, and has no killers. -/
theorem exists_outcome_of_not_run
    (h : mutant.testees = [] ∨ ∀ y, ¬mutant.BuiltTo compiled p y) :
    ∃ outcome, (∀ config s,
        (execute compiled sandbox limits config tests mutant p s).1 = outcome) ∧
      ∀ result q, outcome = .ok (result, q) → q = p ∧ result.killers = [] := by
  by_cases hnone : mutant.testees = []
  · refine ⟨.ok (.bare mutant.point .notCovered, p), fun config s => ?_, ?_⟩
    · rw [execute_of_uncovered hnone]
    · rintro result q ⟨⟩
      exact ⟨rfl, rfl⟩
  have hbuilt := h.resolve_left hnone
  cases hmutate : mutant.point.operator.mutate p mutant.point.site with
  | error v =>
    refine ⟨.error v, fun config s => ?_, fun _ _ h => by cases h⟩
    rw [execute_of_error hnone hmutate]
  | ok applied =>
    obtain ⟨token, mutated⟩ := applied
    cases hplace : compiled.hasPlaceFor mutated mutant.point.site.module with
    | false =>
      refine ⟨.error .moduleNotCompiled, fun config s => ?_, fun _ _ h => by cases h⟩
      rw [execute_of_mutate hnone hmutate]
      dsimp only
      rw [runApplied_of_not_place hplace]
      rfl
    | true =>
      cases hbuild : compiled.executableFor mutated mutant.point.site.module with
      | ok y => exact absurd ⟨token, mutated, hmutate, hplace, hbuild⟩ (hbuilt y)
      | error e =>
        refine ⟨.ok (unbuilt mutant.point (Text.diff (listingOf p mutant.point.site.funcId)
          (listingOf mutated mutant.point.site.funcId)) e, p), fun config s => ?_, ?_⟩
        · rw [execute_of_mutate hnone hmutate]
          dsimp only
          rw [runApplied_of_error hplace hbuild]
          rfl
        · rintro result q ⟨⟩
          exact ⟨rfl, rfl⟩

/-- A mutant is lost to a run of all tests: it is built, and a test detects it before another one is
late. -/
def Lost (compiled : CompiledProgram) (config : Config) (tests : List Test) (mutant : Mutant)
    (p : Program) (answer : Test → RunResult) : Prop :=
  (∃ y, mutant.BuiltTo compiled p y) ∧ FoundBeforeLate answer config tests mutant.testees

section Fixed

variable (hfixes : ∀ y, mutant.BuiltTo compiled p y → sandbox.Fixes limits config tests y answer)
  (s s' : σ)

include hfixes

/-- What comes of a mutant that is not lost is the same violation, or the result with the first
killer and the result with all of them. -/
theorem alikeBy_execute (h : ¬Lost compiled config tests mutant p answer) :
    AlikeBy (fun a b => a.2 = p ∧ b.2 = p ∧ a.1.Shortens b.1)
      (execute compiled sandbox limits (config.withStop true) tests mutant p s).1
      (execute compiled sandbox limits (config.withStop false) tests mutant p s').1 := by
  by_cases hrun : mutant.testees = [] ∨ ∀ y, ¬mutant.BuiltTo compiled p y
  · obtain ⟨outcome, houtcome, hnone⟩ := exists_outcome_of_not_run hrun
    rw [houtcome, houtcome]
    rcases outcome with v | ⟨result, q⟩
    · exact .violated v
    · obtain ⟨hq, hkillers⟩ := hnone result q rfl
      exact .handled ⟨hq, hq, MutantResult.shortens_self hkillers⟩
  · simp only [not_or, not_forall, not_not] at hrun
    obtain ⟨hsome, y, hbuilt⟩ := hrun
    obtain ⟨diff, hexecute⟩ := exists_execute_of_builtTo hsome hbuilt
    rw [hexecute, hexecute]
    refine (alikeBy_runTestees (hfixes y hbuilt) (fun hfound => h ⟨⟨y, hbuilt⟩, hfound⟩) rfl
      s s').map ?_
    intro tally tally' hbegins
    exact ⟨rfl, rfl, shortens_judged hsome diff hbegins⟩

/-- A mutant that is lost to a run of all tests is killed if the runs stop at the first kill. -/
theorem killed_of_lost (h : Lost compiled config tests mutant p answer) :
    (∃ result,
      (execute compiled sandbox limits (config.withStop true) tests mutant p s).1 =
        .ok (result, p) ∧ result.status = .killed) ∧
      (execute compiled sandbox limits (config.withStop false) tests mutant p s').1 =
        .error .durationOutOfRange := by
  obtain ⟨⟨y, hbuilt⟩, hfound⟩ := h
  have hsome : mutant.testees ≠ [] := by
    intro hnone
    rw [hnone] at hfound
    cases hfound
  obtain ⟨diff, hexecute⟩ := exists_execute_of_builtTo hsome hbuilt
  obtain ⟨⟨tally, hstop, hkillers⟩, hall⟩ :=
    runTestees_of_foundBeforeLate (hfixes y hbuilt) hfound .start s s'
  rw [hexecute, hexecute, hstop, hall]
  refine ⟨⟨_, rfl, ?_⟩, rfl⟩
  rw [judged_of_killers hsome diff hkillers]
  rfl

/-- If all tests are run, the killers of a mutant are what the tests of its testees find. -/
theorem killers_of_execute {result : MutantResult} {q : Program}
    (h : (execute compiled sandbox limits (config.withStop false) tests mutant p s).1 =
      .ok (result, q)) :
    ((∃ y, mutant.BuiltTo compiled p y) →
        result.killers = mutant.testees.filterMap (finding? answer tests)) ∧
      ((¬∃ y, mutant.BuiltTo compiled p y) → result.killers = []) := by
  by_cases hrun : mutant.testees = [] ∨ ∀ y, ¬mutant.BuiltTo compiled p y
  · obtain ⟨outcome, houtcome, hnone⟩ := exists_outcome_of_not_run hrun
    obtain ⟨-, hkillers⟩ := hnone result q ((houtcome _ s).symm.trans h)
    refine ⟨fun ⟨y, hbuilt⟩ => ?_, fun _ => hkillers⟩
    rw [hkillers, hrun.resolve_right fun hnot => hnot y hbuilt, List.filterMap_nil]
  · simp only [not_or, not_forall, not_not] at hrun
    obtain ⟨hsome, y, hbuilt⟩ := hrun
    refine ⟨fun _ => ?_, fun hnot => absurd ⟨y, hbuilt⟩ hnot⟩
    obtain ⟨diff, hexecute⟩ := exists_execute_of_builtTo hsome hbuilt
    rw [hexecute] at h
    rcases hruns : runTestees y sandbox limits (config.withStop false) tests mutant.testees .start s
      with ⟨v | tally, s₁⟩
    · rw [hruns] at h
      cases h
    · rw [hruns] at h
      cases h
      have hfixes : sandbox.Fixes limits (config.withStop false) tests y answer := hfixes y hbuilt
      exact killers_of_runTestees_of_fixes hfixes hruns

end Fixed

end Handling

/-- Stopping at the first kill does not change what is said of a mutant, unless the mutant is lost. Let
the answers of the sandbox to the runs of the tests on the mutant be fixed. A mutant is lost if it is
built and a test detects it before one comes whose time is out of range. If it is not lost, then to
stop at the first kill and to run all tests is the same violation, or the results have the same
verdict, listing and error, the killer of the first is the first killer of the second, the first has
at most as many runs, and without a killer they are the same. If it is lost, then it is killed if the
runs stop there, and to run all tests is a violation. The killers that running all tests gives are
what the tests of the testees find, in their order, or none if the mutant is not built. -/
theorem stopping_keeps_verdict_iff_not_lost {σ : Type} (compiled : CompiledProgram)
    (sandbox : Sandbox σ) (limits : Limits) (config : Config) (tests : List Test) (mutant : Mutant)
    (p : Program) (answer : Test → RunResult)
    (hfixes : ∀ y, mutant.BuiltTo compiled p y → sandbox.Fixes limits config tests y answer)
    (s s' : σ) :
    let stopping := (execute compiled sandbox limits (config.withStop true) tests mutant p s).1
    let running := (execute compiled sandbox limits (config.withStop false) tests mutant p s').1
    (((∃ v, stopping = .error v ∧ running = .error v) ∨
        ∃ first all, stopping = .ok (first, p) ∧ running = .ok (all, p) ∧ first.Shortens all) ↔
      ¬Lost compiled config tests mutant p answer) ∧
    (Lost compiled config tests mutant p answer →
      (∃ first, stopping = .ok (first, p) ∧ first.status = .killed) ∧
        running = .error .durationOutOfRange) ∧
    ∀ all q, running = .ok (all, q) →
      ((∃ y, mutant.BuiltTo compiled p y) →
        all.killers = mutant.testees.filterMap (finding? answer tests)) ∧
      ((¬∃ y, mutant.BuiltTo compiled p y) → all.killers = []) := by
  intro stopping running
  have hlost := killed_of_lost hfixes s s'
  refine ⟨⟨?_, ?_⟩, hlost, fun all q hall => killers_of_execute hfixes s' hall⟩
  · rintro halike h
    obtain ⟨⟨first, hstop, -⟩, hall⟩ := hlost h
    rcases halike with ⟨v, hstop', -⟩ | ⟨_, all, -, hall', -⟩
    · cases hstop.symm.trans hstop'
    · cases hall.symm.trans hall'
  · intro h
    have halike := alikeBy_execute hfixes s s' h
    change AlikeBy _ stopping running at halike
    generalize stopping = a at halike ⊢
    generalize running = b at halike ⊢
    cases halike with
    | violated v => exact .inl ⟨v, rfl, rfl⟩
    | @handled a b h =>
      obtain ⟨first, _⟩ := a
      obtain ⟨all, _⟩ := b
      obtain ⟨rfl, rfl, hshortens⟩ := h
      exact .inr ⟨first, all, rfl, rfl, hshortens⟩

/-- A program with a function that doubles and two tests. -/
def twiceTestedProgram : Program where
  modules :=
    [⟨"lib", [⟨"double", 1, [.binary .add 0 0 0, .ret (some 0)]⟩]⟩,
      ⟨"tests", [⟨"test_first", 0, [.ret none]⟩, ⟨"test_second", 0, [.ret none]⟩]⟩]

/-- The tests have passed, the first in no time and the second in a millisecond. -/
def twoPassedTests : List Test :=
  [⟨0, "test_first", ⟨1, 0⟩, some ⟨.passed, 0, "", none⟩⟩,
    ⟨1, "test_second", ⟨1, 1⟩, some ⟨.passed, Duration.millisecond, "", none⟩⟩]

/-- The mutant of the function, which both tests are said to reach. -/
def twiceTestedMutant : Mutant :=
  let point := Point.create twiceTestedProgram .addToSub ⟨0, 0, 0⟩
  ⟨point, [⟨0, point, 1⟩, ⟨1, point, 1⟩]⟩

/-- A sandbox in which every run fails. -/
def failingSandbox : Sandbox Unit where
  run _ _ s := (⟨.failed, 0, "", none⟩, s)

/-- What comes of the mutant in that sandbox. -/
def twiceTestedOutcome (config : Config) : Except Violation (MutantResult × Program) :=
  (execute ⟨twiceTestedProgram.lower⟩ failingSandbox {} config twoPassedTests twiceTestedMutant
    twiceTestedProgram ()).1

/-- By default no test is late, so to stop at the first of both kills keeps the verdict. -/
theorem two_kills_cut_to_one :
    (∀ y, twiceTestedMutant.BuiltTo ⟨twiceTestedProgram.lower⟩ twiceTestedProgram y →
        failingSandbox.Fixes {} {} twoPassedTests y fun _ => ⟨.failed, 0, "", none⟩) ∧
      ∃ first all,
        twiceTestedOutcome (({} : Config).withStop true) = .ok (first, twiceTestedProgram) ∧
        twiceTestedOutcome (({} : Config).withStop false) = .ok (all, twiceTestedProgram) ∧
        first.Shortens all ∧
        all.killers = [⟨"test_first", .failed⟩, ⟨"test_second", .failed⟩] := by
  have hfixes : ∀ y, twiceTestedMutant.BuiltTo ⟨twiceTestedProgram.lower⟩ twiceTestedProgram y →
      failingSandbox.Fixes {} {} twoPassedTests y fun _ => ⟨.failed, 0, "", none⟩ :=
    fun _ _ _ _ _ _ _ _ _ => rfl
  obtain ⟨halike, -, hkillers⟩ := stopping_keeps_verdict_iff_not_lost ⟨twiceTestedProgram.lower⟩
    failingSandbox {} {} twoPassedTests twiceTestedMutant twiceTestedProgram _ hfixes () ()
  have hbuilt : ∃ y, twiceTestedMutant.BuiltTo ⟨twiceTestedProgram.lower⟩ twiceTestedProgram y :=
    ⟨_, _, _, rfl, rfl, rfl⟩
  have hintime : ∀ testee ∈ twiceTestedMutant.testees, ¬Late {} twoPassedTests testee := by
    refine List.forall_mem_cons.mpr ⟨?_, List.forall_mem_cons.mpr ⟨?_, nofun⟩⟩
    · rw [late_iff rfl rfl]
      decide +kernel
    · rw [late_iff rfl rfl]
      decide +kernel
  have hkept : ¬Lost ⟨twiceTestedProgram.lower⟩ {} twoPassedTests twiceTestedMutant
      twiceTestedProgram fun _ => ⟨.failed, 0, "", none⟩ := by
    rintro ⟨-, hfound⟩
    obtain ⟨testee, hmem, hlate⟩ := hfound.exists_late
    exact hintime testee hmem hlate
  have hverdict : (twiceTestedOutcome (({} : Config).withStop true)).isOk = true := by
    decide +kernel
  refine ⟨hfixes, ?_⟩
  rcases halike.mpr hkept with ⟨v, hstop, -⟩ | ⟨first, all, hstop, hall, hshortens⟩
  · rw [twiceTestedOutcome, hstop] at hverdict
    cases hverdict
  · exact ⟨first, all, hstop, hall, hshortens, (hkillers all _ hall).1 hbuilt⟩

/-- With the multiplier `1e300`, which normalization keeps, the second test is late. The mutant is
killed if the runs stop at the first kill, and to run all tests is a violation. -/
theorem huge_multiplier_loses_killed_mutant :
    let config : Config := ({ timeoutMultiplier := 1e300 } : Config).normalize
    (twiceTestedOutcome (config.withStop true)).map (·.1.status) = .ok .killed ∧
      (twiceTestedOutcome (config.withStop false)).map (·.1.status) =
        .error .durationOutOfRange ∧
      ¬∀ (compiled : CompiledProgram) (sandbox : Sandbox Unit) (limits : Limits) (config : Config)
        (tests : List Test) (mutant : Mutant) (p : Program) (answer : Test → RunResult),
        (∀ y, mutant.BuiltTo compiled p y → sandbox.Fixes limits config tests y answer) →
          ∀ s s',
            (execute compiled sandbox limits (config.withStop true) tests mutant p s).1.map
                (·.1.status) =
              (execute compiled sandbox limits (config.withStop false) tests mutant p s').1.map
                (·.1.status) := by
  intro config
  have hstop : (twiceTestedOutcome (config.withStop true)).map (·.1.status) = .ok .killed := by
    decide +kernel
  have hall : (twiceTestedOutcome (config.withStop false)).map (·.1.status) =
      .error .durationOutOfRange := by decide +kernel
  refine ⟨hstop, hall, ?_⟩
  intro h
  have hsame := h ⟨twiceTestedProgram.lower⟩ failingSandbox {} config twoPassedTests
    twiceTestedMutant twiceTestedProgram (fun _ => ⟨.failed, 0, "", none⟩)
    (fun _ _ _ _ _ _ _ _ _ => rfl) () ()
  change (twiceTestedOutcome _).map _ = (twiceTestedOutcome _).map _ at hsame
  rw [hstop, hall] at hsame
  cases hsame

end MutantRun

end MutationTester
