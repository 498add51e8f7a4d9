import MutationTester.Proofs.Build.Linking
import MutationTester.Proofs.Testing.Answers

/-!
# The program of a worker between mutants

A worker handles its mutants one after the other, each on the program that the one before has left
(`MutantRun.session`). However a mutant ends, it leaves the program as it was, or it ends the worker
(`MutantRun.leaves_execute`). So a worker comes to each of its mutants with the program that it
began with, and what it makes of a mutant depends on the others only through the sandbox.
-/

set_option autoImplicit false

namespace MutationTester

namespace MutantRun

section Session

variable {σ : Type} (compiled : CompiledProgram) (sandbox : Sandbox σ) (limits : Limits)
  (config : Config) (tests : List Test)

/-- What comes of the mutants of a worker, with the program that it is left with after each of them.
A worker that violates a contract handles no further mutants. -/
def session : List Mutant → Program → σ → List (Except Violation (MutantResult × Program))
  | [], _, _ => []
  | mutant :: mutants, p, s =>
    match execute compiled sandbox limits config tests mutant p s with
    | (.error v, _) => [.error v]
    | (.ok (result, p), s) => .ok (result, p) :: session mutants p s

/-- The results among the outcomes of a session. -/
def resultsOf (outcomes : List (Except Violation (MutantResult × Program))) : List MutantResult :=
  outcomes.filterMap fun outcome => outcome.toOption.map Prod.fst

/-- What a mutant may lead to: the worker has a result and its program, or the worker dies because
the module has no place among the compiled ones, or because a testee is late. -/
inductive Leaves (p : Program) (mutant : Mutant) :
    Except Violation (MutantResult × Program) → Prop
  | program (result : MutantResult) : Leaves p mutant (.ok (result, p))
  | unplaced {token : Applied} {mutated : Program}
      (hmutate : mutant.point.operator.mutate p mutant.point.site = .ok (token, mutated))
      (hplace : compiled.hasPlaceFor mutated mutant.point.site.module = false) :
      Leaves p mutant (.error .moduleNotCompiled)
  | late {testee : Testee} (htestee : testee ∈ mutant.testees)
      (hlate : Late config tests testee) : Leaves p mutant (.error .durationOutOfRange)

variable {compiled sandbox limits config tests} {p : Program}

/-- A mutant whose operator applies leaves the program as it was, whatever the build and the sandbox
did. -/
theorem leaves_execute {mutant : Mutant}
    (happlies : mutant.point.operator.applies p mutant.point.site = true) (s : σ) :
    Leaves compiled config tests p mutant
      (execute compiled sandbox limits config tests mutant p s).1 := by
  by_cases htestees : mutant.testees = []
  · rw [execute_of_uncovered htestees]
    exact .program _
  · obtain ⟨token, mutated, hmutate⟩ := Operator.exists_mutate_of_applies _ _ _ happlies
    rw [execute_of_mutate htestees hmutate]
    dsimp only
    cases hrun : (runApplied compiled sandbox limits config tests mutant mutated _ s).1 with
    | error v =>
      rcases cause_of_runApplied hrun with ⟨rfl, hplace⟩ | ⟨rfl, testee, htestee, hlate⟩
      · exact .unplaced hmutate hplace
      · exact .late htestee hlate
    | ok result => exact .program result

/-- Every outcome of a session is what comes of its mutant on the program that the worker began
with, in some state of the sandbox. -/
theorem exists_of_getElem?_session {mutants : List Mutant}
    (happlies : ∀ mutant ∈ mutants, mutant.point.operator.applies p mutant.point.site = true)
    {s : σ} {i : Nat} {outcome : Except Violation (MutantResult × Program)}
    (h : (session compiled sandbox limits config tests mutants p s)[i]? = some outcome) :
    ∃ mutant s', mutants[i]? = some mutant ∧
      outcome = (execute compiled sandbox limits config tests mutant p s').1 := by
  induction mutants generalizing s i with
  | nil => cases h
  | cons mutant mutants ih =>
    obtain ⟨hfirst, hothers⟩ := List.forall_mem_cons.mp happlies
    have hleaves : Leaves compiled config tests p mutant
        (execute compiled sandbox limits config tests mutant p s).1 := leaves_execute hfirst s
    rw [session] at h
    rcases hexecute : execute compiled sandbox limits config tests mutant p s with
      ⟨v | ⟨result, q⟩, s₁⟩
    · rw [hexecute] at h
      cases i with
      | zero =>
        cases h
        exact ⟨mutant, s, rfl, by rw [hexecute]⟩
      | succ i => cases h
    · rw [hexecute] at h hleaves
      cases i with
      | zero =>
        cases h
        exact ⟨mutant, s, rfl, by rw [hexecute]⟩
      | succ i =>
        -- the worker goes on with the program that it began with
        cases hleaves
        exact ih hothers h

/-- A worker puts out the results of its session, and dies if the session ends with a violation. -/
theorem runSlice_step_eq (mutants : List Mutant) (s : σ) :
    (runSlice (step compiled sandbox limits config tests) mutants p s).1 =
      let outcomes := session compiled sandbox limits config tests mutants p s
      ⟨resultsOf outcomes, (resultsOf outcomes).length, outcomes.any (!·.isOk)⟩ := by
  induction mutants generalizing p s with
  | nil => rfl
  | cons mutant mutants ih =>
    rw [runSlice, session, step_eq]
    rcases execute compiled sandbox limits config tests mutant p s with ⟨v | ⟨result, q⟩, s₁⟩
    · rfl
    · dsimp only [Except.map]
      rw [ih s₁]
      rfl

/-- A session without a violation has an outcome for each mutant. -/
theorem length_session {mutants : List Mutant} {s : σ}
    (h : ∀ v, .error v ∉ session compiled sandbox limits config tests mutants p s) :
    (session compiled sandbox limits config tests mutants p s).length = mutants.length := by
  induction mutants generalizing p s with
  | nil => rfl
  | cons mutant mutants ih =>
    rw [session] at h ⊢
    rcases hexecute : execute compiled sandbox limits config tests mutant p s with
      ⟨v | ⟨result, q⟩, s₁⟩
    · rw [hexecute] at h
      exact absurd List.mem_cons_self (h v)
    · rw [hexecute] at h
      dsimp only at h ⊢
      rw [List.length_cons, List.length_cons, ih fun v hv => h v (List.mem_cons_of_mem _ hv)]

end Session

/-- The program of a worker is pristine between mutants. Let a worker handle mutants whose operators
apply on its program, in any order and with repetitions, with anything compiled to build them from
and with any sandbox. It puts out the results of its session, and if it does not die it has handled
all mutants. After each mutant, however that ended, the worker has the program that it began with,
unless it dies of it. So if the sandbox gives the same answers at all times, then the outcome of
each mutant is the one of handling this mutant first, in any state of the sandbox. -/
theorem program_is_pristine_between_mutants {σ : Type} (compiled : CompiledProgram)
    (sandbox : Sandbox σ) (limits : Limits) (config : Config) (tests : List Test) (p : Program)
    (mutants : List Mutant) (s : σ)
    (happlies : ∀ mutant ∈ mutants, mutant.point.operator.applies p mutant.point.site = true) :
    let outcomes := session compiled sandbox limits config tests mutants p s
    (runSlice (step compiled sandbox limits config tests) mutants p s).1 =
        ⟨resultsOf outcomes, (resultsOf outcomes).length, outcomes.any (!·.isOk)⟩ ∧
      ((∀ v, .error v ∉ outcomes) → outcomes.length = mutants.length) ∧
      ∀ (i : Nat) (outcome : Except Violation (MutantResult × Program)),
        outcomes[i]? = some outcome → ∃ mutant, mutants[i]? = some mutant ∧
          Leaves compiled config tests p mutant outcome ∧
          ∀ answer, sandbox.Answers answer →
            ∀ s', (execute compiled sandbox limits config tests mutant p s').1 = outcome := by
  refine ⟨runSlice_step_eq mutants s, length_session, ?_⟩
  intro i outcome houtcome
  obtain ⟨mutant, s₁, hmutant, rfl⟩ := exists_of_getElem?_session happlies houtcome
  refine ⟨mutant, hmutant, leaves_execute (happlies mutant (List.mem_of_getElem? hmutant)) s₁, ?_⟩
  intro answer hanswers s'
  refine (agree_execute hanswers hanswers rfl rfl s' s₁).resolve_right ?_
  rintro ⟨⟨_, -, hdiffer⟩, -⟩
  exact hdiffer Iff.rfl

/-- A program with a function that adds one, and a test of it. -/
def countingProgram : Program where
  modules :=
    [⟨"lib", [⟨"next", 1, [.const 1 1, .binary .add 0 0 1, .ret (some 0)]⟩]⟩,
      ⟨"tests", [⟨"test_next", 0, [.const 0 1, .call (some 1) "next" [0], .const 2 2,
        .compare .eq 3 1 2, .assert 3, .ret none]⟩]⟩]

/-- The mutant of the program at a site, which the test reaches. -/
def countingMutant (op : Operator) (site : Site) : Mutant where
  point := Point.create countingProgram op site
  testees := [⟨0, Point.create countingProgram op site, 1⟩]

/-- Mutants of the program, the first of which comes again. -/
def countingMutants : List Mutant :=
  [countingMutant .addToSub ⟨0, 0, 1⟩, countingMutant .negateCondition ⟨1, 0, 3⟩,
    countingMutant .addToSub ⟨0, 0, 1⟩]

/-- The test of the program, which has passed. -/
def countingTest : Test := ⟨0, "test_next", ⟨1, 0⟩, some ⟨.passed, 0, "", none⟩⟩

/-- The mutant that subtracts is killed in the end as it is in the beginning, with another mutant in
between. -/
theorem handles_repeated_mutant_alike :
    (∀ mutant ∈ countingMutants,
      mutant.point.operator.applies countingProgram mutant.point.site = true) ∧
      ∃ result, (session ⟨countingProgram.lower⟩ (Sandbox.ofKind .none) {} {} [countingTest]
          countingMutants countingProgram ())[2]? = some (.ok (result, countingProgram)) ∧
        result.status = .killed ∧
        (execute ⟨countingProgram.lower⟩ (Sandbox.ofKind .none) {} {} [countingTest]
          (countingMutant .addToSub ⟨0, 0, 1⟩) countingProgram ()).1 =
            .ok (result, countingProgram) := by
  have happlies : ∀ mutant ∈ countingMutants,
      mutant.point.operator.applies countingProgram mutant.point.site = true := by decide
  obtain ⟨-, -, houtcomes⟩ := program_is_pristine_between_mutants ⟨countingProgram.lower⟩
    (Sandbox.ofKind .none) {} {} [countingTest] countingProgram countingMutants () happlies
  have hthird : ((session ⟨countingProgram.lower⟩ (Sandbox.ofKind .none) {} {} [countingTest]
      countingMutants countingProgram ())[2]?.bind Except.toOption).map (·.1.status) =
        some .killed := by
    decide +kernel
  obtain ⟨⟨result, q⟩, hresult, hstatus⟩ := Option.map_eq_some_iff.mp hthird
  obtain ⟨_ | _, houtcome, hok⟩ := Option.bind_eq_some_iff.mp hresult
  · cases hok
  · cases hok
    obtain ⟨mutant, hmutant, hleaves, hanswers⟩ := houtcomes 2 _ houtcome
    cases hmutant
    cases hleaves
    exact ⟨happlies, result, houtcome, hstatus, hanswers _ Sandbox.answers_ofKind_none ()⟩

end MutantRun

end MutationTester
