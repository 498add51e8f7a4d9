import MutationTester.Testing.MutantRun
import MutationTester.Proofs.Build.Linking
import MutationTester.Proofs.Machine.Patience

/-!
# Faithful sandboxes

What a campaign needs to know of its sandbox: that it grants every test some number of steps on the
program and no fewer on the mutants, and that the results it gives tell what became of the work
within these steps (`Sandbox.Faithful`). The sandbox that runs tests in the tester is faithful
(`Sandbox.faithful_ofKind_none`).
-/

set_option autoImplicit false

namespace MutationTester

/-- The verdict that work comes to within some steps, if it comes to one. -/
def Work.verdict? (work : Work) (steps : Nat) : Option Verdict :=
  match work.run? steps with
  | some ⟨.finished v, _⟩ => some v
  | _ => none

/-- Whether work comes to the verdict, within some steps, that it passed. -/
def Work.passes (work : Work) (steps : Nat) : Bool := (work.verdict? steps).any Verdict.passed

/-- Whether work that comes to a verdict within some steps has executed an instruction, as far as
it kept a record. -/
def Work.executes (work : Work) (steps : Nat) (site : Site) : Bool :=
  (work.verdict? steps).any fun v => v.coverage.any (·.isExecuted site)

/-- A result tells what became of work: it passed or failed by its verdict, with the record that it
kept, crashed if it ended without verdict, and timed out if it did not end. -/
def RunResult.Reports (r : RunResult) : Option WorkEnd → Prop
  | none => r.status = .timedOut
  | some ⟨.finished v, _⟩ =>
    r.status = (if v.passed then .passed else .failed) ∧ r.coverage = v.coverage
  | some ⟨.faulted .interrupted, _⟩ => r.status = .timedOut
  | some ⟨.faulted (.trapped _), _⟩ => r.status = .crashed
  | some ⟨.panicked _, _⟩ => r.status = .crashed
  | some ⟨.aborted, _⟩ => r.status = .crashed

/-- A result that tells what became of work shows the verdict that the work came to, or that it came
to none. -/
theorem RunResult.Reports.cases {r : RunResult} {work : Work} {steps : Nat}
    (h : r.Reports (work.run? steps)) :
    (∃ v, work.verdict? steps = some v ∧ r.status = (if v.passed then .passed else .failed) ∧
        r.coverage = v.coverage) ∨
      (work.verdict? steps = none ∧ (r.status = .timedOut ∨ r.status = .crashed)) := by
  unfold Work.verdict?
  unfold Reports at h
  split at h
  next hrun => exact .inr ⟨by rw [hrun], .inl h⟩
  next v k hrun => exact .inl ⟨v, by rw [hrun], h⟩
  next hrun => exact .inr ⟨by rw [hrun], .inl h⟩
  next hrun => exact .inr ⟨by rw [hrun], .inr h⟩
  next hrun => exact .inr ⟨by rw [hrun], .inr h⟩
  next hrun => exact .inr ⟨by rw [hrun], .inr h⟩

theorem RunResult.Reports.status_ne_error {r : RunResult} {work : Work} {steps : Nat}
    (h : r.Reports (work.run? steps)) : r.status ≠ .error := by
  rcases h.cases with ⟨v, -, hstatus, -⟩ | ⟨-, hstatus | hstatus⟩
  · rw [hstatus]
    cases v.passed <;> decide
  · simp [hstatus]
  · simp [hstatus]

/-- A result that tells what became of work has passed exactly if the work did. -/
theorem RunResult.Reports.status_eq_passed_iff {r : RunResult} {work : Work} {steps : Nat}
    (h : r.Reports (work.run? steps)) : r.status = .passed ↔ work.passes steps = true := by
  unfold Work.passes
  rcases h.cases with ⟨v, hv, hstatus, -⟩ | ⟨hnone, hstatus | hstatus⟩
  · rw [hstatus, hv, Option.any_some]
    cases hpassed : v.passed <;> simp
  · simp [hstatus, hnone]
  · simp [hstatus, hnone]

/-- A result that has passed hands back the record of the verdict that the work came to. -/
theorem RunResult.Reports.exists_verdict {r : RunResult} {work : Work} {steps : Nat}
    (h : r.Reports (work.run? steps)) (hpassed : r.status = .passed) :
    ∃ v, work.verdict? steps = some v ∧ r.coverage = v.coverage := by
  rcases h.cases with ⟨v, hv, -, hcoverage⟩ | ⟨-, hstatus | hstatus⟩
  · exact ⟨v, hv, hcoverage⟩
  · simp [hstatus] at hpassed
  · simp [hstatus] at hpassed

section Faithful

variable {σ : Type}

/-- The time that a test is granted on a mutant after it took what it may take on the program. -/
def Sandbox.GrantsTime (sandbox : Sandbox σ) (x : Executable) (limits : Limits) (config : Config)
    (entry : FuncId) (time : Duration) : Prop :=
  ∃ s, config.mutantTimeout?
    (sandbox.run (.ofTest x limits true entry) config.timeout s).1.duration = some time

/-- A sandbox is faithful to the tests of a program if it lets each make some number of steps on
the program and some number on the mutants, no fewer than those after which it ended on the
program, and tells what became of it. -/
structure Sandbox.Faithful (sandbox : Sandbox σ) (p : Program) (x : Executable) (limits : Limits)
    (config : Config) (patience budget : FuncId → Nat) : Prop where
  baseline : ∀ test ∈ p.findTests config, ∀ s,
    (sandbox.run (.ofTest x limits true test.entry) config.timeout s).1.Reports
      ((Work.ofTest x limits true test.entry).run? (patience test.entry))
  mutant : ∀ test ∈ p.findTests config, ∀ op site token mutated y,
    Operator.mutate op p site = .ok (token, mutated) → mutated.Builds y →
      ∀ time, sandbox.GrantsTime x limits config test.entry time → ∀ s,
        (sandbox.run (.ofTest y limits false test.entry) time s).1.Reports
          ((Work.ofTest y limits false test.entry).run? (budget test.entry))
  enough : ∀ test ∈ p.findTests config, ∀ e,
    (Work.ofTest x limits true test.entry).run? (patience test.entry) = some e →
      e.steps ≤ budget test.entry

end Faithful

/-- What becomes of work inside the tester is told by its result. -/
theorem Work.reports_runInProcess (work : Work) (steps : Nat) :
    (work.runInProcess steps).Reports (work.run? steps) := by
  unfold runInProcess
  cases work.run? steps with
  | none => rfl
  | some e =>
    obtain ⟨ending, k⟩ := e
    cases ending with
    | finished v => exact ⟨rfl, rfl⟩
    | faulted f =>
      cases f with
      | trapped message => exact rfl
      | interrupted => exact rfl
    | panicked payload => exact rfl
    | aborted => exact rfl

/-- The sandbox that runs everything inside the tester is faithful to the tests of any program. -/
theorem Sandbox.faithful_ofKind_none (p : Program) (x : Executable) (limits : Limits)
    (config : Config) :
    (Sandbox.ofKind .none).Faithful p x limits config (fun _ => Work.unwatched)
      (fun _ => Work.unwatched) where
  baseline _ _ _ := Work.reports_runInProcess _ _
  mutant _ _ _ _ _ _ _ _ _ _ _ _ := Work.reports_runInProcess _ _
  enough _ _ _ h := Work.steps_le_of_run?_ofTest h

end MutationTester
