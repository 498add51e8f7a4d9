import MutationTester.Proofs.Build.Incremental
import MutationTester.Proofs.Machine.Lockstep
import MutationTester.Proofs.Machine.Patience

/-!
# Mutations that a test does not come to

A test that does not execute an instruction cannot tell whether that instruction has been
mutated: on the mutant it ends as it does on the program. The test may be run on the program with
a coverage record and on the mutant without one, and the frames of the mutated function may be
smaller than they were.
-/

set_option autoImplicit false

namespace MutationTester

/-- A verdict without the record of what was executed. -/
def Verdict.withoutCoverage (v : Verdict) : Verdict := { v with coverage := none }

/-- The verdict on a run, and the trap that stopped it, depend on how it ended and on what it
printed. -/
theorem verdictOf_congr (e : Ending) {m n : Machine} (h : n.output = m.output) :
    (verdictOf e n).map Verdict.withoutCoverage = (verdictOf e m).map Verdict.withoutCoverage := by
  unfold verdictOf
  split <;> simp [Except.map, Verdict.withoutCoverage, h]

/-- On an executable that differs at one site a test that does not come to that site ends as it
does on the other, for every allowance that its steps do not exceed. -/
theorem endOfTest_matches_of_not_executed {s : Site} {x y : Executable}
    (hxy : Executable.DiffersAt s x y) {limits : Limits} {entry : FuncId} {n m : Nat}
    (hends : (endOfTest x limits true entry n).ending ≠ .trapped .interrupted)
    (hnot : ¬(endOfTest x limits true entry n).machine.Executed s)
    (hm : n ≤ m + (endOfTest x limits true entry n).unspent) :
    (endOfTest x limits true entry m).Matches (endOfTest y limits false entry m) := by
  have hsame := endOfTest_of_enough x limits true entry n m hends hm
  refine (executed_endOfTest_or_matches hxy limits entry m).resolve_left ?_
  rw [hsame]
  exact hnot

namespace Program

/-- A mutant of a program that compiles and links is built by compiling one module anew, to an
executable that differs from that of the program at the site of the mutation only. -/
theorem exists_executableFor_of_applies {p : Program} {compiled : CompiledProgram}
    {x : Executable} {op : Operator} {s : Site} (hcompile : p.compile = .ok compiled)
    (hlink : compiled.executable = .ok x) (happlies : op.applies p s = true) :
    ∃ token mutated y, op.mutate p s = .ok (token, mutated) ∧ mutated.Builds y ∧
      compiled.executableFor mutated s.module = .ok y ∧ Executable.DiffersAt s x y := by
  obtain ⟨token, mutated, hmutate⟩ := op.exists_mutate_of_applies p s happlies
  have hbuilds : p.Builds x := by
    unfold Builds
    rw [hcompile]
    exact hlink
  obtain ⟨y, hy, hdiffers⟩ := hbuilds.exists_of_mutate hmutate
  refine ⟨token, mutated, y, hmutate, hy, ?_, hdiffers⟩
  obtain ⟨before, after, hbefore, -, -, rfl⟩ := (op.mutate_eq_ok_iff p s _ _).mp hmutate
  obtain ⟨hdefect, rfl⟩ := (compile_eq_ok_iff p compiled).mp hcompile
  rw [CompiledProgram.executableFor_lower_eq hdefect (module_lt_of_instruction? hbefore)
    (differsAt_setInstruction p s after)]
  exact hy

/-- A mutation at an instruction that a test does not execute is invisible to the test. If the
test ends on the program, by itself and without having executed the instruction, it ends on the
mutant in the same way and with the same output, for every number of steps that suffices; so it
has the same verdict or is stopped by the same trap. -/
theorem unexecuted_mutation_is_invisible (p : Program) (compiled : CompiledProgram)
    (x : Executable) (op : Operator) (s : Site) (limits : Limits) (entry : FuncId) (n : Nat)
    (hcompile : p.compile = .ok compiled) (hlink : compiled.executable = .ok x)
    (happlies : op.applies p s = true)
    (hends : (endOfTest x limits true entry n).ending ≠ .trapped .interrupted)
    (hcoverage : ∀ c, (endOfTest x limits true entry n).machine.coverage = some c →
      c.isExecuted s = false) :
    ∃ token mutated y, op.mutate p s = .ok (token, mutated) ∧
      compiled.executableFor mutated s.module = .ok y ∧
      ∀ m, n ≤ m + (endOfTest x limits true entry n).unspent →
        (endOfTest y limits false entry m).ending = (endOfTest x limits true entry n).ending ∧
        (endOfTest y limits false entry m).machine.output =
          (endOfTest x limits true entry n).machine.output ∧
        (runTest y limits false entry m).map (Except.map Verdict.withoutCoverage) =
          (runTest x limits true entry n).map (Except.map Verdict.withoutCoverage) := by
  obtain ⟨token, mutated, y, hmutate, -, hexecutable, hdiffers⟩ :=
    exists_executableFor_of_applies hcompile hlink happlies
  refine ⟨token, mutated, y, hmutate, hexecutable, ?_⟩
  intro m hm
  have hnot : ¬(endOfTest x limits true entry n).machine.Executed s := by
    rintro ⟨c, hc, hs⟩
    rw [hcoverage c hc] at hs
    cases hs
  have hmatches := endOfTest_matches_of_not_executed hdiffers hends hnot hm
  rw [endOfTest_of_enough x limits true entry n m hends hm] at hmatches
  refine ⟨hmatches.ending, hmatches.machine.output, ?_⟩
  by_cases hmemory : limits.memoryAnswer = .granted
  · rw [runTest_of_granted hmemory, runTest_of_granted hmemory, hmatches.ending]
    exact congrArg Except.ok (verdictOf_congr _ hmatches.machine.output)
  · rw [runTest_of_not_granted hmemory, runTest_of_not_granted hmemory]

/-- A program with a test that jumps over the only call of a helper and is then aborted. -/
def skippingProgram : Program where
  modules :=
    [⟨"lib", [⟨"helper", 1, [.ret none]⟩,
        ⟨"skip", 0, [.jump 2, .call none "helper" [7], .ret none]⟩]⟩,
      ⟨"tests", [⟨"test_skip", 0, [.call none "skip" [], .abort]⟩]⟩]

/-- What the program builds to. -/
def skippingExecutable : Executable where
  modules := skippingProgram.lower
  symbols := [("test_skip", ⟨1, 0⟩), ("skip", ⟨0, 1⟩), ("helper", ⟨0, 0⟩)]

/-- Removing the call that is skipped makes the frame of its function smaller, and the test is
aborted as before. -/
theorem removed_skipped_call_is_invisible :
    Operator.removeVoidCall.applies skippingProgram ⟨0, 1, 1⟩ = true ∧
      ∃ token mutated y,
        Operator.removeVoidCall.mutate skippingProgram ⟨0, 1, 1⟩ = .ok (token, mutated) ∧
        (⟨skippingProgram.lower⟩ : CompiledProgram).executableFor mutated 0 = .ok y ∧
        (endOfTest y {} false ⟨1, 0⟩ 4).ending = .trapped (.abort "test_skip" 1) := by
  have happlies : Operator.removeVoidCall.applies skippingProgram ⟨0, 1, 1⟩ = true := by decide
  have hending : (endOfTest skippingExecutable {} true ⟨1, 0⟩ 10).ending =
      .trapped (.abort "test_skip" 1) := rfl
  have hcoverage : ∀ c, (endOfTest skippingExecutable {} true ⟨1, 0⟩ 10).machine.coverage =
      some c → c.isExecuted ⟨0, 1, 1⟩ = false := by
    intro c hc
    have h : (endOfTest skippingExecutable {} true ⟨1, 0⟩ 10).machine.coverage.map
        (·.isExecuted ⟨0, 1, 1⟩) = some false := rfl
    rw [hc] at h
    exact Option.some.inj h
  obtain ⟨token, mutated, y, hmutate, hexecutable, hsame⟩ :=
    unexecuted_mutation_is_invisible skippingProgram ⟨skippingProgram.lower⟩ skippingExecutable
      .removeVoidCall ⟨0, 1, 1⟩ {} ⟨1, 0⟩ 10 rfl rfl happlies (by rw [hending]; decide) hcoverage
  obtain ⟨hsame, -, -⟩ := hsame 4 (by decide +kernel)
  exact ⟨happlies, token, mutated, y, hmutate, hexecutable, hsame.trans hending⟩

end Program

end MutationTester
