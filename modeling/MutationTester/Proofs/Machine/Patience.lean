import MutationTester.Proofs.Machine.Steps
import MutationTester.Sandbox.Work

/-!
# Runs and the number of steps they are allowed

A run that ends by itself is the same run whatever number of steps it is allowed, as long as it
is allowed those that it makes; only the number of unspent steps follows the allowance
(`RunState.run_of_enough`). So the end of a test run is a fact about the test, not about the
patience of whoever watches it (`Work.run?_ofTest_of_enough`).
-/

set_option autoImplicit false

namespace MutationTester

/-- The same end with another number of unspent steps. -/
def RunEnd.withUnspent (r : RunEnd) (n : Nat) : RunEnd := { r with unspent := n }

namespace RunState

/-- A run that is allowed a step makes one. -/
theorem unspent_run_succ_le (x : Executable) (limits : Limits) (c : RunState) (n : Nat) :
    (c.run x limits (n + 1)).unspent ≤ n := by
  induction n generalizing c with
  | zero =>
    cases hstep : c.step x limits with
    | running c' => exact Nat.le_of_eq (congrArg RunEnd.unspent (run_succ_of_running hstep 0))
    | ended e m => exact Nat.le_of_eq (congrArg RunEnd.unspent (run_succ_of_ended hstep 0))
  | succ n ih =>
    cases hstep : c.step x limits with
    | running c' =>
      rw [run_succ_of_running hstep]
      exact Nat.le_succ_of_le (ih c')
    | ended e m => exact Nat.le_of_eq (congrArg RunEnd.unspent (run_succ_of_ended hstep _))

/-- What is not spent is part of the allowance. -/
theorem unspent_run_le (x : Executable) (limits : Limits) (c : RunState) (n : Nat) :
    (c.run x limits n).unspent ≤ n := by
  cases n with
  | zero => exact Nat.le_refl 0
  | succ n => exact Nat.le_succ_of_le (unspent_run_succ_le x limits c n)

/-- A run that ends by itself within `n` steps ends in the same way within any number of steps
that is not below the number of those it makes. -/
theorem run_of_enough (x : Executable) (limits : Limits) (c : RunState) (n m : Nat)
    (hends : (c.run x limits n).ending ≠ .trapped .interrupted)
    (hm : n ≤ m + (c.run x limits n).unspent) :
    c.run x limits m = (c.run x limits n).withUnspent (m + (c.run x limits n).unspent - n) := by
  induction n generalizing c m with
  | zero => exact absurd rfl hends
  | succ n ih =>
    -- a step is made, so the other allowance is positive as well
    have hle := unspent_run_succ_le x limits c n
    obtain ⟨m', rfl⟩ : ∃ m', m = m' + 1 := ⟨m - 1, by omega⟩
    cases hstep : c.step x limits with
    | running c' =>
      rw [run_succ_of_running hstep] at hends hm ⊢
      rw [run_succ_of_running hstep, ih c' m' hends (by omega)]
      congr 1
      omega
    | ended e machine =>
      rw [run_succ_of_ended hstep, run_succ_of_ended hstep]
      show (⟨e, machine, m'⟩ : RunEnd) = ⟨e, machine, m' + 1 + n - (n + 1)⟩
      congr 1
      omega

end RunState

namespace Machine

/-- What is not spent is part of the allowance of an invocation. -/
theorem unspent_invoke_le (m : Machine) (x : Executable) (limits : Limits) (n : Nat) (id : FuncId)
    (args : List Int64) : (m.invoke x limits n id args).unspent ≤ n := by
  unfold invoke
  cases x.function? id with
  | none => exact Nat.le_refl n
  | some f =>
    dsimp only
    cases enter limits f args [] m with
    | running c => exact RunState.unspent_run_le x limits c n
    | ended e machine => exact Nat.le_refl n

/-- The end of an invocation, too, is the same for every sufficient allowance. -/
theorem invoke_of_enough (m : Machine) (x : Executable) (limits : Limits) (id : FuncId)
    (args : List Int64) (n k : Nat)
    (hends : (m.invoke x limits n id args).ending ≠ .trapped .interrupted)
    (hk : n ≤ k + (m.invoke x limits n id args).unspent) :
    m.invoke x limits k id args = (m.invoke x limits n id args).withUnspent
      (k + (m.invoke x limits n id args).unspent - n) := by
  have hended : ∀ (e : Ending) (machine : Machine),
      (⟨e, machine, k⟩ : RunEnd) = RunEnd.withUnspent ⟨e, machine, n⟩ (k + n - n) := by
    intro e machine
    rw [Nat.add_sub_cancel]
    rfl
  unfold invoke at hends hk ⊢
  cases hfunction : x.function? id with
  | none => exact hended _ _
  | some f =>
    simp only [hfunction] at hends hk ⊢
    cases henter : enter limits f args [] m with
    | running c =>
      simp only [henter] at hends hk ⊢
      exact RunState.run_of_enough x limits c n k hends hk
    | ended e machine => exact hended e machine

end Machine

theorem endOfTest_of_enough (x : Executable) (limits : Limits) (instrumented : Bool)
    (entry : FuncId) (n m : Nat)
    (hends : (endOfTest x limits instrumented entry n).ending ≠ .trapped .interrupted)
    (hm : n ≤ m + (endOfTest x limits instrumented entry n).unspent) :
    endOfTest x limits instrumented entry m =
      (endOfTest x limits instrumented entry n).withUnspent
        (m + (endOfTest x limits instrumented entry n).unspent - n) :=
  (Machine.fresh limits instrumented).invoke_of_enough x limits entry [] n m hends hm

namespace Work

/-- A test run that ends by itself as work has not been interrupted. -/
theorem ending_ne_interrupted_of_endOfTest? {m : Machine} {x : Executable} {limits : Limits}
    {entry : FuncId} {n : Nat} {e : WorkEnd} (h : endOfTest? m x limits entry n = some e) :
    (m.invoke x limits.onStack n entry []).ending ≠ .trapped .interrupted := by
  intro hinterrupted
  unfold endOfTest? at h
  simp only [hinterrupted, Limits.outgrown, verdictOf, endingOf?] at h
  cases h

/-- Work that runs a test makes no more steps than it may. -/
theorem steps_le_of_run?_ofTest {x : Executable} {limits : Limits} {instrumented : Bool}
    {entry : FuncId} {n : Nat} {e : WorkEnd}
    (h : (ofTest x limits instrumented entry).run? n = some e) : e.steps ≤ n := by
  unfold ofTest at h
  dsimp only at h
  split at h
  next =>
    unfold endOfTest? at h
    obtain ⟨ending, -, rfl⟩ := Option.map_eq_some_iff.mp h
    exact Nat.sub_le n _
  next =>
    cases h
    exact Nat.zero_le n

/-- A test run that ends within `n` steps ends in the same way within any number of steps that is
not below the number of those it makes. -/
theorem endOfTest?_of_enough {m : Machine} {x : Executable} {limits : Limits} {entry : FuncId}
    {n k : Nat} {e : WorkEnd} (h : endOfTest? m x limits entry n = some e) (hk : e.steps ≤ k) :
    endOfTest? m x limits entry k = some e := by
  have hends := ending_ne_interrupted_of_endOfTest? h
  have hle := m.unspent_invoke_le x limits.onStack n entry []
  unfold endOfTest? at h ⊢
  obtain ⟨ending, hending, rfl⟩ := Option.map_eq_some_iff.mp h
  dsimp only at hk
  rw [m.invoke_of_enough x limits.onStack entry [] n k hends (by omega)]
  refine Option.map_eq_some_iff.mpr ⟨ending, hending, ?_⟩
  simp only [RunEnd.withUnspent, WorkEnd.mk.injEq, true_and]
  omega

/-- The same holds of the run as work, with or without a machine to run it on. -/
theorem run?_ofTest_of_enough {x : Executable} {limits : Limits} {instrumented : Bool}
    {entry : FuncId} {n m : Nat} {e : WorkEnd}
    (h : (ofTest x limits instrumented entry).run? n = some e) (hm : e.steps ≤ m) :
    (ofTest x limits instrumented entry).run? m = some e := by
  unfold ofTest at h ⊢
  dsimp only at h ⊢
  generalize Machine.create limits instrumented = created at h ⊢
  cases created with
  | ok machine => exact endOfTest?_of_enough h hm
  | error answer => exact h

end Work

end MutationTester
