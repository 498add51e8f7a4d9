import MutationTester.Proofs.Machine.Depths
import MutationTester.Proofs.Machine.Invisibility
import MutationTester.Proofs.Testing.Faithful

/-!
# Why only the tests that execute an instruction need to be run

A test that passes without executing an instruction passes on every mutant of that instruction
(`Work.passes_of_not_executes`), and one that executes it has entered its function at a depth that
is less than the depth of calls that the machine allows (`Work.near_of_executes`). So nothing is
missed where only those tests are run that executed an instruction at such a depth.
-/

set_option autoImplicit false

namespace MutationTester

/-- A verdict has the record of the machine that came to it. -/
theorem coverage_of_verdictOf {e : Ending} {m : Machine} {v : Verdict}
    (h : verdictOf e m = .ok v) : v.coverage = m.coverage := by
  unfold verdictOf at h
  split at h
  next =>
    cases h
    rfl
  next =>
    cases h
    rfl
  next => cases h
  next => cases h

/-- A run that came to a verdict has not called deeper than the stack goes. -/
theorem Limits.outgrown_of_verdictOf (limits : Limits) {e : Ending} {m : Machine} {v : Verdict}
    (h : verdictOf e m = .ok v) : limits.outgrown e = false := by
  unfold outgrown
  split
  next => cases h
  next => rfl

namespace Work

variable {x y : Executable} {limits : Limits} {entry : FuncId} {site : Site}

/-- Work that runs a test comes to the verdict of the test on the stack of a process. -/
theorem verdict?_ofTest_eq_some_iff (x : Executable) (limits : Limits) (instrumented : Bool)
    (entry : FuncId) (n : Nat) (v : Verdict) :
    (ofTest x limits instrumented entry).verdict? n = some v ↔
      runTest x limits.onStack instrumented entry n = .ok (.ok v) := by
  have hcreate : Machine.create limits.onStack instrumented = Machine.create limits instrumented :=
    rfl
  unfold verdict? ofTest endOfTest? runTest
  dsimp only
  rw [hcreate]
  cases Machine.create limits instrumented with
  | error answer => cases answer <;> simp [endingWithoutMemory, Except.map]
  | ok m =>
    simp only [Except.map, Except.ok.injEq]
    generalize m.invoke x limits.onStack n entry [] = r
    cases hverdict : verdictOf r.ending r.machine with
    | ok w => simp [limits.outgrown_of_verdictOf hverdict, endingOf?]
    | error f =>
      cases limits.outgrown r.ending with
      | true => simp
      | false => cases f <;> simp [endingOf?]

/-- A test that passes without executing an instruction passes on an executable that differs at
that instruction only, within every number of steps that is enough for the test. -/
theorem passes_of_not_executes (hxy : Executable.DiffersAt site x y) {n m : Nat}
    (hpasses : (ofTest x limits true entry).passes n = true)
    (hnot : (ofTest x limits true entry).executes n site = false)
    (henough : ∀ e, (ofTest x limits true entry).run? n = some e → e.steps ≤ m) :
    (ofTest y limits false entry).passes m = true := by
  have hsame :
      (ofTest x limits true entry).verdict? m = (ofTest x limits true entry).verdict? n := by
    cases hrun : (ofTest x limits true entry).run? n with
    | none => simp [passes, verdict?, hrun] at hpasses
    | some e =>
      unfold verdict?
      rw [hrun, run?_ofTest_of_enough hrun (henough e hrun)]
  unfold passes executes at *
  obtain ⟨v, hv, hpassed⟩ := (Option.any_eq_true _ _).mp hpasses
  rw [hv, Option.any_some] at hnot
  obtain ⟨hmemory, hverdict⟩ := (runTest_eq_ok_iff ..).mp
    ((verdict?_ofTest_eq_some_iff x limits true entry m v).mp (hsame.trans hv))
  -- both runs are allowed `m` steps, so the lockstep applies as it is
  rcases executed_endOfTest_or_matches hxy limits.onStack entry m with ⟨c, hc, hexecuted⟩ | hmatches
  · rw [coverage_of_verdictOf hverdict, hc, Option.any_some, hexecuted] at hnot
    cases hnot
  · have hcongr := verdictOf_congr (endOfTest x limits.onStack true entry m).ending
      hmatches.machine.output
    rw [hverdict] at hcongr
    cases hmutant : verdictOf (endOfTest x limits.onStack true entry m).ending
        (endOfTest y limits.onStack false entry m).machine with
    | error f =>
      rw [hmutant] at hcongr
      cases hcongr
    | ok w =>
      rw [hmutant] at hcongr
      have hsameVerdict : w.withoutCoverage = v.withoutCoverage := Except.ok.inj hcongr
      rw [← hmatches.ending] at hmutant
      rw [(verdict?_ofTest_eq_some_iff y limits false entry m w).mpr
        ((runTest_eq_ok_iff ..).mpr ⟨hmemory, hmutant⟩), Option.any_some]
      exact (congrArg Verdict.passed hsameVerdict).trans hpassed

/-- A test that executes an instruction has entered its function at a depth that is less than the
depth of calls that the machine allows. -/
theorem near_of_executes {n : Nat} {v : Verdict} {c : Coverage}
    (hv : (ofTest x limits true entry).verdict? n = some v) (hc : v.coverage = some c)
    (hexecuted : c.isExecuted site = true) :
    ∃ depth, c.distance? site.funcId = some depth ∧ depth < limits.maxCallDepth := by
  obtain ⟨-, hverdict⟩ := (runTest_eq_ok_iff ..).mp
    ((verdict?_ofTest_eq_some_iff x limits true entry n v).mp hv)
  have hmaps := endOfTest_maps x limits.onStack entry n c
    ((coverage_of_verdictOf hverdict).symm.trans hc)
  obtain ⟨depth, hdepth⟩ := Option.isSome_iff_exists.mp (hmaps.entered site hexecuted)
  exact ⟨depth, hdepth, Nat.lt_of_lt_of_le (hmaps.shallow _ depth hdepth)
    limits.maxCallDepth_onStack_le⟩

end Work

end MutationTester
