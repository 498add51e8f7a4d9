import MutationTester.Proofs.Machine.Steps

/-!
# What a run records

A coverage record answers for each site whether it was executed and for each function how deep
it was entered; the lemmas of the first part say how the answers change when something is
recorded. From the effects of steps it follows that what is executed once stays executed
(`RunState.executed_run`).
-/

set_option autoImplicit false

namespace MutationTester

/-! ## Coverage records -/

namespace Coverage

@[simp] theorem isExecuted_empty (s : Site) : empty.isExecuted s = false := rfl

/-- Recording a site makes it executed, and no other. -/
theorem isExecuted_hit (c : Coverage) (s t : Site) :
    (c.hit s).isExecuted t = (decide (t = s) || c.isExecuted t) := by
  unfold isExecuted hit
  rw [Std.ExtTreeSet.contains_insert]
  congr 1
  rw [Bool.eq_iff_iff, beq_iff_eq, Std.compare_eq_iff_eq, decide_eq_true_eq, eq_comm]

@[simp] theorem distance?_hit (c : Coverage) (s : Site) (f : FuncId) :
    (c.hit s).distance? f = c.distance? f := rfl

@[simp] theorem isExecuted_enter (c : Coverage) (f : FuncId) (depth : Nat) (s : Site) :
    (c.enter f depth).isExecuted s = c.isExecuted s := rfl

/-- Recording an entry gives the function the least of its depths, and no other function. -/
theorem distance?_enter (c : Coverage) (f g : FuncId) (depth : Nat) :
    (c.enter f depth).distance? g =
      if g = f then some (match c.distance? f with
        | some least => min least depth
        | none => depth)
      else c.distance? g := by
  unfold distance? enter
  rw [Std.ExtTreeMap.getElem?_alter]
  by_cases hg : g = f
  · subst hg
    rw [if_pos (Std.compare_self), if_pos rfl]
    cases c.depths[g]? <;> rfl
  · have hne : compare f g ≠ .eq := fun h => hg (Std.compare_eq_iff_eq.mp h).symm
    rw [if_neg hne, if_neg hg]

end Coverage

/-! ## The record of a machine -/

namespace Machine

/-- Whether the machine has recorded that a site was executed. -/
def Executed (m : Machine) (s : Site) : Prop := ∃ c, m.coverage = some c ∧ c.isExecuted s = true

@[simp] theorem coverage_recordEntry (m : Machine) (f : FuncId) (depth : Nat) :
    (m.recordEntry f depth).coverage = m.coverage.map (·.enter f depth) := rfl

@[simp] theorem coverage_recordHit (m : Machine) (s : Site) :
    (m.recordHit s).coverage = m.coverage.map (·.hit s) := rfl

/-- What is executed does not change when an entry is recorded. -/
theorem executed_recordEntry_iff (m : Machine) (f : FuncId) (depth : Nat) (s : Site) :
    (m.recordEntry f depth).Executed s ↔ m.Executed s := by
  unfold Executed
  rw [coverage_recordEntry]
  cases m.coverage <;> simp

/-- On an instrumented machine, recording a site adds that site to what is executed. -/
theorem executed_recordHit_iff (m : Machine) (h : m.coverage.isSome = true) (s t : Site) :
    (m.recordHit s).Executed t ↔ t = s ∨ m.Executed t := by
  obtain ⟨c, hc⟩ := Option.isSome_iff_exists.mp h
  unfold Executed
  simp [hc, Coverage.isExecuted_hit]

/-- What is executed stays executed when a site is recorded. -/
theorem Executed.recordHit {m : Machine} {t : Site} (h : m.Executed t) (s : Site) :
    (m.recordHit s).Executed t := by
  obtain ⟨c, hc, ht⟩ := h
  exact ⟨c.hit s, by simp [hc], by simp [Coverage.isExecuted_hit, ht]⟩

end Machine

/-! ## Records are kept -/

section Kept

variable {x : Executable} {limits : Limits} {m : Machine}

/-- A machine that keeps a record still does after a function is entered. -/
theorem isSome_coverage_enter (h : m.coverage.isSome = true) (f : CompiledFunc) (args : List Int64)
    (waiting : List Waiting) : (enter limits f args waiting m).machine.coverage.isSome = true := by
  unfold enter
  split
  · exact h
  · simpa [Progress.machine] using h

/-- A machine that keeps a record still does after the running function is left. -/
theorem isSome_coverage_leave (h : m.coverage.isSome = true) (value : Option Int64)
    (waiting : List Waiting) : (leave value waiting m).machine.coverage.isSome = true := by
  unfold leave
  split <;> exact h

/-- A machine that keeps a record still does after a step. -/
theorem RunState.isSome_coverage_step {c : RunState} (h : c.machine.coverage.isSome = true) :
    (c.step x limits).machine.coverage.isSome = true := by
  obtain ⟨frame, waiting, m⟩ := c
  unfold step
  dsimp only
  split
  next i _ =>
    have hhit : (m.recordHit frame.site).coverage.isSome = true := by simpa using h
    have heffect := execute_effect x limits i frame waiting (m.recordHit frame.site)
    generalize execute x limits i frame waiting (m.recordHit frame.site) = next at heffect ⊢
    cases heffect with
    | goesOn frame' m' _ hcoverage =>
      show m'.coverage.isSome = true
      rw [hcoverage]
      exact hhit
    | enters _ f args dst _ => exact isSome_coverage_enter hhit f args _
    | leaves value => exact isSome_coverage_leave hhit value waiting
    | stops e => exact hhit
  next => exact isSome_coverage_leave h none waiting

end Kept

/-! ## What is executed stays executed -/

/-- Entering a function keeps what is executed. -/
theorem executed_enter {m : Machine} {s : Site} (h : m.Executed s) (limits : Limits)
    (f : CompiledFunc) (args : List Int64) (waiting : List Waiting) :
    (enter limits f args waiting m).machine.Executed s := by
  unfold enter
  split
  · exact h
  · exact (m.executed_recordEntry_iff f.id waiting.length s).mpr h

/-- Leaving a function keeps what is executed. -/
theorem executed_leave {m : Machine} {s : Site} (h : m.Executed s) (value : Option Int64)
    (waiting : List Waiting) : (leave value waiting m).machine.Executed s := by
  unfold leave
  split <;> exact h

/-- Executing an instruction keeps what is executed. -/
theorem executed_execute {m : Machine} {s : Site} (h : m.Executed s) (x : Executable)
    (limits : Limits) (i : Instruction) (frame : Frame) (waiting : List Waiting) :
    (execute x limits i frame waiting m).machine.Executed s := by
  have heffect := execute_effect x limits i frame waiting m
  generalize execute x limits i frame waiting m = next at heffect ⊢
  cases heffect with
  | goesOn frame' m' _ hcoverage =>
    obtain ⟨c, hc, hs⟩ := h
    exact ⟨c, hcoverage.trans hc, hs⟩
  | enters _ f args dst _ => exact executed_enter h limits f args _
  | leaves value => exact executed_leave h value waiting
  | stops e => exact h

namespace RunState

variable {x : Executable} {limits : Limits}

/-- A step keeps what is executed. -/
theorem executed_step {c : RunState} {s : Site} (h : c.machine.Executed s) :
    (c.step x limits).machine.Executed s := by
  obtain ⟨frame, waiting, m⟩ := c
  unfold step
  dsimp only
  split
  · exact executed_execute (h.recordHit frame.site) x limits _ frame waiting
  · exact executed_leave h none waiting

/-- A run keeps what is executed. -/
theorem executed_run {c : RunState} {s : Site} (h : c.machine.Executed s) (patience : Nat) :
    (c.run x limits patience).machine.Executed s := by
  refine run_invariant (P := fun c => c.machine.Executed s) (Q := fun m => m.Executed s)
    (fun c c' h hstep => ?_) (fun c e m h hstep => ?_) (fun c h => h) h patience
  · have hkept : (c.step x limits).machine.Executed s := executed_step h
    rw [hstep] at hkept
    exact hkept
  · have hkept : (c.step x limits).machine.Executed s := executed_step h
    rw [hstep] at hkept
    exact hkept

end RunState

end MutationTester
