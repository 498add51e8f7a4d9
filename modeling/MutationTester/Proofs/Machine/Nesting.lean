import MutationTester.Proofs.Machine.Steps

/-!
# Calls under way

A machine may count the calls that are under way on it (`CountingMachine`): a call adds one to the
count before its function runs and takes one away after that, however the function ends, and the
limit on nested calls is a limit on the count. The function is executed by recursion then, one level
for each call, and no frames wait on a stack. Such a machine gives every count back
(`CountingMachine.depth_call`), and its runs are those of the machine with a stack, where the count
is the number of frames (`CountingMachine.run_proceed`).
-/

set_option autoImplicit false

namespace MutationTester

/-- A machine with the number of calls that are under way on it. -/
structure CountingMachine where
  machine : Machine
  depth : Nat

/-- The end of a run on a counting machine that was allowed `patience` steps. -/
structure CountedEnd (patience : Nat) where
  ending : Ending
  after : CountingMachine
  unspent : Nat
  unspent_le : unspent ≤ patience

/-- The end of a run as the end of one that was allowed more steps. -/
def CountedEnd.mono {n k : Nat} (r : CountedEnd n) (h : n ≤ k) : CountedEnd k :=
  { r with unspent_le := Nat.le_trans r.unspent_le h }

namespace CountingMachine

mutual

/-- Calls a function, which counts until it has ended, unless the calls under way are too many. -/
def call (x : Executable) (limits : Limits) (f : CompiledFunc) (args : List Int64)
    (m : CountingMachine) (patience : Nat) : CountedEnd patience :=
  if limits.maxCallDepth ≤ m.depth then
    ⟨.trapped (.stackOverflow f.name), m, patience, Nat.le_refl patience⟩
  else
    let r := proceed x limits (f.frame args)
      ⟨m.machine.recordEntry f.id m.depth, m.depth + 1⟩ patience
    { r with after := { r.after with depth := r.after.depth - 1 } }
termination_by (patience, 1)

/-- Executes a function from a frame on until it ends. A call that returns gives back a value and
the steps that it has not spent; one that ends otherwise ends the function. -/
def proceed (x : Executable) (limits : Limits) (frame : Frame) (m : CountingMachine)
    (patience : Nat) : CountedEnd patience :=
  match patience with
  | 0 => ⟨.trapped .interrupted, m, 0, Nat.le_refl 0⟩
  | n + 1 =>
    match frame.function.code[frame.counter]? with
    | none => ⟨.returned none, m, n, Nat.le_succ n⟩
    | some i =>
      let hit := m.machine.recordHit frame.site
      match i with
      | .call dst callee args =>
        match x.resolve? callee with
        | none => ⟨.trapped (.unknownFunction callee), ⟨hit, m.depth⟩, n, Nat.le_succ n⟩
        | some f =>
          match call x limits f (args.map frame.read) ⟨hit, m.depth⟩ n with
          | ⟨.returned v, after, unspent, hle⟩ =>
            (proceed x limits (frame.resume dst v) after unspent).mono (Nat.le_succ_of_le hle)
          | r => r.mono (Nat.le_succ n)
      | i =>
        match execute x limits i frame [] hit with
        | .running c => (proceed x limits c.frame ⟨c.machine, m.depth⟩ n).mono (Nat.le_succ n)
        | .ended e after => ⟨e, ⟨after, m.depth⟩, n, Nat.le_succ n⟩
termination_by (patience, 0)

end

variable (x : Executable) (limits : Limits)

mutual

/-- A call gives its count back, however it ends. -/
theorem depth_call (f : CompiledFunc) (args : List Int64) (m : CountingMachine) (n : Nat) :
    (call x limits f args m n).after.depth = m.depth := by
  rw [call]
  split
  · rfl
  · show (proceed x limits (f.frame args) _ n).after.depth - 1 = m.depth
    rw [depth_proceed]
    rfl
termination_by (n, 1)

theorem depth_proceed (frame : Frame) (m : CountingMachine) (n : Nat) :
    (proceed x limits frame m n).after.depth = m.depth := by
  cases n with
  | zero => rw [proceed]
  | succ n =>
    rw [proceed]
    dsimp only
    split
    next => rfl
    next i _ =>
      split
      next dst callee args _ =>
        split
        next => rfl
        next f _ =>
          -- the caller goes on from the count that the callee gives back
          have hcall := depth_call f (args.map frame.read)
            ⟨m.machine.recordHit frame.site, m.depth⟩ n
          split
          next v after unspent hle heq =>
            rw [heq] at hcall
            exact (depth_proceed (frame.resume dst v) after unspent).trans hcall
          next => exact hcall
      next =>
        split
        next c _ => exact depth_proceed c.frame ⟨c.machine, m.depth⟩ n
        next => rfl
termination_by (n, 0)

end

end CountingMachine

/-- What a step that was made with no frames waiting leads to when some are: a function that returns
is left for the one that waits for it. -/
def Progress.under (waiting : List Waiting) : Progress → Progress
  | .running c => .running ⟨c.frame, waiting, c.machine⟩
  | .ended (.returned v) m => leave v waiting m
  | .ended e m => .ended e m

/-- Only calls look at the frames that wait. -/
theorem execute_eq_under (x : Executable) (limits : Limits) {i : Instruction}
    (hcall : ∀ dst callee args, i ≠ .call dst callee args) (frame : Frame)
    (waiting : List Waiting) (m : Machine) :
    execute x limits i frame waiting m = (execute x limits i frame [] m).under waiting := by
  cases i with
  | call dst callee args => exact absurd rfl (hcall dst callee args)
  | binary kind dst lhs rhs =>
    simp only [execute]
    split <;> rfl
  | assert cond =>
    simp only [execute]
    split <;> rfl
  | load dst addr =>
    simp only [execute]
    split <;> rfl
  | store addr value =>
    simp only [execute]
    split <;> rfl
  | _ => rfl

/-- The end of a run of a function when frames wait for it: where the function has returned, the run
goes on with the one that waits. -/
def CountedEnd.under {n : Nat} (r : CountedEnd n) (x : Executable) (limits : Limits)
    (waiting : List Waiting) : RunEnd :=
  match r.ending with
  | .returned v => (leave v waiting r.after.machine).run x limits r.unspent
  | e => ⟨e, r.after.machine, r.unspent⟩

theorem CountedEnd.under_nil {n : Nat} (r : CountedEnd n) (x : Executable) (limits : Limits) :
    r.under x limits [] = ⟨r.ending, r.after.machine, r.unspent⟩ := by
  obtain ⟨e, after, unspent, hle⟩ := r
  cases e <;> rfl

namespace CountingMachine

variable (x : Executable) (limits : Limits)

mutual

/-- A run that enters a function is a call that counts the frames that wait. -/
theorem run_call (f : CompiledFunc) (args : List Int64) (waiting : List Waiting) (m : Machine)
    (n : Nat) : (enter limits f args waiting m).run x limits n =
      (call x limits f args ⟨m, waiting.length⟩ n).under x limits waiting := by
  rw [call]
  unfold enter
  dsimp only
  split
  · rfl
  · exact run_proceed (f.frame args) waiting (m.recordEntry f.id waiting.length) n
termination_by (n, 1)

/-- A run goes on as the function does that is running, with its own call counted as well. -/
theorem run_proceed (frame : Frame) (waiting : List Waiting) (m : Machine) (n : Nat) :
    (Progress.running ⟨frame, waiting, m⟩).run x limits n =
      (proceed x limits frame ⟨m, waiting.length + 1⟩ n).under x limits waiting := by
  cases n with
  | zero =>
    rw [proceed]
    rfl
  | succ n =>
    rw [Progress.run_running_succ, proceed]
    unfold RunState.step
    dsimp only
    cases frame.function.code[frame.counter]? with
    | none => rfl
    | some i =>
      dsimp only
      split
      next dst callee args =>
        simp only [execute]
        cases x.resolve? callee with
        | none => rfl
        | some f =>
          dsimp only
          have hcall := run_call f (args.map frame.read) (⟨frame, dst⟩ :: waiting)
            (m.recordHit frame.site) n
          have hdepth := depth_call x limits f (args.map frame.read)
            ⟨m.recordHit frame.site, waiting.length + 1⟩ n
          rw [hcall]
          generalize call x limits f (args.map frame.read)
            ⟨m.recordHit frame.site, waiting.length + 1⟩ n = r at hdepth ⊢
          obtain ⟨e, ⟨after, depth⟩, unspent, hle⟩ := r
          -- the callee has given its count back, so that the caller goes on with its own
          obtain rfl : depth = waiting.length + 1 := hdepth
          cases e with
          | returned v => exact run_proceed (frame.resume dst v) waiting after unspent
          | assertionFailed function index => rfl
          | trapped trap => rfl
      next hcall =>
        rw [execute_eq_under x limits hcall]
        generalize execute x limits _ frame [] (m.recordHit frame.site) = next
        cases next with
        | running c => exact run_proceed c.frame waiting c.machine n
        | ended e after => cases e <;> rfl
termination_by (n, 0)

end

/-- Calls the function at a position, for at most `patience` steps. -/
def invoke (m : CountingMachine) (patience : Nat) (id : FuncId) (args : List Int64) :
    CountedEnd patience :=
  match x.function? id with
  | some f => call x limits f args m patience
  | none => ⟨.trapped (.unknownFunction id.text), m, patience, Nat.le_refl patience⟩

theorem depth_invoke (m : CountingMachine) (n : Nat) (id : FuncId) (args : List Int64) :
    (m.invoke x limits n id args).after.depth = m.depth := by
  unfold invoke
  split
  · exact depth_call x limits _ args m n
  · rfl

/-- A machine with no call under way runs what is invoked as the machine with a stack does. -/
theorem invoke_eq (m : Machine) (n : Nat) (id : FuncId) (args : List Int64) :
    let r := CountingMachine.invoke x limits ⟨m, 0⟩ n id args
    m.invoke x limits n id args = ⟨r.ending, r.after.machine, r.unspent⟩ := by
  intro r
  unfold Machine.invoke
  cases hf : x.function? id with
  | none => simp only [r, invoke, hf]
  | some f =>
    have hr : r = call x limits f args ⟨m, 0⟩ n := by simp only [r, invoke, hf]
    dsimp only
    rw [hr]
    exact (run_call x limits f args [] m n).trans (CountedEnd.under_nil _ x limits)

end CountingMachine

/-! ## How deep runs go -/

/-- The greatest number of frames that a run has at once. -/
def Progress.peak (x : Executable) (limits : Limits) : Nat → Progress → Nat
  | _, .ended _ _ => 0
  | 0, .running c => c.waiting.length + 1
  | n + 1, .running c => max (c.waiting.length + 1) ((c.step x limits).peak x limits n)

/-- The greatest number of frames that a run has at once that begins by invoking a function. -/
def Machine.peak (m : Machine) (x : Executable) (limits : Limits) (patience : Nat) (id : FuncId)
    (args : List Int64) : Nat :=
  match x.function? id with
  | some f => (enter limits f args [] m).peak x limits patience
  | none => 0

section Peak

variable {x : Executable} {limits : Limits}

theorem length_lt_of_leave {value : Option Int64} {waiting : List Waiting} {m : Machine}
    {c : RunState} (h : leave value waiting m = .running c) :
    c.waiting.length < waiting.length := by
  cases waiting with
  | nil => cases h
  | cons w rest =>
    cases h
    exact Nat.lt_succ_self _

theorem RunState.length_step_lt {c c' : RunState} (hc : c.waiting.length < limits.maxCallDepth)
    (h : c.step x limits = .running c') : c'.waiting.length < limits.maxCallDepth := by
  unfold step at h
  dsimp only at h
  split at h
  next i _ =>
    have heffect := execute_effect x limits i c.frame c.waiting (c.machine.recordHit c.frame.site)
    rw [h] at heffect
    generalize hnext : Progress.running c' = next at heffect
    cases heffect with
    | goesOn frame' m' _ _ =>
      cases hnext
      exact hc
    | enters callee f args dst _ =>
      rcases enter_cases limits f args (⟨c.frame, dst⟩ :: c.waiting)
        (c.machine.recordHit c.frame.site) with ⟨-, hentered⟩ | ⟨hdepth, hentered⟩
      · cases hnext.trans hentered
      · cases hnext.trans hentered
        exact hdepth
    | leaves value => exact Nat.lt_trans (length_lt_of_leave hnext.symm) hc
    | stops e => cases hnext
  next => exact Nat.lt_trans (length_lt_of_leave h) hc

/-- A run that is within the limit on frames stays within it, and reaches it if it ends because
calls are too many. -/
theorem RunState.peak_run {c : RunState} (hc : c.waiting.length < limits.maxCallDepth) (n : Nat) :
    (Progress.running c).peak x limits n ≤ limits.maxCallDepth ∧
      ∀ name, (c.run x limits n).ending = .trapped (.stackOverflow name) →
        (Progress.running c).peak x limits n = limits.maxCallDepth := by
  induction n generalizing c with
  | zero =>
    refine ⟨hc, ?_⟩
    intro name hending
    cases hending
  | succ n ih =>
    rw [Progress.peak]
    cases hstep : c.step x limits with
    | running c' =>
      rw [run_succ_of_running hstep]
      obtain ⟨hle, hreached⟩ := ih (length_step_lt hc hstep)
      constructor
      · omega
      · intro name hending
        have := hreached name hending
        omega
    | ended e m =>
      rw [run_succ_of_ended hstep, Progress.peak]
      constructor
      · omega
      · rintro name rfl
        -- the call was refused in a frame that is the last one allowed
        cases stepEnd_of_step hstep with
        | stackOverflow function hdepth => omega

end Peak

/-- No run has more frames at once than the limit allows, and one that ends because calls are too
many has had as many. -/
theorem Machine.peak_invoke (m : Machine) (x : Executable) (limits : Limits) (n : Nat) (id : FuncId)
    (args : List Int64) :
    m.peak x limits n id args ≤ limits.maxCallDepth ∧
      ∀ name, (m.invoke x limits n id args).ending = .trapped (.stackOverflow name) →
        m.peak x limits n id args = limits.maxCallDepth := by
  unfold peak invoke
  cases x.function? id with
  | none =>
    refine ⟨Nat.zero_le _, ?_⟩
    intro name hending
    cases hending
  | some f =>
    dsimp only
    rcases enter_cases limits f args [] m with ⟨hdepth, hentered⟩ | ⟨hdepth, hentered⟩
    · rw [hentered, Progress.peak]
      exact ⟨Nat.zero_le _, fun _ _ => (Nat.le_zero.mp hdepth).symm⟩
    · rw [hentered]
      exact RunState.peak_run hdepth n

end MutationTester
