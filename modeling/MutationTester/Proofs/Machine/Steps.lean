import MutationTester.Machine.TestRun

/-!
# Steps and runs

The steps of the machine are sorted by what they do to the calls, to the coverage record and to
control (`execute_move`, and `execute_effect` where the instruction does not matter), so that an
invariant of runs has four cases to look at and not thirteen instructions. A run is its first step
followed by a run from there, so what every step keeps is kept by runs (`RunState.run_invariant`).
-/

set_option autoImplicit false

namespace MutationTester

@[simp] theorem Machine.coverage_capture (m : Machine) (limits : Limits) (line : String) :
    (m.capture limits line).coverage = m.coverage := by
  unfold capture
  split <;> rfl

/-- The machine after a step. -/
def Progress.machine : Progress → Machine
  | .running c => c.machine
  | .ended _ m => m

/-- Where control goes in a function after an instruction at some index: on to the next one, unless
the instruction is one that control does not pass, or to a target. -/
inductive Instruction.LeadsTo (i : Instruction) (n : Nat) : Nat → Prop
  | next (hpasses : i.isTerminator = false) : LeadsTo i n (n + 1)
  | jump (target : UInt64) (htarget : target ∈ i.targets) : LeadsTo i n target.toNat

/-- What executing an instruction can lead to, by what the instruction says: the running function
goes on where the instruction leads, with nothing new in the record; the callee of a call is
entered; the running function is left; or the run is stopped. -/
inductive Move (x : Executable) (limits : Limits) (i : Instruction) (frame : Frame)
    (waiting : List Waiting) (m : Machine) : Progress → Prop
  | goesOn (frame' : Frame) (m' : Machine) (hfunction : frame'.function = frame.function)
      (hcoverage : m'.coverage = m.coverage) (hleads : i.LeadsTo frame.counter frame'.counter) :
      Move x limits i frame waiting m (.running ⟨frame', waiting, m'⟩)
  | enters (dst : Option Register) (callee : String) (args : List Register) (f : CompiledFunc)
      (values : List Int64) (hcall : i = .call dst callee args)
      (hcallee : x.resolve? callee = some f) :
      Move x limits i frame waiting m (enter limits f values (⟨frame, dst⟩ :: waiting) m)
  | leaves (value : Option Int64) : Move x limits i frame waiting m (leave value waiting m)
  | stops (e : Ending) : Move x limits i frame waiting m (.ended e m)

/-- Each instruction makes one of these moves. -/
theorem execute_move (x : Executable) (limits : Limits) (i : Instruction) (frame : Frame)
    (waiting : List Waiting) (m : Machine) :
    Move x limits i frame waiting m (execute x limits i frame waiting m) := by
  cases i with
  | const dst value => exact .goesOn _ _ rfl rfl (.next rfl)
  | binary kind dst lhs rhs =>
    unfold execute
    dsimp only
    cases kind.eval? (frame.read lhs) (frame.read rhs) with
    | some v => exact .goesOn _ _ rfl rfl (.next rfl)
    | none => exact .stops _
  | compare pred dst lhs rhs => exact .goesOn _ _ rfl rfl (.next rfl)
  | call dst callee args =>
    unfold execute
    dsimp only
    cases hcallee : x.resolve? callee with
    | some f => exact .enters dst callee args f _ rfl hcallee
    | none => exact .stops _
  | jump target => exact .goesOn _ _ rfl rfl (.jump target List.mem_cons_self)
  | branch cond thenTo elseTo =>
    refine .goesOn _ _ rfl rfl (.jump _ ?_)
    split <;> simp [Instruction.targets]
  | ret value => exact .leaves _
  | assert cond =>
    unfold execute
    dsimp only
    split
    · exact .stops _
    · exact .goesOn _ _ rfl rfl (.next rfl)
  | print value => exact .goesOn _ _ rfl (Machine.coverage_capture m limits _) (.next rfl)
  | load dst addr =>
    unfold execute
    dsimp only
    cases m.memory.number? (frame.read addr) with
    | some n => exact .goesOn _ _ rfl rfl (.next rfl)
    | none => exact .stops _
  | store addr value =>
    unfold execute
    dsimp only
    cases m.memory.number? (frame.read addr) with
    | some n => exact .goesOn _ _ rfl rfl (.next rfl)
    | none => exact .stops _
  | abort => exact .stops _
  | nop => exact .goesOn _ _ rfl rfl (.next rfl)

/-- What executing an instruction can lead to, whatever the instruction: the running function goes
on, with nothing new in the record; a function that a name reaches is entered; the running function
is left; or the run is stopped. -/
inductive Effect (x : Executable) (limits : Limits) (frame : Frame) (waiting : List Waiting)
    (m : Machine) : Progress → Prop
  | goesOn (frame' : Frame) (m' : Machine) (hfunction : frame'.function = frame.function)
      (hcoverage : m'.coverage = m.coverage) :
      Effect x limits frame waiting m (.running ⟨frame', waiting, m'⟩)
  | enters (callee : String) (f : CompiledFunc) (args : List Int64) (dst : Option Register)
      (hcallee : x.resolve? callee = some f) :
      Effect x limits frame waiting m (enter limits f args (⟨frame, dst⟩ :: waiting) m)
  | leaves (value : Option Int64) : Effect x limits frame waiting m (leave value waiting m)
  | stops (e : Ending) : Effect x limits frame waiting m (.ended e m)

/-- Each instruction has one of these effects. -/
theorem execute_effect (x : Executable) (limits : Limits) (i : Instruction) (frame : Frame)
    (waiting : List Waiting) (m : Machine) :
    Effect x limits frame waiting m (execute x limits i frame waiting m) := by
  have hmove := execute_move x limits i frame waiting m
  generalize execute x limits i frame waiting m = next at hmove ⊢
  cases hmove with
  | goesOn frame' m' hfunction hcoverage _ => exact .goesOn frame' m' hfunction hcoverage
  | enters dst callee _ f values _ hcallee => exact .enters callee f values dst hcallee
  | leaves value => exact .leaves value
  | stops e => exact .stops e

/-- A function is entered if fewer calls wait than the limit allows, and its call stops the run
otherwise. -/
theorem enter_cases (limits : Limits) (f : CompiledFunc) (args : List Int64)
    (waiting : List Waiting) (m : Machine) :
    (limits.maxCallDepth ≤ waiting.length ∧
        enter limits f args waiting m = .ended (.trapped (.stackOverflow f.name)) m) ∨
      (waiting.length < limits.maxCallDepth ∧ enter limits f args waiting m =
        .running ⟨f.frame args, waiting, m.recordEntry f.id waiting.length⟩) := by
  unfold enter
  by_cases hdepth : limits.maxCallDepth ≤ waiting.length
  · exact .inl ⟨hdepth, if_pos hdepth⟩
  · exact .inr ⟨Nat.lt_of_not_le hdepth, if_neg hdepth⟩

/-- How a step can end a run: the function that the run began in returns, an assertion fails, or a
trap stops the run, which for a call means that its frame is the last that the limit allows. -/
inductive StepEnd (limits : Limits) (waiting : List Waiting) : Ending → Prop
  | returned (value : Option Int64) (hwaiting : waiting = []) :
      StepEnd limits waiting (.returned value)
  | assertionFailed (function : String) (index : Nat) :
      StepEnd limits waiting (.assertionFailed function index)
  | divisionByZero (function : String) (index : Nat) :
      StepEnd limits waiting (.trapped (.divisionByZero function index))
  | outOfBounds (function : String) (index : Nat) (addr : Int64) :
      StepEnd limits waiting (.trapped (.outOfBounds function index addr))
  | stackOverflow (function : String) (hdepth : limits.maxCallDepth ≤ waiting.length + 1) :
      StepEnd limits waiting (.trapped (.stackOverflow function))
  | abort (function : String) (index : Nat) :
      StepEnd limits waiting (.trapped (.abort function index))
  | unknownFunction (name : String) : StepEnd limits waiting (.trapped (.unknownFunction name))

/-- A step that leaves a function ends the run only if no frame waits. -/
theorem stepEnd_of_leave {limits : Limits} {value : Option Int64} {waiting : List Waiting}
    {m m' : Machine} {e : Ending} (h : leave value waiting m = .ended e m') :
    StepEnd limits waiting e := by
  cases waiting with
  | nil =>
    cases h
    exact .returned value rfl
  | cons w rest => cases h

theorem RunState.stepEnd_of_step {x : Executable} {limits : Limits} {c : RunState} {e : Ending}
    {m : Machine} (h : c.step x limits = .ended e m) : StepEnd limits c.waiting e := by
  obtain ⟨frame, waiting, n⟩ := c
  unfold step at h
  dsimp only at h
  split at h
  next i _ =>
    cases i with
    | const | compare | jump | branch | print | nop => cases h
    | binary =>
      simp only [execute] at h
      split at h <;> cases h
      exact .divisionByZero _ _
    | call dst callee args =>
      simp only [execute] at h
      split at h
      next f _ =>
        rcases enter_cases limits f (args.map frame.read) (⟨frame, dst⟩ :: waiting)
          (n.recordHit frame.site) with ⟨hdepth, hentered⟩ | ⟨-, hentered⟩
        · cases hentered.symm.trans h
          exact .stackOverflow f.name hdepth
        · cases hentered.symm.trans h
      next =>
        cases h
        exact .unknownFunction callee
    | ret value => exact stepEnd_of_leave h
    | assert =>
      simp only [execute] at h
      split at h <;> cases h
      exact .assertionFailed _ _
    | load =>
      simp only [execute] at h
      split at h <;> cases h
      exact .outOfBounds _ _ _
    | store =>
      simp only [execute] at h
      split at h <;> cases h
      exact .outOfBounds _ _ _
    | abort =>
      cases h
      exact .abort _ _
  next => exact stepEnd_of_leave h

/-- A run that may make another step goes on with what that step leads to. -/
theorem Progress.run_running_succ (x : Executable) (limits : Limits) (c : RunState) (n : Nat) :
    (Progress.running c).run x limits (n + 1) = (c.step x limits).run x limits n := by
  show c.run x limits (n + 1) = _
  rw [RunState.run]
  cases c.step x limits <;> rfl

namespace RunState

variable {x : Executable} {limits : Limits}

/-- A run whose first step goes on is the run from there. -/
theorem run_succ_of_running {c c' : RunState} (h : c.step x limits = .running c') (n : Nat) :
    c.run x limits (n + 1) = c'.run x limits n := by
  rw [run, h]

/-- A run whose first step ends it has made one step. -/
theorem run_succ_of_ended {c : RunState} {e : Ending} {m : Machine}
    (h : c.step x limits = .ended e m) (n : Nat) : c.run x limits (n + 1) = ⟨e, m, n⟩ := by
  rw [run, h]

/-- What a property of runs under way that every step keeps says of the machine holds at the end of
a run, however it ends. -/
theorem run_invariant {P : RunState → Prop} {Q : Machine → Prop}
    (hrunning : ∀ c c', P c → c.step x limits = .running c' → P c')
    (hended : ∀ c e m, P c → c.step x limits = .ended e m → Q m)
    (hmachine : ∀ c, P c → Q c.machine) {c : RunState} (h : P c) (n : Nat) :
    Q (c.run x limits n).machine := by
  induction n generalizing c with
  | zero => exact hmachine c h
  | succ n ih =>
    cases hstep : c.step x limits with
    | running c' =>
      rw [run_succ_of_running hstep]
      exact ih (hrunning c c' h hstep)
    | ended e m =>
      rw [run_succ_of_ended hstep]
      exact hended c e m h hstep

end RunState

end MutationTester
