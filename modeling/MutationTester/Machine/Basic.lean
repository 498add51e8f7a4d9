import MutationTester.Capacity
import MutationTester.Coverage.Basic
import MutationTester.Build.Executable
import MutationTester.Machine.Ending
import MutationTester.Machine.Cells

/-!
# The machine

A machine has memory cells, the output printed so far and, if it is instrumented, a coverage
record. All its memory is asked for when it is created, so that limits may be such that there is
no machine with them (`Machine.create`). A run on it is a sequence of steps between states: the
frame of the running function, the frames that wait for it to return, and the machine. The frames
belong to one run; memory, output and coverage stay when the run ends.
-/

set_option autoImplicit false

namespace MutationTester

/-- What a run may use: nested calls, memory cells, and bytes of output. -/
structure Limits where
  maxCallDepth : Nat := 512
  memoryCells : Nat := 4096
  maxOutput : Nat := 16384
  /-- The nested calls for which the process that runs a test has room on its stack, if they are
  bounded. A machine does not know of it. -/
  stack : Option Nat := none
  deriving DecidableEq

/-- The bytes that a memory cell takes. -/
def Cells.cellBytes : Nat := 8

/-- What becomes of the request for the memory of a machine. -/
def Limits.memoryAnswer (limits : Limits) : Capacity.Answer :=
  Capacity.request limits.memoryCells Cells.cellBytes

/-- What stays of a machine between runs. -/
structure Machine where
  memory : Cells
  output : String
  coverage : Option Coverage

namespace Machine

/-- A machine with zeroed memory and no output, with or without a coverage record, as it is if its
memory is granted. -/
def fresh (limits : Limits) (instrumented : Bool) : Machine where
  memory := .zeroed limits.memoryCells
  output := ""
  coverage := if instrumented then some .empty else none

/-- Creates a fresh machine. There is none if the request for its memory is not granted. -/
def create (limits : Limits) (instrumented : Bool) : Except Capacity.Answer Machine :=
  match limits.memoryAnswer with
  | .granted => .ok (fresh limits instrumented)
  | answer => .error answer

theorem create_of_granted {limits : Limits} (h : limits.memoryAnswer = .granted)
    (instrumented : Bool) : create limits instrumented = .ok (fresh limits instrumented) := by
  unfold create
  rw [h]

theorem create_of_not_granted {limits : Limits} (h : limits.memoryAnswer ≠ .granted)
    (instrumented : Bool) : create limits instrumented = .error limits.memoryAnswer := by
  unfold create
  split
  next hgranted => exact absurd hgranted h
  next => rfl

theorem create_eq_ok_iff (limits : Limits) (instrumented : Bool) (m : Machine) :
    create limits instrumented = .ok m ↔
      limits.memoryAnswer = .granted ∧ m = fresh limits instrumented := by
  by_cases h : limits.memoryAnswer = .granted
  · simp [create_of_granted h, h, eq_comm]
  · simp [create_of_not_granted h, h]

/-- Records the entry of a function, if the machine is instrumented. -/
def recordEntry (m : Machine) (f : FuncId) (depth : Nat) : Machine :=
  { m with coverage := m.coverage.map (·.enter f depth) }

/-- Records the execution of an instruction, if the machine is instrumented. -/
def recordHit (m : Machine) (s : Site) : Machine :=
  { m with coverage := m.coverage.map (·.hit s) }

/-- Adds a line to the output if all of it still fits, and drops it otherwise. -/
def capture (m : Machine) (limits : Limits) (line : String) : Machine :=
  if m.output.utf8ByteSize + line.utf8ByteSize ≤ limits.maxOutput then
    { m with output := m.output ++ line }
  else m

end Machine

/-- The line printed for a value. -/
def printedLine (v : Int64) : String := v.toInt.repr ++ "\n"

/-- The frame of a function that has been entered and has not returned. -/
structure Frame where
  function : CompiledFunc
  counter : Nat
  registers : Cells

namespace Frame

/-- The value of a register. -/
def read (frame : Frame) (r : Register) : Int64 := frame.registers.read r.toNat

/-- Writes a register and goes on to the next instruction. -/
def write (frame : Frame) (r : Register) (v : Int64) : Frame :=
  { frame with counter := frame.counter + 1, registers := frame.registers.write r.toNat v }

/-- Goes on to the next instruction. -/
def next (frame : Frame) : Frame := { frame with counter := frame.counter + 1 }

/-- Continues at an index of the body. -/
def jump (frame : Frame) (target : UInt64) : Frame := { frame with counter := target.toNat }

/-- Goes on after a call has returned. A destination gets zero if the callee gave no value. -/
def resume (frame : Frame) (dst : Option Register) (value : Option Int64) : Frame :=
  match dst with
  | some r => frame.write r (value.getD 0)
  | none => frame.next

/-- The site of the instruction that is next. -/
def site (frame : Frame) : Site := frame.function.id.site frame.counter

end Frame

/-- The frame in which a function begins: its parameters hold the arguments, as many as there
are of both, and all other registers are zero. -/
def CompiledFunc.frame (f : CompiledFunc) (args : List Int64) : Frame where
  function := f
  counter := 0
  registers := .ofList ((args.take f.params).take f.frameSize) f.frameSize

/-- A frame that waits for a call to return, and the destination of that call. -/
structure Waiting where
  frame : Frame
  dst : Option Register

/-- The state of a run. -/
structure RunState where
  frame : Frame
  waiting : List Waiting
  machine : Machine

/-- What a step leads to. -/
inductive Progress
  | running (c : RunState)
  | ended (e : Ending) (m : Machine)

/-- Enters a function under the frames that wait, unless they are too many. -/
def enter (limits : Limits) (f : CompiledFunc) (args : List Int64) (waiting : List Waiting)
    (m : Machine) : Progress :=
  if limits.maxCallDepth ≤ waiting.length then .ended (.trapped (.stackOverflow f.name)) m
  else .running ⟨f.frame args, waiting, m.recordEntry f.id waiting.length⟩

/-- Leaves the running function with a value or none. -/
def leave (value : Option Int64) (waiting : List Waiting) (m : Machine) : Progress :=
  match waiting with
  | [] => .ended (.returned value) m
  | w :: rest => .running ⟨w.frame.resume w.dst value, rest, m⟩

/-- Executes an instruction that the running frame has come to. -/
def execute (x : Executable) (limits : Limits) (i : Instruction) (frame : Frame)
    (waiting : List Waiting) (m : Machine) : Progress :=
  match i with
  | .const dst value => .running ⟨frame.write dst value, waiting, m⟩
  | .binary kind dst lhs rhs =>
    match kind.eval? (frame.read lhs) (frame.read rhs) with
    | some v => .running ⟨frame.write dst v, waiting, m⟩
    | none => .ended (.trapped (.divisionByZero frame.function.name frame.counter)) m
  | .compare pred dst lhs rhs =>
    let v := if pred.holds (frame.read lhs) (frame.read rhs) then 1 else 0
    .running ⟨frame.write dst v, waiting, m⟩
  | .call dst callee args =>
    match x.resolve? callee with
    | some f => enter limits f (args.map frame.read) (⟨frame, dst⟩ :: waiting) m
    | none => .ended (.trapped (.unknownFunction callee)) m
  | .jump target => .running ⟨frame.jump target, waiting, m⟩
  | .branch cond thenTo elseTo =>
    .running ⟨frame.jump (if frame.read cond ≠ 0 then thenTo else elseTo), waiting, m⟩
  | .ret value => leave (value.map frame.read) waiting m
  | .assert cond =>
    if frame.read cond = 0 then
      .ended (.assertionFailed frame.function.name frame.counter) m
    else .running ⟨frame.next, waiting, m⟩
  | .print value =>
    .running ⟨frame.next, waiting, m.capture limits (printedLine (frame.read value))⟩
  | .load dst addr =>
    let a := frame.read addr
    match m.memory.number? a with
    | some n => .running ⟨frame.write dst (m.memory.read n), waiting, m⟩
    | none => .ended (.trapped (.outOfBounds frame.function.name frame.counter a)) m
  | .store addr value =>
    let a := frame.read addr
    let v := frame.read value
    match m.memory.number? a with
    | some n =>
      let ⟨memory, output, coverage⟩ := m
      .running ⟨frame.next, waiting, ⟨memory.write n v, output, coverage⟩⟩
    | none => .ended (.trapped (.outOfBounds frame.function.name frame.counter a)) m
  | .abort => .ended (.trapped (.abort frame.function.name frame.counter)) m
  | .nop => .running ⟨frame.next, waiting, m⟩

/-- The end of a run: how it ended, the machine after it, and how many of the steps that it was
allowed it has not made. -/
structure RunEnd where
  ending : Ending
  machine : Machine
  unspent : Nat

namespace RunState

/-- One step. A frame that has come to the end of its code returns without a value. -/
def step (x : Executable) (limits : Limits) (c : RunState) : Progress :=
  let ⟨frame, waiting, m⟩ := c
  match frame.function.code[frame.counter]? with
  | some i => execute x limits i frame waiting (m.recordHit frame.site)
  | none => leave none waiting m

/-- Steps until the run ends, or interrupts it when `patience` steps have been made. -/
def run (x : Executable) (limits : Limits) : Nat → RunState → RunEnd
  | 0, c => ⟨.trapped .interrupted, c.machine, 0⟩
  | patience + 1, c =>
    match c.step x limits with
    | .running c => run x limits patience c
    | .ended e m => ⟨e, m, patience⟩

end RunState

/-- Runs on from a step. -/
def Progress.run (x : Executable) (limits : Limits) (patience : Nat) : Progress → RunEnd
  | .running c => c.run x limits patience
  | .ended e m => ⟨e, m, patience⟩

/-- Runs a function on a machine with the given arguments, for at most `patience` steps. -/
def Machine.invoke (m : Machine) (x : Executable) (limits : Limits) (patience : Nat) (id : FuncId)
    (args : List Int64) : RunEnd :=
  match x.function? id with
  | some f => (enter limits f args [] m).run x limits patience
  | none => ⟨.trapped (.unknownFunction id.text), m, patience⟩

end MutationTester
