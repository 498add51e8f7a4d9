import MutationTester.Proofs.Build.Soundness
import MutationTester.Proofs.Machine.Lockstep

/-!
# A machine that checks everything

The guarded machine does what the machine does, but checks every access: that a register belongs to
the frame and a cell to the memory, that there is an instruction at the counter, that a call reaches
a function, and that the values passed are as many as the function has parameters and all arrive in
its registers. It calculates with unbounded integers and wraps the result. It goes wrong, which is
written `none`, where a check fails. On linked code no check ever fails: the guarded machine ends
every run as the machine does (`Executable.linked_code_never_goes_wrong`). The invariant is that
all frames are inside their code and have all their registers (`RunState.Sound`).
-/

set_option autoImplicit false

namespace MutationTester

/-! ## Checked accesses -/

/-- The value of a cell of a row that has it. -/
def Cells.read? (c : Cells) (n : Nat) : Option Int64 := if n < c.size then some (c.read n) else none

/-- A row after a write to a cell that it has. -/
def Cells.write? (c : Cells) (n : Nat) (v : Int64) : Option Cells :=
  if n < c.size then some (c.write n v) else none

/-- The result of an operation on integers without bounds. A division by zero has none. -/
def BinaryOp.onIntegers? (op : BinaryOp) (a b : Int) : Option Int :=
  match op with
  | add => some (a + b)
  | sub => some (a - b)
  | mul => some (a * b)
  | div => if b = 0 then none else some (a.tdiv b)
  | rem => if b = 0 then none else some (a.tmod b)

namespace Frame

/-- The value of a register that the frame has. -/
def read? (frame : Frame) (r : Register) : Option Int64 := frame.registers.read? r.toNat

/-- Writes a register that the frame has, and goes on to the next instruction. -/
def write? (frame : Frame) (r : Register) (v : Int64) : Option Frame := do
  let registers ← frame.registers.write? r.toNat v
  return { frame with counter := frame.counter + 1, registers := registers }

/-- Goes on after a call has returned, if the frame has the destination. -/
def resume? (frame : Frame) (dst : Option Register) (value : Option Int64) : Option Frame :=
  match dst with
  | some r => frame.write? r (value.getD 0)
  | none => some frame.next

end Frame

/-- Whether values are as many as a function has parameters and all arrive in the registers of its
frame. -/
def CompiledFunc.receives (f : CompiledFunc) (values : List Int64) : Bool :=
  values.length = f.params ∧
    (List.range f.params).map (f.frame values).registers.read? = values.map some

/-! ## The guarded machine -/

/-- Enters a function that receives all the values passed to it. -/
def guardedEnter (limits : Limits) (f : CompiledFunc) (values : List Int64)
    (waiting : List Waiting) (m : Machine) : Option Progress :=
  if f.receives values then some (enter limits f values waiting m) else none

/-- Leaves the running function for a frame that has the destination of its call. -/
def guardedLeave (value : Option Int64) (waiting : List Waiting) (m : Machine) : Option Progress :=
  match waiting with
  | [] => some (.ended (.returned value) m)
  | w :: rest => do return .running ⟨← w.frame.resume? w.dst value, rest, m⟩

/-- Executes an instruction with all its accesses checked. -/
def guardedExecute (x : Executable) (limits : Limits) (i : Instruction) (frame : Frame)
    (waiting : List Waiting) (m : Machine) : Option Progress :=
  match i with
  | .const dst value => do return .running ⟨← frame.write? dst value, waiting, m⟩
  | .binary kind dst lhs rhs => do
    match kind.onIntegers? (← frame.read? lhs).toInt (← frame.read? rhs).toInt with
    | some v => return .running ⟨← frame.write? dst (.ofInt v), waiting, m⟩
    | none => return .ended (.trapped (.divisionByZero frame.function.name frame.counter)) m
  | .compare pred dst lhs rhs => do
    let v := if pred.holds (← frame.read? lhs) (← frame.read? rhs) then 1 else 0
    return .running ⟨← frame.write? dst v, waiting, m⟩
  | .call dst callee args => do
    let f ← x.resolve? callee
    let values ← args.mapM frame.read?
    guardedEnter limits f values (⟨frame, dst⟩ :: waiting) m
  | .jump target => some (.running ⟨frame.jump target, waiting, m⟩)
  | .branch cond thenTo elseTo => do
    return .running ⟨frame.jump (if (← frame.read? cond) ≠ 0 then thenTo else elseTo), waiting, m⟩
  | .ret none => guardedLeave none waiting m
  | .ret (some value) => do guardedLeave (some (← frame.read? value)) waiting m
  | .assert cond => do
    if (← frame.read? cond) = 0 then
      return .ended (.assertionFailed frame.function.name frame.counter) m
    else return .running ⟨frame.next, waiting, m⟩
  | .print value => do
    return .running
      ⟨frame.next, waiting, m.capture limits (printedLine (← frame.read? value))⟩
  | .load dst addr => do
    let a ← frame.read? addr
    match m.memory.number? a with
    | some n => return .running ⟨← frame.write? dst (← m.memory.read? n), waiting, m⟩
    | none => return .ended (.trapped (.outOfBounds frame.function.name frame.counter a)) m
  | .store addr value => do
    let a ← frame.read? addr
    let v ← frame.read? value
    match m.memory.number? a with
    | some n => return .running ⟨frame.next, waiting, { m with memory := ← m.memory.write? n v }⟩
    | none => return .ended (.trapped (.outOfBounds frame.function.name frame.counter a)) m
  | .abort => some (.ended (.trapped (.abort frame.function.name frame.counter)) m)
  | .nop => some (.running ⟨frame.next, waiting, m⟩)

namespace RunState

/-- One guarded step, which goes wrong if there is no instruction at the counter. -/
def guardedStep (x : Executable) (limits : Limits) (c : RunState) : Option Progress := do
  let i ← c.frame.function.code[c.frame.counter]?
  guardedExecute x limits i c.frame c.waiting (c.machine.recordHit c.frame.site)

/-- Guarded steps until the run ends or goes wrong, or is interrupted when `patience` steps have
been made. -/
def guardedRun (x : Executable) (limits : Limits) : Nat → RunState → Option RunEnd
  | 0, c => some ⟨.trapped .interrupted, c.machine, 0⟩
  | patience + 1, c => do
    match ← c.guardedStep x limits with
    | .running c => guardedRun x limits patience c
    | .ended e m => return ⟨e, m, patience⟩

end RunState

/-- Runs a function on a guarded machine, for at most `patience` steps. What is invoked from outside
takes the arguments that it has parameters for. -/
def Machine.guardedInvoke (m : Machine) (x : Executable) (limits : Limits) (patience : Nat)
    (id : FuncId) (args : List Int64) : Option RunEnd := do
  match enter limits (← x.function? id) args [] m with
  | .running c => c.guardedRun x limits patience
  | .ended e m => return ⟨e, m, patience⟩

/-! ## Checks that succeed -/

/-- An operation wraps the exact result of its operands. -/
theorem BinaryOp.eval?_eq (op : BinaryOp) (a b : Int64) :
    op.eval? a b = (op.onIntegers? a.toInt b.toInt).map Int64.ofInt := by
  have hzero : b = 0 ↔ b.toInt = 0 := by
    rw [← Int64.toInt_inj]
    rfl
  cases op with
  | add => simp [eval?, onIntegers?, Int64.ofInt_add]
  | sub => simp [eval?, onIntegers?, Int64.ofInt_sub]
  | mul => simp [eval?, onIntegers?, Int64.ofInt_mul]
  | div =>
    simp only [eval?, onIntegers?, hzero]
    split
    · rfl
    · rw [Option.map_some, Int64.ofInt_tdiv a.minValue_le_toInt a.toInt_le b.minValue_le_toInt
        b.toInt_le, Int64.ofInt_toInt, Int64.ofInt_toInt]
  | rem =>
    simp only [eval?, onIntegers?, hzero]
    split
    · rfl
    · rw [Option.map_some, Int64.ofInt_tmod a.minValue_le_toInt a.toInt_le b.minValue_le_toInt
        b.toInt_le, Int64.ofInt_toInt, Int64.ofInt_toInt]

theorem Cells.read?_eq_some {c : Cells} {n : Nat} (h : n < c.size) : c.read? n = some (c.read n) :=
  if_pos h

theorem Cells.write?_eq_some {c : Cells} {n : Nat} (h : n < c.size) (v : Int64) :
    c.write? n v = some (c.write n v) :=
  if_pos h

/-- An address names a cell that the row has, or none. -/
theorem Cells.lt_of_number? {c : Cells} {addr : Int64} {n : Nat} (h : c.number? addr = some n) :
    n < c.size := by
  unfold number? at h
  split at h
  next hrange =>
    cases h
    omega
  next => cases h

theorem Cells.size_ofList (values : List Int64) (size : Nat) :
    (ofList values size).size = size := by
  have hwrites : ∀ (entries : List (Int64 × Nat)) (c : Cells),
      (entries.foldl (fun c entry => c.write entry.2 entry.1) c).size = c.size := by
    intro entries
    induction entries with
    | nil => exact fun _ => rfl
    | cons entry entries ih => exact fun c => (ih _).trans (size_write c _ _)
  exact hwrites _ _

/-- A function with room for its parameters receives as many values as it has parameters. -/
theorem CompiledFunc.receives_eq_true {f : CompiledFunc} {values : List Int64}
    (hlength : values.length = f.params) (hparams : f.params ≤ f.frameSize) :
    f.receives values = true := by
  have hall : (values.take f.params).take f.frameSize = values := by
    rw [List.take_of_length_le (Nat.le_of_eq hlength), List.take_of_length_le (hlength ▸ hparams)]
  unfold receives
  rw [decide_eq_true_eq]
  refine ⟨hlength, List.ext_getElem? fun n => ?_⟩
  rw [List.getElem?_map, List.getElem?_map]
  by_cases hn : n < f.params
  · have hn' : n < values.length := hlength ▸ hn
    have hsize : n < (f.frame values).registers.size := by
      show n < (Cells.ofList _ f.frameSize).size
      rw [Cells.size_ofList]
      omega
    have hread : (f.frame values).registers.read n = values[n] := by
      show (Cells.ofList _ _).read n = _
      rw [Cells.read_ofList, hall, List.getElem?_eq_getElem hn', Option.getD_some]
    rw [List.getElem?_range hn, Option.map_some, Cells.read?_eq_some hsize, hread,
      List.getElem?_eq_getElem hn', Option.map_some]
  · rw [List.getElem?_eq_none (by simpa using hn), List.getElem?_eq_none (by omega)]
    rfl

/-! ## The invariant -/

/-- A frame of a sound function, inside its code and with all its registers. -/
structure Frame.Sound (x : Executable) (frame : Frame) : Prop where
  function : frame.function.Sound x
  counter_lt : frame.counter < frame.function.code.size
  size_eq : frame.registers.size = frame.function.frameSize

/-- A frame that waits can be resumed after its call, with the destination in its registers. -/
structure Waiting.Sound (x : Executable) (w : Waiting) : Prop where
  frame : w.frame.Sound x
  next_lt : w.frame.counter + 1 < w.frame.function.code.size
  dst_lt : ∀ r ∈ w.dst, r.toNat < w.frame.function.frameSize

/-- A run all of whose frames are sound. -/
structure RunState.Sound (x : Executable) (c : RunState) : Prop where
  frame : c.frame.Sound x
  waiting : ∀ w ∈ c.waiting, w.Sound x

/-- What a step leads to is sound: the run goes on so, or it ends, but not for a call that reaches
no function. -/
def Progress.Sound (x : Executable) : Progress → Prop
  | .running c => c.Sound x
  | .ended e _ => ∀ name, e ≠ .trapped (.unknownFunction name)

/-- A guarded step that does what the step of the machine does, and keeps everything sound. -/
structure Progress.Guards (x : Executable) (guarded : Option Progress) (next : Progress) :
    Prop where
  eq_some : guarded = some next
  sound : next.Sound x

namespace Frame.Sound

variable {x : Executable} {frame : Frame}

theorem read? (h : frame.Sound x) {r : Register} (hr : r.toNat < frame.function.frameSize) :
    frame.read? r = some (frame.read r) :=
  Cells.read?_eq_some (h.size_eq ▸ hr)

theorem write? (h : frame.Sound x) {r : Register} (hr : r.toNat < frame.function.frameSize)
    (v : Int64) : frame.write? r v = some (frame.write r v) := by
  unfold Frame.write?
  rw [Cells.write?_eq_some (h.size_eq ▸ hr)]
  rfl

theorem mapM_read? (h : frame.Sound x) {args : List Register}
    (hargs : ∀ r ∈ args, r.toNat < frame.function.frameSize) :
    args.mapM frame.read? = some (args.map frame.read) := by
  induction args with
  | nil => rfl
  | cons r args ih =>
    obtain ⟨hr, hargs⟩ := List.forall_mem_cons.mp hargs
    rw [List.mapM_cons, h.read? hr, ih hargs]
    rfl

/-- A frame that goes on to the next instruction is sound if there is one. -/
theorem next (h : frame.Sound x) (hnext : frame.counter + 1 < frame.function.code.size) :
    frame.next.Sound x :=
  ⟨h.function, hnext, h.size_eq⟩

theorem write (h : frame.Sound x) (hnext : frame.counter + 1 < frame.function.code.size)
    (r : Register) (v : Int64) : (frame.write r v).Sound x :=
  ⟨h.function, hnext, h.size_eq⟩

theorem jump (h : frame.Sound x) {target : UInt64}
    (htarget : target.toNat < frame.function.code.size) : (frame.jump target).Sound x :=
  ⟨h.function, htarget, h.size_eq⟩

end Frame.Sound

/-- A sound function begins in a sound frame. -/
theorem CompiledFunc.Sound.frame {x : Executable} {f : CompiledFunc} (h : f.Sound x)
    (args : List Int64) : (f.frame args).Sound x :=
  ⟨h, h.size_pos, Cells.size_ofList _ _⟩

section Steps

variable {x : Executable} {limits : Limits} {frame : Frame} {waiting : List Waiting} {m : Machine}

/-- Entering a sound function keeps everything sound. -/
theorem enter_sound {f : CompiledFunc} (hf : f.Sound x) (hwaiting : ∀ w ∈ waiting, w.Sound x)
    (args : List Int64) : (enter limits f args waiting m).Sound x := by
  unfold enter
  split
  · exact fun name => nofun
  · exact ⟨hf.frame args, hwaiting⟩

/-- Leaving for a sound frame finds the destination there. -/
theorem guards_leave (hwaiting : ∀ w ∈ waiting, w.Sound x) (value : Option Int64) :
    Progress.Guards x (guardedLeave value waiting m) (leave value waiting m) := by
  cases waiting with
  | nil => exact ⟨rfl, fun name => nofun⟩
  | cons w rest =>
    obtain ⟨hw, hrest⟩ := List.forall_mem_cons.mp hwaiting
    unfold guardedLeave leave
    obtain ⟨frame, dst⟩ := w
    cases dst with
    | none => exact ⟨rfl, hw.frame.next hw.next_lt, hrest⟩
    | some r =>
      have hwrite := hw.frame.write? (hw.dst_lt r rfl) (value.getD 0)
      refine ⟨?_, hw.frame.write hw.next_lt r _, hrest⟩
      dsimp only [Frame.resume?] at hwrite ⊢
      rw [hwrite]
      rfl

/-- Executing an instruction of a sound frame goes wrong nowhere and keeps everything sound. -/
theorem guards_execute (hx : x.Sound) (hframe : frame.Sound x)
    (hwaiting : ∀ w ∈ waiting, w.Sound x) {i : Instruction}
    (hi : frame.function.code[frame.counter]? = some i) :
    Progress.Guards x (guardedExecute x limits i frame waiting m)
      (execute x limits i frame waiting m) := by
  have hmem : i ∈ frame.function.code := Array.mem_of_getElem? hi
  -- what the instruction names was counted when the size of the frame was chosen
  have hread : ∀ r ∈ i.registers, frame.read? r = some (frame.read r) :=
    fun r hr => hframe.read? (hframe.function.registers_lt i hmem r hr)
  have hwrite : ∀ r ∈ i.registers, ∀ v, frame.write? r v = some (frame.write r v) :=
    fun r hr => hframe.write? (hframe.function.registers_lt i hmem r hr)
  have htarget := hframe.function.targets_lt i hmem
  have hnext := hframe.function.next_lt frame.counter i hi
  cases i with
  | const dst value =>
    simp only [guardedExecute, hwrite dst List.mem_cons_self]
    exact ⟨rfl, hframe.write (hnext rfl) dst value, hwaiting⟩
  | binary kind dst lhs rhs =>
    simp only [guardedExecute, execute, hread lhs (by simp [Instruction.registers]),
      hread rhs (by simp [Instruction.registers]), hwrite dst List.mem_cons_self,
      BinaryOp.eval?_eq, Option.bind_eq_bind, Option.bind_some]
    cases kind.onIntegers? (frame.read lhs).toInt (frame.read rhs).toInt with
    | none => exact ⟨rfl, by rintro name ⟨⟩⟩
    | some v => exact ⟨rfl, hframe.write (hnext rfl) dst _, hwaiting⟩
  | compare pred dst lhs rhs =>
    simp only [guardedExecute, hread lhs (by simp [Instruction.registers]),
      hread rhs (by simp [Instruction.registers]), hwrite dst List.mem_cons_self]
    exact ⟨rfl, hframe.write (hnext rfl) dst _, hwaiting⟩
  | call dst callee args =>
    -- the linker has found the callee, and compared its parameters with the arguments
    obtain ⟨f, hcallee, hparams⟩ := hframe.function.calls dst callee args hmem
    obtain ⟨id, hid⟩ := Executable.exists_function?_of_resolve? hcallee
    have hf := hx id f hid
    have hargs : args.mapM frame.read? = some (args.map frame.read) :=
      hframe.mapM_read? fun r hr =>
        hframe.function.registers_lt _ hmem r (List.mem_append_right _ hr)
    have hreceives : f.receives (args.map frame.read) = true :=
      f.receives_eq_true (by rw [List.length_map, hparams]) hf.params_le
    have hcaller : Waiting.Sound x ⟨frame, dst⟩ :=
      ⟨hframe, hnext rfl, fun r hr => hframe.function.registers_lt _ hmem r
        (List.mem_append_left _ (Option.mem_toList.mpr hr))⟩
    simp only [guardedExecute, execute, hcallee, hargs, guardedEnter]
    refine ⟨if_pos hreceives, enter_sound hf ?_ _⟩
    exact List.forall_mem_cons.mpr ⟨hcaller, hwaiting⟩
  | jump target => exact ⟨rfl, hframe.jump (htarget target List.mem_cons_self), hwaiting⟩
  | branch cond thenTo elseTo =>
    simp only [guardedExecute, hread cond List.mem_cons_self]
    refine ⟨rfl, hframe.jump (htarget _ ?_), hwaiting⟩
    split <;> simp [Instruction.targets]
  | ret value =>
    cases value with
    | none => exact guards_leave hwaiting none
    | some r =>
      simp only [guardedExecute, hread r List.mem_cons_self]
      exact guards_leave hwaiting (some (frame.read r))
  | assert cond =>
    simp only [guardedExecute, execute, hread cond List.mem_cons_self]
    by_cases hzero : frame.read cond = 0
    · rw [if_pos hzero]
      exact ⟨if_pos hzero, by rintro name ⟨⟩⟩
    · rw [if_neg hzero]
      exact ⟨if_neg hzero, hframe.next (hnext rfl), hwaiting⟩
  | print value =>
    simp only [guardedExecute, hread value List.mem_cons_self]
    exact ⟨rfl, hframe.next (hnext rfl), hwaiting⟩
  | load dst addr =>
    simp only [guardedExecute, execute, hread addr (by simp [Instruction.registers]),
      hwrite dst List.mem_cons_self]
    cases hcell : m.memory.number? (frame.read addr) with
    | none =>
      refine ⟨?_, by rintro name ⟨⟩⟩
      simp [hcell]
    | some n =>
      refine ⟨?_, hframe.write (hnext rfl) dst _, hwaiting⟩
      simp [hcell, Cells.read?_eq_some (Cells.lt_of_number? hcell)]
  | store addr value =>
    simp only [guardedExecute, execute, hread addr List.mem_cons_self,
      hread value (by simp [Instruction.registers])]
    cases hcell : m.memory.number? (frame.read addr) with
    | none =>
      refine ⟨?_, by rintro name ⟨⟩⟩
      simp [hcell]
    | some n =>
      refine ⟨?_, hframe.next (hnext rfl), hwaiting⟩
      simp [hcell, Cells.write?_eq_some (Cells.lt_of_number? hcell)]
  | abort => exact ⟨rfl, by rintro name ⟨⟩⟩
  | nop => exact ⟨rfl, hframe.next (hnext rfl), hwaiting⟩

/-- A step of a sound run goes wrong nowhere and keeps it sound. -/
theorem RunState.guards_step (hx : x.Sound) {c : RunState} (h : c.Sound x) :
    Progress.Guards x (c.guardedStep x limits) (c.step x limits) := by
  obtain ⟨frame, waiting, m⟩ := c
  have hi := Array.getElem?_eq_getElem h.frame.counter_lt
  unfold guardedStep step
  dsimp only at hi ⊢
  rw [hi]
  exact guards_execute hx h.frame h.waiting hi

end Steps

/-! ## Runs -/

section Runs

variable {x : Executable} {limits : Limits}

/-- A sound run goes wrong nowhere, and ends otherwise than for a call that reaches no function. -/
theorem RunState.guardedRun_eq (hx : x.Sound) {c : RunState} (h : c.Sound x) (n : Nat) :
    c.guardedRun x limits n = some (c.run x limits n) ∧
      ∀ name, (c.run x limits n).ending ≠ .trapped (.unknownFunction name) := by
  induction n generalizing c with
  | zero => exact ⟨rfl, fun name => nofun⟩
  | succ n ih =>
    have hguards : Progress.Guards x (c.guardedStep x limits) (c.step x limits) :=
      guards_step hx h
    obtain ⟨hstep, hsound⟩ := hguards
    unfold guardedRun
    rw [hstep]
    cases hnext : c.step x limits with
    | running c' =>
      rw [hnext] at hsound
      rw [run_succ_of_running hnext]
      exact ih hsound
    | ended e m =>
      rw [hnext] at hsound
      rw [run_succ_of_ended hnext]
      exact ⟨rfl, hsound⟩

namespace Executable

/-- Linked code never goes wrong. When a function of a program that builds is run, with any
arguments, limits and patience and on any machine, no access is out of range, no call reaches
nothing or passes another number of values than its callee takes, control never comes to the end of
the code, and arithmetic wraps: the guarded machine ends the run as the machine does. The run does
not end for a call that reaches no function either, so it returns, fails an assertion, divides by
zero, leaves the memory, calls too deep, aborts or is interrupted. -/
theorem linked_code_never_goes_wrong {p : Program} {x : Executable} (hx : p.Builds x)
    (limits : Limits) (m : Machine) (patience : Nat) {id : FuncId} {f : CompiledFunc}
    (hf : x.function? id = some f) (args : List Int64) :
    m.guardedInvoke x limits patience id args = some (m.invoke x limits patience id args) ∧
      ∀ name, (m.invoke x limits patience id args).ending ≠ .trapped (.unknownFunction name) := by
  have hsound : (enter limits f args [] m).Sound x :=
    enter_sound (hx.sound id f hf) (List.forall_mem_nil _) args
  unfold Machine.guardedInvoke Machine.invoke
  simp only [hf, Option.bind_eq_bind, Option.bind_some]
  cases hentered : enter limits f args [] m with
  | running c =>
    rw [hentered] at hsound
    exact RunState.guardedRun_eq hx.sound hsound patience
  | ended e m' =>
    rw [hentered] at hsound
    exact ⟨rfl, hsound⟩

/-- A program with a function that divides by way of another. -/
def dividingProgram : Program where
  modules :=
    [⟨"math", [⟨"divide", 2, [.call (some 2) "quotient" [0, 1], .ret (some 2)]⟩,
      ⟨"quotient", 2, [.binary .div 0 0 1, .ret (some 0)]⟩]⟩]

/-- What the program builds to. -/
def dividingExecutable : Executable where
  modules := dividingProgram.lower
  symbols := [("quotient", ⟨0, 1⟩), ("divide", ⟨0, 0⟩)]

/-- The least word divided by minus one is the least word again, on the guarded machine too, which
is given one argument too many. -/
theorem wraps_least_word_by_minus_one :
    dividingProgram.Builds dividingExecutable ∧
      (dividingExecutable.function? ⟨0, 0⟩).isSome = true ∧
      ((Machine.fresh {} true).guardedInvoke dividingExecutable {} 10 ⟨0, 0⟩
        [Int64.minValue, -1, 7]).map RunEnd.ending = some (.returned (some Int64.minValue)) := by
  have hbuilds : dividingProgram.Builds dividingExecutable := rfl
  have hfunction : dividingExecutable.function? ⟨0, 0⟩ =
      some (Func.lower ⟨"divide", 2, [.call (some 2) "quotient" [0, 1], .ret (some 2)]⟩ ⟨0, 0⟩) :=
    rfl
  obtain ⟨hguarded, -⟩ := linked_code_never_goes_wrong hbuilds {} (.fresh {} true) 10 hfunction
    [Int64.minValue, -1, 7]
  refine ⟨hbuilds, rfl, ?_⟩
  rw [hguarded]
  rfl

end Executable

end Runs

end MutationTester
