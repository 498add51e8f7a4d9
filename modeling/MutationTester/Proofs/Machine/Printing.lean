import MutationTester.Proofs.Machine.Nesting

/-!
# What machines print

The output of a machine holds the lines that it has printed as long as they found room
(`keptLines`): each line is there as a whole or not at all, and a line that did not fit does not
keep a shorter one from being added later. That is the law of a step (`RunState.captures_step`), of
a run and of all runs that a machine makes (`Machine.captures_invoke`), however they end. With the
count of the calls under way it gives all that one invocation leaves to the next
(`CountingMachine.survives_its_failures`).
-/

set_option autoImplicit false

namespace MutationTester

/-! ## Lines that find room -/

/-- The lines that are kept when they come one after another: a line is kept if all of it fits into
the room that is left, and dropped otherwise. -/
def keptLines : Nat → List String → List String
  | _, [] => []
  | room, line :: rest =>
    if line.utf8ByteSize ≤ room then line :: keptLines (room - line.utf8ByteSize) rest
    else keptLines room rest

theorem size_join_keptLines_le (room : Nat) (lines : List String) :
    (String.join (keptLines room lines)).utf8ByteSize ≤ room := by
  induction lines generalizing room with
  | nil =>
    rw [keptLines, String.join_nil]
    exact Nat.zero_le room
  | cons line rest ih =>
    rw [keptLines]
    split
    next hfits =>
      have hrest := ih (room - line.utf8ByteSize)
      rw [String.join_cons, String.utf8ByteSize_append]
      omega
    next => exact ih room

/-- Lines that come later find the room that is left by what has been kept before. -/
theorem keptLines_append (room : Nat) (earlier later : List String) :
    keptLines room (earlier ++ later) = keptLines room earlier ++
      keptLines (room - (String.join (keptLines room earlier)).utf8ByteSize) later := by
  induction earlier generalizing room with
  | nil =>
    rw [List.nil_append, keptLines, String.join_nil, List.nil_append]
    rfl
  | cons line rest ih =>
    rw [List.cons_append, keptLines, keptLines]
    split
    next =>
      rw [ih, String.join_cons, String.utf8ByteSize_append, List.cons_append, Nat.sub_sub]
    next => exact ih room

/-- A line that does not fit is no obstacle to one that does. -/
example : keptLines 6 ["10\n", "-200\n", "7\n"] = ["10\n", "7\n"] := by decide

/-! ## What runs print -/

/-- The value that an instruction prints, if it prints one. -/
def Instruction.printed? (i : Instruction) (frame : Frame) : Option Int64 :=
  match i with
  | .print value => some (frame.read value)
  | _ => none

/-- The value that a run prints by its next step, if it prints one. -/
def RunState.printed? (c : RunState) : Option Int64 :=
  c.frame.function.code[c.frame.counter]? >>= fun i => i.printed? c.frame

/-- The values that a run prints, in the order in which it prints them. -/
def Progress.printed (x : Executable) (limits : Limits) : Nat → Progress → List Int64
  | n + 1, .running c => c.printed?.toList ++ (c.step x limits).printed x limits n
  | _, _ => []

/-- The values that a run prints that begins by invoking a function. -/
def Machine.printed (m : Machine) (x : Executable) (limits : Limits) (patience : Nat) (id : FuncId)
    (args : List Int64) : List Int64 :=
  match x.function? id with
  | some f => (enter limits f args [] m).printed x limits patience
  | none => []

/-- What becomes of a machine that prints values: its memory has as many cells as before, and the
lines that found room have been added to its output. -/
structure Machine.Captures (limits : Limits) (values : List Int64) (m m' : Machine) : Prop where
  size_eq : m'.memory.size = m.memory.size
  output_eq : m'.output = m.output ++
    String.join (keptLines (limits.maxOutput - m.output.utf8ByteSize) (values.map printedLine))

namespace Machine.Captures

variable {limits : Limits} {m m' m'' : Machine}

theorem of_eq (hsize : m'.memory.size = m.memory.size) (houtput : m'.output = m.output) :
    Captures limits [] m m' := by
  refine ⟨hsize, ?_⟩
  rw [houtput, List.map_nil, keptLines, String.join_nil, String.append_empty]

theorem refl (m : Machine) : Captures limits [] m m := of_eq rfl rfl

theorem trans {earlier later : List Int64} (h : Captures limits earlier m m')
    (h' : Captures limits later m' m'') : Captures limits (earlier ++ later) m m'' := by
  refine ⟨h'.size_eq.trans h.size_eq, ?_⟩
  rw [h'.output_eq, h.output_eq, String.utf8ByteSize_append, ← Nat.sub_sub, List.map_append,
    keptLines_append, String.join_append, String.append_assoc]

/-- The line of a value is added if it fits. It is never empty, so that nothing is added to an
output that has no room. -/
theorem capture (m : Machine) (v : Int64) :
    Captures limits [v] m (m.capture limits (printedLine v)) := by
  have hpositive : 0 < (printedLine v).utf8ByteSize := by
    rw [printedLine, String.utf8ByteSize_append]
    exact Nat.succ_pos _
  rw [Machine.capture]
  split
  next hfits =>
    refine ⟨rfl, ?_⟩
    rw [List.map_singleton, keptLines, if_pos (by omega)]
    rfl
  next hfull =>
    refine ⟨rfl, ?_⟩
    rw [List.map_singleton, keptLines, if_neg (by omega), keptLines, String.join_nil,
      String.append_empty]

end Machine.Captures

section Runs

variable (x : Executable) (limits : Limits)

theorem captures_enter (f : CompiledFunc) (args : List Int64) (waiting : List Waiting)
    (m : Machine) : Machine.Captures limits [] m (enter limits f args waiting m).machine := by
  unfold enter
  split
  · exact .refl m
  · exact .of_eq rfl rfl

theorem captures_leave (value : Option Int64) (waiting : List Waiting) (m : Machine) :
    Machine.Captures limits [] m (leave value waiting m).machine := by
  cases waiting <;> exact .refl m

theorem captures_execute (i : Instruction) (frame : Frame) (waiting : List Waiting)
    (m : Machine) : Machine.Captures limits (i.printed? frame).toList m
      (execute x limits i frame waiting m).machine := by
  -- only a print adds to the output, and a store keeps the number of cells
  cases i with
  | print value => exact .capture m (frame.read value)
  | call dst callee args =>
    simp only [execute]
    split
    · exact captures_enter limits _ _ _ m
    · exact .refl m
  | ret value => exact captures_leave limits _ waiting m
  | store addr value =>
    simp only [execute]
    split
    · exact .of_eq rfl rfl
    · exact .refl m
  | binary kind dst lhs rhs =>
    simp only [execute]
    split <;> exact .refl m
  | assert cond =>
    simp only [execute]
    split <;> exact .refl m
  | load dst addr =>
    simp only [execute]
    split <;> exact .refl m
  | _ => exact .refl m

theorem RunState.captures_step (c : RunState) :
    Machine.Captures limits c.printed?.toList c.machine (c.step x limits).machine := by
  unfold step printed?
  dsimp only
  cases c.frame.function.code[c.frame.counter]? with
  | none => exact captures_leave limits none c.waiting c.machine
  | some i =>
    have hhit : Machine.Captures limits [] c.machine (c.machine.recordHit c.frame.site) :=
      .of_eq rfl rfl
    exact hhit.trans (captures_execute x limits i c.frame c.waiting _)

theorem Progress.captures_run (p : Progress) (n : Nat) :
    Machine.Captures limits (p.printed x limits n) p.machine (p.run x limits n).machine := by
  induction n generalizing p with
  | zero => cases p <;> exact .refl _
  | succ n ih =>
    cases p with
    | running c =>
      rw [run_running_succ, printed]
      exact (c.captures_step x limits).trans (ih (c.step x limits))
    | ended e m => exact .refl m

/-- An invocation adds to the output what it prints, as far as there is room, however it ends. -/
theorem Machine.captures_invoke (m : Machine) (n : Nat) (id : FuncId) (args : List Int64) :
    Machine.Captures limits (m.printed x limits n id args) m
      (m.invoke x limits n id args).machine := by
  unfold printed invoke
  cases x.function? id with
  | none => exact .refl m
  | some f => exact (captures_enter limits f args [] m).trans (Progress.captures_run x limits _ n)

end Runs

/-! ## Machines that are used again -/

/-- A function that is invoked with arguments and is interrupted after `patience` steps. -/
structure Invocation where
  id : FuncId
  args : List Int64
  patience : Nat

/-- The machine after invocations one after another, each of which ends in its own way. -/
def Machine.after (m : Machine) (x : Executable) (limits : Limits) (calls : List Invocation) :
    Machine :=
  calls.foldl (fun m i => (m.invoke x limits i.patience i.id i.args).machine) m

/-- The values that are printed by invocations one after another. -/
def Machine.printedBy (m : Machine) (x : Executable) (limits : Limits) :
    List Invocation → List Int64
  | [] => []
  | i :: rest =>
    m.printed x limits i.patience i.id i.args ++
      (m.invoke x limits i.patience i.id i.args).machine.printedBy x limits rest

theorem Machine.captures_after (m : Machine) (x : Executable) (limits : Limits)
    (calls : List Invocation) :
    Machine.Captures limits (m.printedBy x limits calls) m (m.after x limits calls) := by
  induction calls generalizing m with
  | nil => exact .refl m
  | cons i rest ih => exact (m.captures_invoke x limits _ _ _).trans (ih _)

namespace CountingMachine

/-- A machine on which nothing has been invoked. -/
def fresh (limits : Limits) (instrumented : Bool) : CountingMachine :=
  ⟨.fresh limits instrumented, 0⟩

/-- The counting machine after invocations one after another. -/
def after (m : CountingMachine) (x : Executable) (limits : Limits) (calls : List Invocation) :
    CountingMachine :=
  calls.foldl (fun m i => (m.invoke x limits i.patience i.id i.args).after) m

/-- Between invocations no call is under way, and apart from the count the machine is the one with a
stack. -/
theorem after_eq (m : Machine) (x : Executable) (limits : Limits) (calls : List Invocation) :
    CountingMachine.after ⟨m, 0⟩ x limits calls = ⟨m.after x limits calls, 0⟩ := by
  induction calls generalizing m with
  | nil => rfl
  | cons i rest ih =>
    have hdepth := depth_invoke x limits ⟨m, 0⟩ i.patience i.id i.args
    have hmachine := congrArg RunEnd.machine (invoke_eq x limits m i.patience i.id i.args)
    have hone : (invoke x limits ⟨m, 0⟩ i.patience i.id i.args).after =
        ⟨(m.invoke x limits i.patience i.id i.args).machine, 0⟩ := by
      rw [hmachine]
      generalize (invoke x limits ⟨m, 0⟩ i.patience i.id i.args).after = served at hdepth ⊢
      obtain ⟨machine, depth⟩ := served
      obtain rfl : depth = 0 := hdepth
      rfl
    show CountingMachine.after (invoke x limits ⟨m, 0⟩ i.patience i.id i.args).after x limits rest =
      ⟨(m.invoke x limits i.patience i.id i.args).machine.after x limits rest, 0⟩
    rw [hone]
    exact ih _

/-- A machine survives its own failures. Let functions be invoked one after another on a fresh
machine, whatever they are and however each invocation ends: with a value, a failed assertion or a
trap, as an unknown function, or interrupted. Then no call is under way, the memory has all its
cells, and the output is what the printed values leave when each line is kept whole if it still fits
and dropped otherwise, which is no more than the limit. Nothing that is invoked after that changes
what has been captured. And what is invoked next runs as on a machine with an empty stack: it never
has more frames at once than the limit allows, and ends because of it only when it has had exactly
as many. -/
theorem survives_its_failures (x : Executable) (limits : Limits) (instrumented : Bool)
    (calls : List Invocation) :
    let m := (fresh limits instrumented).after x limits calls
    let values := (Machine.fresh limits instrumented).printedBy x limits calls
    m = ⟨(Machine.fresh limits instrumented).after x limits calls, 0⟩ ∧
      m.machine.memory.size = limits.memoryCells ∧
      m.machine.output =
        String.join (keptLines limits.maxOutput (values.map fun v => v.toInt.repr ++ "\n")) ∧
      m.machine.output.utf8ByteSize ≤ limits.maxOutput ∧
      (∀ more : List Invocation, ∃ added,
        (m.after x limits more).machine.output = m.machine.output ++ added) ∧
      ∀ (patience : Nat) (id : FuncId) (args : List Int64),
        let r := m.invoke x limits patience id args
        m.machine.invoke x limits patience id args = ⟨r.ending, r.after.machine, r.unspent⟩ ∧
          m.machine.peak x limits patience id args ≤ limits.maxCallDepth ∧
          ∀ name, r.ending = .trapped (.stackOverflow name) →
            m.machine.peak x limits patience id args = limits.maxCallDepth := by
  intro m values
  have hm : m = ⟨(Machine.fresh limits instrumented).after x limits calls, 0⟩ :=
    after_eq (Machine.fresh limits instrumented) x limits calls
  have hcaptures := (Machine.fresh limits instrumented).captures_after x limits calls
  have houtput : m.machine.output =
      String.join (keptLines limits.maxOutput (values.map printedLine)) := by
    rw [hm, hcaptures.output_eq]
    exact String.empty_append
  rw [hm] at houtput ⊢
  refine ⟨rfl, hcaptures.size_eq, houtput, ?_, ?_, ?_⟩
  · rw [houtput]
    exact size_join_keptLines_le limits.maxOutput _
  · intro more
    rw [after_eq]
    exact ⟨_, (Machine.captures_after _ x limits more).output_eq⟩
  · intro patience id args r
    have hr := invoke_eq x limits ((Machine.fresh limits instrumented).after x limits calls)
      patience id args
    obtain ⟨hle, hreached⟩ :=
      ((Machine.fresh limits instrumented).after x limits calls).peak_invoke x limits patience id
        args
    refine ⟨hr, hle, ?_⟩
    intro name hending
    apply hreached name
    rw [hr]
    exact hending

/-- A function that prints its argument and calls itself without end. -/
def deepeningExecutable : Executable where
  modules :=
    [⟨0, "lib", [⟨⟨0, 0⟩, "deepen", 1, 1, #[.print 0, .call none "deepen" [0], .ret none]⟩]⟩]
  symbols := [("deepen", ⟨0, 0⟩)]

/-- A machine on which calls were too many and an unknown function was invoked has two of the three
lines that were printed. What is invoked next has as many frames as the first function had. -/
theorem overflown_machine_is_used_again :
    let limits : Limits := ⟨3, 0, 8, none⟩
    let calls : List Invocation := [⟨⟨0, 0⟩, [-5], 100⟩, ⟨⟨0, 7⟩, [], 100⟩]
    let m := (fresh limits true).after deepeningExecutable limits calls
    m.depth = 0 ∧ m.machine.output = "-5\n-5\n" ∧
      (m.invoke deepeningExecutable limits 100 ⟨0, 0⟩ [7]).ending =
        .trapped (.stackOverflow "deepen") ∧
      m.machine.peak deepeningExecutable limits 100 ⟨0, 0⟩ [7] = 3 := by
  intro limits calls m
  obtain ⟨hm, -, -, -, -, hnext⟩ := survives_its_failures deepeningExecutable limits true calls
  have hmachine : m.machine = (Machine.fresh limits true).after deepeningExecutable limits calls :=
    congrArg CountingMachine.machine hm
  obtain ⟨hinvoke, -, hreached⟩ := hnext 100 ⟨0, 0⟩ [7]
  have hending : (m.invoke deepeningExecutable limits 100 ⟨0, 0⟩ [7]).ending =
      .trapped (.stackOverflow "deepen") := by
    refine (congrArg RunEnd.ending hinvoke).symm.trans ?_
    show (m.machine.invoke deepeningExecutable limits 100 ⟨0, 0⟩ [7]).ending = _
    rw [hmachine]
    decide +kernel
  refine ⟨congrArg CountingMachine.depth hm, ?_, hending, hreached "deepen" hending⟩
  rw [hmachine]
  decide +kernel

end CountingMachine

end MutationTester
