import Mathlib.Data.List.Forall2
import MutationTester.Proofs.Build.Variants
import MutationTester.Proofs.Machine.Recording

/-!
# Two executables in lockstep

Two runs on executables that differ at one site stay in step for as long as the first of them
does not come to that site. In step means: the same functions wait, with the same registers
and at the same places, and memory and output are the same (`RunState.Matches`). The frames may
have different sizes, and only the first machine need keep a coverage record. Each step keeps the
runs in step (`RunState.step_matches`); so at the end either the first run has recorded the site
as executed, or both have ended in the same way (`RunState.executed_run_or_matches`).
-/

set_option autoImplicit false

namespace MutationTester

/-! ## States in step -/

namespace Cells

/-- Writing a list of values into consecutive cells. -/
theorem read_foldl_write (values : List Int64) (start n : Nat) (c : Cells) :
    ((values.zipIdx start).foldl (fun c entry => c.write entry.2 entry.1) c).read n =
      if start ≤ n then (values[n - start]?).getD (c.read n) else c.read n := by
  induction values generalizing start c with
  | nil => simp
  | cons v values ih =>
    rw [List.zipIdx_cons, List.foldl_cons, ih, read_write]
    rcases Nat.lt_trichotomy n start with hlt | rfl | hlt
    · rw [if_neg (by omega), if_neg (by omega), if_neg (by omega)]
    · rw [if_neg (by omega), if_pos rfl, if_pos (Nat.le_refl n), Nat.sub_self]
      rfl
    · obtain ⟨k, rfl⟩ : ∃ k, n = start + 1 + k := ⟨n - (start + 1), by omega⟩
      have hk : start + 1 + k - start = k + 1 := by omega
      rw [if_pos (by omega), if_neg (by omega), if_pos (by omega), Nat.add_sub_cancel_left, hk,
        List.getElem?_cons_succ]

/-- A row that begins with some values holds these and then zeros, whatever its size. -/
theorem read_ofList (values : List Int64) (size n : Nat) :
    (ofList values size).read n = (values[n]?).getD 0 := by
  unfold ofList
  rw [read_foldl_write]
  simp

end Cells

/-- Two frames in step: the same place in functions that differ at one site at most, and the
same values in all registers. -/
structure Frame.Matches (s : Site) (a b : Frame) : Prop where
  function : CompiledFunc.DiffersAt s a.function b.function
  counter : b.counter = a.counter
  registers : ∀ n, b.registers.read n = a.registers.read n

/-- Two frames that wait in step. -/
structure Waiting.Matches (s : Site) (v w : Waiting) : Prop where
  frame : v.frame.Matches s w.frame
  dst : w.dst = v.dst

/-- Two machines with the same memory and the same output. -/
structure Machine.Matches (m n : Machine) : Prop where
  memory : n.memory = m.memory
  output : n.output = m.output

/-- Two runs in step. -/
structure RunState.Matches (s : Site) (c d : RunState) : Prop where
  frame : c.frame.Matches s d.frame
  waiting : List.Forall₂ (Waiting.Matches s) c.waiting d.waiting
  machine : c.machine.Matches d.machine

/-- What two steps lead to, in step: runs that go on in step, or the same end. -/
inductive Progress.Matches (s : Site) : Progress → Progress → Prop
  | running {c d : RunState} (h : c.Matches s d) : Matches s (.running c) (.running d)
  | ended (e : Ending) {m n : Machine} (h : m.Matches n) : Matches s (.ended e m) (.ended e n)

/-- The same end of two runs. -/
structure RunEnd.Matches (r t : RunEnd) : Prop where
  ending : t.ending = r.ending
  machine : r.machine.Matches t.machine
  unspent : t.unspent = r.unspent

/-! ## Frames -/

namespace Frame.Matches

variable {s : Site} {a b : Frame}

theorem read (h : a.Matches s b) (r : Register) : b.read r = a.read r := h.registers r.toNat

theorem map_read (h : a.Matches s b) (args : List Register) :
    args.map b.read = args.map a.read :=
  List.map_congr_left fun r _ => h.read r

theorem write (h : a.Matches s b) (r : Register) (v : Int64) :
    (a.write r v).Matches s (b.write r v) where
  function := h.function
  counter := congrArg (· + 1) h.counter
  registers n := by
    show (b.registers.write r.toNat v).read n = (a.registers.write r.toNat v).read n
    rw [Cells.read_write, Cells.read_write, h.registers]

theorem next (h : a.Matches s b) : a.next.Matches s b.next where
  function := h.function
  counter := congrArg (· + 1) h.counter
  registers := h.registers

theorem jump (h : a.Matches s b) (target : UInt64) :
    (a.jump target).Matches s (b.jump target) where
  function := h.function
  counter := rfl
  registers := h.registers

theorem resume (h : a.Matches s b) (dst : Option Register) (value : Option Int64) :
    (a.resume dst value).Matches s (b.resume dst value) := by
  cases dst with
  | none => exact h.next
  | some r => exact h.write r (value.getD 0)

end Frame.Matches

/-- Functions that differ at one site at most begin in frames in step. -/
theorem CompiledFunc.DiffersAt.frame {s : Site} {f g : CompiledFunc}
    (h : CompiledFunc.DiffersAt s f g) (args : List Int64) :
    (f.frame args).Matches s (g.frame args) where
  function := h
  counter := rfl
  registers n := by
    have hlength : ∀ size, g.params ≤ size →
        (args.take g.params).take size = args.take g.params := by
      intro size hsize
      exact List.take_of_length_le (by rw [List.length_take]; omega)
    have hparams := h.params_eq
    show (Cells.ofList ((args.take g.params).take g.frameSize) g.frameSize).read n =
      (Cells.ofList ((args.take f.params).take f.frameSize) f.frameSize).read n
    rw [Cells.read_ofList, Cells.read_ofList, ← hparams, hlength g.frameSize h.params_le',
      hlength f.frameSize (hparams ▸ h.params_le)]

/-! ## Steps -/

namespace Machine.Matches

variable {m n : Machine}

/-- Records do not matter for machines to match. -/
theorem recordEntry (h : m.Matches n) (f g : FuncId) (d e : Nat) :
    (m.recordEntry f d).Matches (n.recordEntry g e) := ⟨h.memory, h.output⟩

theorem recordHit (h : m.Matches n) (s t : Site) : (m.recordHit s).Matches (n.recordHit t) :=
  ⟨h.memory, h.output⟩

theorem capture (h : m.Matches n) (limits : Limits) (line : String) :
    (m.capture limits line).Matches (n.capture limits line) := by
  unfold Machine.capture
  rw [h.output]
  split
  · exact ⟨h.memory, rfl⟩
  · exact h

end Machine.Matches

section Steps

variable {s : Site} {x y : Executable} {a b : Frame} {v w : List Waiting} {m n : Machine}

/-- Entering functions that differ at one site at most keeps runs in step. -/
theorem enter_matches {f g : CompiledFunc} (hf : CompiledFunc.DiffersAt s f g)
    (hwaiting : List.Forall₂ (Waiting.Matches s) v w) (hmachine : m.Matches n) (limits : Limits)
    (args : List Int64) :
    Progress.Matches s (enter limits f args v m) (enter limits g args w n) := by
  unfold enter
  rw [hwaiting.length_eq]
  split
  · rw [hf.name_eq]
    exact .ended _ hmachine
  · exact .running ⟨hf.frame args, hwaiting, hmachine.recordEntry _ _ _ _⟩

/-- Leaving the running functions keeps runs in step. -/
theorem leave_matches (hwaiting : List.Forall₂ (Waiting.Matches s) v w) (hmachine : m.Matches n)
    (value : Option Int64) :
    Progress.Matches s (leave value v m) (leave value w n) := by
  cases hwaiting with
  | nil => exact .ended _ hmachine
  | cons hhead htail =>
    unfold leave
    dsimp only
    rw [hhead.dst]
    exact .running ⟨hhead.frame.resume _ value, htail, hmachine⟩

/-- Executing the same instruction keeps runs in step. -/
theorem execute_matches (hxy : Executable.DiffersAt s x y) (hframe : a.Matches s b)
    (hwaiting : List.Forall₂ (Waiting.Matches s) v w) (hmachine : m.Matches n) (limits : Limits)
    (i : Instruction) :
    Progress.Matches s (execute x limits i a v m) (execute y limits i b w n) := by
  have hname := hframe.function.name_eq
  have hcounter := hframe.counter
  cases i with
  | const dst value => exact .running ⟨hframe.write dst value, hwaiting, hmachine⟩
  | binary kind dst lhs rhs =>
    simp only [execute, hframe.read, hname, hcounter]
    cases kind.eval? (a.read lhs) (a.read rhs) with
    | some value => exact .running ⟨hframe.write dst value, hwaiting, hmachine⟩
    | none => exact .ended _ hmachine
  | compare pred dst lhs rhs =>
    simp only [execute, hframe.read]
    exact .running ⟨hframe.write dst _, hwaiting, hmachine⟩
  | call dst callee args =>
    have hcallee := hxy.resolve?_rel callee
    simp only [execute, hframe.map_read]
    generalize x.resolve? callee = f at hcallee ⊢
    generalize y.resolve? callee = g at hcallee ⊢
    cases hcallee with
    | none => exact .ended _ hmachine
    | some hf =>
      have hhead : Waiting.Matches s ⟨a, dst⟩ ⟨b, dst⟩ := ⟨hframe, rfl⟩
      exact enter_matches hf (.cons hhead hwaiting) hmachine limits _
  | jump target => exact .running ⟨hframe.jump target, hwaiting, hmachine⟩
  | branch cond thenTo elseTo =>
    simp only [execute, hframe.read]
    exact .running ⟨hframe.jump _, hwaiting, hmachine⟩
  | ret value =>
    have hvalue : value.map b.read = value.map a.read := by
      cases value with
      | none => rfl
      | some r => exact congrArg some (hframe.read r)
    simp only [execute, hvalue]
    exact leave_matches hwaiting hmachine _
  | assert cond =>
    simp only [execute, hframe.read, hname, hcounter]
    split
    · exact .ended _ hmachine
    · exact .running ⟨hframe.next, hwaiting, hmachine⟩
  | print value =>
    simp only [execute, hframe.read]
    exact .running ⟨hframe.next, hwaiting, hmachine.capture limits _⟩
  | load dst addr =>
    simp only [execute, hframe.read, hname, hcounter, hmachine.memory]
    cases m.memory.number? (a.read addr) with
    | some k => exact .running ⟨hframe.write dst _, hwaiting, hmachine⟩
    | none => exact .ended _ hmachine
  | store addr value =>
    simp only [execute, hframe.read, hname, hcounter, hmachine.memory]
    cases m.memory.number? (a.read addr) with
    | some k => exact .running ⟨hframe.next, hwaiting, rfl, hmachine.output⟩
    | none => exact .ended _ hmachine
  | abort =>
    simp only [execute, hname, hcounter]
    exact .ended _ hmachine
  | nop => exact .running ⟨hframe.next, hwaiting, hmachine⟩

/-- Steps of runs that are in step, and have not come to an instruction at the site, keep them in
step. -/
theorem RunState.step_matches {c d : RunState} (hxy : Executable.DiffersAt s x y)
    (h : c.Matches s d)
    (hsite : c.frame.site = s → c.frame.function.code[c.frame.counter]? = none)
    (limits : Limits) : Progress.Matches s (c.step x limits) (d.step y limits) := by
  have hcode :
      d.frame.function.code[d.frame.counter]? = c.frame.function.code[c.frame.counter]? := by
    rw [h.frame.counter]
    by_cases hs : c.frame.site = s
    · rw [hsite hs]
      rw [Array.getElem?_eq_none_iff, h.frame.function.size_eq]
      exact Array.getElem?_eq_none_iff.mp (hsite hs)
    · exact h.frame.function.code_eq c.frame.counter hs
  unfold step
  dsimp only
  rw [hcode]
  split
  · exact execute_matches hxy h.frame h.waiting (h.machine.recordHit _ _) limits _
  · exact leave_matches h.waiting h.machine none

/-- A step from an instruction at a site records the site. -/
theorem RunState.executed_step_site {c : RunState} (hc : c.machine.coverage.isSome = true)
    {i : Instruction} (hi : c.frame.function.code[c.frame.counter]? = some i) (limits : Limits) :
    (c.step x limits).machine.Executed c.frame.site := by
  unfold step
  dsimp only
  rw [hi]
  apply executed_execute
  exact (c.machine.executed_recordHit_iff hc _ _).mpr (Or.inl rfl)

end Steps

/-! ## Runs -/

section Runs

variable {s : Site} {x y : Executable}

/-- Of two runs that begin in step, the first records the site at which the executables differ,
or both end in the same way. -/
theorem RunState.executed_run_or_matches {c d : RunState} (hxy : Executable.DiffersAt s x y)
    (h : c.Matches s d) (hc : c.machine.coverage.isSome = true) (limits : Limits) (n : Nat) :
    (c.run x limits n).machine.Executed s ∨ (c.run x limits n).Matches (d.run y limits n) := by
  induction n generalizing c d with
  | zero => exact Or.inr ⟨rfl, h.machine, rfl⟩
  | succ n ih =>
    by_cases hsite : c.frame.site = s ∧ c.frame.function.code[c.frame.counter]? ≠ none
    · -- the first run comes to the site now, and the record of that is kept
      left
      obtain ⟨hs, hi⟩ := hsite
      obtain ⟨i, hi⟩ := Option.ne_none_iff_exists'.mp hi
      have hhit := executed_step_site (x := x) hc hi limits
      rw [hs] at hhit
      cases hstep : c.step x limits with
      | running c' =>
        rw [hstep] at hhit
        rw [run_succ_of_running hstep]
        exact executed_run hhit n
      | ended e m =>
        rw [hstep] at hhit
        rw [run_succ_of_ended hstep]
        exact hhit
    · have hmatches := step_matches hxy h (fun hs => by simpa [hs] using hsite) limits
      have hkept : (c.step x limits).machine.coverage.isSome = true := isSome_coverage_step hc
      cases hstep : c.step x limits with
      | running c' =>
        rw [hstep] at hmatches hkept
        cases hstep' : d.step y limits with
        | running d' =>
          rw [hstep'] at hmatches
          rw [run_succ_of_running hstep, run_succ_of_running hstep']
          cases hmatches with
          | running hnext => exact ih hnext hkept
        | ended e m =>
          rw [hstep'] at hmatches
          cases hmatches
      | ended e m =>
        rw [hstep] at hmatches
        cases hstep' : d.step y limits with
        | running d' =>
          rw [hstep'] at hmatches
          cases hmatches
        | ended e' m' =>
          rw [hstep'] at hmatches
          rw [run_succ_of_ended hstep, run_succ_of_ended hstep']
          cases hmatches with
          | ended _ hmachine => exact Or.inr ⟨rfl, hmachine, rfl⟩

/-- Of two test runs on executables that differ at one site, the first of which is instrumented,
the first records that site, or both end in the same way. -/
theorem executed_endOfTest_or_matches (hxy : Executable.DiffersAt s x y) (limits : Limits)
    (entry : FuncId) (n : Nat) :
    (endOfTest x limits true entry n).machine.Executed s ∨
      (endOfTest x limits true entry n).Matches (endOfTest y limits false entry n) := by
  have hfresh : (Machine.fresh limits true).Matches (Machine.fresh limits false) := ⟨rfl, rfl⟩
  have hentry := hxy.function?_rel entry
  unfold endOfTest Machine.invoke
  generalize x.function? entry = f at hentry ⊢
  generalize y.function? entry = g at hentry ⊢
  cases hentry with
  | none => exact Or.inr ⟨rfl, hfresh, rfl⟩
  | some hf =>
    rename_i f g
    have hmatches := enter_matches hf .nil hfresh limits []
    have hkept :
        (enter limits f [] [] (Machine.fresh limits true)).machine.coverage.isSome = true :=
      isSome_coverage_enter rfl f [] []
    dsimp only
    generalize enter limits f [] [] (Machine.fresh limits true) = p at hmatches hkept ⊢
    generalize enter limits g [] [] (Machine.fresh limits false) = q at hmatches ⊢
    cases hmatches with
    | running h => exact RunState.executed_run_or_matches hxy h hkept limits n
    | ended e hmachine => exact Or.inr ⟨rfl, hmachine, rfl⟩

end Runs

end MutationTester
