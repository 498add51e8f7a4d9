import MutationTester.Proofs.Build.Linking
import MutationTester.Proofs.Machine.Steps

/-!
# Raised limits

A run that stays inside its limits does not depend on them. Where more calls may be nested and the
memory has more cells, it makes the same steps and comes to the same end, as long as there is a
machine with that memory (`Machine.raised_limits_change_nothing`). The two runs have the same frames
at each step, and the memory of the second machine is that of the first with room to spare
(`Machine.EnlargedTo`). Only the step by which the first run goes past its limits can tell them apart
(`Progress.RepeatedBy`). Limits can be raised so far that no machine is created
(`Machine.raised_memory_is_refused`).
-/

set_option autoImplicit false

namespace MutationTester

/-- Limits that allow no fewer nested calls and memory cells than others, and as much output. -/
structure Limits.RaisedTo (limits limits' : Limits) : Prop where
  maxCallDepth_le : limits.maxCallDepth ≤ limits'.maxCallDepth
  memoryCells_le : limits.memoryCells ≤ limits'.memoryCells
  maxOutput_eq : limits'.maxOutput = limits.maxOutput

/-- Whether a run has ended because it called too deep or left the memory. -/
def Ending.exceedsLimits : Ending → Bool
  | .trapped (.stackOverflow _) => true
  | .trapped (.outOfBounds ..) => true
  | _ => false

/-! ## Machines with room to spare -/

/-- A row that holds the same values as another one and may have more cells. -/
structure Cells.EnlargedTo (c c' : Cells) : Prop where
  size_le : c.size ≤ c'.size
  read_eq : ∀ n, c'.read n = c.read n

/-- A machine that is like another one but for cells of its memory that the other does not have. -/
structure Machine.EnlargedTo (m m' : Machine) : Prop where
  memory : m.memory.EnlargedTo m'.memory
  output_eq : m'.output = m.output
  coverage_eq : m'.coverage = m.coverage

namespace Cells.EnlargedTo

variable {c c' : Cells}

theorem number? (h : c.EnlargedTo c') {addr : Int64} {n : Nat} (hn : c.number? addr = some n) :
    c'.number? addr = some n := by
  have hsize := h.size_le
  -- an address inside the shorter row lies inside the longer one
  unfold Cells.number? at hn ⊢
  split at hn
  next hrange =>
    rw [if_pos (by omega)]
    exact hn
  next => cases hn

theorem write (h : c.EnlargedTo c') (n : Nat) (v : Int64) :
    (c.write n v).EnlargedTo (c'.write n v) := by
  refine ⟨h.size_le, ?_⟩
  intro k
  simp only [read_write, h.read_eq]

end Cells.EnlargedTo

namespace Machine.EnlargedTo

variable {m m' : Machine}

theorem recordEntry (h : m.EnlargedTo m') (f : FuncId) (depth : Nat) :
    (m.recordEntry f depth).EnlargedTo (m'.recordEntry f depth) := by
  refine ⟨h.memory, h.output_eq, ?_⟩
  simp only [Machine.recordEntry, h.coverage_eq]

theorem recordHit (h : m.EnlargedTo m') (s : Site) :
    (m.recordHit s).EnlargedTo (m'.recordHit s) := by
  refine ⟨h.memory, h.output_eq, ?_⟩
  simp only [Machine.recordHit, h.coverage_eq]

theorem capture (h : m.EnlargedTo m') {limits limits' : Limits}
    (hlimits : limits.RaisedTo limits') (line : String) :
    (m.capture limits line).EnlargedTo (m'.capture limits' line) := by
  unfold Machine.capture
  rw [h.output_eq, hlimits.maxOutput_eq]
  split
  · exact ⟨h.memory, rfl, h.coverage_eq⟩
  · exact h

theorem fresh {limits limits' : Limits} (hlimits : limits.RaisedTo limits') (instrumented : Bool) :
    (Machine.fresh limits instrumented).EnlargedTo (Machine.fresh limits' instrumented) := by
  refine ⟨⟨hlimits.memoryCells_le, ?_⟩, rfl, rfl⟩
  intro n
  simp only [Machine.fresh, Cells.read_zeroed]

/-- What is created under raised limits is the machine of the lower ones with more memory. -/
theorem of_create {limits limits' : Limits} (hlimits : limits.RaisedTo limits') {instrumented : Bool}
    (hm : create limits instrumented = .ok m) (hm' : create limits' instrumented = .ok m') :
    m.EnlargedTo m' := by
  obtain ⟨-, rfl⟩ := (create_eq_ok_iff ..).mp hm
  obtain ⟨-, rfl⟩ := (create_eq_ok_iff ..).mp hm'
  exact fresh hlimits instrumented

end Machine.EnlargedTo

/-! ## Steps -/

/-- What a step leads to under some limits, and under raised ones: a run that goes on with the same
frames or the same end, unless the first run goes past its limits. -/
inductive Progress.RepeatedBy : Progress → Progress → Prop
  | running (frame : Frame) (waiting : List Waiting) {m m' : Machine} (h : m.EnlargedTo m') :
      RepeatedBy (.running ⟨frame, waiting, m⟩) (.running ⟨frame, waiting, m'⟩)
  | ended (e : Ending) {m m' : Machine} (h : m.EnlargedTo m') :
      RepeatedBy (.ended e m) (.ended e m')
  | exceeded {e : Ending} (m : Machine) (next : Progress) (h : e.exceedsLimits = true) :
      RepeatedBy (.ended e m) next

section Steps

variable {limits limits' : Limits} {m m' : Machine}

theorem enter_repeatedBy (hlimits : limits.RaisedTo limits') (hm : m.EnlargedTo m')
    (f : CompiledFunc) (args : List Int64) (waiting : List Waiting) :
    (enter limits f args waiting m).RepeatedBy (enter limits' f args waiting m') := by
  have hdepth := hlimits.maxCallDepth_le
  unfold enter
  by_cases hdeep : limits.maxCallDepth ≤ waiting.length
  · rw [if_pos hdeep]
    exact .exceeded _ _ rfl
  · rw [if_neg hdeep, if_neg (by omega)]
    exact .running _ _ (hm.recordEntry _ _)

theorem leave_repeatedBy (hm : m.EnlargedTo m') (value : Option Int64) (waiting : List Waiting) :
    (leave value waiting m).RepeatedBy (leave value waiting m') := by
  cases waiting with
  | nil => exact .ended _ hm
  | cons w rest => exact .running _ _ hm

/-- An instruction does under raised limits what it does under the lower ones, unless it goes past
these. -/
theorem execute_repeatedBy (hlimits : limits.RaisedTo limits') (hm : m.EnlargedTo m')
    (x : Executable) (i : Instruction) (frame : Frame) (waiting : List Waiting) :
    (execute x limits i frame waiting m).RepeatedBy (execute x limits' i frame waiting m') := by
  cases i with
  | const dst value => exact .running _ _ hm
  | binary kind dst lhs rhs =>
    simp only [execute]
    cases kind.eval? (frame.read lhs) (frame.read rhs) with
    | some v => exact .running _ _ hm
    | none => exact .ended _ hm
  | compare pred dst lhs rhs => exact .running _ _ hm
  | call dst callee args =>
    simp only [execute]
    cases x.resolve? callee with
    | some f => exact enter_repeatedBy hlimits hm f _ _
    | none => exact .ended _ hm
  | jump target => exact .running _ _ hm
  | branch cond thenTo elseTo => exact .running _ _ hm
  | ret value => exact leave_repeatedBy hm _ waiting
  | assert cond =>
    simp only [execute]
    split
    · exact .ended _ hm
    · exact .running _ _ hm
  | print value => exact .running _ _ (hm.capture hlimits _)
  | load dst addr =>
    simp only [execute]
    cases hcell : m.memory.number? (frame.read addr) with
    | some n =>
      simp only [hm.memory.number? hcell, hm.memory.read_eq]
      exact .running _ _ hm
    | none => exact .exceeded _ _ rfl
  | store addr value =>
    simp only [execute]
    cases hcell : m.memory.number? (frame.read addr) with
    | some n =>
      simp only [hm.memory.number? hcell]
      exact .running _ _ ⟨hm.memory.write n _, hm.output_eq, hm.coverage_eq⟩
    | none => exact .exceeded _ _ rfl
  | abort => exact .ended _ hm
  | nop => exact .running _ _ hm

theorem RunState.step_repeatedBy (hlimits : limits.RaisedTo limits') (hm : m.EnlargedTo m')
    (x : Executable) (frame : Frame) (waiting : List Waiting) :
    ((⟨frame, waiting, m⟩ : RunState).step x limits).RepeatedBy
      ((⟨frame, waiting, m'⟩ : RunState).step x limits') := by
  unfold step
  dsimp only
  split
  · exact execute_repeatedBy hlimits (hm.recordHit _) x _ frame waiting
  · exact leave_repeatedBy hm none waiting

end Steps

/-! ## Runs -/

/-- The same end of a run, with a machine that may have more memory. -/
structure RunEnd.RepeatedBy (r r' : RunEnd) : Prop where
  ending_eq : r'.ending = r.ending
  machine : r.machine.EnlargedTo r'.machine
  unspent_eq : r'.unspent = r.unspent

/-- Runs that begin alike end alike, unless the one with the lower limits goes past them. -/
theorem Progress.run_repeatedBy {limits limits' : Limits} (hlimits : limits.RaisedTo limits')
    (x : Executable) {p p' : Progress} (hp : p.RepeatedBy p') (n : Nat)
    (hinside : (p.run x limits n).ending.exceedsLimits = false) :
    (p.run x limits n).RepeatedBy (p'.run x limits' n) := by
  induction n generalizing p p' with
  | zero =>
    cases hp with
    | running frame waiting hm => exact ⟨rfl, hm, rfl⟩
    | ended e hm => exact ⟨rfl, hm, rfl⟩
    | exceeded m next he => exact absurd he (by simpa [Progress.run] using hinside)
  | succ n ih =>
    cases hp with
    | running frame waiting hm =>
      rw [run_running_succ] at hinside ⊢
      rw [run_running_succ]
      exact ih (RunState.step_repeatedBy hlimits hm x frame waiting) hinside
    | ended e hm => exact ⟨rfl, hm, rfl⟩
    | exceeded m next he => exact absurd he (by simpa [Progress.run] using hinside)

namespace Machine

/-- Raised limits never change a run that stays inside the lower ones. Let a machine be created,
instrumented or not, under some limits and another one under raised limits: more calls may be nested
and the memory is larger, while the room for output is the same. Let the same thing be invoked on both
with the same arguments. If the run under the lower limits does not end by calling too deep or by
leaving the memory, then the other one makes as many steps, ends in the same way, and leaves the same
output, the same coverage record and the same values in memory. That is so whether they end by
themselves or are interrupted after some steps. -/
theorem raised_limits_change_nothing {limits limits' : Limits} (hlimits : limits.RaisedTo limits')
    {instrumented : Bool} {m m' : Machine} (hm : create limits instrumented = .ok m)
    (hm' : create limits' instrumented = .ok m') (x : Executable) (id : FuncId) (args : List Int64)
    (patience : Nat)
    (hinside : (m.invoke x limits patience id args).ending.exceedsLimits = false) :
    let r := m.invoke x limits patience id args
    let r' := m'.invoke x limits' patience id args
    r'.ending = r.ending ∧ r'.machine.output = r.machine.output ∧
      r'.machine.coverage = r.machine.coverage ∧ r'.unspent = r.unspent ∧
      ∀ n, r'.machine.memory.read n = r.machine.memory.read n := by
  have henlarged := EnlargedTo.of_create hlimits hm hm'
  have hrepeated : (m.invoke x limits patience id args).RepeatedBy
      (m'.invoke x limits' patience id args) := by
    unfold invoke at hinside ⊢
    cases hf : x.function? id with
    | none => exact ⟨rfl, henlarged, rfl⟩
    | some f =>
      simp only [hf] at hinside
      exact Progress.run_repeatedBy hlimits x (enter_repeatedBy hlimits henlarged f args []) patience
        hinside
  obtain ⟨hending, hmachine, hunspent⟩ := hrepeated
  exact ⟨hending, hmachine.output_eq, hmachine.coverage_eq, hunspent, hmachine.memory.read_eq⟩

/-- A program with a function that calls itself with numbers down to zero, and prints each of them
and stores it in the cell with that number. -/
def descendingProgram : Program where
  modules :=
    [⟨"lib", [⟨"down", 1, [.print 0, .store 0 0, .branch 0 3 6, .const 1 (-1),
      .binary .add 2 0 1, .call none "down" [2], .ret (some 0)]⟩]⟩]

/-- What the program builds to. -/
def descendingExecutable : Executable where
  modules := descendingProgram.lower
  symbols := [("down", ⟨0, 0⟩)]

/-- Limits that allow three nested calls, three cells and four bytes of output. -/
def lowLimits : Limits := { maxCallDepth := 3, memoryCells := 3, maxOutput := 4 }

/-- Limits that allow more nested calls and cells. -/
def highLimits : Limits := { maxCallDepth := 600, memoryCells := 5000, maxOutput := 4 }

/-- Three nested calls that use three cells are all that the limits allow, and end in the same way
under raised ones. The last line that is printed finds no room under both. -/
theorem descent_within_limits_is_repeated :
    lowLimits.RaisedTo highLimits ∧
      ∃ m m', create lowLimits true = .ok m ∧ create highLimits true = .ok m' ∧
        (m.invoke descendingExecutable lowLimits 40 ⟨0, 0⟩ [2]).ending.exceedsLimits = false ∧
        (m'.invoke descendingExecutable highLimits 40 ⟨0, 0⟩ [2]).ending = .returned (some 2) ∧
        (m'.invoke descendingExecutable highLimits 40 ⟨0, 0⟩ [2]).machine.output = "2\n1\n" := by
  have hlimits : lowLimits.RaisedTo highLimits := ⟨by decide, by decide, rfl⟩
  have hm : create lowLimits true = .ok (fresh lowLimits true) :=
    create_of_granted (by decide) true
  have hm' : create highLimits true = .ok (fresh highLimits true) :=
    create_of_granted (by decide) true
  have hending : ((fresh lowLimits true).invoke descendingExecutable lowLimits 40 ⟨0, 0⟩
      [2]).ending = .returned (some 2) := by
    decide +kernel
  have houtput : ((fresh lowLimits true).invoke descendingExecutable lowLimits 40 ⟨0, 0⟩
      [2]).machine.output = "2\n1\n" := by
    decide +kernel
  have hinside : ((fresh lowLimits true).invoke descendingExecutable lowLimits 40 ⟨0, 0⟩
      [2]).ending.exceedsLimits = false := by
    rw [hending]
    rfl
  obtain ⟨hsame, hprinted, -⟩ :=
    raised_limits_change_nothing hlimits hm hm' descendingExecutable ⟨0, 0⟩ [2] 40 hinside
  exact ⟨hlimits, _, _, hm, hm', hinside, hsame.trans hending, hprinted.trans houtput⟩

/-- There has to be a machine under the raised limits. Under the default limits the descent ends and
prints three lines, but the memory can be raised to so many cells that the request for them is refused:
then there is no machine, and nothing is run. -/
theorem raised_memory_is_refused :
    descendingProgram.Builds descendingExecutable ∧
      ({} : Limits).RaisedTo { memoryCells := 18446744073709551615 } ∧
      (∃ m, create {} false = .ok m ∧
        (m.invoke descendingExecutable {} 40 ⟨0, 0⟩ [2]).ending = .returned (some 2) ∧
        (m.invoke descendingExecutable {} 40 ⟨0, 0⟩ [2]).machine.output = "2\n1\n0\n") ∧
      create { memoryCells := 18446744073709551615 } false = .error .refused := by
  refine ⟨rfl, ⟨by decide, by decide, rfl⟩, ?_, rfl⟩
  exact ⟨fresh {} false, create_of_granted (by decide) false, by decide +kernel, by decide +kernel⟩

end Machine

end MutationTester
