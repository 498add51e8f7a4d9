import MutationTester.Sandbox.Result

/-!
# Units of work

A sandbox is given a unit of work and a deadline. Time is nominal here: each step takes the
same time, and a deadline is a number of steps. Work that has not ended by then is still
running. Work that asks for more memory or calls deeper than a process can ends without a
verdict: it gives up, or it takes its process with it.
-/

set_option autoImplicit false

namespace MutationTester

/-- How work ends by itself. -/
inductive WorkEnding
  /-- It came to a verdict. -/
  | finished (v : Verdict)
  /-- It was stopped by a trap, or stopped because it saw itself interrupted. -/
  | faulted (f : Fault)
  /-- It gave up with a payload, which is a text or is none. -/
  | panicked (payload : Option String)
  /-- The process that it ran in was aborted. -/
  | aborted

/-- The end of work, and after how many steps it came. -/
structure WorkEnd where
  ending : WorkEnding
  steps : Nat

/-- A unit of work: how it ends if it does so within a number of steps. -/
structure Work where
  run? : Nat → Option WorkEnd

namespace Work

/-- Work that ends at once. -/
def done (e : WorkEnding) : Work := ⟨fun _ => some ⟨e, 0⟩⟩

/-- Work that never ends. -/
def endless : Work := ⟨fun _ => none⟩

/-- What the verdict on a test or the lack of one means for work. The machine stops as
interrupted exactly when its steps are used up, so such a run has not ended by itself. -/
def endingOf? : Except Fault Verdict → Option WorkEnding
  | .ok v => some (.finished v)
  | .error .interrupted => none
  | .error (.trapped message) => some (.faulted (.trapped message))

end Work

/-- The limits that hold on the stack of a process. -/
def Limits.onStack (limits : Limits) : Limits :=
  { limits with
    maxCallDepth := limits.stack.elim limits.maxCallDepth (min limits.maxCallDepth) }

/-- Whether a run on the stack of a process has called deeper than the stack goes, although its
limits would have let it. -/
def Limits.outgrown (limits : Limits) : Ending → Bool
  | .trapped (.stackOverflow _) => limits.stack.any (· < limits.maxCallDepth)
  | _ => false

theorem Limits.maxCallDepth_onStack_le (limits : Limits) :
    limits.onStack.maxCallDepth ≤ limits.maxCallDepth := by
  unfold onStack
  cases limits.stack with
  | none => exact Nat.le_refl _
  | some depth => exact Nat.min_le_left _ depth

namespace Work

/-- How a test run on a machine ends within a number of steps. -/
def endOfTest? (m : Machine) (x : Executable) (limits : Limits) (entry : FuncId) (steps : Nat) :
    Option WorkEnd :=
  let r := m.invoke x limits.onStack steps entry []
  let ending? :=
    if limits.outgrown r.ending then some .aborted else endingOf? (verdictOf r.ending r.machine)
  ending?.map fun ending => ⟨ending, steps - r.unspent⟩

/-- How work ends when the memory that it asks for is not granted. -/
def endingWithoutMemory : Capacity.Answer → WorkEnding
  | .refused => .panicked (some Capacity.refusal)
  | _ => .aborted

/-- A test run as work. Its machine is created before the first step. -/
def ofTest (x : Executable) (limits : Limits) (instrumented : Bool) (entry : FuncId) : Work where
  run? steps :=
    match Machine.create limits instrumented with
    | .ok m => endOfTest? m x limits entry steps
    | .error answer => some ⟨endingWithoutMemory answer, 0⟩

/-- The nominal time of a step, in nanoseconds. -/
def stepTime : Duration := 50

/-- The steps that can be made in a time. -/
def stepsWithin (time : Duration) : Nat := time / stepTime

/-- The steps that work may make where nobody watches the time: as many as fit the longest
duration. -/
def unwatched : Nat := stepsWithin Duration.bound

end Work

/-- The text of a payload that work gave up with. -/
def panicText : Option String → String
  | some payload => "panicked: " ++ payload
  | none => "panicked"

/-- The result of work that ended by itself inside the tester. Work that has its process
aborted leaves no tester to say so; it counts as crashed. -/
def WorkEnding.result : WorkEnding → RunResult
  | finished v => .ofVerdict v
  | faulted (.trapped message) => .withoutVerdict .crashed message
  | faulted .interrupted => .withoutVerdict .timedOut ""
  | panicked payload => .withoutVerdict .crashed (panicText payload)
  | aborted => .withoutVerdict .crashed ""

namespace Work

/-- Runs work inside the tester for some steps at most. Work that is interrupted then has timed
out. -/
def runInProcess (work : Work) (deadline : Nat) : RunResult :=
  match work.run? deadline with
  | some e => { e.ending.result with duration := e.steps * stepTime }
  | none => .timedOutAfter (deadline * stepTime)

/-- The nominal time in which a thread is started and joined. -/
def threadTime : Duration := 50 * Duration.microsecond

/-- Runs work on a thread of its own, which may take some time in all. -/
def runOnThread (work : Work) (time : Duration) : RunResult :=
  if time < threadTime then .timedOutAfter time else work.runInProcess (stepsWithin time)

end Work

end MutationTester
