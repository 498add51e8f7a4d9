import MutationTester.Machine.Basic

/-!
# Running a test

A test is a function that is run without arguments on a fresh machine. It passes if it
returns zero or no value. Where no machine can be created, nothing is run.
-/

set_option autoImplicit false

namespace MutationTester

/-- What a test run that came to a verdict has to say. -/
structure Verdict where
  passed : Bool
  output : String
  coverage : Option Coverage

/-- Why a test run came to no verdict. -/
inductive Fault
  | trapped (message : String)
  | interrupted
  deriving DecidableEq

/-- The line added to the output of a test whose assertion failed. -/
def assertionLine (function : String) (index : Nat) : String :=
  "assertion failed in " ++ function ++ " at " ++ index.repr ++ "\n"

/-- What the end of a run means for a test. -/
def verdictOf (e : Ending) (m : Machine) : Except Fault Verdict :=
  match e with
  | .returned value => .ok ⟨value.getD 0 = 0, m.output, m.coverage⟩
  | .assertionFailed function index =>
    .ok ⟨false, m.output ++ assertionLine function index, m.coverage⟩
  | .trapped .interrupted => .error .interrupted
  | .trapped trap => .error (.trapped trap.message)

/-- Runs the test that begins in the function at `entry`, for at most `patience` steps, if a
machine can be created for it. -/
def runTest (x : Executable) (limits : Limits) (instrumented : Bool) (entry : FuncId)
    (patience : Nat) : Except Capacity.Answer (Except Fault Verdict) :=
  (Machine.create limits instrumented).map fun m =>
    let r := m.invoke x limits patience entry []
    verdictOf r.ending r.machine

/-- The end of the run of the test that begins in the function at `entry`, for at most
`patience` steps, on the machine that there is if its memory is granted. -/
def endOfTest (x : Executable) (limits : Limits) (instrumented : Bool) (entry : FuncId)
    (patience : Nat) : RunEnd :=
  (Machine.fresh limits instrumented).invoke x limits patience entry []

theorem runTest_of_granted {limits : Limits} (h : limits.memoryAnswer = .granted) (x : Executable)
    (instrumented : Bool) (entry : FuncId) (patience : Nat) :
    runTest x limits instrumented entry patience =
      .ok (verdictOf (endOfTest x limits instrumented entry patience).ending
        (endOfTest x limits instrumented entry patience).machine) := by
  unfold runTest
  rw [Machine.create_of_granted h]
  rfl

theorem runTest_of_not_granted {limits : Limits} (h : limits.memoryAnswer ≠ .granted)
    (x : Executable) (instrumented : Bool) (entry : FuncId) (patience : Nat) :
    runTest x limits instrumented entry patience = .error limits.memoryAnswer := by
  unfold runTest
  rw [Machine.create_of_not_granted h]
  rfl

theorem runTest_eq_ok_iff (x : Executable) (limits : Limits) (instrumented : Bool)
    (entry : FuncId) (patience : Nat) (outcome : Except Fault Verdict) :
    runTest x limits instrumented entry patience = .ok outcome ↔
      limits.memoryAnswer = .granted ∧
        verdictOf (endOfTest x limits instrumented entry patience).ending
          (endOfTest x limits instrumented entry patience).machine = outcome := by
  by_cases h : limits.memoryAnswer = .granted
  · simp [runTest_of_granted h, h]
  · simp [runTest_of_not_granted h, h]

end MutationTester
