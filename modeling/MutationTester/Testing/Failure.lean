import MutationTester.Build.Error
import MutationTester.Storage.Error

/-!
# Failures of a run

What ends a mutation testing run without a report. What happens to a single test or mutant is
never among these causes; it becomes part of the report.
-/

set_option autoImplicit false

namespace MutationTester

/-- What ends a run without a report. -/
inductive Failure
  | moduleLoad (path : String) (reason : LoadError)
  | build (reason : BuildError)
  | noTests (testPrefix : String)
  | workerDied (phase : String) (worker : Nat)
  | stateAccess (path : String) (reason : FileError)
  deriving DecidableEq

/-- The text shown for a failure. -/
def Failure.message : Failure → String
  | moduleLoad path reason => "failed to load module " ++ path ++ ": " ++ reason.message
  | build reason => "failed to compile program: " ++ reason.message
  | noTests testPrefix =>
    "no tests found (looking for functions named `" ++ testPrefix ++ "*` without parameters)"
  | workerDied phase worker =>
    "worker " ++ worker.repr ++ " died during phase `" ++ phase ++ "`"
  | stateAccess path reason => "failed to access state file " ++ path ++ ": " ++ reason.message

end MutationTester
