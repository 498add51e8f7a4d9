import MutationTester.Report.Format
import MutationTester.Storage.FileSystem
import MutationTester.Testing.Failure

/-!
# The state file

The report of the last run is kept in a file, so that it can be looked at later. A file that
cannot be read, or does not hold a report, is as good as none.
-/

set_option autoImplicit false

namespace MutationTester

/-- The name of the state file in the directory that the command line is used in. -/
def stateFile : Path := ".irmut-state.json"

namespace FileSystem

variable {m : Type → Type} [Monad m]

/-- Keeps a report in a file. -/
def saveReport (fs : FileSystem m) (p : Path) (r : Report) : ExceptT Failure m Unit := do
  match ← fs.writeText p r.toJson.toText with
  | .ok () => return ()
  | .error e => throw (.stateAccess p e)

/-- The report that is kept in a file, if there is one. -/
def loadReport? (fs : FileSystem m) (p : Path) : m (Option Report) := do
  match ← fs.readText p with
  | .ok text => return Report.parse? text
  | .error _ => return none

end FileSystem

end MutationTester
