import MutationTester.CommandLine.Execution

/-!
# The program

The command line with the file system, the environment and the channels of the machine.
-/

set_option autoImplicit false

namespace MutationTester

/-- The error of a file operation. -/
def fileError : IO.Error → FileError
  | .noFileOrDirectory _ _ _ => .notFound
  | .inappropriateType _ 20 _ => .notDirectory
  | .inappropriateType _ 21 _ => .isDirectory
  | e => .other (toString e)

/-- A file operation with its errors as values. -/
def attempt {α : Type} (action : IO α) : IO (Except FileError α) := do
  match ← action.toBaseIO with
  | .ok a => return .ok a
  | .error e => return .error (fileError e)

/-- The file system of the machine. -/
def machineFiles : FileSystem IO where
  read p := attempt (IO.FS.readBinFile p)
  write p bytes := attempt (IO.FS.writeBinFile p bytes)

/-- The variables that the command line looks at. -/
def variableNames : List String :=
  ["IRMUT_TIMEOUT", "IRMUT_MAX_DISTANCE", "IRMUT_WORKERS", "IRMUT_SANDBOX", "CLICOLOR_FORCE"]

/-- Their values, where they have one. -/
def readEnvironment : IO CommandLine.Environment :=
  variableNames.filterMapM fun name => do
    return (← IO.getEnv name).map (name, ·)

end MutationTester

open MutationTester in
/-- Carries out the command line and ends with its exit code. -/
def main (args : List String) : IO UInt32 := do
  let reply ← CommandLine.perform machineFiles {} (← readEnvironment) args
  IO.print reply.output
  IO.eprint reply.errors
  return UInt32.ofNat reply.code
