import MutationTester.Program.Format
import MutationTester.Storage.FileSystem
import MutationTester.Testing.Failure
import MutationTester.Text.Blank
import MutationTester.Text.Lines

/-!
# Loading programs

A program is loaded from one file for each module. The files may be given in a list, which is
a text with a path on each line.
-/

set_option autoImplicit false

namespace MutationTester

namespace Module

/-- A module that has no name is called after the file that it was read from. -/
def named (m : Module) (p : Path) : Module :=
  if m.name = "" then { m with name := (p.fileName?.map Path.stem).getD "" } else m

/-- The module that the text of a file holds. -/
def ofText (p : Path) (text : String) : Except Failure Module :=
  match parse? text with
  | some m => .ok (m.named p)
  | none => .error (.moduleLoad p .malformed)

end Module

/-- Whether a line of a list names a module; other lines are blank or are comments. -/
def isListEntry (line : String) : Bool :=
  match line.toList with
  | [] => false
  | c :: _ => c ≠ '#'

/-- The paths in the text of a module list. Blanks around a path do not count, and relative
paths are meant in the directory that the list lies in. -/
def modulePaths (list : Path) (text : String) : List Path :=
  (((Text.lines text).map Text.trim).filter isListEntry).map ((list.parent?.getD ".").join ·)

namespace FileSystem

variable {m : Type → Type} [Monad m]

/-- Reads the text of a file that a program is loaded from. -/
def loadText (fs : FileSystem m) (p : Path) : ExceptT Failure m String := do
  match ← fs.readText p with
  | .ok text => return text
  | .error e => throw (.moduleLoad p (.file e))

/-- Loads the module in a file. -/
def loadModule (fs : FileSystem m) (p : Path) : ExceptT Failure m Module := do
  let text ← fs.loadText p
  liftM (Module.ofText p text)

/-- Loads the paths in a module list. -/
def loadModuleList (fs : FileSystem m) (list : Path) : ExceptT Failure m (List Path) := do
  return modulePaths list (← fs.loadText list)

/-- Loads the program whose modules are in the given files. The first file that cannot be
loaded decides the failure. -/
def loadProgram (fs : FileSystem m) (paths : List Path) : ExceptT Failure m Program := do
  return ⟨← paths.mapM fs.loadModule⟩

end FileSystem

end MutationTester
