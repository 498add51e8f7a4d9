import MutationTester.Storage.Error
import MutationTester.Storage.Path

/-!
# File systems

All that is asked of a file system is to read a whole file and to write a whole file. What
is built on it works with any file system, the one of the machine as well as one that is kept
in memory.
-/

set_option autoImplicit false

namespace MutationTester

/-- A file system whose operations are actions of `m`. -/
structure FileSystem (m : Type → Type) where
  read : Path → m (Except FileError ByteArray)
  write : Path → ByteArray → m (Except FileError Unit)

/-- The text that bytes hold. -/
def textOfBytes (bytes : ByteArray) : Except FileError String :=
  match String.fromUTF8? bytes with
  | some s => .ok s
  | none => .error .notText

namespace FileSystem

variable {m : Type → Type} [Monad m]

/-- Reads a file as a text. -/
def readText (fs : FileSystem m) (p : Path) : m (Except FileError String) := do
  return (← fs.read p).bind textOfBytes

/-- Writes a text to a file. -/
def writeText (fs : FileSystem m) (p : Path) (s : String) : m (Except FileError Unit) :=
  fs.write p s.toUTF8

end FileSystem

end MutationTester
