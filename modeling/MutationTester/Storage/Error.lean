/-!
# Errors of files

Why a file could not be read or written, and why no module could be made of it.
-/

set_option autoImplicit false

namespace MutationTester

/-- Why a file could not be read or written. -/
inductive FileError
  /-- A name on the way to it, or its own, is not there. -/
  | notFound
  /-- It is a directory. -/
  | isDirectory
  /-- A name on the way to it is a file. -/
  | notDirectory
  /-- Its path, or one of the names in it, is longer than it may be. -/
  | nameTooLong
  /-- There is no room for what should be written. -/
  | noSpace
  /-- Its path holds a character that no path may hold. -/
  | invalidName
  /-- Its bytes are not a text. -/
  | notText
  /-- Another reason, in words. -/
  | other (message : String)
  deriving DecidableEq

/-- The text shown for a file error. -/
def FileError.message : FileError → String
  | notFound => "No such file or directory (os error 2)"
  | isDirectory => "Is a directory (os error 21)"
  | notDirectory => "Not a directory (os error 20)"
  | nameTooLong => "File name too long (os error 36)"
  | noSpace => "No space left on device (os error 28)"
  | invalidName => "file name contained an unexpected NUL byte"
  | notText => "stream did not contain valid UTF-8"
  | other message => message

/-- Why a module could not be loaded. -/
inductive LoadError
  /-- Its file could not be read. -/
  | file (e : FileError)
  /-- Its file does not hold a module. -/
  | malformed
  deriving DecidableEq

/-- The text shown for a load error. -/
def LoadError.message : LoadError → String
  | file e => e.message
  | malformed => "the file does not hold a module"

end MutationTester
