/-!
# Why a program cannot be built

The first two causes are found in a single function, the others only when all modules of a
program are put together.
-/

set_option autoImplicit false

namespace MutationTester

/-- A reason for which a program cannot be built. -/
inductive BuildError
  /-- An instruction jumps to an index that the body does not have. -/
  | branchOutOfRange (function : String) (index target : Nat)
  /-- The body is empty or its last instruction lets control pass. -/
  | fallsThrough (function : String)
  /-- A call names no function of the program. -/
  | unresolvedCall (function callee : String)
  /-- A call passes a number of arguments that its callee does not take. -/
  | arityMismatch (function callee : String) (expected found : Nat)
  /-- Two functions have one name. -/
  | duplicateName (name first second : String)
  deriving DecidableEq

namespace BuildError

/-- The text shown for a reason. -/
def message : BuildError → String
  | branchOutOfRange function index target =>
    function ++ ": instruction " ++ index.repr ++ " jumps to " ++ target.repr ++
      ", past the end of the body"
  | fallsThrough function => function ++ ": control falls off the end of the body"
  | unresolvedCall function callee => function ++ ": call to undefined function `" ++ callee ++ "`"
  | arityMismatch function callee expected found =>
    function ++ ": `" ++ callee ++ "` takes " ++ expected.repr ++ " arguments, " ++ found.repr ++
      " given"
  | duplicateName name first second =>
    "`" ++ name ++ "` is defined in both `" ++ first ++ "` and `" ++ second ++ "`"

end BuildError

end MutationTester
