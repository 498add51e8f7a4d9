import MutationTester.Program.Basic

/-!
# How runs end

A run returns, fails an assertion, or is stopped by a trap. A trap says what happened and
where; running out of patience is one of them, because whoever watches a run may interrupt
it before any instruction.
-/

set_option autoImplicit false

namespace MutationTester

/-- The text of a function's position. -/
def FuncId.text (id : FuncId) : String :=
  "FunctionId \x7b module: " ++ id.module.repr ++ ", function: " ++ id.function.repr ++ " \x7d"

/-- What stops a run that neither returns nor fails an assertion. -/
inductive Trap
  | divisionByZero (function : String) (index : Nat)
  | outOfBounds (function : String) (index : Nat) (addr : Int64)
  | stackOverflow (function : String)
  | abort (function : String) (index : Nat)
  | unknownFunction (name : String)
  | interrupted
  deriving DecidableEq

/-- The text shown for a trap. -/
def Trap.message : Trap → String
  | divisionByZero function index => "division by zero in " ++ function ++ " at " ++ index.repr
  | outOfBounds function index addr =>
    "memory access at " ++ addr.toInt.repr ++ " out of bounds in " ++ function ++ " at " ++
      index.repr
  | stackOverflow function => "call depth exceeded entering " ++ function
  | abort function index => "abort in " ++ function ++ " at " ++ index.repr
  | unknownFunction name => "call to unknown function `" ++ name ++ "`"
  | interrupted => "interrupted"

/-- How a run ends. -/
inductive Ending
  /-- The function that the run began in has returned. -/
  | returned (value : Option Int64)
  /-- An assertion found zero. -/
  | assertionFailed (function : String) (index : Nat)
  /-- The run was stopped. -/
  | trapped (trap : Trap)
  deriving DecidableEq

end MutationTester
