import MutationTester.Program.Listing
import MutationTester.Mutation.Operator
import MutationTester.Capacity

/-!
# Contract violations

Some operations may only be used where a condition holds that their callers answer for.
Using one elsewhere is a violation. It is no outcome of a test and no reason to end a run of
its own: it ends the worker that commits it.
-/

set_option autoImplicit false

namespace MutationTester

/-- The text of a site. -/
def Site.text (s : Site) : String :=
  "ValueId \x7b module: " ++ s.module.repr ++ ", function: " ++ s.function.repr ++ ", index: " ++
    s.index.repr ++ " \x7d"

/-- A broken contract. -/
inductive Violation
  /-- An operator was used at a site outside the program. -/
  | noInstruction (op : Operator) (site : Site)
  /-- An operator was used on an instruction that it cannot change. -/
  | notApplicable (op : Operator) (instruction : Instruction)
  /-- A mutation was undone by another operator than the one that made it. -/
  | operatorMismatch
  /-- The result of a test was recorded a second time. -/
  | resultRecordedTwice (test : String)
  /-- A duration went out of range. -/
  | durationOutOfRange
  /-- Counts were added whose sum is no word. -/
  | countOutOfRange
  /-- A module was to be exchanged that has not been compiled. -/
  | moduleNotCompiled
  /-- More workers were asked for than can be laid out. -/
  | tooManyWorkers (answer : Capacity.Answer)
  /-- A violation of another contract, stated in words. -/
  | stated (message : String)
  deriving DecidableEq

/-- The text shown for a violation, if it has one. -/
def Violation.message? : Violation → Option String
  | noInstruction op site => some (op.name ++ ": no instruction at " ++ site.text)
  | notApplicable op i => some (op.name ++ " cannot be applied to `" ++ i.text ++ "`")
  | operatorMismatch => some "reverting with a different operator"
  | resultRecordedTwice test => some ("execution result for test `" ++ test ++ "` set twice")
  | durationOutOfRange => none
  | countOutOfRange => none
  | moduleNotCompiled => none
  | tooManyWorkers _ => none
  | stated message => some message

end MutationTester
