import MutationTester.Sandbox.Basic
import MutationTester.Mutation.Violation

/-!
# Tests

A test is a function without parameters whose name begins in the configured way. Its result
on the unchanged program is recorded once.
-/

set_option autoImplicit false

namespace MutationTester

/-- A test, with its result on the unchanged program once it is known. -/
structure Test where
  id : Nat
  name : String
  entry : FuncId
  result : Option RunResult

namespace Test

/-- Records the result on the unchanged program. It may not be known already. -/
def record (t : Test) (r : RunResult) : Except Violation Test :=
  match t.result with
  | some _ => .error (.resultRecordedTwice t.name)
  | none => .ok { t with result := some r }

/-- The result on the unchanged program, if the test passed there. -/
def passedResult? (t : Test) : Option RunResult :=
  t.result.filter fun r => r.status = .passed

/-- Whether the test passed on the unchanged program. -/
def passed (t : Test) : Bool := t.passedResult?.isSome

end Test

/-- Whether a function is a test, selected or not. -/
def Func.isTest (f : Func) (config : Config) : Bool :=
  f.params = 0 && config.testPrefix.toList.isPrefixOf f.name.toList

/-- The tests of a program that the filter selects, in program order and numbered from zero. -/
def Program.findTests (p : Program) (config : Config) : List Test :=
  let selected := p.functions.filter fun entry =>
    entry.2.isTest config && config.filter.includesTest entry.2.name
  selected.zipIdx.map fun (entry, id) => ⟨id, entry.2.name, entry.1, none⟩

end MutationTester
