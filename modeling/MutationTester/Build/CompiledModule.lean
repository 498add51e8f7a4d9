import MutationTester.Program.Basic
import MutationTester.Build.Error

/-!
# Compiled modules

Compiling a module checks each of its functions on its own and lays out their call frames.
What a function calls is not looked at before the modules are linked.
-/

set_option autoImplicit false

namespace MutationTester

/-- A function ready to be run. -/
structure CompiledFunc where
  id : FuncId
  name : String
  params : Nat
  frameSize : Nat
  code : Array Instruction
  deriving DecidableEq

/-- A module whose functions are ready to be run, with its position in the program. -/
structure CompiledModule where
  index : Nat
  name : String
  functions : List CompiledFunc
  deriving DecidableEq

namespace Func

/-- The compiled form of a function, whether or not it has a defect. -/
def lower (f : Func) (id : FuncId) : CompiledFunc where
  id := id
  name := f.name
  params := f.params.toNat
  frameSize := f.frameSize
  code := f.body.toArray

/-- The first jump of a body, by index and then by order of its targets, that leads out of
the body. -/
def wildJump? (f : Func) : Option BuildError :=
  f.body.zipIdx.findSome? fun (i, index) =>
    (i.targets.find? fun target => f.body.length ≤ target.toNat).map fun target =>
      .branchOutOfRange f.name index target.toNat

/-- Whether a body ends in an instruction that control cannot pass. -/
def isClosed (f : Func) : Bool := f.body.getLast?.any Instruction.isTerminator

/-- The defect of a function on its own, if it has one. -/
def defect? (f : Func) : Option BuildError :=
  f.wildJump?.or (if f.isClosed then none else some (.fallsThrough f.name))

end Func

namespace Module

/-- The compiled form of the module at a position, whether or not it has a defect. -/
def lower (m : Module) (index : Nat) : CompiledModule where
  index := index
  name := m.name
  functions := m.functions.zipIdx.map fun (f, j) => f.lower ⟨index, j⟩

/-- The defect of the first function that has one. -/
def defect? (m : Module) : Option BuildError := m.functions.findSome? Func.defect?

/-- Compiles the module at a position. -/
def compile (m : Module) (index : Nat) : Except BuildError CompiledModule :=
  match m.defect? with
  | some e => .error e
  | none => .ok (m.lower index)

end Module

end MutationTester
