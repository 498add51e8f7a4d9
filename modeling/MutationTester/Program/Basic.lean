import MutationTester.Program.Instruction

/-!
# Programs

A program is a list of modules, a module a list of functions, a function a list of
instructions. Functions and instructions are addressed by position. A single instruction
can be exchanged in place (`Program.setInstruction`), which changes nothing else about the
program, so positions stay valid for as long as the program lives.
-/

set_option autoImplicit false

namespace MutationTester

/-- A named function with its number of parameters and its body. -/
structure Func where
  name : String
  params : UInt32
  body : List Instruction
  deriving DecidableEq

namespace Func

/-- The number of registers that the instructions of the body need. -/
def usedRegisters (f : Func) : Nat :=
  match (f.body.filterMap Instruction.maxRegister?).max? with
  | some r => r.toNat + 1
  | none => 0

/-- The number of registers in a call frame: enough for the body and for the parameters. -/
def frameSize (f : Func) : Nat :=
  max f.usedRegisters f.params.toNat

end Func

/-- A named list of functions, which is also what one file on disk holds. -/
structure Module where
  name : String
  functions : List Func
  deriving DecidableEq

/-- The position of a function: its module, and its place in that module. -/
structure FuncId where
  module : Nat
  function : Nat
  deriving DecidableEq

/-- The position of an instruction: its function, and its index in that function's body. -/
structure Site where
  module : Nat
  function : Nat
  index : Nat
  deriving DecidableEq

/-- The function that a site lies in. -/
def Site.funcId (s : Site) : FuncId := ⟨s.module, s.function⟩

/-- The site at an index of a function. -/
def FuncId.site (id : FuncId) (index : Nat) : Site := ⟨id.module, id.function, index⟩

/-- A program under test. -/
structure Program where
  modules : List Module
  deriving DecidableEq

namespace Program

/-- The function at a position. -/
def function? (p : Program) (id : FuncId) : Option Func :=
  p.modules[id.module]? >>= fun m => m.functions[id.function]?

/-- The instruction at a site. -/
def instruction? (p : Program) (s : Site) : Option Instruction :=
  p.function? s.funcId >>= fun f => f.body[s.index]?

/-- All functions with their positions, in program order. -/
def functions (p : Program) : List (FuncId × Func) :=
  p.modules.zipIdx.flatMap fun (m, i) => m.functions.zipIdx.map fun (f, j) => (⟨i, j⟩, f)

/-- The position of the first function that has the given name. -/
def findFunction? (p : Program) (name : String) : Option FuncId :=
  (p.functions.find? fun entry => entry.2.name = name).map (·.1)

/-- Exchanges the instruction at a site; a site outside the program changes nothing. -/
def setInstruction (p : Program) (s : Site) (i : Instruction) : Program where
  modules := p.modules.modify s.module fun m =>
    { m with functions := m.functions.modify s.function fun f =>
        { f with body := f.body.set s.index i } }

/-- The name `module::function` of a function, or its position in angle brackets when there
is no such function. -/
def qualifiedName (p : Program) (id : FuncId) : String :=
  match p.modules[id.module]?, p.function? id with
  | some m, some f => m.name ++ "::" ++ f.name
  | _, _ => s!"<{id.module}:{id.function}>"

end Program

end MutationTester
