import MutationTester.Build.CompiledModule

/-!
# Executables

An executable is a list of compiled modules with a table of the names that calls may use.
Linking makes the table, which has each name once, and then checks every call against it.
-/

set_option autoImplicit false

namespace MutationTester

/-- The positions of functions by their names. -/
abbrev SymbolTable := List (String × FuncId)

/-- Linked modules. -/
structure Executable where
  modules : List CompiledModule
  symbols : SymbolTable
  deriving DecidableEq

namespace Executable

/-- The function at a position. -/
def function? (x : Executable) (id : FuncId) : Option CompiledFunc :=
  x.modules[id.module]? >>= fun m => m.functions[id.function]?

/-- The function that a call by name reaches. -/
def resolve? (x : Executable) (name : String) : Option CompiledFunc :=
  x.symbols.lookup name >>= x.function?

/-- All functions, in program order. -/
def functions (x : Executable) : List CompiledFunc :=
  x.modules.flatMap CompiledModule.functions

/-- Adds the name of a function of the module `m` to a table. -/
def declare (modules : List CompiledModule) (m : CompiledModule) (table : SymbolTable)
    (f : CompiledFunc) : Except BuildError SymbolTable :=
  match table.lookup f.name with
  | some earlier =>
    let first := (modules[earlier.module]?.map CompiledModule.name).getD ""
    .error (.duplicateName f.name first m.name)
  | none => .ok ((f.name, f.id) :: table)

/-- The table of all names of the given modules. -/
def symbolTable (modules : List CompiledModule) : Except BuildError SymbolTable :=
  modules.foldlM (fun table m => m.functions.foldlM (declare modules m) table) []

/-- What is wrong with a call that a function makes, if something is. -/
def callDefect? (x : Executable) (f : CompiledFunc) : Instruction → Option BuildError
  | .call _ callee args =>
    match x.resolve? callee with
    | none => some (.unresolvedCall f.name callee)
    | some target =>
      if target.params = args.length then none
      else some (.arityMismatch f.name callee target.params args.length)
  | _ => none

/-- What is wrong with the first bad call, in program order. -/
def defect? (x : Executable) : Option BuildError :=
  x.functions.findSome? fun f => f.code.toList.findSome? (x.callDefect? f)

/-- Links compiled modules. -/
def link (modules : List CompiledModule) : Except BuildError Executable := do
  let symbols ← symbolTable modules
  let x : Executable := ⟨modules, symbols⟩
  match x.defect? with
  | some e => .error e
  | none => .ok x

end Executable

end MutationTester
