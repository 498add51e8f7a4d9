import MutationTester.Build.Executable

/-!
# Compiled programs

The modules of a program are compiled once. A variant of the program that differs from it in
one module is then built by compiling that module alone and linking it with the others.
-/

set_option autoImplicit false

namespace MutationTester

/-- The compiled modules of a program. -/
structure CompiledProgram where
  modules : List CompiledModule
  deriving DecidableEq

/-- Compiles every module of a program; the first module with a defect decides the error. -/
def Program.compile (p : Program) : Except BuildError CompiledProgram := do
  let modules ← p.modules.zipIdx.mapM fun (m, index) => m.compile index
  return ⟨modules⟩

namespace CompiledProgram

/-- Links the compiled modules as they are. -/
def executable (c : CompiledProgram) : Except BuildError Executable :=
  Executable.link c.modules

/-- Whether a module of a variant, once it is compiled, has the place of a compiled module to
take. A module that is not there, or does not compile, needs no place. -/
def hasPlaceFor (c : CompiledProgram) (variant : Program) (dirty : Nat) : Bool :=
  dirty < c.modules.length ||
    match variant.modules[dirty]? with
    | none => true
    | some m => m.defect?.isSome

/-- Links a variant of the program, in which the module at `dirty` is compiled anew. The
variant needs no other module to be looked at; a position that it does not have leaves all
modules as they are. -/
def executableFor (c : CompiledProgram) (variant : Program) (dirty : Nat) :
    Except BuildError Executable :=
  match variant.modules[dirty]? with
  | none => c.executable
  | some m => do
    let compiled ← m.compile dirty
    Executable.link (c.modules.set dirty compiled)

end CompiledProgram

end MutationTester
