import MutationTester.Mutation.Violation

/-!
# Applying and reverting mutations

A mutation exchanges one instruction in place. Whoever applies one gets a token that holds
the instruction that was there, and gives it back to restore that instruction. Both steps refuse
where they have no meaning, and a step that is refused leaves the program as it is.
-/

set_option autoImplicit false

namespace MutationTester

/-- The token of a mutation that has been applied. -/
structure Applied where
  operator : Operator
  site : Site
  replaced : Instruction
  deriving DecidableEq

namespace Operator

/-- Whether an operator can change the instruction at a site of a program. -/
def applies (op : Operator) (p : Program) (site : Site) : Bool :=
  (p.instruction? site >>= op.replacement?).isSome

/-- Applies an operator at a site. -/
def mutate (op : Operator) (p : Program) (site : Site) : Except Violation (Applied × Program) :=
  match p.instruction? site with
  | none => .error (.noInstruction op site)
  | some before =>
    match op.replacement? before with
    | none => .error (.notApplicable op before)
    | some after => .ok (⟨op, site, before⟩, p.setInstruction site after)

/-- Reverts a mutation that the operator has applied. -/
def revert (op : Operator) (p : Program) (token : Applied) : Except Violation Program :=
  if op = token.operator then
    match p.instruction? token.site with
    | none => .error (.noInstruction op token.site)
    | some _ => .ok (p.setInstruction token.site token.replaced)
  else .error .operatorMismatch

end Operator

end MutationTester
