import MutationTester.Program.Instruction
import MutationTester.Json.Decode

/-!
# Mutation operators

An operator says which instructions it can change and what it puts in their place. No
operator leaves an instruction as it is.
-/

set_option autoImplicit false

namespace MutationTester

/-- The kinds of change that a mutant can make. -/
inductive Operator
  /-- An addition becomes a subtraction. -/
  | addToSub
  /-- A comparison uses the opposite relation. -/
  | negateCondition
  /-- A call whose result is not kept is dropped. -/
  | removeVoidCall
  deriving DecidableEq

namespace Operator

/-- All operators, in the order in which they are tried at a site. -/
def all : List Operator := [addToSub, negateCondition, removeVoidCall]

/-- The place of an operator in that order. -/
def rank : Operator → Nat
  | addToSub => 0
  | negateCondition => 1
  | removeVoidCall => 2

/-- Operators are ordered by rank. -/
instance : Ord Operator where
  compare := compareOn rank

instance : Std.TransOrd Operator :=
  inferInstanceAs (Std.TransCmp (compareOn rank))

instance : Std.LawfulEqOrd Operator where
  eq_of_compare {a b} h := by
    have h : a.rank = b.rank := by
      change compareOn rank a b = .eq at h
      simpa [compareOn] using h
    cases a <;> cases b <;> simp_all [rank]

/-- The name of an operator in reports. -/
def name : Operator → String
  | addToSub => "add_to_sub"
  | negateCondition => "negate_condition"
  | removeVoidCall => "remove_void_call"

/-- What an operator puts in the place of an instruction that it can change. -/
def replacement? : Operator → Instruction → Option Instruction
  | addToSub, .binary .add dst lhs rhs => some (.binary .sub dst lhs rhs)
  | negateCondition, .compare pred dst lhs rhs => some (.compare pred.negate dst lhs rhs)
  | removeVoidCall, .call none _ _ => some .nop
  | _, _ => none

/-- The operators by their names. -/
def choices : List (String × Operator) := all.map fun op => (op.name, op)

/-- An operator is written as its name. -/
def toJson (op : Operator) : Json.Value := .text op.name

/-- An operator is read from its name. -/
def ofJson? (v : Json.Value) : Option Operator := v.asChoice? choices

end Operator

end MutationTester
