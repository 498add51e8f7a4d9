import MutationTester.Program.Basic
import MutationTester.Json.Decode

/-!
# The module format

Modules are stored as JSON. An instruction is an object whose field `op` names its kind, or
an array that begins with that name; the fields of the kind follow. All of an instruction is
kept before it is read, whatever fields it has, so each part of it has to have a value and
the nesting is limited. Of the rest of a module only the known fields are looked at.
-/

set_option autoImplicit false

namespace MutationTester

open Json (Value Fields maxDepth)

/-- The names of the arithmetic operations. -/
def BinaryOp.choices : List (String × BinaryOp) := BinaryOp.all.map fun op => (op.mnemonic, op)

/-- The names of the relations. -/
def Comparison.choices : List (String × Comparison) := Comparison.all.map fun c => (c.mnemonic, c)

/-- A relation is written as its name. -/
def Comparison.toJson (c : Comparison) : Value := .text c.mnemonic

/-- A relation is read from its name. -/
def Comparison.ofJson? (v : Value) : Option Comparison := v.asChoice? choices

namespace Instruction

/-- A register as a number. -/
def registerToJson (r : Register) : Value := .nat r.toNat

/-- The name of an instruction's kind. -/
def kindName : Instruction → String
  | const .. => "const"
  | binary .. => "binary"
  | compare .. => "compare"
  | call .. => "call"
  | jump .. => "jump"
  | branch .. => "branch"
  | ret .. => "return"
  | assert .. => "assert"
  | print .. => "print"
  | load .. => "load"
  | store .. => "store"
  | abort => "abort"
  | nop => "nop"

/-- The fields of an instruction, without the name of its kind. -/
def fieldsToJson : Instruction → List (String × Value)
  | const dst value => [("dst", registerToJson dst), ("value", .int value.toInt)]
  | binary kind dst lhs rhs =>
    [("kind", .text kind.mnemonic), ("dst", registerToJson dst), ("lhs", registerToJson lhs),
      ("rhs", registerToJson rhs)]
  | compare pred dst lhs rhs =>
    [("pred", pred.toJson), ("dst", registerToJson dst), ("lhs", registerToJson lhs),
      ("rhs", registerToJson rhs)]
  | call dst callee args =>
    [("dst", .optional registerToJson dst), ("callee", .text callee),
      ("args", .list registerToJson args)]
  | jump target => [("target", .nat target.toNat)]
  | branch cond thenTo elseTo =>
    [("cond", registerToJson cond), ("then_to", .nat thenTo.toNat), ("else_to", .nat elseTo.toNat)]
  | ret value => [("value", .optional registerToJson value)]
  | assert cond => [("cond", registerToJson cond)]
  | print value => [("value", registerToJson value)]
  | load dst addr => [("dst", registerToJson dst), ("addr", registerToJson addr)]
  | store addr value => [("addr", registerToJson addr), ("value", registerToJson value)]
  | abort => []
  | nop => []

/-- An instruction in the module format. -/
def toJson (i : Instruction) : Value :=
  .record (("op", .text i.kindName) :: i.fieldsToJson)

/-- Splits a value into the name of the kind and what is left of the value without it. -/
def splitKind? : Value → Option (String × Value)
  | .object members =>
    match members.partition fun member => member.1 == some "op" with
    | ([(_, .string (some kind))], rest) => some (kind, .object rest)
    | _ => none
  | .array (.string (some kind) :: rest) => some (kind, .array rest)
  | _ => none

/-- Whether a value is what is left of an instruction that has no fields. -/
def holdsNoFields : Value → Bool
  | .object _ => true
  | .array items => items.isEmpty
  | _ => false

/-- The instruction of a given kind with the fields that a value gives. -/
def ofFields? (kind : String) (v : Value) : Option Instruction :=
  match kind with
  | "const" => do
    let fields ← Fields.ofValue? ["dst", "value"] v
    return const (← fields.required? "dst" Value.asUInt32?)
      (← fields.required? "value" Value.asInt64?)
  | "binary" => do
    let fields ← Fields.ofValue? ["kind", "dst", "lhs", "rhs"] v
    return binary (← fields.required? "kind" (Value.asKeptChoice? BinaryOp.choices))
      (← fields.required? "dst" Value.asUInt32?) (← fields.required? "lhs" Value.asUInt32?)
      (← fields.required? "rhs" Value.asUInt32?)
  | "compare" => do
    let fields ← Fields.ofValue? ["pred", "dst", "lhs", "rhs"] v
    return compare (← fields.required? "pred" (Value.asKeptChoice? Comparison.choices))
      (← fields.required? "dst" Value.asUInt32?) (← fields.required? "lhs" Value.asUInt32?)
      (← fields.required? "rhs" Value.asUInt32?)
  | "call" => do
    let fields ← Fields.ofValue? ["dst", "callee", "args"] v
    return call (← fields.withDefault? "dst" none (Value.asOption? Value.asUInt32?))
      (← fields.required? "callee" Value.asString?)
      (← fields.withDefault? "args" [] (Value.asList? Value.asUInt32?))
  | "jump" => do
    let fields ← Fields.ofValue? ["target"] v
    return jump (← fields.required? "target" Value.asUInt64?)
  | "branch" => do
    let fields ← Fields.ofValue? ["cond", "then_to", "else_to"] v
    return branch (← fields.required? "cond" Value.asUInt32?)
      (← fields.required? "then_to" Value.asUInt64?) (← fields.required? "else_to" Value.asUInt64?)
  | "return" => do
    let fields ← Fields.ofValue? ["value"] v
    return ret (← fields.withDefault? "value" none (Value.asOption? Value.asUInt32?))
  | "assert" => do
    let fields ← Fields.ofValue? ["cond"] v
    return assert (← fields.required? "cond" Value.asUInt32?)
  | "print" => do
    let fields ← Fields.ofValue? ["value"] v
    return print (← fields.required? "value" Value.asUInt32?)
  | "load" => do
    let fields ← Fields.ofValue? ["dst", "addr"] v
    return load (← fields.required? "dst" Value.asUInt32?) (← fields.required? "addr" Value.asUInt32?)
  | "store" => do
    let fields ← Fields.ofValue? ["addr", "value"] v
    return store (← fields.required? "addr" Value.asUInt32?)
      (← fields.required? "value" Value.asUInt32?)
  | "abort" => if holdsNoFields v then some abort else none
  | "nop" => if holdsNoFields v then some nop else none
  | _ => none

/-- The instruction that a value holds, where `depth` arrays and objects are around it. -/
def ofJson? (depth : Nat) (v : Value) : Option Instruction :=
  if v.isEvaluable (maxDepth - depth) then do
    let (kind, rest) ← splitKind? v
    ofFields? kind rest
  else none

end Instruction

namespace Func

/-- A function in the module format. -/
def toJson (f : Func) : Value :=
  .record [("name", .text f.name), ("params", .nat f.params.toNat),
    ("body", .list Instruction.toJson f.body)]

/-- The function that a value inside a module holds. Without parameters given it has none. -/
def ofJson? (v : Value) : Option Func := do
  let fields ← Fields.ofValue? ["name", "params", "body"] v
  return {
    name := ← fields.required? "name" Value.asString?
    params := ← fields.withDefault? "params" 0 Value.asUInt32?
    body := ← fields.required? "body" (Value.asList? (Instruction.ofJson? 4)) }

end Func

namespace Module

/-- A module in the module format. -/
def toJson (m : Module) : Value :=
  .record [("name", .text m.name), ("functions", .list Func.toJson m.functions)]

/-- The module that a value holds. Its name may be left out and is empty then. -/
def ofJson? (v : Value) : Option Module := do
  let fields ← Fields.ofValue? ["name", "functions"] v
  return {
    name := ← fields.withDefault? "name" "" Value.asString?
    functions := ← fields.required? "functions" (Value.asList? Func.ofJson?) }

end Module

/-- The instruction that a text holds. -/
def Instruction.parse? (s : String) : Option Instruction :=
  Json.parse? s >>= Instruction.ofJson? 0

/-- The module that a text holds. -/
def Module.parse? (s : String) : Option Module :=
  Json.parse? s >>= Module.ofJson?

end MutationTester
