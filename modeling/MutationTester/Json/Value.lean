import MutationTester.Json.Number

/-!
# JSON values

A value keeps what its text says and no more: numbers stay literals, and a string literal
may fail to denote a text. What is made of a value is decided where it is read.
-/

set_option autoImplicit false

namespace MutationTester.Json

/-- A JSON value. The text of a string, or of a key, is missing where the literal holds an
escape for half a surrogate pair without its other half. -/
inductive Value
  | null
  | bool (b : Bool)
  | number (n : Number)
  | string (text : Option String)
  | array (items : List Value)
  | object (members : List (Option String × Value))

namespace Value

/-- A string value. -/
def text (s : String) : Value := .string (some s)

/-- A number value that is a natural number. -/
def nat (n : Nat) : Value := .number (.ofInt n)

/-- A number value that is a whole number. -/
def int (n : Int) : Value := .number (.ofInt n)

/-- A number value that is a double. Values without literal become `null`. -/
def float (x : Float) : Value :=
  match Number.ofFloat? x with
  | some n => .number n
  | none => .null

/-- A value that may be missing: `null` if it is. -/
def optional {α : Type} (encode : α → Value) : Option α → Value
  | some a => encode a
  | none => .null

/-- A list of values of one kind. -/
def list {α : Type} (encode : α → Value) (items : List α) : Value :=
  .array (items.map encode)

/-- An object with the given fields in the given order. -/
def record (fields : List (String × Value)) : Value :=
  .object (fields.map fun field => (some field.1, field.2))

mutual

/-- Whether a value can be kept as it stands: it nests at most `room` arrays and objects in
each other, each of its numbers is in the range of doubles, and each of its strings and keys
denotes a text. -/
def isEvaluable (room : Nat) : Value → Bool
  | .null => true
  | .bool _ => true
  | .number n => n.toFloat?.isSome
  | .string s => s.isSome
  | .array items => 0 < room && itemsEvaluable (room - 1) items
  | .object members => 0 < room && membersEvaluable (room - 1) members
termination_by structural v => v

/-- Whether each of several values can be kept. -/
def itemsEvaluable (room : Nat) : List Value → Bool
  | [] => true
  | v :: vs => isEvaluable room v && itemsEvaluable room vs
termination_by structural vs => vs

/-- Whether each of several members can be kept. -/
def membersEvaluable (room : Nat) : List (Option String × Value) → Bool
  | [] => true
  | (key, v) :: ms => key.isSome && isEvaluable room v && membersEvaluable room ms
termination_by structural ms => ms

end

end Value

end MutationTester.Json
