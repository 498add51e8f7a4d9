import MutationTester.Json.Parser
import MutationTester.Json.Printer

/-!
# What JSON values mean

Each function here reads a value as something of a fixed kind and gives nothing where the
value is not of that kind. A structure is written as an object with named fields, or as an
array of its fields in their order. In an object, fields that the structure does not have are
passed over, and a field that it has may stand there only once.
-/

set_option autoImplicit false

namespace MutationTester.Json

/-- The deepest nesting of arrays and objects in a text whose values are kept. -/
def maxDepth : Nat := 127

namespace Value

/-- A text. -/
def asString? : Value → Option String
  | .string s => s
  | _ => none

/-- A truth value. -/
def asBool? : Value → Option Bool
  | .bool b => some b
  | _ => none

/-- A whole number. -/
def asInt? : Value → Option Int
  | .number n => n.toInt?
  | _ => none

/-- A natural number below a bound. -/
def asNatBelow? (bound : Nat) (v : Value) : Option Nat := do
  let n ← v.asInt?
  if 0 ≤ n ∧ n < bound then some n.toNat else none

/-- A count or a position, which is a 64-bit word. -/
def asWord? (v : Value) : Option Nat := v.asNatBelow? UInt64.size

/-- A 32-bit number without sign. -/
def asUInt32? (v : Value) : Option UInt32 := (v.asNatBelow? UInt32.size).map UInt32.ofNat

/-- A 64-bit number without sign. -/
def asUInt64? (v : Value) : Option UInt64 := (v.asNatBelow? UInt64.size).map UInt64.ofNat

/-- A 64-bit number with sign. -/
def asInt64? (v : Value) : Option Int64 := do
  let n ← v.asInt?
  if Int64.minValue.toInt ≤ n ∧ n ≤ Int64.maxValue.toInt then some (Int64.ofInt n) else none

/-- A double. -/
def asFloat? : Value → Option Float
  | .number n => n.toFloat?
  | _ => none

/-- A value of some kind, or `null`. -/
def asOption? {α : Type} (decode : Value → Option α) : Value → Option (Option α)
  | .null => some none
  | v => (decode v).map some

/-- A list of values of some kind. -/
def asList? {α : Type} (decode : Value → Option α) : Value → Option (List α)
  | .array items => items.mapM decode
  | _ => none

/-- A pair of values. -/
def asPair? {α β : Type} (first : Value → Option α) (second : Value → Option β) :
    Value → Option (α × β)
  | .array [a, b] => do return (← first a, ← second b)
  | _ => none

/-- One of several named constants: its name, or an object whose only field has that name
and holds `null`. -/
def asChoice? {α : Type} (choices : List (String × α)) : Value → Option α
  | .string (some s) => choices.lookup s
  | .object [(some s, .null)] => choices.lookup s
  | _ => none

/-- One of several named constants inside a value that was kept before it was read; there
the only field may also hold an empty object. -/
def asKeptChoice? {α : Type} (choices : List (String × α)) : Value → Option α
  | .object [(some s, .object [])] => choices.lookup s
  | v => v.asChoice? choices

end Value

/-- The fields that a value gives for a structure, and whether it gives them by position. -/
structure Fields where
  entries : List (String × Value)
  positional : Bool

namespace Fields

/-- The fields that a value gives for a structure with the given field names. -/
def ofValue? (names : List String) : Value → Option Fields
  | .object members => do
    let named ← members.mapM fun member => member.1.map (·, member.2)
    let known := named.filter fun entry => names.contains entry.1
    if (known.map (·.1)).Nodup then some ⟨known, false⟩ else none
  | .array items =>
    if items.length ≤ names.length then some ⟨names.zip items, true⟩ else none
  | _ => none

/-- A field that has to be there. -/
def required? {α : Type} (fields : Fields) (name : String) (decode : Value → Option α) :
    Option α :=
  fields.entries.lookup name >>= decode

/-- A field that has a value of its own where it is left out. -/
def withDefault? {α : Type} (fields : Fields) (name : String) (default : α)
    (decode : Value → Option α) : Option α :=
  match fields.entries.lookup name with
  | some v => decode v
  | none => some default

/-- A field that may be `null`, and may be left out of an object but not of an array. -/
def optional? {α : Type} (fields : Fields) (name : String) (decode : Value → Option α) :
    Option (Option α) :=
  match fields.entries.lookup name with
  | some v => v.asOption? decode
  | none => if fields.positional then none else some none

end Fields

end MutationTester.Json
