import MutationTester.Mutation.Operator

/-!
# Filters

A filter selects the tests that are run, the functions that are mutated and the operators
that are used. Names are given by patterns, which match one name, or all names that begin in
a certain way if they end in an asterisk.
-/

set_option autoImplicit false

namespace MutationTester

/-- Whether a pattern matches a name. -/
def patternMatches (pattern name : String) : Bool :=
  match pattern.toList.getLast? with
  | some '*' => pattern.toList.dropLast.isPrefixOf name.toList
  | _ => pattern = name

/-- What is selected. Without test patterns every test is, and without operators every
operator. -/
structure Filter where
  tests : List String := []
  excludeTests : List String := []
  excludeFunctions : List String := []
  operators : List Operator := []
  deriving DecidableEq

namespace Filter

/-- Whether tests of a name are run. -/
def includesTest (filter : Filter) (name : String) : Bool :=
  (filter.tests.isEmpty || filter.tests.any (patternMatches · name)) &&
    !filter.excludeTests.any (patternMatches · name)

/-- Whether functions of a name are mutated. -/
def includesFunction (filter : Filter) (name : String) : Bool :=
  !filter.excludeFunctions.any (patternMatches · name)

/-- Whether an operator is used. -/
def includesOperator (filter : Filter) (op : Operator) : Bool :=
  filter.operators.isEmpty || filter.operators.contains op

/-- The operators that are used, in their order. -/
def enabledOperators (filter : Filter) : List Operator :=
  Operator.all.filter filter.includesOperator

/-- A filter in JSON. -/
def toJson (filter : Filter) : Json.Value :=
  .record [("tests", .list .text filter.tests), ("exclude_tests", .list .text filter.excludeTests),
    ("exclude_functions", .list .text filter.excludeFunctions),
    ("operators", .list Operator.toJson filter.operators)]

/-- The filter that a value holds; lists that are left out are empty. -/
def ofJson? (v : Json.Value) : Option Filter := do
  let fields ← Json.Fields.ofValue? ["tests", "exclude_tests", "exclude_functions", "operators"] v
  let names := fun field => fields.withDefault? field [] (Json.Value.asList? Json.Value.asString?)
  return {
    tests := ← names "tests"
    excludeTests := ← names "exclude_tests"
    excludeFunctions := ← names "exclude_functions"
    operators := ← fields.withDefault? "operators" [] (Json.Value.asList? Operator.ofJson?) }

end Filter

end MutationTester
