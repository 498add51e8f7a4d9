import MutationTester.Testing.Mutant

/-!
# What becomes of mutants

The verdict on a mutant follows from three numbers: the testees that reach it, the runs that
count, and those of them that did not pass.
-/

set_option autoImplicit false

namespace MutationTester

/-- The verdict on a mutant. -/
inductive MutantStatus
  /-- A test has detected it. -/
  | killed
  /-- Tests ran on it and all passed. -/
  | survived
  /-- No test reaches it. -/
  | notCovered
  /-- It could not be built, or no test that reaches it had a run that counts. -/
  | compileError
  deriving DecidableEq

namespace MutantStatus

/-- The name of a verdict in JSON. -/
def name : MutantStatus → String
  | killed => "Killed"
  | survived => "Survived"
  | notCovered => "NotCovered"
  | compileError => "CompileError"

/-- The words for a verdict in readable output. -/
def words : MutantStatus → String
  | killed => "killed"
  | survived => "survived"
  | notCovered => "not covered"
  | compileError => "compile error"

/-- The verdicts by their names. -/
def choices : List (String × MutantStatus) :=
  [killed, survived, notCovered, compileError].map fun status => (status.name, status)

/-- A verdict is written as its name. -/
def toJson (status : MutantStatus) : Json.Value := .text status.name

/-- A verdict is read from its name. -/
def ofJson? (v : Json.Value) : Option MutantStatus := v.asChoice? choices

end MutantStatus

/-- A test that has detected a mutant, and the status of its run. -/
structure Kill where
  test : String
  status : RunStatus
  deriving DecidableEq

/-- What a report says of a mutant. -/
structure MutantResult where
  id : String
  operator : String
  function : String
  index : Nat
  status : MutantStatus
  killers : List Kill
  runs : Nat
  durationMs : Nat
  diff : String
  error : Option String
  deriving DecidableEq

/-- A result for a point that says nothing but its status. -/
def MutantResult.bare (point : Point) (status : MutantStatus) : MutantResult where
  id := point.id
  operator := point.operator.name
  function := point.function
  index := point.site.index
  status := status
  killers := []
  runs := 0
  durationMs := 0
  diff := ""
  error := none

/-- The verdict on a mutant that `covering` testees reach, of whose runs `eligible` count. -/
def classify (covering eligible : Nat) (killers : List Kill) : MutantStatus :=
  if covering = 0 then .notCovered
  else if !killers.isEmpty then .killed
  else if eligible = 0 then .compileError
  else .survived

end MutationTester
