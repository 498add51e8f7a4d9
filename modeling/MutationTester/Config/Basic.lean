import MutationTester.Config.Filter
import MutationTester.Config.Duration

/-!
# Configuration

What a mutation testing run is asked to do. Values that would make a run meaningless are
replaced when it begins (`Config.normalize`).
-/

set_option autoImplicit false

namespace MutationTester

/-- How a test run is kept apart from the tester. -/
inductive SandboxKind
  /-- In a child process of its own. -/
  | fork
  /-- On a thread that is interrupted at its deadline. -/
  | watchdog
  /-- Not at all. -/
  | none
  deriving DecidableEq

namespace SandboxKind

/-- The name of a kind. -/
def name : SandboxKind → String
  | fork => "fork"
  | watchdog => "watchdog"
  | none => "none"

/-- The kinds by their names. -/
def choices : List (String × SandboxKind) := [fork, watchdog, none].map fun kind => (kind.name, kind)

end SandboxKind

/-- What a run is asked to do. -/
structure Config where
  /-- The time that a test run may take, in milliseconds. -/
  timeoutMs : Nat := 3000
  /-- The deepest call below a test at which code is still mutated for it. -/
  maxDistance : Nat := 128
  /-- The number of workers that share the work of a phase. -/
  workers : Nat := 1
  /-- Functions without parameters whose names begin like this are tests. -/
  testPrefix : String := "test_"
  /-- The time that a mutant may take, as a multiple of what the test took without it. -/
  timeoutMultiplier : Float := 3.0
  /-- Whether the first test that detects a mutant is the last that is run on it. -/
  stopOnFirstKill : Bool := true
  /-- Whether tests are mutated as well. -/
  mutateTestBodies : Bool := false
  sandbox : SandboxKind := .fork
  progress : Bool := false
  filter : Filter := {}

namespace Config

/-- Asks for one worker and one millisecond at least, and for a multiple that is a number and
not below one. -/
def normalize (c : Config) : Config :=
  { c with
    workers := if c.workers = 0 then 1 else c.workers
    timeoutMs := if c.timeoutMs = 0 then 1 else c.timeoutMs
    timeoutMultiplier :=
      if !c.timeoutMultiplier.isFinite || c.timeoutMultiplier < 1.0 then 1.0
      else c.timeoutMultiplier }

/-- The number of workers that have something to do when there are so many items. -/
def workersFor (c : Config) (items : Nat) : Nat := min c.workers items

/-- The time that a test run may take. -/
def timeout (c : Config) : Duration := c.timeoutMs * Duration.millisecond

/-- What a mutant is granted beyond the multiple of the time without it. -/
def grace : Duration := 2 * Duration.second

/-- The time that a test may take on a mutant when it took `baseline` without: the multiple
and the grace, but never more than any test run may take. There is none if it would be out
of the range of durations. -/
def mutantTimeout? (c : Config) (baseline : Duration) : Option Duration := do
  let scaled ← baseline.scale? c.timeoutMultiplier
  let granted ← Duration.inRange? (scaled + grace)
  return min granted c.timeout

/-- A configuration in JSON. -/
def toJson (c : Config) : Json.Value :=
  .record [("timeout_ms", .nat c.timeoutMs), ("max_distance", .nat c.maxDistance),
    ("workers", .nat c.workers), ("test_prefix", .text c.testPrefix),
    ("timeout_multiplier", .float c.timeoutMultiplier),
    ("stop_on_first_kill", .bool c.stopOnFirstKill),
    ("mutate_test_bodies", .bool c.mutateTestBodies), ("sandbox", .text c.sandbox.name),
    ("progress", .bool c.progress), ("filter", c.filter.toJson)]

/-- The configuration that a value holds; what it leaves out is taken from another one. -/
def ofJson? (defaults : Config) (v : Json.Value) : Option Config := do
  let fields ← Json.Fields.ofValue? ["timeout_ms", "max_distance", "workers", "test_prefix",
    "timeout_multiplier", "stop_on_first_kill", "mutate_test_bodies", "sandbox", "progress",
    "filter"] v
  return {
    timeoutMs := ← fields.withDefault? "timeout_ms" defaults.timeoutMs Json.Value.asWord?
    maxDistance := ← fields.withDefault? "max_distance" defaults.maxDistance Json.Value.asWord?
    workers := ← fields.withDefault? "workers" defaults.workers Json.Value.asWord?
    testPrefix := ← fields.withDefault? "test_prefix" defaults.testPrefix Json.Value.asString?
    timeoutMultiplier :=
      ← fields.withDefault? "timeout_multiplier" defaults.timeoutMultiplier Json.Value.asFloat?
    stopOnFirstKill :=
      ← fields.withDefault? "stop_on_first_kill" defaults.stopOnFirstKill Json.Value.asBool?
    mutateTestBodies :=
      ← fields.withDefault? "mutate_test_bodies" defaults.mutateTestBodies Json.Value.asBool?
    sandbox :=
      ← fields.withDefault? "sandbox" defaults.sandbox (Json.Value.asChoice? SandboxKind.choices)
    progress := ← fields.withDefault? "progress" defaults.progress Json.Value.asBool?
    filter := ← fields.withDefault? "filter" defaults.filter Filter.ofJson? }

end Config

end MutationTester
