import MutationTester.Coverage.Format
import MutationTester.Config.Duration
import MutationTester.Machine.TestRun

/-!
# Results of sandboxed runs

Whatever happens to a unit of work, its sandbox gives one result with one of five statuses.
-/

set_option autoImplicit false

namespace MutationTester

/-- What became of a unit of work. -/
inductive RunStatus
  /-- It returned, with the verdict that it passed. -/
  | passed
  /-- It returned, with the verdict that it failed. -/
  | failed
  /-- It was stopped by a trap, gave up, or was killed. -/
  | crashed
  /-- It was still running at its deadline. -/
  | timedOut
  /-- The sandbox itself failed, which says nothing about the work. -/
  | error
  deriving DecidableEq

namespace RunStatus

/-- The name of a status in JSON. -/
def name : RunStatus → String
  | passed => "Passed"
  | failed => "Failed"
  | crashed => "Crashed"
  | timedOut => "TimedOut"
  | error => "Error"

/-- The words for a status in readable output. -/
def words : RunStatus → String
  | passed => "passed"
  | failed => "failed"
  | crashed => "crashed"
  | timedOut => "timed out"
  | error => "error"

/-- The statuses by their names. -/
def choices : List (String × RunStatus) :=
  [passed, failed, crashed, timedOut, error].map fun status => (status.name, status)

/-- A status is written as its name. -/
def toJson (status : RunStatus) : Json.Value := .text status.name

/-- A status is read from its name. -/
def ofJson? (v : Json.Value) : Option RunStatus := v.asChoice? choices

end RunStatus

/-- The result of a sandboxed run. -/
structure RunResult where
  status : RunStatus
  duration : Duration
  output : String
  coverage : Option Coverage

namespace RunResult

/-- A result without verdict. -/
def withoutVerdict (status : RunStatus) (output : String) : RunResult := ⟨status, 0, output, none⟩

/-- The result of work that was stopped after some time. -/
def timedOutAfter (time : Duration) : RunResult := ⟨.timedOut, time, "", none⟩

/-- The result of work that has come to a verdict. -/
def ofVerdict (v : Verdict) : RunResult :=
  ⟨if v.passed then .passed else .failed, 0, v.output, v.coverage⟩

/-- A result in JSON, which leaves the coverage out. -/
def toJson (r : RunResult) : Json.Value :=
  .record [("status", r.status.toJson),
    ("duration", .record [("secs", .nat (r.duration / Duration.second)),
      ("nanos", .nat (r.duration % Duration.second))]),
    ("output", .text r.output)]

end RunResult

end MutationTester
