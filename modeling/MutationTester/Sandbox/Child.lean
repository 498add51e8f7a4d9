import MutationTester.Sandbox.Work

/-!
# Work in a child process

A child process runs the work, writes a report of its ending as JSON and exits. The parent
has the bytes that have arrived and knows how the process ended, and takes a verdict only
from a complete report of a child that exited by itself.
-/

set_option autoImplicit false

namespace MutationTester

open Json (Value Fields)

namespace Verdict

/-- A verdict in JSON. -/
def toJson (v : Verdict) : Value :=
  .record [("passed", .bool v.passed), ("output", .text v.output),
    ("coverage", .optional Coverage.toJson v.coverage)]

/-- The verdict that a value holds. -/
def ofJson? (v : Value) : Option Verdict := do
  let fields ← Fields.ofValue? ["passed", "output", "coverage"] v
  return {
    passed := ← fields.required? "passed" Value.asBool?
    output := ← fields.required? "output" Value.asString?
    coverage := ← fields.optional? "coverage" Coverage.ofJson? }

end Verdict

/-- What a child reports. -/
inductive ChildReport
  | finished (v : Verdict)
  | trapped (message : String)

namespace ChildReport

/-- The report of an ending. To a child, an interruption is a trap like any other. Only a child
that is aborted does not report. -/
def ofEnding? : WorkEnding → Option ChildReport
  | .finished v => some (finished v)
  | .faulted (.trapped message) => some (trapped message)
  | .faulted .interrupted => some (trapped "interrupted")
  | .panicked payload => some (trapped (panicText payload))
  | .aborted => none

/-- A report in JSON. -/
def toJson : ChildReport → Value
  | finished v => .record [("Finished", v.toJson)]
  | trapped message => .record [("Trapped", .text message)]

/-- The report that a value holds. -/
def ofJson? : Value → Option ChildReport
  | .object [(some "Finished", v)] => (Verdict.ofJson? v).map finished
  | .object [(some "Trapped", v)] => v.asString?.map trapped
  | _ => none

/-- The bytes that a child writes. -/
def encode (r : ChildReport) : ByteArray := r.toJson.toText.toUTF8

/-- The report that bytes hold, if they hold one. -/
def decode? (bytes : ByteArray) : Option ChildReport :=
  String.fromUTF8? bytes >>= Json.parse? >>= ofJson?

end ChildReport

/-- A signal that can kill a process and has a name. -/
structure Signal where
  name : String
  deriving DecidableEq

/-- The named signals by their numbers, from one on. -/
def Signal.all : List Signal :=
  ["SIGHUP", "SIGINT", "SIGQUIT", "SIGILL", "SIGTRAP", "SIGABRT", "SIGBUS", "SIGFPE", "SIGKILL",
    "SIGUSR1", "SIGSEGV", "SIGUSR2", "SIGPIPE", "SIGALRM", "SIGTERM", "SIGSTKFLT", "SIGCHLD",
    "SIGCONT", "SIGSTOP", "SIGTSTP", "SIGTTIN", "SIGTTOU", "SIGURG", "SIGXCPU", "SIGXFSZ",
    "SIGVTALRM", "SIGPROF", "SIGWINCH", "SIGIO", "SIGPWR", "SIGSYS"].map Signal.mk

/-- The named signal of a number. -/
def Signal.ofNumber? (n : Nat) : Option Signal := if n = 0 then none else all[n - 1]?

/-- How a child process ended, as its parent sees it. -/
inductive ChildExit
  /-- It exited with a code. -/
  | exited (code : Nat)
  /-- A signal killed it. -/
  | signaled (s : Signal)
  /-- It was still running at its deadline and was killed for that. -/
  | timedOut
  /-- It could not be waited for. -/
  | lost (message : String)
  deriving DecidableEq

/-- How a child that was killed by the signal of a number ended, as its parent sees it. A parent
does not understand signals without a name, and takes the child for lost. -/
def ChildExit.ofSignalNumber (n : Nat) : ChildExit :=
  match Signal.ofNumber? n with
  | some s => .signaled s
  | none => .lost "waitpid failed: EINVAL: Invalid argument"

/-- What the end of a child and the bytes received from it mean. -/
def interpret (exit : ChildExit) (received : ByteArray) : RunResult :=
  match exit with
  | .lost message => .withoutVerdict .error message
  | .timedOut => .withoutVerdict .timedOut ""
  | .exited _ =>
    match ChildReport.decode? received with
    | some (.finished v) => .ofVerdict v
    | some (.trapped message) => .withoutVerdict .crashed message
    | none => .withoutVerdict .crashed "child exited without reporting a result"
  | .signaled s =>
    match ChildReport.decode? received with
    | some (.trapped message) => .withoutVerdict .crashed message
    | _ => .withoutVerdict .crashed ("terminated by " ++ s.name)

/-- The exit code of a child that has reported. -/
def ChildReport.exitCode : ChildReport → Nat
  | finished v => if v.passed then 0 else 1
  | trapped _ => 101

/-- What a child does: run work and report its ending, or leave without a report, by an exit
code or by the signal of a number. -/
inductive ChildTask
  | report (work : Work)
  | exit (code : Nat)
  | die (signal : Nat)

/-- The number of the signal that aborts a process. -/
def abortSignal : Nat := 6

/-- What the parent of a child makes of an ending of the child's work. -/
def interpretEnding (e : WorkEnding) : RunResult :=
  match ChildReport.ofEnding? e with
  | some r => interpret (.exited r.exitCode) r.encode
  | none => interpret (.ofSignalNumber abortSignal) .empty

namespace ChildTask

/-- Runs a task in a child process for some steps at most. -/
def runSteps (task : ChildTask) (deadline : Nat) : RunResult :=
  match task with
  | report work =>
    match work.run? deadline with
    | some e => { interpretEnding e.ending with duration := e.steps * Work.stepTime }
    | none => { interpret .timedOut .empty with duration := deadline * Work.stepTime }
  | exit code => interpret (.exited code) .empty
  | die signal => interpret (.ofSignalNumber signal) .empty

/-- The nominal time in which a child process is started and waited for. -/
def startTime : Duration := 500 * Duration.microsecond

/-- Runs a task in a child process, which may take some time in all. -/
def run (task : ChildTask) (time : Duration) : RunResult :=
  if time < startTime then { interpret .timedOut .empty with duration := time }
  else task.runSteps (Work.stepsWithin time)

end ChildTask

end MutationTester
