import MutationTester.Config.Basic
import MutationTester.Sandbox.Child

/-!
# Sandboxes

A sandbox takes a unit of work and the time it may use, and gives a result. It may have a
state of its own, which it takes from one run to the next.
-/

set_option autoImplicit false

namespace MutationTester

/-- A sandbox with states in `σ`. -/
structure Sandbox (σ : Type) where
  run : Work → Duration → σ → RunResult × σ

/-- The nominal time that a sandbox of a kind takes for itself. It is never nothing. -/
def SandboxKind.startTime : SandboxKind → Duration
  | fork => ChildTask.startTime
  | watchdog => Work.threadTime
  | none => 5 * Duration.microsecond

/-- What becomes of work in a sandbox of a kind that is granted some time, and how long the
work took. Work that is not kept apart is not watched either. -/
def SandboxKind.outcome (kind : SandboxKind) (work : Work) (time : Duration) : RunResult :=
  match kind with
  | fork => (ChildTask.report work).run time
  | watchdog => work.runOnThread time
  | none => work.runInProcess Work.unwatched

/-- The sandbox of a kind. -/
def Sandbox.ofKind (kind : SandboxKind) : Sandbox Unit where
  run work time s :=
    let r := kind.outcome work time
    ({ r with duration := kind.startTime + r.duration }, s)

end MutationTester
