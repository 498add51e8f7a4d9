import MutationTester.Sandbox.Basic

/-!
# Scripted sandboxes

A scripted sandbox gives results that were laid down in advance, one for each run. It shows
how the tester deals with results that no work at hand leads to, and notes the time that was
granted to each run.
-/

set_option autoImplicit false

namespace MutationTester

/-- What a scripted sandbox does in one run: answer with a status and an output, or run the
work. Either way the run takes the given time. -/
structure Cue where
  status : Option RunStatus
  output : String
  duration : Duration

/-- The runs that are left, and the times granted to those that are over, the latest first. -/
structure Script where
  cues : List Cue
  granted : List Duration

namespace Script

/-- The result of a run that follows a cue. -/
def perform (cue : Cue) (work : Work) : RunResult :=
  match cue.status with
  | some status => ⟨status, cue.duration, cue.output, none⟩
  | none => { work.runInProcess Work.unwatched with duration := cue.duration }

end Script

/-- A sandbox that follows a script, and runs the work of all runs after it. -/
def Sandbox.scripted : Sandbox Script where
  run work time script :=
    match script.cues with
    | [] => (Script.perform ⟨none, "", 0⟩ work, ⟨[], time :: script.granted⟩)
    | cue :: cues => (Script.perform cue work, ⟨cues, time :: script.granted⟩)

end MutationTester
