import MutationTester.Sandbox.Basic
import MutationTester.Proofs.Coverage.Encoding
import MutationTester.Proofs.Json.Reading

/-!
# The kinds of sandboxes agree

A child process reports how its work ended, and its parent reads from the bytes what the child
wrote (`ChildReport.decode?_encode`). So the parent makes of an ending what the tester itself would
have made of it (`interpretEnding_eq`), and work that ends by its deadline has the same status,
output and coverage in every kind of sandbox (`SandboxKind.results_agree`).

Excepted are the two endings that a child tells differently by design: work that saw itself
interrupted is trapped for a child and out of time for the others, and work that has its process
aborted leaves nobody to report.
-/

set_option autoImplicit false

namespace MutationTester

open Json (Value Fields)

/-! ## Reports -/

/-- A verdict survives its form in JSON. -/
theorem Verdict.ofJson?_toJson {v : Verdict} (h : ∀ c ∈ v.coverage, c.FitsWords) :
    ofJson? v.toJson = some v := by
  have hfields : Fields.ofValue? ["passed", "output", "coverage"] v.toJson =
      some ⟨[("passed", .bool v.passed), ("output", .text v.output),
        ("coverage", .optional Coverage.toJson v.coverage)], false⟩ :=
    Fields.ofValue?_record (by decide) rfl
  have hpassed : (Value.bool v.passed).asBool? = some v.passed := rfl
  have houtput : (Value.text v.output).asString? = some v.output := rfl
  have hnull : ∀ c : Coverage, c.toJson ≠ .null := by
    intro c hc
    cases hc
  have hcoverage : (Value.optional Coverage.toJson v.coverage).asOption? Coverage.ofJson? =
      some v.coverage :=
    Value.asOption?_optional hnull fun c hc => Coverage.ofJson?_toJson (h c hc)
  unfold ofJson?
  simp only [Option.bind_eq_bind, Option.bind_eq_some_iff]
  exact ⟨_, hfields, _, (Fields.required?_of_lookup rfl _).trans hpassed,
    _, (Fields.required?_of_lookup rfl _).trans houtput,
    _, (Fields.optional?_of_lookup rfl _).trans hcoverage, rfl⟩

/-- The coverage that a report brings is written in words. -/
def ChildReport.FitsWords : ChildReport → Prop
  | finished v => ∀ c ∈ v.coverage, c.FitsWords
  | trapped _ => True

theorem ChildReport.ofJson?_toJson {r : ChildReport} (h : r.FitsWords) :
    ofJson? r.toJson = some r := by
  cases r with
  | finished v =>
    have hv : Verdict.ofJson? v.toJson = some v := Verdict.ofJson?_toJson h
    show (Verdict.ofJson? v.toJson).map finished = some (finished v)
    rw [hv, Option.map_some]
  | trapped message => rfl

/-- The parent reads the report that the child wrote. -/
theorem ChildReport.decode?_encode {r : ChildReport} (h : r.FitsWords) :
    decode? r.encode = some r := by
  unfold decode? encode
  simp only [fromUTF8?_toUTF8, Json.parse?_toText, Option.bind_eq_bind, Option.bind_some]
  exact ofJson?_toJson h

/-! ## Endings -/

/-- The endings that a child can tell its parent as they are: a verdict, a trap, or giving up. -/
inductive WorkEnding.Told : WorkEnding → Prop
  | finished {v : Verdict} (h : ∀ c ∈ v.coverage, c.FitsWords) : Told (.finished v)
  | trapped (message : String) : Told (.faulted (.trapped message))
  | panicked (payload : Option String) : Told (.panicked payload)

/-- The parent of a child makes of an ending what the tester itself would make of it. -/
theorem interpretEnding_eq {e : WorkEnding} (h : e.Told) : interpretEnding e = e.result := by
  have hread : ∀ r : ChildReport, r.FitsWords →
      interpret (.exited r.exitCode) r.encode =
        match r with
        | .finished v => .ofVerdict v
        | .trapped message => .withoutVerdict .crashed message := by
    intro r hr
    unfold interpret
    rw [ChildReport.decode?_encode hr]
    cases r <;> rfl
  cases h with
  | @finished v hv => exact hread (.finished v) hv
  | trapped message => exact hread (.trapped message) trivial
  | panicked payload => exact hread (.trapped (panicText payload)) trivial

/-! ## Sandboxes -/

/-- Work that comes to its end however long it might go on. -/
def Work.EndsWith (work : Work) (e : WorkEnd) : Prop :=
  ∀ steps, e.steps ≤ steps → work.run? steps = some e

/-- A sandbox of a kind can make a number of steps, and what it takes for itself, by a deadline. -/
structure SandboxKind.InTime (kind : SandboxKind) (steps : Nat) (time : Duration) : Prop where
  startTime_le : kind.startTime ≤ time
  steps_le : steps ≤ Work.stepsWithin time
  time_lt : time < Duration.bound

section Kinds

variable {work : Work} {e : WorkEnd}

theorem Work.EndsWith.runInProcess_eq (hends : work.EndsWith e) {steps : Nat}
    (hsteps : e.steps ≤ steps) :
    work.runInProcess steps = { e.ending.result with duration := e.steps * stepTime } := by
  unfold runInProcess
  rw [hends steps hsteps]

/-- What becomes of work that ends by its deadline is the same in every kind of sandbox. -/
theorem SandboxKind.outcome_eq (hends : work.EndsWith e) (htold : e.ending.Told)
    {kind : SandboxKind} {time : Duration} (hintime : kind.InTime e.steps time) :
    kind.outcome work time = { e.ending.result with duration := e.steps * Work.stepTime } := by
  obtain ⟨hstart, hsteps, hbound⟩ := hintime
  cases kind with
  | fork =>
    have hstarted : ¬time < ChildTask.startTime := Nat.not_lt.mpr hstart
    show ChildTask.run (.report work) time = _
    unfold ChildTask.run ChildTask.runSteps
    rw [if_neg hstarted]
    dsimp only
    rw [hends _ hsteps]
    dsimp only
    rw [interpretEnding_eq htold]
  | watchdog =>
    have hstarted : ¬time < Work.threadTime := Nat.not_lt.mpr hstart
    show work.runOnThread time = _
    unfold Work.runOnThread
    rw [if_neg hstarted]
    exact hends.runInProcess_eq hsteps
  | none =>
    -- nobody watches the time, but what ends by a deadline ends by the longest one
    have hunwatched : Work.stepsWithin time ≤ Work.unwatched :=
      Nat.div_le_div_right (Nat.le_of_lt hbound)
    exact hends.runInProcess_eq (Nat.le_trans hsteps hunwatched)

/-- The kinds of sandboxes agree: work that comes to a verdict, is trapped or gives up has the same
status, output and coverage in any two of them, if it ends by its deadlines there. -/
theorem SandboxKind.results_agree (hends : work.EndsWith e) (htold : e.ending.Told)
    (kind kind' : SandboxKind) {time time' : Duration} (hintime : kind.InTime e.steps time)
    (hintime' : kind'.InTime e.steps time') (s s' : Unit) :
    let r := ((Sandbox.ofKind kind).run work time s).1
    let r' := ((Sandbox.ofKind kind').run work time' s').1
    r.status = r'.status ∧ r.output = r'.output ∧ r.coverage = r'.coverage := by
  have h := outcome_eq hends htold hintime
  have h' := outcome_eq hends htold hintime'
  refine ⟨?_, ?_, ?_⟩
  · show (kind.outcome work time).status = (kind'.outcome work time').status
    rw [h, h']
  · show (kind.outcome work time).output = (kind'.outcome work time').output
    rw [h, h']
  · show (kind.outcome work time).coverage = (kind'.outcome work time').coverage
    rw [h, h']

end Kinds

/-- A verdict whose text has to be escaped, and whose record lists one function twice. -/
def quotingVerdict : Verdict where
  passed := true
  output := "say \"hi\"\n\t\x1f λ"
  coverage := some (Coverage.ofLists [(⟨0, 1⟩, 2), (⟨0, 1⟩, 0)] [⟨0, 1, 3⟩])

/-- Work that comes to this verdict at once and has a second for it is the same to the parent of a
child as to the tester itself. -/
theorem SandboxKind.forked_verdict_is_the_same :
    let work := Work.done (.finished quotingVerdict)
    let forked := ((Sandbox.ofKind .fork).run work Duration.second ()).1
    let direct := ((Sandbox.ofKind .none).run work Duration.second ()).1
    work.EndsWith ⟨.finished quotingVerdict, 0⟩ ∧ SandboxKind.fork.InTime 0 Duration.second ∧
      SandboxKind.none.InTime 0 Duration.second ∧ direct.status = .passed ∧
      forked.status = direct.status ∧ forked.output = direct.output ∧
        forked.coverage = direct.coverage := by
  have hfits : ∀ c ∈ quotingVerdict.coverage, c.FitsWords := by
    rintro c ⟨⟩
    apply Coverage.fitsWords_ofLists
    · have hf : (⟨0, 1⟩ : FuncId).FitsWords := ⟨by decide, by decide⟩
      simp [hf, UInt64.size]
    · have hs : (⟨0, 1, 3⟩ : Site).FitsWords := ⟨by decide, by decide, by decide⟩
      simp [hs]
  have hends : (Work.done (.finished quotingVerdict)).EndsWith ⟨.finished quotingVerdict, 0⟩ :=
    fun _ _ => rfl
  have hfork : SandboxKind.fork.InTime 0 Duration.second := ⟨by decide, by decide, by decide⟩
  have hnone : SandboxKind.none.InTime 0 Duration.second := ⟨by decide, by decide, by decide⟩
  exact ⟨hends, hfork, hnone, rfl,
    results_agree hends (.finished hfits) .fork .none hfork hnone () ()⟩

end MutationTester
