import MutationTester.Report.Basic

/-!
# Reports as JSON
-/

set_option autoImplicit false

namespace MutationTester

open Json (Value Fields)

namespace Kill

/-- A kill in JSON. -/
def toJson (k : Kill) : Value := .record [("test", .text k.test), ("status", k.status.toJson)]

/-- The kill that a value holds. -/
def ofJson? (v : Value) : Option Kill := do
  let fields ← Fields.ofValue? ["test", "status"] v
  return ⟨← fields.required? "test" Value.asString?, ← fields.required? "status" RunStatus.ofJson?⟩

end Kill

namespace MutantResult

/-- The result of a mutant in JSON. The error is left out where there is none. -/
def toJson (m : MutantResult) : Value :=
  .record ([("id", .text m.id), ("operator", .text m.operator), ("function", .text m.function),
    ("index", .nat m.index), ("status", m.status.toJson), ("killers", .list Kill.toJson m.killers),
    ("runs", .nat m.runs), ("duration_ms", .nat m.durationMs), ("diff", .text m.diff)] ++
    (m.error.map fun e => ("error", Value.text e)).toList)

/-- The result of a mutant that a value holds. -/
def ofJson? (v : Value) : Option MutantResult := do
  let fields ← Fields.ofValue? ["id", "operator", "function", "index", "status", "killers", "runs",
    "duration_ms", "diff", "error"] v
  return {
    id := ← fields.required? "id" Value.asString?
    operator := ← fields.required? "operator" Value.asString?
    function := ← fields.required? "function" Value.asString?
    index := ← fields.required? "index" Value.asWord?
    status := ← fields.required? "status" MutantStatus.ofJson?
    killers := ← fields.required? "killers" (Value.asList? Kill.ofJson?)
    runs := ← fields.required? "runs" Value.asWord?
    durationMs := ← fields.required? "duration_ms" Value.asWord?
    diff := ← fields.required? "diff" Value.asString?
    error := ← fields.withDefault? "error" none (Value.asOption? Value.asString?) }

end MutantResult

namespace TestReport

/-- What a report says of a test, in JSON. -/
def toJson (t : TestReport) : Value :=
  .record [("name", .text t.name), ("status", .optional RunStatus.toJson t.status),
    ("duration_ms", .nat t.durationMs)]

/-- What a value says of a test. -/
def ofJson? (v : Value) : Option TestReport := do
  let fields ← Fields.ofValue? ["name", "status", "duration_ms"] v
  return ⟨← fields.required? "name" Value.asString?, ← fields.optional? "status" RunStatus.ofJson?,
    ← fields.required? "duration_ms" Value.asWord?⟩

end TestReport

namespace Report

/-- A report in JSON. -/
def toJson (r : Report) : Value :=
  .record [("score", .float r.score), ("total", .nat r.total), ("killed", .nat r.killed),
    ("survived", .nat r.survived), ("not_covered", .nat r.notCovered),
    ("compile_errors", .nat r.compileErrors), ("timed_out", .nat r.timedOut),
    ("crashed", .nat r.crashed), ("duration_ms", .nat r.durationMs),
    ("mutants", .list MutantResult.toJson r.mutants), ("tests", .list TestReport.toJson r.tests)]

/-- The report that a value holds. -/
def ofJson? (v : Value) : Option Report := do
  let fields ← Fields.ofValue? ["score", "total", "killed", "survived", "not_covered",
    "compile_errors", "timed_out", "crashed", "duration_ms", "mutants", "tests"] v
  return {
    score := ← fields.required? "score" Value.asFloat?
    total := ← fields.required? "total" Value.asWord?
    killed := ← fields.required? "killed" Value.asWord?
    survived := ← fields.required? "survived" Value.asWord?
    notCovered := ← fields.required? "not_covered" Value.asWord?
    compileErrors := ← fields.required? "compile_errors" Value.asWord?
    timedOut := ← fields.required? "timed_out" Value.asWord?
    crashed := ← fields.required? "crashed" Value.asWord?
    durationMs := ← fields.required? "duration_ms" Value.asWord?
    mutants := ← fields.required? "mutants" (Value.asList? MutantResult.ofJson?)
    tests := ← fields.required? "tests" (Value.asList? TestReport.ofJson?) }

/-- The report that a text holds. -/
def parse? (s : String) : Option Report := Json.parse? s >>= ofJson?

end Report

end MutationTester
