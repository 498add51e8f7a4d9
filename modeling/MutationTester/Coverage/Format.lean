import MutationTester.Coverage.Basic
import MutationTester.Json.Decode

/-!
# Coverage as JSON

A record is written as its two lists. Whatever lists are read, they are merged: of several
depths of one function the least counts, and a site listed twice counts once.
-/

set_option autoImplicit false

namespace MutationTester

open Json (Value Fields)

/-- A function's position in JSON. -/
def FuncId.toJson (id : FuncId) : Value :=
  .record [("module", .nat id.module), ("function", .nat id.function)]

/-- The function's position that a value holds. -/
def FuncId.ofJson? (v : Value) : Option FuncId := do
  let fields ← Fields.ofValue? ["module", "function"] v
  return ⟨← fields.required? "module" Value.asWord?, ← fields.required? "function" Value.asWord?⟩

/-- A site in JSON. -/
def Site.toJson (s : Site) : Value :=
  .record [("module", .nat s.module), ("function", .nat s.function), ("index", .nat s.index)]

/-- The site that a value holds. -/
def Site.ofJson? (v : Value) : Option Site := do
  let fields ← Fields.ofValue? ["module", "function", "index"] v
  return ⟨← fields.required? "module" Value.asWord?, ← fields.required? "function" Value.asWord?,
    ← fields.required? "index" Value.asWord?⟩

namespace Coverage

/-- A function with its least depth is written as a pair. -/
def entryToJson (entry : FuncId × Nat) : Value := .array [entry.1.toJson, .nat entry.2]

/-- A record in JSON. -/
def toJson (c : Coverage) : Value :=
  .record [("functions", .list entryToJson c.entries), ("executed", .list Site.toJson c.sites)]

/-- The record that a value holds. -/
def ofJson? (v : Value) : Option Coverage := do
  let fields ← Fields.ofValue? ["functions", "executed"] v
  let entries ← fields.required? "functions"
    (Value.asList? (Value.asPair? FuncId.ofJson? Value.asWord?))
  let sites ← fields.required? "executed" (Value.asList? Site.ofJson?)
  return ofLists entries sites

end Coverage

end MutationTester
