import MutationTester.Proofs.Json.Decoding
import MutationTester.Proofs.Json.Reading
import MutationTester.Report.Format

/-!
# Reports survive their form in JSON

Names and messages are texts and come back as they are, and so do counts that are words. That leaves
the score: a report is read again from its text if its score is (`Report.parse?_toText`).
-/

set_option autoImplicit false

namespace MutationTester

open Json (Value Fields)

theorem RunStatus.ofJson?_toJson (status : RunStatus) : ofJson? status.toJson = some status := by
  cases status <;> rfl

theorem MutantStatus.ofJson?_toJson (status : MutantStatus) :
    ofJson? status.toJson = some status := by
  cases status <;> rfl

theorem Kill.ofJson?_toJson (k : Kill) : ofJson? k.toJson = some k := by
  unfold ofJson?
  simp only [Option.bind_eq_bind, Option.bind_eq_some_iff]
  exact ⟨_, Fields.ofValue?_record (by decide) rfl,
    _, (Fields.required?_of_lookup rfl _).trans (Value.asString?_text k.test),
    _, (Fields.required?_of_lookup rfl _).trans k.status.ofJson?_toJson, rfl⟩

/-- The counts in the result of a mutant are words. -/
structure MutantResult.FitsWords (m : MutantResult) : Prop where
  index_lt : m.index < UInt64.size
  runs_lt : m.runs < UInt64.size
  durationMs_lt : m.durationMs < UInt64.size

instance (m : MutantResult) : Decidable m.FitsWords :=
  decidable_of_iff
    (m.index < UInt64.size ∧ m.runs < UInt64.size ∧ m.durationMs < UInt64.size)
    ⟨fun ⟨h₁, h₂, h₃⟩ => ⟨h₁, h₂, h₃⟩, fun ⟨h₁, h₂, h₃⟩ => ⟨h₁, h₂, h₃⟩⟩

/-- The result of a mutant is read again, with its error or without one. -/
theorem MutantResult.ofJson?_toJson {m : MutantResult} (h : m.FitsWords) :
    ofJson? m.toJson = some m := by
  have hkillers : (Value.list Kill.toJson m.killers).asList? Kill.ofJson? = some m.killers :=
    Value.asList?_list fun k _ => k.ofJson?_toJson
  have hindex := Value.asWord?_nat h.index_lt
  have hruns := Value.asWord?_nat h.runs_lt
  have hduration := Value.asWord?_nat h.durationMs_lt
  obtain ⟨id, operator, function, index, status, killers, runs, durationMs, diff, error⟩ := m
  unfold ofJson?
  simp only [Option.bind_eq_bind, Option.bind_eq_some_iff]
  exact ⟨_, Fields.ofValue?_record_of_subset (by cases error <;> simp) (by cases error <;> simp),
    _, (Fields.required?_of_lookup rfl _).trans (Value.asString?_text id),
    _, (Fields.required?_of_lookup rfl _).trans (Value.asString?_text operator),
    _, (Fields.required?_of_lookup rfl _).trans (Value.asString?_text function),
    _, (Fields.required?_of_lookup rfl _).trans hindex,
    _, (Fields.required?_of_lookup rfl _).trans status.ofJson?_toJson,
    _, (Fields.required?_of_lookup rfl _).trans hkillers,
    _, (Fields.required?_of_lookup rfl _).trans hruns,
    _, (Fields.required?_of_lookup rfl _).trans hduration,
    _, (Fields.required?_of_lookup rfl _).trans (Value.asString?_text diff),
    error, by cases error <;> rfl, rfl⟩

theorem TestReport.ofJson?_toJson {t : TestReport} (h : t.durationMs < UInt64.size) :
    ofJson? t.toJson = some t := by
  have hnull : ∀ status : RunStatus, status.toJson ≠ .null := by
    intro status hstatus
    cases hstatus
  have hstatus : (Value.optional RunStatus.toJson t.status).asOption? RunStatus.ofJson? =
      some t.status := Value.asOption?_optional hnull fun status _ => status.ofJson?_toJson
  unfold ofJson?
  simp only [Option.bind_eq_bind, Option.bind_eq_some_iff]
  exact ⟨_, Fields.ofValue?_record (by decide) rfl,
    _, (Fields.required?_of_lookup rfl _).trans (Value.asString?_text t.name),
    _, (Fields.optional?_of_lookup rfl _).trans hstatus,
    _, (Fields.required?_of_lookup rfl _).trans (Value.asWord?_nat h), rfl⟩

namespace Report

/-- The counts in a report are words, as all counts of a machine are. -/
structure FitsWords (r : Report) : Prop where
  total_lt : r.total < UInt64.size
  killed_lt : r.killed < UInt64.size
  survived_lt : r.survived < UInt64.size
  notCovered_lt : r.notCovered < UInt64.size
  compileErrors_lt : r.compileErrors < UInt64.size
  timedOut_lt : r.timedOut < UInt64.size
  crashed_lt : r.crashed < UInt64.size
  durationMs_lt : r.durationMs < UInt64.size
  mutants : ∀ m ∈ r.mutants, m.FitsWords
  tests : ∀ t ∈ r.tests, t.durationMs < UInt64.size

instance (r : Report) : Decidable r.FitsWords :=
  decidable_of_iff
    ((∀ n ∈ [r.total, r.killed, r.survived, r.notCovered, r.compileErrors, r.timedOut, r.crashed,
        r.durationMs], n < UInt64.size) ∧
      (∀ m ∈ r.mutants, m.FitsWords) ∧ ∀ t ∈ r.tests, t.durationMs < UInt64.size)
    ⟨fun ⟨hcounts, hmutants, htests⟩ => by
        simp only [List.forall_mem_cons] at hcounts
        obtain ⟨h₁, h₂, h₃, h₄, h₅, h₆, h₇, h₈, -⟩ := hcounts
        exact ⟨h₁, h₂, h₃, h₄, h₅, h₆, h₇, h₈, hmutants, htests⟩,
      fun ⟨h₁, h₂, h₃, h₄, h₅, h₆, h₇, h₈, hmutants, htests⟩ => by
        refine ⟨?_, hmutants, htests⟩
        simp only [List.forall_mem_cons]
        exact ⟨h₁, h₂, h₃, h₄, h₅, h₆, h₇, h₈, nofun⟩⟩

theorem ofJson?_toJson {r : Report} (h : r.FitsWords)
    (hscore : (Value.float r.score).asFloat? = some r.score) : ofJson? r.toJson = some r := by
  have hmutants : (Value.list MutantResult.toJson r.mutants).asList? MutantResult.ofJson? =
      some r.mutants := Value.asList?_list fun m hm => MutantResult.ofJson?_toJson (h.mutants m hm)
  have htests : (Value.list TestReport.toJson r.tests).asList? TestReport.ofJson? =
      some r.tests := Value.asList?_list fun t ht => TestReport.ofJson?_toJson (h.tests t ht)
  unfold ofJson?
  simp only [Option.bind_eq_bind, Option.bind_eq_some_iff]
  exact ⟨_, Fields.ofValue?_record (by decide) rfl,
    _, (Fields.required?_of_lookup rfl _).trans hscore,
    _, (Fields.required?_of_lookup rfl _).trans (Value.asWord?_nat h.total_lt),
    _, (Fields.required?_of_lookup rfl _).trans (Value.asWord?_nat h.killed_lt),
    _, (Fields.required?_of_lookup rfl _).trans (Value.asWord?_nat h.survived_lt),
    _, (Fields.required?_of_lookup rfl _).trans (Value.asWord?_nat h.notCovered_lt),
    _, (Fields.required?_of_lookup rfl _).trans (Value.asWord?_nat h.compileErrors_lt),
    _, (Fields.required?_of_lookup rfl _).trans (Value.asWord?_nat h.timedOut_lt),
    _, (Fields.required?_of_lookup rfl _).trans (Value.asWord?_nat h.crashed_lt),
    _, (Fields.required?_of_lookup rfl _).trans (Value.asWord?_nat h.durationMs_lt),
    _, (Fields.required?_of_lookup rfl _).trans hmutants,
    _, (Fields.required?_of_lookup rfl _).trans htests, rfl⟩

/-- A report whose score reads back from its literal is read again from its text. -/
theorem parse?_toText {r : Report} (h : r.FitsWords)
    (hscore : (Value.float r.score).asFloat? = some r.score) :
    parse? r.toJson.toText = some r := by
  unfold parse?
  rw [Json.parse?_toText]
  exact ofJson?_toJson h hscore

end Report

end MutationTester
