import MutationTester.Proofs.Mutation.Identifiers
import MutationTester.Proofs.Testing.BuiltMutants

/-!
# The ids in a report

A report lists the ids of the assembled mutants in their order (`Campaign.map_id_report`), and the
mutants are of different points. So an id is listed twice exactly if two mutants have one operator
and one index, in functions whose names are regrouped.
-/

set_option autoImplicit false

namespace MutationTester

namespace Campaign

section Reports

variable {σ : Type} {p : Program} {x : Executable} {sandbox : Sandbox σ} {limits : Limits}
  {config : Config} {s s' : σ} {report : Report}

/-- A report lists the ids of the mutants that were assembled. -/
theorem map_id_report (hx : p.Builds x)
    (h : run p sandbox limits config s = (.ok report, s')) :
    report.mutants.map MutantResult.id =
      (mutants p x sandbox limits config s).map (·.point.id) := by
  obtain ⟨compiled, -, -, hhandled⟩ := forall₂_handled_of_run hx h
  have hids : List.Forall₂ (· = ·) (report.mutants.map MutantResult.id)
      ((mutants p x sandbox limits config s).map (·.point.id)) := by
    rw [List.forall₂_map_left_iff, List.forall₂_map_right_iff]
    exact hhandled.flip.imp fun _ _ hmutant => hmutant.isOf.id_eq
  rwa [List.forall₂_eq_eq_eq] at hids

/-- An assembled mutant is of the point of its site and operator, at a value of the program. -/
theorem exists_instruction_of_mem_mutants {mutant : Mutant}
    (h : mutant ∈ mutants p x sandbox limits config s) :
    mutant.point = .create p mutant.point.operator mutant.point.site ∧
      ∃ i, p.instruction? mutant.point.site = some i := by
  obtain ⟨i, -, hi, -⟩ := (Operator.applies_iff ..).mp (applies_of_mem_mutants h)
  obtain ⟨keys, -, hmutants, -⟩ := mutants_eq p x sandbox limits config s
  rw [hmutants] at h
  obtain ⟨key, -, rfl⟩ := List.mem_map.mp h
  exact ⟨rfl, i, hi⟩

/-- Assembled mutants have one id exactly if they have one operator and one index, and their
functions are one or have regrouped names. -/
theorem id_eq_iff_of_mem_mutants (hx : p.Builds x) {a b : Mutant}
    (ha : a ∈ mutants p x sandbox limits config s) (hb : b ∈ mutants p x sandbox limits config s) :
    a.point.id = b.point.id ↔
      a.point.operator = b.point.operator ∧ a.point.site.index = b.point.site.index ∧
        (a.point.site.funcId = b.point.site.funcId ∨
          p.Regroups a.point.site.funcId b.point.site.funcId ∨
          p.Regroups b.point.site.funcId a.point.site.funcId) := by
  obtain ⟨hpoint, i, hi⟩ := exists_instruction_of_mem_mutants ha
  obtain ⟨hpoint', i', hi'⟩ := exists_instruction_of_mem_mutants hb
  rw [hpoint, hpoint']
  exact Point.id_eq_iff_of_builds hx hi hi'

/-- Assembled mutants with one operator and one site are one. -/
theorem eq_of_mem_mutants {a b : Mutant} (ha : a ∈ mutants p x sandbox limits config s)
    (hb : b ∈ mutants p x sandbox limits config s)
    (hoperator : a.point.operator = b.point.operator) (hsite : a.point.site = b.point.site) :
    a = b := by
  obtain ⟨keys, -, hmutants, -⟩ := mutants_eq p x sandbox limits config s
  rw [hmutants] at ha hb
  obtain ⟨⟨site, op⟩, -, rfl⟩ := List.mem_map.mp ha
  obtain ⟨⟨site', op'⟩, -, rfl⟩ := List.mem_map.mp hb
  obtain rfl : site = site' := hsite
  obtain rfl : op = op' := hoperator
  rfl

/-- No mutant is assembled twice. -/
theorem nodup_mutants : (mutants p x sandbox limits config s).Nodup := by
  obtain ⟨keys, hordered, hmutants, -⟩ := mutants_eq p x sandbox limits config s
  have hkeys : keys.Nodup := by
    refine hordered.imp ?_
    rintro a b hlt rfl
    rw [Std.ReflOrd.compare_self] at hlt
    cases hlt
  rw [hmutants, List.nodup_map_iff_inj_on hkeys]
  rintro ⟨site, op⟩ - ⟨site', op'⟩ - heq
  have hsite : site = site' := congrArg (fun mutant : Mutant => mutant.point.site) heq
  have hoperator : op = op' := congrArg (fun mutant : Mutant => mutant.point.operator) heq
  rw [hsite, hoperator]

end Reports

/-- On a program that builds, ids tell all pairs of an operator and a value apart exactly if no two
functions have regrouped names. A campaign that reports lists an id twice exactly if it assembled
two mutants with one operator at one index of functions whose names are regrouped. -/
theorem ids_distinct_iff_not_regrouped {σ : Type} (p : Program) (x : Executable)
    (sandbox : Sandbox σ) (limits : Limits) (config : Config) (s : σ) (hx : p.Builds x) :
    ((∀ op op' site site' i i', p.instruction? site = some i → p.instruction? site' = some i' →
        (op, site) ≠ (op', site') → (Point.create p op site).id ≠ (Point.create p op' site').id) ↔
      ∀ id id', ¬ p.Regroups id id') ∧
    ∀ report s', run p sandbox limits config s = (.ok report, s') →
      ((report.mutants.map MutantResult.id).Nodup ↔
        ¬ ∃ a ∈ mutants p x sandbox limits config s, ∃ b ∈ mutants p x sandbox limits config s,
          a.point.operator = b.point.operator ∧ a.point.site.index = b.point.site.index ∧
            p.Regroups a.point.site.funcId b.point.site.funcId) := by
  constructor
  · rw [← Point.ids_injective_iff hx]
    constructor
    · intro hdistinct op op' site site' i i' hi hi' hids
      by_contra hne
      exact hdistinct op op' site site' i i' hi hi' (mt Prod.mk.inj hne) hids
    · intro hinjective op op' site site' i i' hi hi' hne hids
      obtain ⟨rfl, rfl⟩ := hinjective op op' site site' i i' hi hi' hids
      exact hne rfl
  · intro report s' hrun
    rw [map_id_report hx hrun, List.nodup_map_iff_inj_on nodup_mutants]
    constructor
    · rintro hinjective ⟨a, ha, b, hb, hoperator, hindex, hregroups⟩
      have hids := (id_eq_iff_of_mem_mutants hx ha hb).mpr
        ⟨hoperator, hindex, Or.inr (Or.inl hregroups)⟩
      obtain rfl := hinjective a ha b hb hids
      exact hregroups.ne rfl
    · intro hnone a ha b hb hids
      obtain ⟨hoperator, hindex, hfunction | hregroups | hregroups⟩ :=
        (id_eq_iff_of_mem_mutants hx ha hb).mp hids
      · exact eq_of_mem_mutants ha hb hoperator ((Site.eq_iff _ _).mpr ⟨hfunction, hindex⟩)
      · exact absurd ⟨a, ha, b, hb, hoperator, hindex, hregroups⟩ hnone
      · exact absurd ⟨b, hb, a, ha, hoperator.symm, hindex.symm, hregroups⟩ hnone

/-- A function that doubles its argument. -/
def doubling (name : String) : Func := ⟨name, 1, [.binary .add 0 0 0, .ret (some 0)]⟩

/-- A program with a doubling function in each of two modules, the second of which is tested. The
module of the second is called as a part of the first. -/
def nestedProgram (name : String) : Program where
  modules :=
    [⟨"a", [doubling name]⟩, ⟨"a::b", [doubling "c"]⟩,
      ⟨"tests", [⟨"test_c", 0, [.const 0 3, .call (some 1) "c" [0], .const 2 6,
        .compare .eq 3 1 2, .assert 3, .ret none]⟩]⟩]

/-- What such a program builds to. -/
def nestedExecutable (name : String) : Executable where
  modules := (nestedProgram name).lower
  symbols := (nestedProgram name).symbols.reverse

/-- Without colons in the names of functions the two mutants are reported by two ids. -/
theorem nested_modules_reported_apart :
    (nestedProgram "b").Builds (nestedExecutable "b") ∧
      (∀ id id', ¬ (nestedProgram "b").Regroups id id') ∧
      ((run (nestedProgram "b") (Sandbox.ofKind .none) {} {} ()).1.map fun report =>
        report.mutants.map MutantResult.id).toOption =
          some ["add_to_sub@a::b#0", "add_to_sub@a::b::c#0"] ∧
      (∀ op op' site site' i i', (nestedProgram "b").instruction? site = some i →
        (nestedProgram "b").instruction? site' = some i' → (op, site) ≠ (op', site') →
        (Point.create (nestedProgram "b") op site).id ≠
          (Point.create (nestedProgram "b") op' site').id) := by
  have hbuilds : (nestedProgram "b").Builds (nestedExecutable "b") := rfl
  have hnone : ∀ id id', ¬ (nestedProgram "b").Regroups id id' := by
    refine Program.not_regroups_of_no_colon fun id f hf => ?_
    have hnames : ∀ entry ∈ (nestedProgram "b").functions, ':' ∉ entry.2.name.toList := by decide
    exact hnames (id, f) ((Program.mem_functions_iff _ id f).mpr hf)
  exact ⟨hbuilds, hnone, by decide +kernel,
    (ids_distinct_iff_not_regrouped _ _ (Sandbox.ofKind .none) {} {} () hbuilds).1.mpr hnone⟩

/-- With the separator in the name of the first function two points have one id, and a report lists
it twice, for a mutant that no test reaches and for one that is killed. -/
theorem reports_two_mutants_under_one_id :
    (nestedProgram "b::c").Builds (nestedExecutable "b::c") ∧
      ((nestedProgram "b::c").instruction? ⟨0, 0, 0⟩).isSome = true ∧
      ((nestedProgram "b::c").instruction? ⟨1, 0, 0⟩).isSome = true ∧
      (Operator.addToSub, (⟨0, 0, 0⟩ : Site)) ≠ (Operator.addToSub, (⟨1, 0, 0⟩ : Site)) ∧
      (Point.create (nestedProgram "b::c") .addToSub ⟨0, 0, 0⟩).id =
        (Point.create (nestedProgram "b::c") .addToSub ⟨1, 0, 0⟩).id ∧
      ((run (nestedProgram "b::c") (Sandbox.ofKind .none) {} {} ()).1.map fun report =>
        report.mutants.map fun result => (result.id, result.status)).toOption =
          some [("add_to_sub@a::b::c#0", .notCovered), ("add_to_sub@a::b::c#0", .killed)] :=
  ⟨rfl, rfl, rfl, by decide, rfl, by decide +kernel⟩

end Campaign

end MutationTester
