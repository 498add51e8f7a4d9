import MutationTester.Proofs.Testing.Assembly

/-!
# Assembling loses nothing

Assembling sorts the testees into groups, one for each point, and adds the points without testees
that the static scan finds. A group has the testees of its point in an order that leaves no choice:
two testees of one point that may stand either way are the same (`Mutant.eq_of_testeeBefore`). So the
mutants depend on what the testees are, and not on the order in which they were found
(`Mutant.assemble_eq_of_perm`).
-/

set_option autoImplicit false

namespace MutationTester

/-- The static scan finds the included operators that can be applied in an included function that
is no test, or in a test where tests are mutated as well. -/
theorem PointKey.scanned_iff (p : Program) (config : Config) (key : PointKey) :
    key.Scanned p config ↔
      ∃ f, p.function? key.site.funcId = some f ∧ config.filter.includesFunction f.name = true ∧
        (f.isTest config = true → config.mutateTestBodies = true) ∧
        config.filter.includesOperator key.operator = true ∧
        key.operator.applies p key.site = true := by
  have hcandidate : ∀ f : Func, Mutant.isCandidate config f = true ↔
      config.filter.includesFunction f.name = true ∧
        (f.isTest config = true → config.mutateTestBodies = true) := by
    intro f
    unfold Mutant.isCandidate
    cases f.isTest config <;> simp [and_comm]
  constructor
  · rintro ⟨⟨f, hf, hmutated⟩, henabled, happlies⟩
    obtain ⟨hincluded, hbodies⟩ := (hcandidate f).mp hmutated
    exact ⟨f, hf, hincluded, hbodies, henabled, happlies⟩
  · rintro ⟨f, hf, hincluded, hbodies, henabled, happlies⟩
    exact ⟨⟨f, hf, (hcandidate f).mpr ⟨hincluded, hbodies⟩⟩, henabled, happlies⟩

namespace Mutant

/-! ## The order of a group -/

/-- Testees are ordered by their distances, and where these are the same by their tests. -/
theorem testeeBefore_iff (t u : Testee) :
    testeeBefore t u = true ↔
      t.distance < u.distance ∨ t.distance = u.distance ∧ t.test ≤ u.test := by
  unfold testeeBefore compareLex compareOn
  rcases Nat.lt_trichotomy t.distance u.distance with h | h | h
  · simp [Nat.compare_eq_lt.mpr h, h]
  · simp [h, Nat.isLE_compare]
  · simp [Nat.compare_eq_gt.mpr h]
    omega

/-- The testees of a point are in order. -/
theorem pairwise_testeesOf (key : PointKey) (testees : List Testee) :
    (testeesOf key testees).Pairwise fun t u => testeeBefore t u = true := by
  apply List.pairwise_mergeSort
  · intro t u v htu huv
    rw [testeeBefore_iff] at *
    omega
  · intro t u
    rw [Bool.or_eq_true, testeeBefore_iff, testeeBefore_iff]
    omega

/-- The testees of a point are all that have it, each as often as it was given. -/
theorem perm_testeesOf (key : PointKey) (testees : List Testee) :
    (testeesOf key testees).Perm (testees.filter fun t => t.point.key = key) :=
  List.mergeSort_perm _ _

/-- Two testees of one point of a program are the same if neither has to come before the other. -/
theorem eq_of_testeeBefore {p : Program} {key : PointKey} {t u : Testee} (ht : t.point = key.point p)
    (hu : u.point = key.point p) (htu : testeeBefore t u = true) (hut : testeeBefore u t = true) :
    t = u := by
  rw [testeeBefore_iff] at htu hut
  cases t
  cases u
  simp only [Testee.mk.injEq] at *
  exact ⟨by omega, ht.trans hu.symm, by omega⟩

/-! ## Testees in any order -/

section Order

variable {p : Program} {testees testees' : List Testee}

theorem point_eq_of_mem_testeesOf (hpoints : ∀ t ∈ testees, t.point = t.point.key.point p)
    {key : PointKey} {t : Testee} (ht : t ∈ testeesOf key testees) : t.point = key.point p := by
  obtain ⟨hmem, rfl⟩ := (mem_testeesOf_iff ..).mp ht
  exact hpoints t hmem

/-- The testees of a point do not depend on the order of all testees. -/
theorem testeesOf_eq_of_perm (hpoints : ∀ t ∈ testees, t.point = t.point.key.point p)
    (h : testees'.Perm testees) (key : PointKey) :
    testeesOf key testees' = testeesOf key testees := by
  have hperm : (testeesOf key testees').Perm (testeesOf key testees) :=
    ((perm_testeesOf key testees').trans (h.filter _)).trans (perm_testeesOf key testees).symm
  refine hperm.eq_of_pairwise ?_ (pairwise_testeesOf key testees') (pairwise_testeesOf key testees)
  intro t u ht hu htu hut
  exact eq_of_testeeBefore (point_eq_of_mem_testeesOf hpoints (hperm.subset ht))
    (point_eq_of_mem_testeesOf hpoints hu) htu hut

/-- The map of points of keys does not depend on the order of the points. -/
theorem pointMap_eq_of_mem_iff {points points' : List Point}
    (hpoints : ∀ point ∈ points, point = point.key.point p)
    (h : ∀ point, point ∈ points' ↔ point ∈ points) : pointMap points' = pointMap points := by
  have hpoints' : ∀ point ∈ points', point = point.key.point p :=
    fun point hpoint => hpoints point ((h point).mp hpoint)
  apply Std.ExtTreeMap.ext_getElem?
  intro key
  apply Option.ext
  intro point
  rw [getElem?_pointMap_eq_some_iff hpoints', getElem?_pointMap_eq_some_iff hpoints, h]

/-- The assembled mutants do not depend on the order of the testees. -/
theorem assemble_eq_of_perm (config : Config)
    (hpoints : ∀ t ∈ testees, t.point = t.point.key.point p) (h : testees'.Perm testees) :
    assemble p config testees' = assemble p config testees := by
  have hmap : pointMap (testees'.map Testee.point ++ staticPoints p config) =
      pointMap (testees.map Testee.point ++ staticPoints p config) := by
    refine pointMap_eq_of_mem_iff (eq_point_of_mem p config hpoints) fun point => ?_
    rw [List.mem_append, List.mem_append, (h.map Testee.point).mem_iff]
  unfold assemble
  rw [hmap]
  simp only [testeesOf_eq_of_perm hpoints h]

end Order

/-- Assembling is a lossless grouping. Let the points of some testees be points of a program. The
assembled mutants are in the strict order of their keys. The keys are those of the testees, and those
of the included operators that can be applied in an included function that is no test, or in a test
where tests are mutated as well. Each mutant is the point of its key, its testees are all that have
it, each as often as it was given, and they are ordered by distance and then by test. And in whatever
order the testees are given, the same mutants are assembled. -/
theorem assembles_losslessly (p : Program) (config : Config) (testees : List Testee)
    (hpoints : ∀ testee ∈ testees, ∃ op site, testee.point = Point.create p op site) :
    (assemble p config testees).Pairwise (fun a b => compare a.point.key b.point.key = .lt) ∧
      (∀ key : PointKey, (∃ mutant ∈ assemble p config testees, mutant.point.key = key) ↔
        (∃ testee ∈ testees, testee.point.key = key) ∨
          ∃ f, p.function? key.site.funcId = some f ∧
            config.filter.includesFunction f.name = true ∧
            (f.isTest config = true → config.mutateTestBodies = true) ∧
            config.filter.includesOperator key.operator = true ∧
            key.operator.applies p key.site = true) ∧
      (∀ mutant ∈ assemble p config testees, mutant.point = mutant.point.key.point p ∧
        mutant.testees.Perm (testees.filter fun t => t.point.key = mutant.point.key) ∧
        mutant.testees.Pairwise fun t u =>
          t.distance < u.distance ∨ t.distance = u.distance ∧ t.test ≤ u.test) ∧
      ∀ testees' : List Testee, testees'.Perm testees →
        assemble p config testees' = assemble p config testees := by
  have hpoints : ∀ testee ∈ testees, testee.point = testee.point.key.point p := by
    intro testee htestee
    obtain ⟨op, site, hpoint⟩ := hpoints testee htestee
    rw [hpoint]
    rfl
  have hany : ∀ testees' : List Testee, testees'.Perm testees →
      assemble p config testees' = assemble p config testees :=
    fun _ h => assemble_eq_of_perm config hpoints h
  obtain ⟨keys, hordered, hmutants, hkeys⟩ := assemble_eq p config hpoints
  rw [hmutants] at hany ⊢
  refine ⟨List.pairwise_map.mpr hordered, ?_, ?_, hany⟩
  · intro key
    have hmem : (∃ mutant ∈ keys.map (fun key => (⟨key.point p, testeesOf key testees⟩ : Mutant)),
        mutant.point.key = key) ↔ key ∈ keys := by
      simp only [List.mem_map, exists_exists_and_eq_and]
      constructor
      · rintro ⟨key, hkey, rfl⟩
        exact hkey
      · intro hkey
        exact ⟨key, hkey, rfl⟩
    rw [hmem, hkeys, key.scanned_iff]
  · intro mutant hmutant
    obtain ⟨key, -, rfl⟩ := List.mem_map.mp hmutant
    refine ⟨rfl, perm_testeesOf key testees, ?_⟩
    exact (pairwise_testeesOf key testees).imp fun h => (testeeBefore_iff _ _).mp h

/-- A program with a function that doubles, a test of it, and a function that no test calls. -/
def doublingProgram : Program where
  modules :=
    [⟨"lib", [⟨"double", 1, [.binary .add 0 0 0, .ret (some 0)]⟩,
        ⟨"same", 2, [.compare .eq 0 0 1, .ret (some 0)]⟩]⟩,
      ⟨"tests", [⟨"test_double", 0, [.const 0 1, .call (some 0) "double" [0], .ret none]⟩]⟩]

/-- Testees of the function that doubles, in no order, and one of them twice. -/
def doublingTestees : List Testee :=
  let point := Point.create doublingProgram .addToSub ⟨0, 0, 0⟩
  [⟨1, point, 2⟩, ⟨1, point, 1⟩, ⟨0, point, 2⟩, ⟨1, point, 1⟩]

/-- The function that doubles has a mutant with all four testees, the function that no test calls has
one as well, and the reversed list of testees gives the same mutants. -/
theorem groups_reversed_testees_alike :
    (∀ testee ∈ doublingTestees, ∃ op site, testee.point = Point.create doublingProgram op site) ∧
      (∃ mutant ∈ assemble doublingProgram {} doublingTestees,
        mutant.point.key = ⟨⟨0, 0, 0⟩, .addToSub⟩ ∧ mutant.testees.Perm doublingTestees) ∧
      (∃ mutant ∈ assemble doublingProgram {} doublingTestees,
        mutant.point.key = ⟨⟨0, 1, 0⟩, .negateCondition⟩) ∧
      assemble doublingProgram {} doublingTestees.reverse =
        assemble doublingProgram {} doublingTestees := by
  have hpoints : ∀ testee ∈ doublingTestees,
      ∃ op site, testee.point = Point.create doublingProgram op site := by
    intro testee htestee
    refine ⟨.addToSub, ⟨0, 0, 0⟩, ?_⟩
    revert testee
    decide
  obtain ⟨-, hkeys, hgroups, hany⟩ := assembles_losslessly doublingProgram {} _ hpoints
  obtain ⟨double, hdouble, hkey⟩ := (hkeys ⟨⟨0, 0, 0⟩, .addToSub⟩).mpr
    (.inl ⟨⟨0, Point.create doublingProgram .addToSub ⟨0, 0, 0⟩, 2⟩, by decide, rfl⟩)
  have hsame := (hkeys ⟨⟨0, 1, 0⟩, .negateCondition⟩).mpr
    (.inr ⟨_, rfl, by decide, by decide, by decide, by decide⟩)
  obtain ⟨-, hperm, -⟩ := hgroups double hdouble
  rw [hkey] at hperm
  have hall : (doublingTestees.filter fun t => t.point.key = ⟨⟨0, 0, 0⟩, .addToSub⟩) =
      doublingTestees := by decide
  rw [hall] at hperm
  exact ⟨hpoints, ⟨double, hdouble, hkey, hperm⟩, hsame, hany _ (List.reverse_perm _)⟩

end Mutant

end MutationTester
