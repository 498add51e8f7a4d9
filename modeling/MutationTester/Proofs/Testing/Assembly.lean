import MutationTester.Testing.Mutant
import MutationTester.Proofs.Testing.Discovery

/-!
# What the assembled mutants are

The assembled mutants have strictly increasing keys, so no two of them have the same one, and each
is the point of its key with all testees of that key (`Mutant.assemble_eq`). Their keys are those
that some testee has and those of the points that the static scan finds.
-/

set_option autoImplicit false

namespace MutationTester

/-- The static scan finds a point: an included operator can be applied in a function that is a
candidate. -/
structure PointKey.Scanned (p : Program) (config : Config) (key : PointKey) : Prop where
  candidate : ∃ f, p.function? key.site.funcId = some f ∧ Mutant.isCandidate config f = true
  enabled : config.filter.includesOperator key.operator = true
  applies : key.operator.applies p key.site = true

/-- The points of a function are those of the enabled operators that can be applied to one of its
instructions. -/
theorem Point.mem_ofFunction_iff (p : Program) (id : FuncId) (filter : Filter) (point : Point) :
    point ∈ ofFunction p id filter ↔
      ∃ key : PointKey, key.site.funcId = id ∧ filter.includesOperator key.operator = true ∧
        key.operator.applies p key.site = true ∧ point = key.point p := by
  unfold ofFunction
  constructor
  · intro h
    split at h
    next => cases h
    next f hf =>
      obtain ⟨index, -, hpoint⟩ := List.mem_flatMap.mp h
      obtain ⟨op, henabled, happlies, rfl⟩ := (mem_ofSite_iff ..).mp hpoint
      exact ⟨⟨id.site index, op⟩, rfl, henabled, happlies, rfl⟩
  · rintro ⟨⟨site, op⟩, rfl, henabled, happlies, rfl⟩
    obtain ⟨i, -, hi, -⟩ := (Operator.applies_iff ..).mp happlies
    obtain ⟨f, hf, hindex⟩ := (p.instruction?_eq_some_iff site i).mp hi
    dsimp only
    rw [hf]
    refine List.mem_flatMap.mpr ⟨site.index, ?_,
      (mem_ofSite_iff ..).mpr ⟨op, henabled, happlies, rfl⟩⟩
    exact List.mem_range.mpr (List.getElem?_eq_some_iff.mp hindex).1

namespace Mutant

/-- The static points are those of the scanned keys. -/
theorem mem_staticPoints_iff (p : Program) (config : Config) (point : Point) :
    point ∈ staticPoints p config ↔
      ∃ key : PointKey, key.Scanned p config ∧ point = key.point p := by
  unfold staticPoints
  constructor
  · intro h
    obtain ⟨⟨id, f⟩, hentry, hpoint⟩ := List.mem_flatMap.mp h
    obtain ⟨hmem, hcandidate⟩ := List.mem_filter.mp hentry
    obtain ⟨key, rfl, henabled, happlies, rfl⟩ := (Point.mem_ofFunction_iff ..).mp hpoint
    exact ⟨key, ⟨⟨f, (p.mem_functions_iff _ f).mp hmem, hcandidate⟩, henabled, happlies⟩, rfl⟩
  · rintro ⟨key, ⟨⟨f, hf, hcandidate⟩, henabled, happlies⟩, rfl⟩
    refine List.mem_flatMap.mpr ⟨(key.site.funcId, f), ?_, ?_⟩
    · exact List.mem_filter.mpr ⟨(p.mem_functions_iff _ f).mpr hf, hcandidate⟩
    · exact (Point.mem_ofFunction_iff ..).mpr ⟨key, rfl, henabled, happlies, rfl⟩

/-- Adding points to a map keeps what it holds, and the first point of a new key counts. -/
theorem getElem?_foldl_insertIfNew (points : List Point) (map : Std.ExtTreeMap PointKey Point)
    (key : PointKey) :
    (points.foldl (fun map point => map.insertIfNew point.key point) map)[key]? =
      map[key]?.or (points.find? (·.key = key)) := by
  induction points generalizing map with
  | nil => rw [List.foldl_nil, List.find?_nil, Option.or_none]
  | cons point points ih =>
    rw [List.foldl_cons, ih, Std.ExtTreeMap.getElem?_insertIfNew]
    by_cases hkey : point.key = key
    · subst hkey
      rw [List.find?_cons_of_pos (by simp)]
      cases hold : map[point.key]? with
      | none => simp [Std.ExtTreeMap.mem_iff_isSome_getElem?, hold]
      | some old => simp [Std.ExtTreeMap.mem_iff_isSome_getElem?, hold]
    · rw [List.find?_cons_of_neg (by simpa using hkey)]
      simp [hkey]

/-- The map of points holds the first point of each key. -/
theorem getElem?_pointMap (points : List Point) (key : PointKey) :
    (pointMap points)[key]? = points.find? (·.key = key) := by
  unfold pointMap
  rw [getElem?_foldl_insertIfNew, Std.ExtTreeMap.getElem?_empty, Option.none_or]

/-- If all points are points of keys, their map holds nothing else under a key than its point. -/
theorem getElem?_pointMap_eq_some_iff {p : Program} {points : List Point}
    (hpoints : ∀ point ∈ points, point = point.key.point p) (key : PointKey) (point : Point) :
    (pointMap points)[key]? = some point ↔ point = key.point p ∧ point ∈ points := by
  rw [getElem?_pointMap]
  constructor
  · intro h
    have hmem := List.mem_of_find?_eq_some h
    have hkey : point.key = key := by simpa using List.find?_some h
    subst hkey
    exact ⟨hpoints point hmem, hmem⟩
  · rintro ⟨rfl, hmem⟩
    cases hfound : points.find? (·.key = key) with
    | none => exact absurd (decide_eq_true rfl) (List.find?_eq_none.mp hfound _ hmem)
    | some other =>
      have hkey : other.key = key := by simpa using List.find?_some hfound
      rw [hpoints other (List.mem_of_find?_eq_some hfound), hkey]

/-- If the points of all testees are points of keys, all points that are assembled are. -/
theorem eq_point_of_mem (p : Program) (config : Config) {testees : List Testee}
    (htestees : ∀ testee ∈ testees, testee.point = testee.point.key.point p) :
    ∀ point ∈ testees.map Testee.point ++ staticPoints p config, point = point.key.point p := by
  intro point hpoint
  rcases List.mem_append.mp hpoint with hpoint | hpoint
  · obtain ⟨testee, htestee, rfl⟩ := List.mem_map.mp hpoint
    exact htestees testee htestee
  · obtain ⟨key, -, rfl⟩ := (mem_staticPoints_iff p config point).mp hpoint
    rfl

/-- The assembled mutants are the points of strictly increasing keys, with all testees of each. The
keys are those that a testee has, and those that are scanned. -/
theorem assemble_eq (p : Program) (config : Config) {testees : List Testee}
    (htestees : ∀ testee ∈ testees, testee.point = testee.point.key.point p) :
    ∃ keys : List PointKey, keys.Pairwise (fun a b => compare a b = .lt) ∧
      assemble p config testees = keys.map (fun key => ⟨key.point p, testeesOf key testees⟩) ∧
      ∀ key, key ∈ keys ↔
        (∃ testee ∈ testees, testee.point.key = key) ∨ key.Scanned p config := by
  have hentry := getElem?_pointMap_eq_some_iff (eq_point_of_mem p config htestees)
  unfold assemble
  generalize pointMap (testees.map Testee.point ++ staticPoints p config) = map at hentry ⊢
  refine ⟨map.keys, Std.ExtTreeMap.ordered_keys, ?_, ?_⟩
  · rw [← Std.ExtTreeMap.map_fst_toList_eq_keys, List.map_map]
    refine List.map_congr_left ?_
    rintro ⟨key, point⟩ hmem
    obtain ⟨rfl, -⟩ :=
      (hentry key point).mp (Std.ExtTreeMap.mem_toList_iff_getElem?_eq_some.mp hmem)
    rfl
  · intro key
    rw [Std.ExtTreeMap.mem_keys, Std.ExtTreeMap.mem_iff_isSome_getElem?, Option.isSome_iff_exists]
    simp only [hentry, exists_eq_left, List.mem_append, List.mem_map, mem_staticPoints_iff]
    constructor
    · rintro (⟨testee, htestee, hpoint⟩ | ⟨other, hscanned, hpoint⟩)
      · exact .inl ⟨testee, htestee, congrArg Point.key hpoint⟩
      · obtain rfl : key = other := congrArg Point.key hpoint
        exact .inr hscanned
    · rintro (⟨testee, htestee, rfl⟩ | hscanned)
      · exact .inl ⟨testee, htestee, htestees testee htestee⟩
      · exact .inr ⟨key, hscanned, rfl⟩

/-- The testees of a key are those whose point has it. -/
theorem mem_testeesOf_iff (key : PointKey) (testees : List Testee) (testee : Testee) :
    testee ∈ testeesOf key testees ↔ testee ∈ testees ∧ testee.point.key = key := by
  unfold testeesOf
  rw [List.mem_mergeSort, List.mem_filter, decide_eq_true_eq]

end Mutant

end MutationTester
