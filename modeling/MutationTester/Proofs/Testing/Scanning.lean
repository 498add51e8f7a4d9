import MutationTester.Proofs.Testing.Assembly
import Mathlib.Data.List.Infix
import Mathlib.Data.List.Sort

/-!
# Discovery is the static scan of what ran

The testees of a test are in a strict order (`Tracking.pairwise_testees`), so they are known from
their membership alone. In each function they are the points of the static scan whose sites the test
has executed (`Tracking.filter_testees_after`), and with a smaller bound on the distance they are the
first ones (`Tracking.testees_after_prefix`).
-/

set_option autoImplicit false

namespace MutationTester

/-! ## Points in order -/

/-- Keys are ordered by site, and where these are the same by operator. -/
theorem PointKey.compare_eq_lt_iff (a b : PointKey) :
    compare a b = .lt ↔
      compare a.site b.site = .lt ∨ a.site = b.site ∧ compare a.operator b.operator = .lt := by
  change compareLex (compareOn PointKey.site) (compareOn PointKey.operator) a b = .lt ↔ _
  simp [compareLex, compareOn, Ordering.then_eq_lt]

theorem Operator.pairwise_all : all.Pairwise fun a b => compare a b = .lt := by
  decide

/-- Sites in order give keys in order. -/
theorem pairwise_flatMap_of_sites {α : Type} {key : α → PointKey} {sites : List Site}
    {group : Site → List α} (hsites : sites.Pairwise fun a b => compare a b = .lt)
    (hgroup : ∀ site, (group site).Pairwise fun a b => compare (key a) (key b) = .lt)
    (hsite : ∀ site, ∀ a ∈ group site, (key a).site = site) :
    (sites.flatMap group).Pairwise fun a b => compare (key a) (key b) = .lt := by
  refine List.pairwise_flatMap.mpr ⟨fun site _ => hgroup site, hsites.imp ?_⟩
  intro site site' h a ha b hb
  rw [PointKey.compare_eq_lt_iff, hsite site a ha, hsite site' b hb]
  exact .inl h

namespace Point

theorem pairwise_ofSite (p : Program) (filter : Filter) (site : Site) :
    (ofSite p filter.enabledOperators site).Pairwise fun a b => compare a.key b.key = .lt := by
  have hoperators :=
    (Operator.pairwise_all.filter filter.includesOperator).filter (·.applies p site)
  refine List.pairwise_map.mpr (hoperators.imp ?_)
  intro a b h
  exact (PointKey.compare_eq_lt_iff _ _).mpr (.inr ⟨rfl, h⟩)

theorem site_of_mem_ofSite {p : Program} {filter : Filter} {site : Site} {point : Point}
    (h : point ∈ ofSite p filter.enabledOperators site) : point.site = site := by
  obtain ⟨op, -, -, rfl⟩ := (mem_ofSite_iff ..).mp h
  rfl

/-- The static scan finds points in order. -/
theorem pairwise_ofFunction (p : Program) (id : FuncId) (filter : Filter) :
    (ofFunction p id filter).Pairwise fun a b => compare a.key b.key = .lt := by
  unfold ofFunction
  split
  next => exact .nil
  next f _ =>
    have hsites : ((List.range f.body.length).map id.site).Pairwise
        fun a b => compare a b = .lt := by
      refine List.pairwise_map.mpr (List.pairwise_lt_range.imp ?_)
      intro i j h
      change compareLex _ _ _ _ = Ordering.lt
      simp [compareLex, compareOn, FuncId.site, Nat.compare_eq_lt.mpr h]
    rw [← List.flatMap_map id.site (ofSite p filter.enabledOperators)]
    exact pairwise_flatMap_of_sites hsites (pairwise_ofSite p filter)
      fun _ _ h => site_of_mem_ofSite h

end Point

/-! ## Testees in order -/

/-- What is at the beginning of a list in order is a prefix of it. -/
theorem filter_prefix_of_pairwise {α : Type} {R : α → α → Prop} {P : α → Bool}
    (hdown : ∀ {a b}, R a b → P b = true → P a = true) {l : List α} (h : l.Pairwise R) :
    l.filter P <+: l := by
  induction h with
  | nil => exact List.prefix_rfl
  | @cons a l hfirst _ ih =>
    cases ha : P a with
    | true =>
      rw [List.filter_cons_of_pos ha]
      exact (List.prefix_cons_inj a).mpr ih
    | false =>
      -- nothing after the first that is left out is kept
      have hnone : (a :: l).filter P = [] := by
        rw [List.filter_eq_nil_iff]
        intro b hb hP
        rcases List.mem_cons.mp hb with rfl | hb
        · rw [ha] at hP
          cases hP
        · rw [hdown (hfirst b hb) hP] at ha
          cases ha
      rw [hnone]
      exact List.nil_prefix

namespace Testee

/-- A testee comes strictly before another one by distance, and where this is the same by site and
operator. -/
def Precedes (a b : Testee) : Prop :=
  a.distance < b.distance ∨
    a.distance = b.distance ∧ compare a.point.key b.point.key = .lt

instance : Std.Asymm Precedes where
  asymm a b hab hba := by
    unfold Precedes at hab hba
    have hkeys : compare a.point.key b.point.key = .lt →
        compare b.point.key a.point.key ≠ .lt := by
      intro h h'
      rw [Std.OrientedCmp.gt_of_lt h] at h'
      cases h'
    rcases hab with hab | ⟨hab, hkey⟩
    · omega
    · rcases hba with hba | ⟨-, hkey'⟩
      · omega
      · exact hkeys hkey hkey'

/-- Of two testees with different keys, the one that is sorted before the other precedes it. -/
theorem precedes_of_before {a b : Testee} (h : before a b = true)
    (hkeys : a.point.key ≠ b.point.key) : a.Precedes b := by
  unfold before compareLex compareOn at h
  rcases Nat.lt_trichotomy a.distance b.distance with hlt | heq | hgt
  · exact .inl hlt
  · refine .inr ⟨heq, ?_⟩
    have hdistance : compare a.distance b.distance = .eq := Nat.compare_eq_eq.mpr heq
    rw [hdistance, Ordering.eq_then] at h
    cases hkey : compare a.point.key b.point.key with
    | lt => rfl
    | eq => exact absurd (Std.LawfulEqCmp.compare_eq_iff_eq.mp hkey) hkeys
    | gt => simp [hkey] at h
  · have hdistance : compare a.distance b.distance = .gt := Nat.compare_eq_gt.mpr hgt
    rw [hdistance] at h
    cases h

theorem pairwise_before (testees : List Testee) :
    (testees.mergeSort before).Pairwise fun a b => before a b = true := by
  apply List.pairwise_mergeSort
  · intro a b c hab hbc
    exact Std.TransCmp.isLE_trans hab hbc
  · intro a b
    unfold before
    cases h : compareLex (compareOn distance) (compareOn fun t => t.point.key) a b with
    | lt => rfl
    | eq => rfl
    | gt => rw [Std.OrientedCmp.lt_of_gt h, Ordering.isLE_lt, Bool.or_true]

end Testee

namespace Tracking

section Testees

variable (t : Tracking) (p : Program) (test : Test) (c : Coverage) (filter : Filter)

theorem site_of_mem_testeesAt {t : Tracking} {p : Program} {test : Test} {c : Coverage}
    {filter : Filter} {maxDistance : Nat} {site : Site} {testee : Testee}
    (h : testee ∈ t.testeesAt p test filter maxDistance c site) :
    testee.point.key.site = site := by
  unfold testeesAt at h
  split at h
  next => cases h
  next =>
    obtain ⟨point, hpoint, rfl⟩ := List.mem_map.mp h
    exact Point.site_of_mem_ofSite hpoint

theorem pairwise_testeesAt (maxDistance : Nat) (site : Site) :
    (t.testeesAt p test filter maxDistance c site).Pairwise
      fun a b => compare a.point.key b.point.key = .lt := by
  unfold testeesAt
  split
  next => exact .nil
  next => exact List.pairwise_map.mpr (Point.pairwise_ofSite p filter site)

/-- The testees of a test are in a strict order. -/
theorem pairwise_testees (maxDistance : Nat) :
    (t.testees p test filter maxDistance).testees.Pairwise Testee.Precedes := by
  unfold testees
  split
  next => exact .nil
  next c _ =>
    have hfound : (c.sites.flatMap (t.testeesAt p test filter maxDistance c)).Pairwise
        fun a b => compare a.point.key b.point.key = .lt :=
      pairwise_flatMap_of_sites Std.ExtTreeSet.ordered_toList
        (t.pairwise_testeesAt p test c filter maxDistance) fun _ _ h => site_of_mem_testeesAt h
    -- no two testees have the same key, in whatever order they are
    have hkeys : (c.sites.flatMap (t.testeesAt p test filter maxDistance c)).Pairwise
        fun a b => a.point.key ≠ b.point.key := by
      refine hfound.imp fun h hkey => ?_
      simp [hkey] at h
    have hsorted := ((List.mergeSort_perm _ Testee.before).pairwise_iff Ne.symm).mpr hkeys
    exact ((Testee.pairwise_before _).and hsorted).imp fun h => Testee.precedes_of_before h.1 h.2

end Testees

/-! ## Testees of a recorded test -/

/-- The code of a function counts for a test whose run left a record: the function is not the test
itself, unless test bodies are mutated, was entered at a depth that is not too great, and is
included. -/
structure Counts (t : Tracking) (p : Program) (test : Test) (c : Coverage) (filter : Filter)
    (maxDistance : Nat) (id : FuncId) (distance : Nat) : Prop where
  notOwn : id = test.entry → t.mutateTestBodies = true
  entered : c.distance? id = some distance
  near : distance ≤ maxDistance
  included : ∃ f, p.function? id = some f ∧ filter.includesFunction f.name = true

section Recorded

variable {t : Tracking} {p : Program} {test : Test} {c : Coverage} {filter : Filter}

/-- A test is tracked once its tracking has begun. -/
theorem isTracking_setup (t : Tracking) (test : Test) : (t.setup test).isTracking test = true :=
  Std.ExtTreeMap.contains_insert_self

/-- If a test is tracked and a record is stored for it, its testees are those that it has after a run
that left this record. -/
theorem testees_record (h : t.isTracking test = true) (maxDistance : Nat) :
    (t.record test c).testees p test filter maxDistance =
      (after { mutateTestBodies := t.mutateTestBodies, filter, maxDistance } test c).testees p test
        filter maxDistance := by
  have hrecord : (t.record test c).records[test.id]? = some c := by
    rw [isTracking, Std.ExtTreeMap.contains_eq_isSome_getElem?, Option.isSome_iff_exists] at h
    obtain ⟨old, hold⟩ := h
    unfold record
    rw [Std.ExtTreeMap.getElem?_modify_self, hold]
    rfl
  unfold testees
  rw [hrecord, getElem?_records_after]
  rfl

/-- The testees of a test with a record are the points of included operators at executed sites of
functions that count. -/
theorem mem_testees_record_iff (h : t.isTracking test = true) (maxDistance : Nat)
    (testee : Testee) :
    testee ∈ ((t.record test c).testees p test filter maxDistance).testees ↔
      ∃ (key : PointKey) (distance : Nat), c.isExecuted key.site = true ∧
        t.Counts p test c filter maxDistance key.site.funcId distance ∧
        filter.includesOperator key.operator = true ∧ key.operator.applies p key.site = true ∧
        testee = ⟨test.id, key.point p, distance⟩ := by
  rw [testees_record h]
  refine (mem_testees_after_iff p _ test c testee).trans ?_
  constructor
  · rintro ⟨key, distance, hdiscovers, hdistance, rfl⟩
    obtain ⟨distance', hdistance', hnear⟩ := hdiscovers.near
    obtain rfl : distance' = distance := Option.some.inj (hdistance'.symm.trans hdistance)
    exact ⟨key, distance', hdiscovers.executed,
      ⟨hdiscovers.notOwn, hdistance, hnear, hdiscovers.included⟩, hdiscovers.enabled,
      hdiscovers.applies, rfl⟩
  · rintro ⟨key, distance, hexecuted, hcounts, henabled, happlies, rfl⟩
    exact ⟨key, distance,
      ⟨hexecuted, hcounts.notOwn, ⟨distance, hcounts.entered, hcounts.near⟩, hcounts.included,
        henabled, happlies⟩, hcounts.entered, rfl⟩

/-- In a function that counts the testees are the points of the static scan at executed sites. -/
theorem filter_testees_record (h : t.isTracking test = true) {maxDistance : Nat} {id : FuncId}
    {distance : Nat} (hcounts : t.Counts p test c filter maxDistance id distance) :
    (((t.record test c).testees p test filter maxDistance).testees.filter
        fun testee => testee.point.site.funcId = id) =
      ((Point.ofFunction p id filter).filter fun point => c.isExecuted point.site).map
        fun point => ⟨test.id, point, distance⟩ := by
  have hscan : (((Point.ofFunction p id filter).filter fun point => c.isExecuted point.site).map
      fun point => (⟨test.id, point, distance⟩ : Testee)).Pairwise Testee.Precedes := by
    refine List.pairwise_map.mpr (((Point.pairwise_ofFunction p id filter).filter _).imp ?_)
    intro a b hkeys
    exact .inr ⟨rfl, hkeys⟩
  refine ((pairwise_testees _ p test filter maxDistance).filter _).eq_of_mem_iff hscan ?_
  intro testee
  simp only [List.mem_filter, List.mem_map, mem_testees_record_iff h, Point.mem_ofFunction_iff,
    decide_eq_true_eq]
  constructor
  · rintro ⟨⟨key, distance', hexecuted, hcounts', henabled, happlies, rfl⟩, rfl⟩
    obtain rfl : distance' = distance :=
      Option.some.inj (hcounts'.entered.symm.trans hcounts.entered)
    exact ⟨key.point p, ⟨⟨key, rfl, henabled, happlies, rfl⟩, hexecuted⟩, rfl⟩
  · rintro ⟨_, ⟨⟨key, rfl, henabled, happlies, rfl⟩, hexecuted⟩, rfl⟩
    exact ⟨⟨key, distance, hexecuted, hcounts, henabled, happlies, rfl⟩, rfl⟩

/-- With a smaller bound the testees are those that are within it. -/
theorem testees_record_eq_filter (h : t.isTracking test = true) {near far : Nat}
    (hfarther : near ≤ far) :
    ((t.record test c).testees p test filter near).testees =
      ((t.record test c).testees p test filter far).testees.filter
        fun testee => testee.distance ≤ near := by
  refine (pairwise_testees _ p test filter near).eq_of_mem_iff
    ((pairwise_testees _ p test filter far).filter _) ?_
  intro testee
  rw [List.mem_filter, mem_testees_record_iff h, mem_testees_record_iff h, decide_eq_true_eq]
  constructor
  · rintro ⟨key, distance, hexecuted, hcounts, hpoint, happlies, rfl⟩
    have hfar : t.Counts p test c filter far key.site.funcId distance :=
      { hcounts with near := Nat.le_trans hcounts.near hfarther }
    exact ⟨⟨key, distance, hexecuted, hfar, hpoint, happlies, rfl⟩, hcounts.near⟩
  · rintro ⟨⟨key, distance, hexecuted, hcounts, hpoint, happlies, rfl⟩, hnear⟩
    exact ⟨key, distance, hexecuted, { hcounts with near := hnear }, hpoint, happlies, rfl⟩

end Recorded

/-- Dynamic discovery is the static scan restricted to what ran. Let a record be stored for a test that
is tracked. Its testees are strictly ordered by distance, then by site, then by operator. In each
function that counts they are the points of the static scan whose sites the record has, with the
recorded depth of the function, and there are no others. And with a smaller bound on the distance
the first testees of the list are found. -/
theorem testees_are_scanned (t : Tracking) (p : Program) (test : Test) (c : Coverage)
    (filter : Filter) (h : t.isTracking test = true) :
    let found := fun maxDistance =>
      ((t.record test c).testees p test filter maxDistance).testees
    (∀ maxDistance, (found maxDistance).Pairwise Testee.Precedes ∧
      (∀ id distance, t.Counts p test c filter maxDistance id distance →
        ((found maxDistance).filter fun testee => testee.point.site.funcId = id) =
          ((Point.ofFunction p id filter).filter fun point => c.isExecuted point.site).map
            fun point => ⟨test.id, point, distance⟩) ∧
      ∀ testee ∈ found maxDistance,
        t.Counts p test c filter maxDistance testee.point.site.funcId testee.distance) ∧
    ∀ near far, near ≤ far → found near <+: found far := by
  intro found
  refine ⟨fun maxDistance => ⟨?_, ?_, ?_⟩, ?_⟩
  · exact pairwise_testees _ p test filter maxDistance
  · intro id distance hcounts
    exact filter_testees_record h hcounts
  · intro testee htestee
    obtain ⟨key, distance, -, hcounts, -, -, rfl⟩ :=
      (mem_testees_record_iff h maxDistance testee).mp htestee
    exact hcounts
  · intro near far hfarther
    have hnear : found near = (found far).filter fun testee => testee.distance ≤ near :=
      testees_record_eq_filter h hfarther
    rw [hnear]
    refine filter_prefix_of_pairwise ?_ (pairwise_testees _ p test filter far)
    intro a b hprecedes hb
    simp only [Testee.Precedes, decide_eq_true_eq] at hprecedes hb ⊢
    omega

/-- A program with a test of a function that calls another one. -/
def nestedProgram : Program where
  modules :=
    [⟨"lib", [⟨"double", 1, [.binary .add 0 0 0, .ret (some 0)]⟩,
        ⟨"quadruple", 1, [.call (some 0) "double" [0], .binary .add 0 0 0, .ret (some 0)]⟩]⟩,
      ⟨"tests", [⟨"test_quadruple", 0, [.const 0 1, .call (some 0) "quadruple" [0], .ret none]⟩]⟩]

/-- The test of the program. -/
def nestedTest : Test := ⟨0, "test_quadruple", ⟨1, 0⟩, none⟩

/-- A record of the test, with some code that the program does not have. -/
def nestedRecord : Coverage :=
  .ofLists [(⟨1, 0⟩, 0), (⟨0, 1⟩, 1), (⟨0, 0⟩, 2), (⟨7, 0⟩, 1)]
    [⟨1, 0, 0⟩, ⟨0, 1, 1⟩, ⟨0, 0, 0⟩, ⟨0, 1, 9⟩, ⟨7, 0, 0⟩]

/-- One addition is near the test, and another one comes after it where code may be farther away. -/
theorem nested_additions_found :
    let tracking := (start false).setup nestedTest
    let found := fun maxDistance =>
      ((tracking.record nestedTest nestedRecord).testees nestedProgram nestedTest {}
        maxDistance).testees
    tracking.isTracking nestedTest = true ∧
      ((found 1).filter fun testee => testee.point.site.funcId = ⟨0, 1⟩) =
        [⟨0, Point.create nestedProgram .addToSub ⟨0, 1, 1⟩, 1⟩] ∧
      ((found 2).filter fun testee => testee.point.site.funcId = ⟨0, 0⟩) =
        [⟨0, Point.create nestedProgram .addToSub ⟨0, 0, 0⟩, 2⟩] ∧
      found 1 <+: found 2 := by
  intro tracking found
  have htracking : tracking.isTracking nestedTest = true := isTracking_setup _ _
  obtain ⟨hfound, hprefix⟩ :=
    testees_are_scanned tracking nestedProgram nestedTest nestedRecord {} htracking
  have hnear : tracking.Counts nestedProgram nestedTest nestedRecord {} 1 ⟨0, 1⟩ 1 :=
    ⟨nofun, by decide +kernel, by decide, _, rfl, by decide⟩
  have hfar : tracking.Counts nestedProgram nestedTest nestedRecord {} 2 ⟨0, 0⟩ 2 :=
    ⟨nofun, by decide +kernel, by decide, _, rfl, by decide⟩
  refine ⟨htracking, ?_, ?_, hprefix 1 2 (by decide)⟩
  · rw [(hfound 1).2.1 _ _ hnear]
    decide +kernel
  · rw [(hfound 2).2.1 _ _ hfar]
    decide +kernel

end Tracking

end MutationTester
