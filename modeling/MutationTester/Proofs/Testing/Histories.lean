import MutationTester.Proofs.Testing.Scanning
import Mathlib.Data.List.Induction

/-!
# Histories of tracking

A worker sets tests up to be tracked, cleans them up, makes records for them, and opens scopes, which
do all three for one test. What an operation does to the record of an id is known from the operation
if it is on that id, and is nothing otherwise (`getElem?_records_perform`). So after any history the
record of an id is the last one made since its last setup (`getElem?_records_of_setup`), and there is
none if tracking has ended since (`getElem?_records_of_end`). What else has happened makes no
difference (`tests_do_not_interfere`).
-/

set_option autoImplicit false

namespace MutationTester

namespace Tracking

/-- What can be done with tracking records. A scope has the records to itself for as long as it is
open, so nothing comes between its setup, the coverages that are recorded in it, and its end. -/
inductive Operation
  | setup (test : Test)
  | cleanup (test : Test)
  | record (test : Test) (c : Coverage)
  | scope (test : Test) (inside : List Coverage)

namespace Operation

/-- The test that an operation is on. -/
def test : Operation → Test
  | setup test => test
  | cleanup test => test
  | record test _ => test
  | scope test _ => test

/-- Whether an operation is on a test with this id. -/
def isOn (id : Nat) (op : Operation) : Bool := op.test.id = id

/-- Whether an operation begins or ends tracking, so that what was recorded before no longer
counts. -/
def isMark : Operation → Bool
  | record .. => false
  | _ => true

def isSetup : Operation → Bool
  | setup _ => true
  | _ => false

/-- The coverage that is recorded, unless it is gone with the scope that it was recorded in. -/
def recorded? : Operation → Option Coverage
  | record _ c => some c
  | _ => none

end Operation

/-- The records in an open scope, in which some coverages have been recorded so far. -/
def inScope (t : Tracking) (test : Test) (inside : List Coverage) : Tracking :=
  inside.foldl (fun t c => t.record test c) (t.setup test)

/-- The records after an operation. -/
def perform (t : Tracking) : Operation → Tracking
  | .setup test => t.setup test
  | .cleanup test => t.cleanup test
  | .record test c => t.record test c
  | .scope test inside => (t.inScope test inside).cleanup test

/-- The records after a history. -/
def performAll (t : Tracking) (ops : List Operation) : Tracking := ops.foldl perform t

/-- The last setup, cleanup or scope in a history that is on an id. -/
def lastMark? (id : Nat) (ops : List Operation) : Option Operation :=
  ops.findRev? fun op => op.isOn id && op.isMark

/-- The last coverage in a history that is recorded for an id. -/
def lastRecord? (id : Nat) (ops : List Operation) : Option Coverage :=
  ((ops.filter (·.isOn id)).filterMap Operation.recorded?).getLast?

/-- A single test is tracked, with a coverage. -/
def only (mutateTestBodies : Bool) (test : Test) (c : Coverage) : Tracking :=
  ((start mutateTestBodies).setup test).record test c

/-! ## What operations do to a record -/

section Records

variable (t : Tracking) (id : Nat)

theorem getElem?_records_setup (test : Test) :
    (t.setup test).records[id]? = if test.id = id then some .empty else t.records[id]? := by
  unfold setup
  rw [Std.ExtTreeMap.getElem?_insert]
  simp only [Std.LawfulEqCmp.compare_eq_iff_eq]

theorem getElem?_records_cleanup (test : Test) :
    (t.cleanup test).records[id]? = if test.id = id then none else t.records[id]? := by
  unfold cleanup
  rw [Std.ExtTreeMap.getElem?_erase]
  simp only [Std.LawfulEqCmp.compare_eq_iff_eq]

theorem getElem?_records_record (test : Test) (c : Coverage) :
    (t.record test c).records[id]? =
      if test.id = id then t.records[id]?.map fun _ => c else t.records[id]? := by
  unfold record
  rw [Std.ExtTreeMap.getElem?_modify]
  simp only [Std.LawfulEqCmp.compare_eq_iff_eq]
  split
  next h => rw [h]
  next => rfl

/-- In a scope its test is tracked, with what was recorded last, and the records of other tests are
as they were. -/
theorem getElem?_records_inScope (test : Test) (inside : List Coverage) :
    (t.inScope test inside).records[id]? =
      if test.id = id then some (inside.getLast?.getD .empty) else t.records[id]? := by
  unfold inScope
  induction inside using List.reverseRecOn with
  | nil => exact t.getElem?_records_setup id test
  | append_singleton inside c ih =>
    rw [List.foldl_append, List.foldl_cons, List.foldl_nil, getElem?_records_record, ih]
    split
    · simp
    · rfl

/-- What an operation makes of a record that it is on. -/
def Operation.effect : Operation → Option Coverage → Option Coverage
  | setup _, _ => some .empty
  | cleanup _, _ => none
  | record _ c, r => r.map fun _ => c
  | scope _ _, _ => none

theorem getElem?_records_perform (op : Operation) :
    (t.perform op).records[id]? =
      if op.isOn id then op.effect t.records[id]? else t.records[id]? := by
  simp only [Operation.isOn, decide_eq_true_eq]
  cases op with
  | setup test => exact t.getElem?_records_setup id test
  | cleanup test => exact t.getElem?_records_cleanup id test
  | record test c => exact t.getElem?_records_record id test c
  | scope test inside =>
    show ((t.inScope test inside).cleanup test).records[id]? = _
    rw [getElem?_records_cleanup, getElem?_records_inScope]
    show _ = if test.id = id then none else t.records[id]?
    split
    · rfl
    · rfl

theorem mutateTestBodies_inScope (test : Test) (inside : List Coverage) :
    (t.inScope test inside).mutateTestBodies = t.mutateTestBodies := by
  unfold inScope
  induction inside using List.reverseRecOn with
  | nil => rfl
  | append_singleton inside c ih =>
    rw [List.foldl_append]
    exact ih

/-- Whether tests are mutated is settled from the start. -/
theorem mutateTestBodies_performAll (ops : List Operation) :
    (t.performAll ops).mutateTestBodies = t.mutateTestBodies := by
  unfold performAll
  induction ops using List.reverseRecOn with
  | nil => rfl
  | append_singleton ops op ih =>
    rw [List.foldl_append, List.foldl_cons, List.foldl_nil, ← ih]
    cases op with
    | scope test inside => exact mutateTestBodies_inScope _ test inside
    | _ => rfl

end Records

/-! ## What histories do to a record -/

section Histories

variable {t : Tracking} {id : Nat} {ops : List Operation}

theorem performAll_append (t : Tracking) (ops others : List Operation) :
    t.performAll (ops ++ others) = (t.performAll ops).performAll others :=
  List.foldl_append

/-- Operations on other ids leave a record as it is. -/
theorem getElem?_records_performAll (t : Tracking) (id : Nat) (ops : List Operation) :
    (t.performAll ops).records[id]? =
      (ops.filter (·.isOn id)).foldl (fun r op => op.effect r) t.records[id]? := by
  induction ops generalizing t with
  | nil => rfl
  | cons op ops ih =>
    show ((t.perform op).performAll ops).records[id]? = _
    rw [ih, getElem?_records_perform, List.filter_cons]
    split
    · rfl
    · rfl

theorem lastMark?_eq_none_iff :
    lastMark? id ops = none ↔ ∀ op ∈ ops, op.isOn id = true → op.isMark = false := by
  unfold lastMark?
  simp [List.findRev?_eq_find?_reverse]

theorem lastMark?_eq_some_iff {op : Operation} :
    lastMark? id ops = some op ↔ op.isOn id = true ∧ op.isMark = true ∧
      ∃ before after, ops = before ++ op :: after ∧ lastMark? id after = none := by
  have hnone (after : List Operation) :
      (∀ a ∈ after.reverse, (!(a.isOn id && a.isMark)) = true) ↔ lastMark? id after = none := by
    simp [lastMark?_eq_none_iff, or_iff_not_imp_left]
  unfold lastMark?
  rw [List.findRev?_eq_find?_reverse, List.find?_eq_some_iff_append, Bool.and_eq_true, and_assoc]
  refine and_congr_right fun _ => and_congr_right fun _ => ?_
  constructor
  · rintro ⟨after, before, hops, hafter⟩
    refine ⟨before.reverse, after.reverse, ?_, ?_⟩
    · rw [← List.reverse_reverse ops, hops]
      simp
    · exact (hnone _).mp (by rwa [List.reverse_reverse])
  · rintro ⟨before, after, rfl, hafter⟩
    exact ⟨after.reverse, before.reverse, by simp, (hnone after).mpr hafter⟩

theorem lastRecord?_append_singleton (id : Nat) (ops : List Operation) (op : Operation) :
    lastRecord? id (ops ++ [op]) =
      if op.isOn id then op.recorded?.or (lastRecord? id ops) else lastRecord? id ops := by
  unfold lastRecord?
  rw [List.filter_append, List.filterMap_append, List.getLast?_append]
  by_cases hon : op.isOn id = true
  · cases hrecorded : op.recorded? <;> simp [hon, hrecorded]
  · simp [hon]

/-- As long as tracking neither begins nor ends, a test that is tracked has the record that was made
last. -/
theorem getElem?_records_of_unmarked (h : lastMark? id ops = none) :
    (t.performAll ops).records[id]? =
      t.records[id]?.map fun c => (lastRecord? id ops).getD c := by
  induction ops using List.reverseRecOn with
  | nil => simp [performAll, lastRecord?]
  | append_singleton ops op ih =>
    rw [lastMark?_eq_none_iff] at h
    have hbefore : lastMark? id ops = none :=
      lastMark?_eq_none_iff.mpr fun op hop => h op (List.mem_append_left _ hop)
    have hlast := h op (List.mem_append_right _ List.mem_cons_self)
    rw [performAll_append]
    show ((t.performAll ops).perform op).records[id]? = _
    rw [getElem?_records_perform, lastRecord?_append_singleton, ih hbefore]
    split
    next hon =>
      cases op with
      | record test c => simp [Operation.effect, Operation.recorded?, Function.comp_def]
      | _ => cases hlast hon
    next => rfl

/-- Since its last setup, a test has the record that was made last, or none yet. -/
theorem getElem?_records_of_setup {before after : List Operation} {opener : Test}
    (hopener : opener.id = id) (hafter : lastMark? id after = none) :
    (t.performAll (before ++ .setup opener :: after)).records[id]? =
      some ((lastRecord? id after).getD .empty) := by
  rw [performAll_append]
  show (((t.performAll before).setup opener).performAll after).records[id]? = _
  rw [getElem?_records_of_unmarked hafter, getElem?_records_setup, if_pos hopener]
  rfl

/-- Once tracking has ended, there is no record until the next setup. -/
theorem getElem?_records_of_end {before after : List Operation} {op : Operation}
    (hon : op.isOn id = true) (hmark : op.isMark = true) (hend : op.isSetup = false)
    (hafter : lastMark? id after = none) :
    (t.performAll (before ++ op :: after)).records[id]? = none := by
  rw [performAll_append]
  show (((t.performAll before).perform op).performAll after).records[id]? = _
  rw [getElem?_records_of_unmarked hafter, getElem?_records_perform, if_pos hon]
  cases op with
  | setup test => cases hend
  | record test c => cases hmark
  | cleanup test => rfl
  | scope test inside => rfl

theorem isTracking_eq_isSome (t : Tracking) (test : Test) :
    t.isTracking test = t.records[test.id]?.isSome := by
  unfold isTracking
  exact Std.ExtTreeMap.contains_eq_isSome_getElem?

/-- A test is tracked exactly if the last mark on its id is a setup. -/
theorem isTracking_performAll_iff (t : Tracking) (ops : List Operation) (test : Test) :
    (t.performAll ops).isTracking test = true ↔
      match lastMark? test.id ops with
      | some op => op.isSetup = true
      | none => t.isTracking test = true := by
  rw [isTracking_eq_isSome, isTracking_eq_isSome]
  cases hlast : lastMark? test.id ops with
  | none =>
    rw [getElem?_records_of_unmarked hlast, Option.isSome_map]
  | some op =>
    obtain ⟨hon, hmark, before, after, rfl, hafter⟩ := lastMark?_eq_some_iff.mp hlast
    dsimp only
    cases hsetup : op.isSetup with
    | false =>
      rw [getElem?_records_of_end hon hmark hsetup hafter]
      rfl
    | true =>
      cases op with
      | setup opener =>
        have hopener : opener.id = test.id := of_decide_eq_true hon
        rw [getElem?_records_of_setup hopener hafter]
        exact iff_of_true rfl rfl
      | _ => cases hsetup

end Histories

/-! ## What can be asked -/

/-- The testees of a test depend on nothing but its own record. -/
theorem testees_congr {t t' : Tracking} {test : Test}
    (hbodies : t.mutateTestBodies = t'.mutateTestBodies)
    (hrecord : t.records[test.id]? = t'.records[test.id]?) (p : Program) (filter : Filter)
    (maxDistance : Nat) :
    t.testees p test filter maxDistance = t'.testees p test filter maxDistance := by
  have hwithin : t.distanceWithin? p test filter maxDistance =
      t'.distanceWithin? p test filter maxDistance := by
    unfold distanceWithin?
    rw [hbodies]
  have hat : t.testeesAt p test filter maxDistance = t'.testeesAt p test filter maxDistance := by
    unfold testeesAt
    rw [hwithin]
  unfold testees
  rw [hrecord, hat]

/-- A tracked test has the testees of its record. -/
theorem testees_eq_only {t : Tracking} {test : Test} {mutateTestBodies : Bool} {c : Coverage}
    (hbodies : t.mutateTestBodies = mutateTestBodies) (hrecord : t.records[test.id]? = some c)
    (p : Program) (filter : Filter) (maxDistance : Nat) :
    t.testees p test filter maxDistance =
      (only mutateTestBodies test c).testees p test filter maxDistance := by
  have honly : t.mutateTestBodies = (only mutateTestBodies test c).mutateTestBodies := hbodies
  refine testees_congr honly ?_ p filter maxDistance
  unfold only
  rw [hrecord, getElem?_records_record, if_pos rfl, getElem?_records_setup, if_pos rfl]
  rfl

/-- A test that is not tracked has no testees, and no record can be made for it. -/
theorem untracked {t : Tracking} {test : Test} (h : t.isTracking test = false) (p : Program)
    (filter : Filter) (maxDistance : Nat) (c : Coverage) :
    t.testees p test filter maxDistance = ⟨test.id, test.entry, []⟩ ∧ t.record test c = t := by
  have hnone : t.records[test.id]? = none := by
    rwa [isTracking_eq_isSome, Option.isSome_eq_false_iff, Option.isNone_iff_eq_none] at h
  constructor
  · unfold testees
    rw [hnone]
  · have hrecords : (t.record test c).records = t.records := by
      apply Std.ExtTreeMap.ext_getElem?
      intro id
      rw [getElem?_records_record]
      split
      next hid =>
        rw [← hid, hnone]
        rfl
      next => rfl
    exact congrArg (Tracking.mk · t.mutateTestBodies) hrecords

/-- The records of different tests do not interfere. After any history a test is tracked exactly if the
last setup, cleanup or scope on its id was a setup. Its testees are those of the coverage that was
recorded for its id last, or of no coverage if there has been none since that setup; if there has been
no setup either, what it had before counts. If it is not tracked it has no testees, and a record for it
changes nothing. Histories with the same operations on its id have the same answers. In a scope the
test is tracked with what was recorded there last; after the scope it is not tracked, and all other
records are as they were before. -/
theorem tests_do_not_interfere (t : Tracking) (ops : List Operation) (test : Test) (p : Program)
    (filter : Filter) (maxDistance : Nat) :
    let testees := fun t : Tracking => t.testees p test filter maxDistance
    let testeesOf := fun c => testees (only t.mutateTestBodies test c)
    let after := t.performAll ops
    (after.isTracking test = true ↔
        match lastMark? test.id ops with
        | some op => op.isSetup = true
        | none => t.isTracking test = true) ∧
      (∀ before opener since, ops = before ++ .setup opener :: since → opener.id = test.id →
        lastMark? test.id since = none →
          testees after = testeesOf ((lastRecord? test.id since).getD .empty)) ∧
      (∀ c, t.records[test.id]? = some c → lastMark? test.id ops = none →
        testees after = testeesOf ((lastRecord? test.id ops).getD c)) ∧
      (after.isTracking test = false →
        testees after = ⟨test.id, test.entry, []⟩ ∧ ∀ c, after.record test c = after) ∧
      (∀ ops', ops.filter (·.isOn test.id) = ops'.filter (·.isOn test.id) →
        after.isTracking test = (t.performAll ops').isTracking test ∧
          testees after = testees (t.performAll ops')) ∧
      ∀ inside, (after.inScope test inside).isTracking test = true ∧
        testees (after.inScope test inside) = testeesOf (inside.getLast?.getD .empty) ∧
        (after.perform (.scope test inside)).isTracking test = false ∧
        ∀ id ≠ test.id, (after.perform (.scope test inside)).records[id]? = after.records[id]? := by
  intro testees testeesOf after
  have hbodies : after.mutateTestBodies = t.mutateTestBodies := t.mutateTestBodies_performAll ops
  refine ⟨t.isTracking_performAll_iff ops test, ?_, ?_, ?_, ?_, ?_⟩
  · rintro before opener since rfl hopener hsince
    have hrecord : after.records[test.id]? = some ((lastRecord? test.id since).getD .empty) :=
      getElem?_records_of_setup hopener hsince
    exact testees_eq_only hbodies hrecord p filter maxDistance
  · intro c hc hunmarked
    have hrecord : after.records[test.id]? = some ((lastRecord? test.id ops).getD c) := by
      rw [getElem?_records_of_unmarked hunmarked, hc, Option.map_some]
    exact testees_eq_only hbodies hrecord p filter maxDistance
  · intro huntracked
    obtain ⟨hnone, -⟩ := untracked huntracked p filter maxDistance .empty
    exact ⟨hnone, fun c => (untracked huntracked p filter maxDistance c).2⟩
  · intro ops' hsame
    have hrecord : after.records[test.id]? = (t.performAll ops').records[test.id]? := by
      rw [getElem?_records_performAll, getElem?_records_performAll, hsame]
    constructor
    · rw [isTracking_eq_isSome, isTracking_eq_isSome, hrecord]
    · have hbodies' := t.mutateTestBodies_performAll ops'
      exact testees_congr (hbodies.trans hbodies'.symm) hrecord p filter maxDistance
  · intro inside
    have hrecord : (after.inScope test inside).records[test.id]? =
        some (inside.getLast?.getD .empty) := by
      rw [getElem?_records_inScope, if_pos rfl]
    refine ⟨?_, ?_, ?_, ?_⟩
    · rw [isTracking_eq_isSome, hrecord]
      rfl
    · have hscope : (after.inScope test inside).mutateTestBodies = t.mutateTestBodies :=
        (after.mutateTestBodies_inScope test inside).trans hbodies
      exact testees_eq_only hscope hrecord p filter maxDistance
    · have hon : Operation.isOn test.id (.scope test inside) = true := decide_eq_true rfl
      rw [isTracking_eq_isSome, getElem?_records_perform, if_pos hon]
      rfl
    · intro id hid
      have hother : ¬Operation.isOn id (.scope test inside) = true :=
        fun hon => hid (of_decide_eq_true hon).symm
      rw [getElem?_records_perform, if_neg hother]

/-- Another test of the same program. -/
def otherTest : Test := ⟨1, "test_double", ⟨1, 1⟩, none⟩

/-- Two tests are tracked. One has two records made for it; the other comes to its end in a scope, and a
record is made for it too late. -/
def mixedHistory : List Operation :=
  [.setup nestedTest, .record nestedTest .empty, .setup otherTest, .record nestedTest nestedRecord,
    .scope otherTest [nestedRecord], .record otherTest nestedRecord]

/-- The first test has the testees of its second record. The other has none. -/
theorem late_record_is_lost :
    let after := (start false).performAll mixedHistory
    (after.isTracking nestedTest = true ∧
        (after.testees nestedProgram nestedTest {} 1).testees =
          [⟨0, Point.create nestedProgram .addToSub ⟨0, 1, 1⟩, 1⟩]) ∧
      after.isTracking otherTest = false ∧
      (after.testees nestedProgram otherTest {} 1).testees = [] := by
  intro after
  obtain ⟨htracked, htestees, -⟩ :=
    tests_do_not_interfere (start false) mixedHistory nestedTest nestedProgram {} 1
  obtain ⟨hother, -, -, huntracked, -⟩ :=
    tests_do_not_interfere (start false) mixedHistory otherTest nestedProgram {} 1
  have hended : after.isTracking otherTest = false :=
    Bool.eq_false_iff.mpr fun h => Bool.false_ne_true (hother.mp h)
  refine ⟨⟨htracked.mpr rfl, ?_⟩, hended, ?_⟩
  · have hlast := htestees [] nestedTest _ rfl rfl rfl
    exact (congrArg TesteeSequence.testees hlast).trans (by decide +kernel)
  · exact congrArg TesteeSequence.testees (huntracked hended).1

end Tracking

end MutationTester
