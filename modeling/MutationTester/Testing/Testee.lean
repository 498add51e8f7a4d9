import Std.Data.ExtTreeMap
import MutationTester.Mutation.Point
import MutationTester.Testing.Test

/-!
# Testees and tracking

A testee is a mutation point that a test has reached. While a test runs on the unchanged
program it is tracked: its coverage is recorded under its id, and its testees are read off
from that record.
-/

set_option autoImplicit false

namespace MutationTester

/-- A point that a test has reached, and the least depth below the test at which the point's
function was entered. -/
structure Testee where
  test : Nat
  point : Point
  distance : Nat
  deriving DecidableEq

namespace Testee

/-- The order of the testees of one test: by distance, then by point. -/
def before (a b : Testee) : Bool :=
  (compareLex (compareOn Testee.distance) (compareOn fun t => t.point.key) a b).isLE

end Testee

/-- The testees of a test, with the function that the test begins in. -/
structure TesteeSequence where
  test : Nat
  entry : FuncId
  testees : List Testee
  deriving DecidableEq

/-- The coverage records of the tests that are tracked, by their ids. -/
structure Tracking where
  records : Std.ExtTreeMap Nat Coverage
  mutateTestBodies : Bool

namespace Tracking

/-- No test is tracked. -/
def start (mutateTestBodies : Bool) : Tracking := ⟨∅, mutateTestBodies⟩

/-- Begins to track a test, with nothing reached. -/
def setup (t : Tracking) (test : Test) : Tracking :=
  { t with records := t.records.insert test.id .empty }

/-- Stops tracking a test. -/
def cleanup (t : Tracking) (test : Test) : Tracking :=
  { t with records := t.records.erase test.id }

/-- Replaces the record of a test that is tracked. -/
def record (t : Tracking) (test : Test) (c : Coverage) : Tracking :=
  { t with records := t.records.modify test.id fun _ => c }

/-- Whether a test is tracked. -/
def isTracking (t : Tracking) (test : Test) : Bool := t.records.contains test.id

/-- The least depth of the function of a site that can be mutated for a test: it is not the
test itself, was entered at a depth that is not too great, and is selected. -/
def distanceWithin? (t : Tracking) (p : Program) (test : Test) (filter : Filter)
    (maxDistance : Nat) (c : Coverage) (f : FuncId) : Option Nat := do
  if f = test.entry ∧ ¬t.mutateTestBodies then none
  else
    let distance ← c.distance? f
    let function ← p.function? f
    if distance ≤ maxDistance ∧ filter.includesFunction function.name then some distance else none

/-- The testees of a test at one executed site. -/
def testeesAt (t : Tracking) (p : Program) (test : Test) (filter : Filter) (maxDistance : Nat)
    (c : Coverage) (site : Site) : List Testee :=
  match t.distanceWithin? p test filter maxDistance c site.funcId with
  | none => []
  | some distance =>
    (Point.ofSite p filter.enabledOperators site).map fun point => ⟨test.id, point, distance⟩

/-- The testees of a test by distance and then by point. A test that is not tracked has none. -/
def testees (t : Tracking) (p : Program) (test : Test) (filter : Filter) (maxDistance : Nat) :
    TesteeSequence where
  test := test.id
  entry := test.entry
  testees :=
    match t.records[test.id]? with
    | none => []
    | some c =>
      (c.sites.flatMap (t.testeesAt p test filter maxDistance c)).mergeSort Testee.before

end Tracking

end MutationTester
