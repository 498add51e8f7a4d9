import MutationTester.Testing.Testee

/-!
# Mutants

A mutant is a point with all testees that reach it. Assembling groups the testees by point and
adds the points that no test has reached, so the list of mutants depends on the program and
on what was reached, but not on the order in which it was found out.
-/

set_option autoImplicit false

namespace MutationTester

/-- A point and the testees that reach it. -/
structure Mutant where
  point : Point
  testees : List Testee
  deriving DecidableEq

namespace Mutant

/-- Whether the code of a function is mutated: it is selected, and is no test unless tests are
to be mutated as well. -/
def isCandidate (config : Config) (f : Func) : Bool :=
  (!f.isTest config || config.mutateTestBodies) && config.filter.includesFunction f.name

/-- All points of a program that a run looks at, reached or not. -/
def staticPoints (p : Program) (config : Config) : List Point :=
  (p.functions.filter fun entry => isCandidate config entry.2).flatMap fun entry =>
    Point.ofFunction p entry.1 config.filter

/-- Points by their keys; the first of several with one key counts. -/
def pointMap (points : List Point) : Std.ExtTreeMap PointKey Point :=
  points.foldl (fun map point => map.insertIfNew point.key point) ∅

/-- The order of the testees of one mutant: by distance, then by test. -/
def testeeBefore (a b : Testee) : Bool :=
  (compareLex (compareOn Testee.distance) (compareOn Testee.test) a b).isLE

/-- The testees of a point. -/
def testeesOf (key : PointKey) (testees : List Testee) : List Testee :=
  (testees.filter fun t => t.point.key = key).mergeSort testeeBefore

/-- The mutants of a program, in the order of their points. -/
def assemble (p : Program) (config : Config) (testees : List Testee) : List Mutant :=
  (pointMap (testees.map Testee.point ++ staticPoints p config)).toList.map
    fun (key, point) => ⟨point, testeesOf key testees⟩

end Mutant

end MutationTester
