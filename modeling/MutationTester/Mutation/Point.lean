import MutationTester.Program.Order
import MutationTester.Mutation.Edit
import MutationTester.Config.Filter

/-!
# Mutation points

A mutation point is a site with an operator that can be applied there. Its id is a text that
is the same in every run over the same program.
-/

set_option autoImplicit false

namespace MutationTester

/-- A site and an operator, by which a point is told from others. -/
structure PointKey where
  site : Site
  operator : Operator
  deriving DecidableEq

/-- Points are ordered by site and then by operator. -/
instance : Ord PointKey where
  compare := compareLex (compareOn PointKey.site) (compareOn PointKey.operator)

instance : Std.TransOrd PointKey :=
  inferInstanceAs
    (Std.TransCmp (compareLex (compareOn PointKey.site) (compareOn PointKey.operator)))

instance : Std.LawfulEqOrd PointKey where
  eq_of_compare {a b} h := by
    change compareLex (compareOn PointKey.site) (compareOn PointKey.operator) a b = .eq at h
    cases a
    cases b
    simpa [compareLex, compareOn, Ordering.then_eq_eq] using h

/-- A place where an operator can be applied, with the texts that a report shows for it. -/
structure Point where
  operator : Operator
  site : Site
  id : String
  function : String
  deriving DecidableEq

namespace Point

/-- The point of an operator at a site of a program. -/
def create (p : Program) (op : Operator) (site : Site) : Point :=
  let function := p.qualifiedName site.funcId
  ⟨op, site, op.name ++ "@" ++ function ++ "#" ++ site.index.repr, function⟩

/-- The site and the operator of a point. -/
def key (point : Point) : PointKey := ⟨point.site, point.operator⟩

/-- The points at a site for those of the given operators that can be applied there. -/
def ofSite (p : Program) (operators : List Operator) (site : Site) : List Point :=
  (operators.filter (·.applies p site)).map (create p · site)

/-- The points of a function for the operators that a filter selects, by index and then by
operator. -/
def ofFunction (p : Program) (id : FuncId) (filter : Filter) : List Point :=
  match p.function? id with
  | none => []
  | some f =>
    (List.range f.body.length).flatMap fun index =>
      ofSite p filter.enabledOperators (id.site index)

end Point

end MutationTester
