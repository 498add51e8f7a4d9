import MutationTester.Program.Basic

/-!
# Program order

Functions and sites are ordered as they stand in the program: by module, then by function,
then by index. Both orders are linear, so maps and sets over them have one form each.
-/

set_option autoImplicit false

namespace MutationTester

/-- Functions are ordered by module and then by place. -/
instance : Ord FuncId where
  compare := compareLex (compareOn FuncId.module) (compareOn FuncId.function)

/-- Sites are ordered by module, then by function, then by index. -/
instance : Ord Site where
  compare :=
    compareLex (compareOn Site.module) (compareLex (compareOn Site.function) (compareOn Site.index))

instance : Std.TransOrd FuncId :=
  inferInstanceAs
    (Std.TransCmp (compareLex (compareOn FuncId.module) (compareOn FuncId.function)))

instance : Std.TransOrd Site :=
  inferInstanceAs
    (Std.TransCmp (compareLex (compareOn Site.module)
      (compareLex (compareOn Site.function) (compareOn Site.index))))

instance : Std.LawfulEqOrd FuncId where
  eq_of_compare {a b} h := by
    change compareLex (compareOn FuncId.module) (compareOn FuncId.function) a b = .eq at h
    cases a
    cases b
    simpa [compareLex, compareOn, Ordering.then_eq_eq] using h

instance : Std.LawfulEqOrd Site where
  eq_of_compare {a b} h := by
    change compareLex (compareOn Site.module)
      (compareLex (compareOn Site.function) (compareOn Site.index)) a b = .eq at h
    cases a
    cases b
    simpa [compareLex, compareOn, Ordering.then_eq_eq] using h

end MutationTester
