import Std.Data.ExtTreeMap
import Std.Data.ExtTreeSet
import MutationTester.Program.Order

/-!
# Coverage

What a run has reached: for each function entered the least call depth at which it was, and
the set of sites executed. Two records are equal exactly if they say the same, however they
came about.
-/

set_option autoImplicit false

namespace MutationTester

/-- What a run has reached. The depth of the function that the run began in is zero. -/
structure Coverage where
  depths : Std.ExtTreeMap FuncId Nat
  executed : Std.ExtTreeSet Site

namespace Coverage

/-- Nothing reached. -/
def empty : Coverage := ⟨∅, ∅⟩

instance : Inhabited Coverage := ⟨empty⟩

/-- Records that a function was entered at a call depth; the least depth is kept. -/
def enter (c : Coverage) (f : FuncId) (depth : Nat) : Coverage :=
  { c with depths := c.depths.alter f fun
      | some least => some (min least depth)
      | none => some depth }

/-- Records that an instruction was executed. -/
def hit (c : Coverage) (s : Site) : Coverage :=
  { c with executed := c.executed.insert s }

/-- The least call depth at which a function was entered, if it was. -/
def distance? (c : Coverage) (f : FuncId) : Option Nat := c.depths[f]?

/-- Whether an instruction was executed. -/
def isExecuted (c : Coverage) (s : Site) : Bool := c.executed.contains s

/-- The sites executed, in program order. -/
def sites (c : Coverage) : List Site := c.executed.toList

/-- The functions entered with their least depths, in program order. -/
def entries (c : Coverage) : List (FuncId × Nat) := c.depths.toList

/-- The number of functions entered. -/
def reached (c : Coverage) : Nat := c.depths.size

/-- The record of a list of entries and a list of executed sites, in any order and with any
repetitions. -/
def ofLists (entries : List (FuncId × Nat)) (sites : List Site) : Coverage :=
  sites.foldl hit (entries.foldl (fun c entry => c.enter entry.1 entry.2) empty)

end Coverage

end MutationTester
