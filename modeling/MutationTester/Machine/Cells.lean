import Std.Data.ExtTreeMap

/-!
# Rows of cells

The memory of a machine and the registers of a frame are rows of cells. A cell holds zero
until something else is written to it. Only the cells that have been written are kept, so that
a long row costs no more than a short one. A cell reads as what was written to it last
(`read_write`).
-/

set_option autoImplicit false

namespace MutationTester

/-- A row of cells. -/
structure Cells where
  size : Nat
  written : Std.ExtTreeMap Nat Int64

namespace Cells

/-- A row of zeros. -/
def zeroed (size : Nat) : Cells := ⟨size, ∅⟩

/-- The value of the cell with a number. -/
def read (c : Cells) (n : Nat) : Int64 := c.written.getD n 0

/-- Gives the cell with a number a value. -/
def write (c : Cells) (n : Nat) (v : Int64) : Cells :=
  let ⟨size, written⟩ := c
  ⟨size, written.insert n v⟩

/-- A row that begins with the given values and goes on with zeros. -/
def ofList (values : List Int64) (size : Nat) : Cells :=
  values.zipIdx.foldl (fun c entry => c.write entry.2 entry.1) (zeroed size)

/-- The number of the cell that an address names, if there is one. -/
def number? (c : Cells) (addr : Int64) : Option Nat :=
  if 0 ≤ addr.toInt ∧ addr.toInt < c.size then some addr.toInt.toNat else none

@[simp] theorem size_zeroed (size : Nat) : (zeroed size).size = size := rfl

@[simp] theorem size_write (c : Cells) (n : Nat) (v : Int64) : (c.write n v).size = c.size := rfl

@[simp] theorem read_zeroed (size n : Nat) : (zeroed size).read n = 0 := by
  simp [read, zeroed]

theorem read_write (c : Cells) (n k : Nat) (v : Int64) :
    (c.write n v).read k = if k = n then v else c.read k := by
  simp only [read, write, Std.ExtTreeMap.getD_insert, Nat.compare_eq_eq]
  simp only [eq_comm]

end Cells

end MutationTester
