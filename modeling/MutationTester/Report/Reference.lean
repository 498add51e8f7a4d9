import MutationTester.Decimal.Word
import MutationTester.Report.Basic

/-!
# References to survivors

Readable output numbers the survivors of a report from one on and refers to them as `@m1`,
`@m2` and so on. Whoever names one may leave the sign in front away or repeat it.
-/

set_option autoImplicit false

namespace MutationTester

/-- The reference to the survivor with a number. -/
def survivorReference (number : Nat) : String := "@m" ++ number.repr

/-- The characters of a reference without the signs in front. -/
def dropSigns (reference : String) : List Char := reference.toList.dropWhile (· = '@')

/-- The number that a reference holds. -/
def referenceNumber? (reference : String) : Option Nat :=
  match dropSigns reference with
  | 'm' :: ds => Decimal.wordOfChars? ds
  | _ => none

namespace Report

/-- The survivors of a report with their numbers. -/
def numberedSurvivors (r : Report) : List (MutantResult × Nat) := r.survivors.zipIdx 1

/-- The positions of the survivors in the list of all mutants. -/
def survivorPositions (r : Report) : List Nat :=
  (r.mutants.zipIdx.filter fun entry => entry.1.status = .survived).map (·.2)

/-- The position of the mutant that a reference names. Numbers begin at one. -/
def survivorPosition? (r : Report) (reference : String) : Option Nat :=
  match referenceNumber? reference with
  | some (k + 1) => r.survivorPositions[k]?
  | _ => none

/-- The references that a report offers: one for each number up to its count of survivors. -/
def validReferences (r : Report) : List String :=
  (List.range' 1 r.survived).map survivorReference

end Report

end MutationTester
