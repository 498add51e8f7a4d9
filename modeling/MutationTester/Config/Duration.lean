import MutationTester.Decimal.Double

/-!
# Durations

A duration is a whole number of nanoseconds whose seconds fit a 64-bit word. Scaling one by a
double goes through doubles and comes back to the nearest nanosecond.
-/

set_option autoImplicit false

namespace MutationTester

/-- A length of time in nanoseconds. -/
abbrev Duration := Nat

namespace Duration

/-- The nanoseconds of a second. -/
def second : Duration := 1000000000

/-- The nanoseconds of a millisecond. -/
def millisecond : Duration := 1000000

/-- The nanoseconds of a microsecond. -/
def microsecond : Duration := 1000

/-- Durations are shorter than this. -/
def bound : Duration := UInt64.size * second

/-- A duration if it is in range. -/
def inRange? (d : Duration) : Option Duration := if d < bound then some d else none

/-- The seconds of a duration as a double: whole seconds and the fraction are converted on
their own and then added. -/
def toSeconds (d : Duration) : Float :=
  (UInt64.ofNat (d / second)).toFloat + (UInt64.ofNat (d % second)).toFloat / 1000000000.0

/-- The duration of a number of seconds, rounded to the nearest nanosecond and to the even
one of two; there is none for a negative number and none out of range. -/
def ofSeconds? (x : Float) : Option Duration := do
  let d ← Decimal.Double.ofFloat? x
  if d.negative ∧ d.significand ≠ 0 then none
  else inRange? (Decimal.roundToEven (d.numerator * second) d.denominator)

/-- A duration times a factor. -/
def scale? (d : Duration) (factor : Float) : Option Duration :=
  ofSeconds? (factor * d.toSeconds)

/-- The whole milliseconds of a duration. -/
def toMilliseconds (d : Duration) : Nat := d / millisecond

end Duration

end MutationTester
