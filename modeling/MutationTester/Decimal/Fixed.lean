import MutationTester.Decimal.Double

/-!
# Doubles with a fixed number of decimal places

The exact value is rounded, and a value half way between two goes to the one whose last
digit is even.
-/

set_option autoImplicit false

namespace MutationTester.Decimal

/-- The digits of a number of hundredths, thousandths and so on, with the point put before
the last `places` of them. -/
def placePoint (places units : Nat) : String :=
  if places = 0 then units.repr
  else
    let digits := (units % Nat.pow 10 places).repr
    (units / Nat.pow 10 places).repr ++ "." ++ "".pushn '0' (places - digits.length) ++ digits

/-- The text of a double with the given number of places. A minus sign is kept even where
all digits shown are zero. -/
def fixed (places : Nat) (x : Float) : String :=
  match Double.ofFloat? x with
  | some d =>
    let units := roundToEven (d.numerator * Nat.pow 10 places) d.denominator
    (if d.negative then "-" else "") ++ placePoint places units
  | none =>
    if x.isNaN then "NaN" else if x < 0 then "-inf" else "inf"

end MutationTester.Decimal
