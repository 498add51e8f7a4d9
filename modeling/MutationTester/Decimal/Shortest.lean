import MutationTester.Decimal.Double

/-!
# The shortest decimal of a double

Of all decimals that lie nearer to a double than to any other, `shortest` finds one with the
fewest digits and, among those, the nearest. The reals that round to a double form an
interval around it, whose ends belong to it exactly if the significand is even. If a decimal
with a given number of digits lies in the interval, then so does one of the two such
decimals that are next to the double itself, so only those two are tried for each number of
digits.
-/

set_option autoImplicit false

namespace MutationTester.Decimal

/-- The decimal `digits · 10 ^ scale`. -/
structure Numeral where
  digits : Nat
  scale : Int
  deriving DecidableEq

namespace Numeral

/-- The numerator of a decimal as a fraction of whole numbers. -/
def numerator (d : Numeral) : Nat := d.digits * Nat.pow 10 d.scale.toNat

/-- The denominator of a decimal as a fraction of whole numbers. -/
def denominator (d : Numeral) : Nat := Nat.pow 10 (-d.scale).toNat

/-- The decimal digits of the whole number that the scale is applied to. -/
def digitList (d : Numeral) : List Char := Nat.toDigits 10 d.digits

/-- The power of ten of the leading digit. -/
def leading (d : Numeral) : Int := d.scale + d.digitList.length - 1

/-- The same number without zeros at the end of its digits; at most `fuel` are dropped. -/
def trim : Nat → Numeral → Numeral
  | 0, d => d
  | fuel + 1, d =>
    if d.digits ≠ 0 ∧ d.digits % 10 = 0 then trim fuel ⟨d.digits / 10, d.scale + 1⟩ else d

end Numeral

/-- Half of the distance from a double to its neighbours, as the interval of reals that
round to it: `low` and `high` are its ends in units of `2 ^ (exponent - 2)`, in which the
double itself is four times its significand. The double below a power of two is nearer than
the one above it. -/
structure Rounding where
  low : Nat
  high : Nat
  closed : Bool
  deriving DecidableEq

/-- The interval of reals that round to a double. -/
def Double.rounding (d : Double) : Rounding where
  low := 4 * d.significand - (if d.significand = Double.leadingBit ∧ -1074 < d.exponent then 1 else 2)
  high := 4 * d.significand + 2
  closed := d.significand % 2 = 0

/-- A decimal and a number of quarter units of a double, brought to a common denominator. -/
def commonUnits (d : Double) (c : Numeral) (quarters : Nat) : Nat × Nat :=
  let quarter := d.exponent - 2
  (c.numerator * Nat.pow 2 (-quarter).toNat, quarters * Nat.pow 2 quarter.toNat * c.denominator)

/-- Whether a decimal rounds to a double. -/
def Double.covers (d : Double) (c : Numeral) : Bool :=
  let r := d.rounding
  let (atLow, low) := commonUnits d c r.low
  let (atHigh, high) := commonUnits d c r.high
  if r.closed then low ≤ atLow && atHigh ≤ high else low < atLow && atHigh < high

/-- The distance of a decimal from a double, in units common to all decimals of one scale. -/
def Double.distance (d : Double) (c : Numeral) : Nat :=
  let (x, y) := commonUnits d c (4 * d.significand)
  (x - y) + (y - x)

/-- The first number of places, from the given one on, by which a fraction has to be shifted
to reach one; at most `fuel` are tried. -/
def placesToOne (numerator denominator : Nat) : Nat → Nat → Nat
  | 0, places => places
  | fuel + 1, places =>
    if denominator ≤ numerator * Nat.pow 10 places then places
    else placesToOne numerator denominator fuel (places + 1)

/-- The power of ten of the leading digit of a positive fraction. The least positive double
is above `10 ^ -324`. -/
def leadingPower (numerator denominator : Nat) : Int :=
  if denominator ≤ numerator then
    (Nat.toDigits 10 (numerator / denominator)).length - 1
  else
    -(placesToOne numerator denominator 324 1 : Int)

/-- The two decimals of a scale that are next to a double, the lower one first. -/
def Double.neighbours (d : Double) (scale : Int) : Numeral × Numeral :=
  let floor := d.numerator * Nat.pow 10 (-scale).toNat / (d.denominator * Nat.pow 10 scale.toNat)
  (⟨floor, scale⟩, ⟨floor + 1, scale⟩)

/-- The decimal of a scale that rounds to the double, if there is one; of two the nearer,
and of two that are equally near the even one. -/
def Double.onScale? (d : Double) (scale : Int) : Option Numeral :=
  let (below, above) := d.neighbours scale
  match d.covers below, d.covers above with
  | true, true =>
    if d.distance below < d.distance above then some below
    else if d.distance above < d.distance below then some above
    else if below.digits % 2 = 0 then some below
    else some above
  | true, false => some below
  | false, true => some above
  | false, false => none

/-- The shortest decimal that rounds to the double. Seventeen digits always suffice. -/
def Double.shortest (d : Double) : Numeral :=
  if d.significand = 0 then ⟨0, 0⟩
  else
    let top := leadingPower d.numerator d.denominator
    let found := (List.range 17).findSome? fun (n : Nat) => d.onScale? (top - n)
    match found with
    | some c => c.trim 400
    | none => ⟨d.significand, 0⟩

end MutationTester.Decimal
