import MutationTester.Decimal.Shortest

/-!
# Numbers in JSON text

A number literal is kept as it is written, because what it means depends on the field it
stands in: a counter accepts only literals without point and exponent, a ratio accepts any
literal that does not exceed the range of doubles.

The value of a literal as a double is computed in two steps. The leading digits are taken as
a 64-bit whole number for as long as they fit, and digits after that count only toward the
power of ten. Then that number is multiplied or divided by the power of ten. For numbers of
up to fifteen digits with small exponents, and so for all that is written here, this is the
nearest double.
-/

set_option autoImplicit false

namespace MutationTester.Json

/-- A number literal: its sign, the whole number before the point, the digits after the
point (none if there is no point) and the power of ten after the exponent mark. -/
structure Number where
  negative : Bool
  whole : Nat
  fraction : List (Fin 10)
  exponent : Option Int
  deriving DecidableEq

namespace Number

/-- The literal of a whole number. -/
def ofInt (n : Int) : Number := ⟨n < 0, n.natAbs, [], none⟩

/-- The whole number that a literal without point and exponent stands for. The literal `-0`
stands for none, since it is taken as a double. -/
def toInt? (n : Number) : Option Int :=
  if n.fraction.isEmpty ∧ n.exponent.isNone ∧ ¬(n.negative ∧ n.whole = 0) then
    some (if n.negative then -(n.whole : Int) else n.whole)
  else none

/-! ## The value as a double -/

/-- A number of digits read so far and the power of ten to apply to it. -/
structure Scaled where
  significand : Nat
  exponent : Int
  deriving DecidableEq

/-- Whether a number fits a 64-bit word. -/
def fitsWord (n : Nat) : Bool := n < UInt64.size

/-- Takes the digits before the point: while they fit a word they extend the significand,
and from the first that does not, each adds one to the power of ten. -/
def Scaled.addWhole (s : Scaled) : List Nat → Scaled
  | [] => s
  | d :: ds =>
    if fitsWord (s.significand * 10 + d) then addWhole { s with significand := s.significand * 10 + d } ds
    else { s with exponent := s.exponent + (d :: ds).length }

/-- Takes the digits after the point: while they fit a word they extend the significand, and
from the first that does not, all are dropped. -/
def Scaled.addFraction (s : Scaled) : List (Fin 10) → Scaled
  | [] => s
  | d :: ds =>
    if fitsWord (s.significand * 10 + d.val) then
      addFraction ⟨s.significand * 10 + d.val, s.exponent - 1⟩ ds
    else s

/-- The decimal digits of a whole number, from the highest. -/
def digitValues (n : Nat) : List Nat :=
  (Nat.toDigits 10 n).map fun c => c.toNat - '0'.toNat

/-- A power of ten as a double. -/
def powerOfTen (n : Nat) : Float := Float.ofScientific 1 false n

/-- Applies a power of ten to a double. Powers beyond the range of doubles are applied in
parts where they make the number smaller, and are refused where they make it larger. -/
def scale : Nat → Float → Int → Option Float
  | 0, _, _ => none
  | fuel + 1, x, e =>
    if e.natAbs ≤ 308 then
      if 0 ≤ e then
        let y := x * powerOfTen e.natAbs
        if y.isInf then none else some y
      else some (x / powerOfTen e.natAbs)
    else if x == 0.0 then some x
    else if 0 ≤ e then none
    else scale fuel (x / powerOfTen 308) (e + 308)

/-- The largest power of ten that is taken into account. -/
def exponentLimit : Int := Int32.maxValue.toInt

/-- The magnitude of a literal as a double, or none if it exceeds their range. -/
def magnitude? (n : Number) : Option Float :=
  let s := ((Scaled.mk 0 0).addWhole (digitValues n.whole)).addFraction n.fraction
  let written := n.exponent.getD 0
  if exponentLimit < written.natAbs then
    if s.significand ≠ 0 ∧ 0 < written then none else some 0.0
  else
    let e := max (-exponentLimit - 1) (min exponentLimit (s.exponent + written))
    scale 5 (UInt64.ofNat s.significand).toFloat (if s.significand = 0 then min e 308 else max e (-1200))

/-- The value of a literal as a double, or none if it exceeds their range. -/
def toFloat? (n : Number) : Option Float :=
  n.magnitude?.map fun x => if n.negative then -x else x

/-! ## The literal of a double -/

/-- The digit that a character stands for. -/
def digitOfChar (c : Char) : Fin 10 := Fin.ofNat 10 (c.toNat - '0'.toNat)

/-- The literal of a finite double has the fewest digits that read back as the same double.
It is written without exponent mark, and with at least one digit after the point, if its
leading digit stands between the fifth place after the point and the sixteenth before it.
The infinities and the values that are not numbers have no literal. -/
def ofFloat? (x : Float) : Option Number :=
  (Decimal.Double.ofFloat? x).map fun double =>
    let shortest := double.shortest
    let digits := shortest.digitList
    let e := shortest.leading
    if -5 ≤ e ∧ e < 0 then
      ⟨double.negative, 0, List.replicate (e.natAbs - 1) 0 ++ digits.map digitOfChar, none⟩
    else if 0 ≤ e ∧ e ≤ 15 then
      let padded := digits ++ List.replicate (e.natAbs + 2 - digits.length) '0'
      let whole := Nat.ofDigitChars 10 (padded.take (e.natAbs + 1)) 0
      ⟨double.negative, whole, (padded.drop (e.natAbs + 1)).map digitOfChar, none⟩
    else
      match digits.map digitOfChar with
      | [] => ⟨double.negative, 0, [], some e⟩
      | d :: ds => ⟨double.negative, d.val, ds, some e⟩

/-! ## The text of a literal -/

/-- The characters of a literal. -/
def render (n : Number) : List Char :=
  (if n.negative then ['-'] else []) ++ Nat.toDigits 10 n.whole ++
  (if n.fraction.isEmpty then [] else '.' :: n.fraction.map fun d => d.val.digitChar) ++
  (match n.exponent with
    | none => []
    | some e => ['e', if e < 0 then '-' else '+'] ++ Nat.toDigits 10 e.natAbs)

end Number

end MutationTester.Json
