/-!
# Finite doubles as exact numbers

A finite double is a sign, a whole number and a power of two. Everything that prints a
double, or rounds one to a whole number of units, works on this exact form.
-/

set_option autoImplicit false

namespace MutationTester.Decimal

/-- The number `significand · 2 ^ exponent`, with a sign that zero has as well. -/
structure Double where
  negative : Bool
  significand : Nat
  exponent : Int
  deriving DecidableEq

namespace Double

/-- The value of the leading bit of a significand, `2 ^ 52`. It is not stored, and is left out
only in doubles of the least exponent. -/
def leadingBit : Nat := 4503599627370496

/-- The exact form of a finite double; the infinities and the values that are not numbers
have none. The bits of a double are its sign, eleven bits of an exponent that is shifted to be
no negative number, and the significand without its leading bit. -/
def ofFloat? (x : Float) : Option Double :=
  let bits := x.toBits.toNat
  let negative := bits.testBit 63
  let shifted := bits / leadingBit % 2048
  let stored := bits % leadingBit
  if shifted = 2047 then none
  else if shifted = 0 then some ⟨negative, stored, -1074⟩
  else some ⟨negative, stored + leadingBit, (shifted : Int) - 1075⟩

/-- The numerator of the magnitude as a fraction of whole numbers. -/
def numerator (d : Double) : Nat := d.significand * Nat.pow 2 d.exponent.toNat

/-- The denominator of the magnitude as a fraction of whole numbers. -/
def denominator (d : Double) : Nat := Nat.pow 2 (-d.exponent).toNat

end Double

/-- The whole number nearest to a fraction; of two that are equally near, the even one. -/
def roundToEven (numerator denominator : Nat) : Nat :=
  let quotient := numerator / denominator
  let rest := numerator % denominator
  if 2 * rest < denominator then quotient
  else if denominator < 2 * rest then quotient + 1
  else if quotient % 2 = 0 then quotient
  else quotient + 1

end MutationTester.Decimal
