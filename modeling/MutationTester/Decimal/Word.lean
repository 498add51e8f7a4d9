/-!
# Words in decimal

How counts are written by hand: decimal digits, of which the first may be zeros, and one plus
sign in front if the writer likes.
-/

set_option autoImplicit false

namespace MutationTester.Decimal

/-- The 64-bit number that digits write, if there are digits only and the number is in
range. -/
def wordOfDigits? (ds : List Char) : Option Nat :=
  if !ds.isEmpty && ds.all Char.isDigit && Nat.ofDigitChars 10 ds 0 < UInt64.size then
    some (Nat.ofDigitChars 10 ds 0)
  else none

/-- The 64-bit number that characters write. -/
def wordOfChars? : List Char → Option Nat
  | '+' :: ds => wordOfDigits? ds
  | ds => wordOfDigits? ds

/-- The 64-bit number that a text writes. -/
def word? (s : String) : Option Nat := wordOfChars? s.toList

end MutationTester.Decimal
