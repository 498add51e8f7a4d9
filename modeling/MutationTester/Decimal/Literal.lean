/-!
# Doubles from decimal text

How ratios are written by hand: an optional sign, digits with or without a point among them,
and an optional power of ten; or the words for infinity and for no number, in any case of
their letters.
-/

set_option autoImplicit false

namespace MutationTester.Decimal

/-- The double nearest to `digits · 10 ^ scale`. Powers far beyond the range of doubles are
not computed. -/
def nearest (digits : Nat) (scale : Int) : Float :=
  let leading := (Nat.toDigits 10 digits).length + scale
  if digits = 0 ∨ leading < -400 then 0.0
  else if 400 < leading then 1.0 / 0.0
  else Float.ofScientific digits (decide (scale < 0)) scale.natAbs

/-- The power of ten that characters write after its mark. -/
def power? (cs : List Char) : Option Int :=
  let (negative, ds) :=
    match cs with
    | '-' :: ds => (true, ds)
    | '+' :: ds => (false, ds)
    | ds => (false, ds)
  if ds.isEmpty || !ds.all Char.isDigit then none
  else
    let n : Int := Nat.ofDigitChars 10 ds 0
    some (if negative then -n else n)

/-- The digits after a point, if there is a point, and what follows them. -/
def fraction : List Char → List Char × List Char
  | '.' :: cs => cs.span Char.isDigit
  | cs => ([], cs)

/-- The double that digits, a point and a power of ten write. There has to be a digit before
the point or after it. -/
def magnitude? (cs : List Char) : Option Float :=
  let (whole, rest) := cs.span Char.isDigit
  let (places, rest) := fraction rest
  if whole.isEmpty && places.isEmpty then none
  else
    let scaled := fun (e : Int) => nearest (Nat.ofDigitChars 10 (whole ++ places) 0) (e - places.length)
    match rest with
    | [] => some (scaled 0)
    | c :: cs => if c = 'e' ∨ c = 'E' then (power? cs).map scaled else none

/-- The double that characters without a sign write. -/
def unsigned? (cs : List Char) : Option Float :=
  let word := String.ofList (cs.map Char.toLower)
  if word = "inf" ∨ word = "infinity" then some (1.0 / 0.0)
  else if word = "nan" then some (0.0 / 0.0)
  else magnitude? cs

/-- The double that a text writes. -/
def double? (s : String) : Option Float :=
  match s.toList with
  | '-' :: cs => (unsigned? cs).map (-·)
  | '+' :: cs => unsigned? cs
  | cs => unsigned? cs

end MutationTester.Decimal
