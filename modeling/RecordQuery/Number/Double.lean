import RecordQuery.Number.Power

/-!
# Finite doubles

A finite binary64 number is a whole multiple of `2 ^ (-1074)`, the smallest positive one. So it is
kept as a sign and a natural number of such *units*, and all arithmetic is exact arithmetic on
natural numbers followed by one rounding, `roundUnits`, to the nearest number of units that a
53-bit significand can hold, a tie going to the even significand. Nothing here depends on the
machine's floating point.
-/

namespace RecordQuery

/-- A finite double: `± units * 2 ^ (-1074)`. The two zeros are kept apart. -/
structure Double where
  negative : Bool
  units : Nat
deriving DecidableEq, Repr

namespace Double

/-- One is this many units. -/
def unitsPerOne : Nat := twoTo 1074

/-- The exponent of the spacing of doubles around a number of units. -/
def spacingExponent (units : Nat) : Nat := Nat.log2 units - 52

/-- The whole number nearest to `num / den`, a tie going to the even one. -/
def roundHalfEven (num den : Nat) : Nat :=
  let quotient := num / den
  let twice := 2 * (num % den)
  if twice < den then quotient
  else if den < twice then quotient + 1
  else quotient + quotient % 2

/-- The double nearest to `num / den` units: the quotient is rounded to a multiple of the spacing
that its size calls for. -/
def roundUnits (num den : Nat) : Nat :=
  let spacing := twoTo (spacingExponent (num / den))
  roundHalfEven num (den * spacing) * spacing

/-- The double nearest to `± num / den`, if it is finite. -/
def ofRatio? (negative : Bool) (num den : Nat) : Option Double :=
  let units := roundUnits (num * unitsPerOne) den
  if units < twoTo 2098 then some ⟨negative, units⟩ else none

/-- The double nearest to a natural number, if it is finite. -/
def ofNat? (n : Nat) : Option Double := ofRatio? false n 1

/-- The double nearest to `± digits * 10 ^ exponent`, if it is finite. Exponents far outside the
range of doubles are settled without computing the power. -/
def ofScientific? (negative : Bool) (digits : Nat) (exponent : Int) : Option Double :=
  if digits = 0 then some ⟨negative, 0⟩
  else if 330 < exponent then none
  else if 0 ≤ exponent then ofRatio? negative (digits * tenTo exponent.toNat) 1
  else if (Nat.toDigits 10 digits).length + exponent < -330 then some ⟨negative, 0⟩
  else ofRatio? negative digits (tenTo (-exponent).toNat)

/-- The same double without its sign. -/
def magnitude (d : Double) : Double := ⟨false, d.units⟩

/-- The sum of two magnitudes. -/
def addMagnitude? (a b : Double) : Option Double :=
  ofRatio? false (a.units + b.units) unitsPerOne

/-- The product of two magnitudes. -/
def mulMagnitude? (a b : Double) : Option Double :=
  ofRatio? false (a.units * b.units) (unitsPerOne * unitsPerOne)

/-- The quotient of two magnitudes; the second is not zero. -/
def divMagnitude? (a b : Double) : Option Double :=
  ofRatio? false a.units b.units

/-- The whole number nearest to a magnitude, a half going up. -/
def roundHalfUp (a : Double) : Nat :=
  (2 * a.units + unitsPerOne) / (2 * unitsPerOne)

/-- Whether two doubles are the same number: the two zeros are. -/
def same (a b : Double) : Bool :=
  a.units == b.units && (a.negative == b.negative || a.units == 0)

end Double

end RecordQuery
