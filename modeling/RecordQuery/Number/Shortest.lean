import RecordQuery.Number.Double

/-!
# The shortest decimal that reads back

A positive double stands for every real that rounds to it: the reals up to half a spacing away on
either side, both ends included exactly when the significand is even. Its *shortest decimal* is the
one with the fewest digits among the decimals in that interval, and of those the nearest, an exact
tie going to the even last digit.

For each number of digits it is enough to look at the two neighbours of the double on the grid of
decimals of that precision: if any point of the grid lies in the interval, so does one of them.
-/

namespace RecordQuery

/-- A decimal `digits * 10 ^ exponent`. -/
structure ShortDecimal where
  digits : Nat
  exponent : Int
deriving DecidableEq, Repr

namespace Double

/-- Whether `digits * 10 ^ exponent` rounds to the positive double with these units. Both sides are
compared in halves of a unit. -/
def readsBack (units digits : Nat) (exponent : Int) : Bool :=
  let k := spacingExponent units
  let above := twoTo k
  let below := if units = twoTo (52 + k) ∧ 0 < k then twoTo (k - 1) else above
  let even := units / twoTo k % 2 = 0
  let value := digits * tenTo exponent.toNat * (2 * unitsPerOne)
  let scale := tenTo (-exponent).toNat
  let low := (2 * units - below) * scale
  let high := (2 * units + above) * scale
  if even then low ≤ value && value ≤ high else low < value && value < high

/-- The exponent of the first decimal digit of a positive double: `10 ^ e ≤ value < 10 ^
(e + 1)`. -/
def decimalExponent (units : Nat) : Int :=
  if unitsPerOne ≤ units then ((Nat.toDigits 10 (units / unitsPerOne)).length : Int) - 1
  else
    match (List.range 400).find? fun j => unitsPerOne ≤ units * tenTo (j + 1) with
    | some j => -((j : Int) + 1)
    | none => -400

/-- The nearest of the two neighbours on the grid of multiples of `10 ^ exponent` that read back. -/
def nearestOnGrid? (units : Nat) (exponent : Int) : Option ShortDecimal :=
  let num := units * tenTo (-exponent).toNat
  let den := unitsPerOne * tenTo exponent.toNat
  let lower := num / den
  let twice := 2 * (num % den)
  let lowerHits := readsBack units lower exponent
  let upperHits := readsBack units (lower + 1) exponent
  match lowerHits, upperHits with
  | true, true =>
    if twice < den then some ⟨lower, exponent⟩
    else if den < twice then some ⟨lower + 1, exponent⟩
    else some ⟨lower + lower % 2, exponent⟩
  | true, false => some ⟨lower, exponent⟩
  | false, true => some ⟨lower + 1, exponent⟩
  | false, false => none

/-- The digits without the zeros they end in. -/
def stripZeros : Nat → ShortDecimal → ShortDecimal
  | 0, d => d
  | fuel + 1, d =>
    if d.digits % 10 = 0 ∧ d.digits ≠ 0 then stripZeros fuel ⟨d.digits / 10, d.exponent + 1⟩ else d

/-- The shortest decimal of a positive double. Seventeen digits always suffice. -/
def shortest (units : Nat) : ShortDecimal :=
  let first := decimalExponent units
  match (List.range 17).findSome? fun (n : Nat) => nearestOnGrid? units (first - n) with
  | some d => stripZeros 20 d
  | none => ⟨units, 0⟩

end Double

end RecordQuery
