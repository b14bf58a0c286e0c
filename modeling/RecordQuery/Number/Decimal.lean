import RecordQuery.Number.Double
import RecordQuery.Text.Digit

/-!
# Decimals

A decimal is a sign, a mantissa of at most 96 bits and a scale of at most 28: the number
`± mantissa / 10 ^ scale`. The scale is part of the decimal, so `2.50` and `2.5` are two decimals of
one value. These bounds are proof fields, and `Decimal.make?` is the only place that checks them.

Reading takes fraction digits as long as the bounds allow. The first digit that does not fit rounds
the rest, a five going up, so a text with more digits than a decimal holds is read as a near one.

Digits of any script give a text the form of a number, but only those of ASCII are read. So a digit
of another script makes reading fail, unless it stands where digits are not looked at any more.
-/

namespace RecordQuery

/-- The number `± mantissa / 10 ^ scale`; zero is not negative. -/
structure Decimal where
  negative : Bool
  mantissa : Nat
  scale : Nat
  mantissa_lt : mantissa < twoTo 96
  scale_le : scale ≤ 28
  zero_sign : negative = true → mantissa ≠ 0
deriving DecidableEq, Repr

namespace Decimal

/-- The decimal with these parts, if they are in bounds. -/
def make? (negative : Bool) (mantissa scale : Nat) : Option Decimal :=
  if h : mantissa < twoTo 96 ∧ scale ≤ 28 then
    some ⟨negative && mantissa != 0, mantissa, scale, h.1, h.2, by simp⟩
  else none

/-- Zero. -/
def zero : Decimal := ⟨false, 0, 0, by decide, by decide, by simp⟩

/-- The value of a decimal digit. -/
def digitValue (c : Char) : Nat := c.toNat - '0'.toNat

/-- The decimal digits of ASCII, which are the ones that are read. -/
def isDigit (c : Char) : Bool := '0' ≤ c && c ≤ '9'

/-- The number that a list of digits denotes. -/
def digitsValue (digits : List Char) : Nat :=
  digits.foldl (fun n c => 10 * n + digitValue c) 0

/-! ### Reading plain decimals -/

/-- A mantissa after rounding up by one. If it outgrows 96 bits, one digit of the scale is given up
for it. -/
def roundUp? (negative : Bool) (mantissa scale : Nat) : Option Decimal :=
  if mantissa + 1 < twoTo 96 then make? negative (mantissa + 1) scale
  else if scale = 0 then none
  else make? negative ((mantissa + 1 + 4) / 10) (scale - 1)

/-- Adds the fraction digits to a mantissa: each one that fits is taken, the first one that does not
rounds, and the others are not looked at. Nothing is read where one that is looked at is not of
ASCII. -/
def readFraction? (negative : Bool) : (mantissa scale : Nat) → List Char → Option Decimal
  | mantissa, scale, [] => make? negative mantissa scale
  | mantissa, scale, c :: rest =>
    let next := 10 * mantissa + digitValue c
    if isDigit c = false then none
    else if scale < 28 ∧ next < twoTo 96 then readFraction? negative next (scale + 1) rest
    else if 5 ≤ digitValue c then roundUp? negative mantissa scale
    else make? negative mantissa scale

/-- The decimal of a whole part and a fraction part, both lists of digits. -/
def ofDigits? (negative : Bool) (whole fraction : List Char) : Option Decimal :=
  let mantissa := digitsValue whole
  if whole.all isDigit ∧ mantissa < twoTo 96 then readFraction? negative mantissa 0 fraction
  else none

/-- A text cut at its first point: the part before it, and the part after it if there is one. -/
def splitPoint (text : List Char) : List Char × Option (List Char) :=
  match text.dropWhile (· ≠ '.') with
  | [] => (text, none)
  | _ :: fraction => (text.takeWhile (· ≠ '.'), some fraction)

/-- The sign and the digits of a text of the form `-?digits(.digits)?`, the digits being those of
any script. -/
def plainParts? (text : List Char) : Option (Bool × List Char × List Char) :=
  let (negative, body) := match text with
    | '-' :: rest => (true, rest)
    | _ => (false, text)
  let nonempty (part : List Char) : Bool := !part.isEmpty && part.all Text.isDigit
  match splitPoint body with
  | (whole, none) => if nonempty whole then some (negative, whole, []) else none
  | (whole, some fraction) =>
    if nonempty whole && nonempty fraction then some (negative, whole, fraction) else none

/-- Reads a text of the form `-?digits(.digits)?`. -/
def ofPlain? (text : List Char) : Option Decimal := do
  let (negative, whole, fraction) ← plainParts? text
  ofDigits? negative whole fraction

/-! ### Reading decimals with an exponent -/

/-- A decimal with its scale raised by `n`. Where the scale would pass 28, digits are dropped first,
the highest dropped one rounding. -/
def shiftDown? (d : Decimal) (n : Nat) : Option Decimal :=
  if 28 < n then none
  else if d.scale + n ≤ 28 then make? d.negative d.mantissa (d.scale + n)
  else
    let dropped := d.scale + n - 28
    let kept := d.mantissa / tenTo dropped
    let digit := d.mantissa / tenTo (dropped - 1) % 10
    make? d.negative (if 5 ≤ digit then kept + 1 else kept) 28

/-- A decimal times `10 ^ n`: the scale is lowered as far as it goes, the mantissa
takes the rest. -/
def shiftUp? (d : Decimal) (n : Nat) : Option Decimal :=
  if n ≤ d.scale then make? d.negative d.mantissa (d.scale - n)
  else if 28 < n then none
  else make? d.negative (d.mantissa * tenTo (n - d.scale)) 0

/-- Reads a plain decimal, or one followed by `e` and a signed exponent. -/
def ofText? (text : List Char) : Option Decimal :=
  match text.dropWhile (· ≠ 'e') with
  | [] => ofPlain? text
  | _ :: exponent => do
    let base ← ofPlain? (text.takeWhile (· ≠ 'e'))
    match exponent with
    | '-' :: digits => if !digits.isEmpty && digits.all isDigit
        then shiftDown? base (digitsValue digits) else none
    | '+' :: digits => if !digits.isEmpty && digits.all isDigit
        then shiftUp? base (digitsValue digits) else none
    | digits => if !digits.isEmpty && digits.all isDigit
        then shiftUp? base (digitsValue digits) else none

/-! ### Printing, comparing, converting -/

/-- The decimal digits of a number, padded with zeros to a width of at least `width`. -/
def padDigits (width n : Nat) : List Char :=
  let digits := Nat.toDigits 10 n
  List.replicate (width - digits.length) '0' ++ digits

/-- The text of a decimal: all digits of the whole part, and exactly `scale` fraction digits. -/
def toChars (d : Decimal) : List Char :=
  let whole := Nat.toDigits 10 (d.mantissa / tenTo d.scale)
  let sign := if d.negative then ['-'] else []
  if d.scale = 0 then sign ++ whole
  else sign ++ whole ++ '.' :: padDigits d.scale (d.mantissa % tenTo d.scale)

/-- The text of a decimal. -/
def text (d : Decimal) : String := String.ofList d.toChars

/-- The mantissa with its sign. -/
def signed (d : Decimal) : Int := if d.negative then -d.mantissa else d.mantissa

/-- Whether two decimals have the same value. -/
def same (a b : Decimal) : Bool :=
  a.signed * tenTo b.scale == b.signed * tenTo a.scale

/-- Whether a decimal has no fraction. -/
def isWhole (d : Decimal) : Bool := d.mantissa % tenTo d.scale == 0

/-- The decimal of a whole number, if it fits. -/
def ofInt? (n : Int) : Option Decimal := make? (n < 0) n.natAbs 0

/-- The whole number a decimal is, if it has no fraction and is a signed 64-bit number. -/
def toInt64? (d : Decimal) : Option Int :=
  let n : Int := (if d.negative then -1 else 1) * (d.mantissa / tenTo d.scale : Nat)
  if d.isWhole && -(twoTo 63 : Int) ≤ n && n < (twoTo 63 : Int) then some n else none

/-- The whole part of a decimal that is not negative, if it is an unsigned 64-bit number. -/
def toUInt64? (d : Decimal) : Option Nat :=
  let n := d.mantissa / tenTo d.scale
  if !d.negative && n < twoTo 64 then some n else none

/-- The double that stands for the magnitude of a decimal: the whole part and the fraction are
converted apart, added, and the sum is rounded to as many places as the scale has. -/
def magnitude? (d : Decimal) : Option Double := do
  let power := tenTo d.scale
  let whole ← Double.ofNat? (d.mantissa / power)
  let scale ← Double.ofNat? power
  let fraction ← Double.divMagnitude? (← Double.ofNat? (d.mantissa % power)) scale
  if fraction.units = 0 then return whole
  let shifted ← Double.mulMagnitude? (← Double.addMagnitude? whole fraction) scale
  Double.divMagnitude? (← Double.ofNat? shifted.roundHalfUp) scale

/-- The double that stands for a decimal. -/
def toDouble? (d : Decimal) : Option Double :=
  d.magnitude?.map fun m => ⟨d.negative, m.units⟩

end Decimal

end RecordQuery
