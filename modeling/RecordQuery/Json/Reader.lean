import RecordQuery.Json.Basic
import RecordQuery.Json.Written

/-!
# Reading JSON text

The value that a JSON text denotes. Values nest at most `maxNesting` deep. An integer literal in the
range of signed or unsigned 64-bit numbers is an integer; `-0`, every other integer literal and
every literal with a point or an exponent is a double, and it must be finite. Two escapes of
surrogates make one character; a surrogate alone is refused.

`Written.value?` keeps repeated keys as they were written; `read?` lets the last value win, in the
place of the first.
-/

namespace RecordQuery

namespace Json

/-- Arrays and objects nest at most this deep. -/
def maxNesting : Nat := 127

/-! ### Values of what is written -/

/-- The value of a number. -/
def Numeral.value? (n : Numeral) : Option Json :=
  let magnitude := Decimal.digitsValue n.whole
  let value : Int := if n.negative then -magnitude else magnitude
  let isInteger := n.fraction.isNone && n.exponent.isNone && !(n.negative && magnitude == 0)
  if isInteger && -(twoTo 63 : Int) ≤ value && value < (twoTo 64 : Int) then some (integer value)
  else
    let digits := n.fraction.getD []
    (Double.ofScientific? n.negative (Decimal.digitsValue (n.whole ++ digits))
      (n.exponent.getD 0 - digits.length)).map double

/-- The characters of a string. -/
def Piece.chars? : List Piece → Option (List Char)
  | [] => some []
  | char c :: rest => (chars? rest).map (c :: ·)
  | unit high :: unit low :: rest =>
    if high < 0xD800 || 0xDFFF < high then (chars? (unit low :: rest)).map (Char.ofNat high :: ·)
    else if 0xDBFF < high || low < 0xDC00 || 0xDFFF < low then none
    else
      (chars? rest).map (Char.ofNat (0x10000 + (high - 0xD800) * 0x400 + (low - 0xDC00)) :: ·)
  | unit number :: rest =>
    if number < 0xD800 || 0xDFFF < number then (chars? rest).map (Char.ofNat number :: ·) else none

/-- The text of a string. -/
def Piece.text? (pieces : List Piece) : Option String := (chars? pieces).map String.ofList

namespace Written

mutual

/-- The value of what is written, if it nests no deeper than a limit. -/
def value? : Written → (nesting : Nat) → Option Json
  | null, _ => some .null
  | bool value, _ => some (.bool value)
  | number numeral, _ => numeral.value?
  | string pieces, _ => (Piece.text? pieces).map .string
  | array _, 0 => none
  | array items, nesting + 1 => (itemValues? items nesting).map .array
  | object _, 0 => none
  | object members, nesting + 1 => (memberValues? members nesting).map .object

/-- The values of items. -/
def itemValues? : List Written → (nesting : Nat) → Option (List Json)
  | [], _ => some []
  | item :: rest, nesting => do
    let item ← item.value? nesting
    return item :: (← itemValues? rest nesting)

/-- The keys and values of members. -/
def memberValues? : List (List Piece × Written) → (nesting : Nat) → Option (List (String × Json))
  | [], _ => some []
  | (key, value) :: rest, nesting => do
    let key ← Piece.text? key
    let value ← value.value? nesting
    return (key, value) :: (← memberValues? rest nesting)

end

/-- The members of an object under their keys, their values not looked at. -/
def keyed? (members : List (List Piece × Written)) : Option (List (String × Written)) :=
  members.mapM fun (key, value) => (Piece.text? key).map fun key => (key, value)

end Written

/-! ### Repeated keys -/

mutual

/-- A value with the last of several values under one key only, in the place of the first. -/
def settle : Json → Json
  | array items => array (settleItems items)
  | object members => object (Table.ofEntries (settleMembers members))
  | null => null
  | bool b => bool b
  | integer n => integer n
  | double d => double d
  | string s => string s

/-- The items of an array, settled. -/
def settleItems : List Json → List Json
  | [] => []
  | item :: rest => settle item :: settleItems rest

/-- The members of an object, their values settled. -/
def settleMembers : List (String × Json) → List (String × Json)
  | [] => []
  | (key, value) :: rest => (key, settle value) :: settleMembers rest

end

/-- The value a text denotes. -/
def read? (text : String) : Option Json := do
  let value ← (← Written.ofText? text).value? maxNesting
  return settle value

end Json

end RecordQuery
