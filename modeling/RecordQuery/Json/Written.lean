import RecordQuery.Number.Decimal

/-!
# JSON texts

The JSON grammar, and nothing more. What is written need not denote a value: a number may be out of
range, an escape may be half of a surrogate pair, and arrays and objects nest at any depth. These
limits belong to the values of texts, so that whoever has no use for a part of a text can pass over
it as long as it is well formed.
-/

namespace RecordQuery.Json

/-- A number as it is written: the digits before the point, those behind it, and the exponent. -/
structure Numeral where
  negative : Bool
  whole : List Char
  fraction : Option (List Char)
  exponent : Option Int
deriving DecidableEq, Repr

/-- What a string is written with. An escape by number stands for a unit of UTF-16. -/
inductive Piece where
  | char (c : Char)
  | unit (number : Nat)
deriving DecidableEq, Repr

/-- A value as it is written. -/
inductive Written where
  | null
  | bool (value : Bool)
  | number (numeral : Numeral)
  | string (pieces : List Piece)
  | array (items : List Written)
  | object (members : List (List Piece × Written))
deriving Inhabited

/-- The blanks between the parts of a JSON text. -/
def isSeparator (c : Char) : Bool := c == ' ' || c == '\t' || c == '\n' || c == '\r'

/-- The text from its first character that is no blank. -/
def skip (text : List Char) : List Char := text.dropWhile isSeparator

/-! ### Strings -/

/-- The value of a hexadecimal digit. -/
def hexValue? (c : Char) : Option Nat :=
  if '0' ≤ c && c ≤ '9' then some (c.toNat - '0'.toNat)
  else if 'a' ≤ c && c ≤ 'f' then some (c.toNat - 'a'.toNat + 10)
  else if 'A' ≤ c && c ≤ 'F' then some (c.toNat - 'A'.toNat + 10)
  else none

/-- The value of four hexadecimal digits. -/
def hexUnit? (a b c d : Char) : Option Nat := do
  let a ← hexValue? a
  let b ← hexValue? b
  let c ← hexValue? c
  let d ← hexValue? d
  return ((a * 16 + b) * 16 + c) * 16 + d

/-- The character that a letter stands for behind a backslash. -/
def escaped? : Char → Option Char
  | '"' => some '"'
  | '\\' => some '\\'
  | '/' => some '/'
  | 'b' => some '\x08'
  | 'f' => some '\x0c'
  | 'n' => some '\n'
  | 'r' => some '\r'
  | 't' => some '\t'
  | _ => none

/-- The pieces of a string behind its opening quote, up to the closing one, and what follows it.
A control character must be escaped. -/
def readPieces? : List Char → Option (List Piece × List Char)
  | [] => none
  | '"' :: rest => some ([], rest)
  | '\\' :: 'u' :: a :: b :: c :: d :: rest => do
    let number ← hexUnit? a b c d
    let (pieces, rest) ← readPieces? rest
    return (.unit number :: pieces, rest)
  | '\\' :: letter :: rest => do
    let c ← escaped? letter
    let (pieces, rest) ← readPieces? rest
    return (.char c :: pieces, rest)
  | c :: rest => do
    if c == '\\' || c.toNat < 0x20 then none
    let (pieces, rest) ← readPieces? rest
    return (.char c :: pieces, rest)

/-! ### Numbers -/

/-- The digits that a text starts with, and what follows them. -/
def spanDigits (text : List Char) : List Char × List Char :=
  (text.takeWhile Decimal.isDigit, text.dropWhile Decimal.isDigit)

/-- The fraction digits, if there is a point, and what follows them. -/
def readFraction? : List Char → Option (Option (List Char) × List Char)
  | '.' :: rest =>
    let (digits, rest) := spanDigits rest
    if digits.isEmpty then none else some (some digits, rest)
  | text => some (none, text)

/-- The exponent, if there is one, and what follows it. -/
def readExponent? : List Char → Option (Option Int × List Char)
  | c :: rest =>
    if c == 'e' || c == 'E' then
      let (sign, rest) : Int × List Char := match rest with
        | '-' :: rest => (-1, rest)
        | '+' :: rest => (1, rest)
        | _ => (1, rest)
      let (digits, rest) := spanDigits rest
      if digits.isEmpty then none else some (some (sign * Decimal.digitsValue digits), rest)
    else some (none, c :: rest)
  | [] => some (none, [])

/-- A number, and what follows it. More than one digit before the point do not start with zero. -/
def readNumeral? (text : List Char) : Option (Numeral × List Char) := do
  let (negative, body) := match text with
    | '-' :: rest => (true, rest)
    | _ => (false, text)
  let (whole, rest) := spanDigits body
  if whole.isEmpty || (1 < whole.length && whole.head? == some '0') then none
  let (fraction, rest) ← readFraction? rest
  let (exponent, rest) ← readExponent? rest
  return (⟨negative, whole, fraction, exponent⟩, rest)

/-! ### Values -/

namespace Written

/-- The rest of a text behind a word it must start with. -/
def expect? (word text : List Char) : Option (List Char) :=
  if word.isPrefixOf text then some (text.drop word.length) else none

mutual

/-- A value, and what follows it. -/
def read? : (fuel : Nat) → List Char → Option (Written × List Char)
  | 0, _ => none
  | fuel + 1, text =>
    match skip text with
    | 'n' :: rest => (expect? "ull".toList rest).map fun rest => (null, rest)
    | 't' :: rest => (expect? "rue".toList rest).map fun rest => (bool true, rest)
    | 'f' :: rest => (expect? "alse".toList rest).map fun rest => (bool false, rest)
    | '"' :: rest => (readPieces? rest).map fun (pieces, rest) => (string pieces, rest)
    | '[' :: rest =>
      match skip rest with
      | ']' :: rest => some (array [], rest)
      | _ => (readItems? fuel rest).map fun (items, rest) => (array items, rest)
    | '\x7b' :: rest =>
      match skip rest with
      | '\x7d' :: rest => some (object [], rest)
      | _ => (readMembers? fuel rest).map fun (members, rest) => (object members, rest)
    | text => (readNumeral? text).map fun (numeral, rest) => (number numeral, rest)

/-- The items of an array up to its end, and what follows it. -/
def readItems? : (fuel : Nat) → List Char → Option (List Written × List Char)
  | 0, _ => none
  | fuel + 1, text => do
    let (item, rest) ← read? fuel text
    match skip rest with
    | ',' :: rest => do
      let (items, rest) ← readItems? fuel rest
      return (item :: items, rest)
    | ']' :: rest => return ([item], rest)
    | _ => none

/-- The members of an object up to its end, and what follows it. -/
def readMembers? : (fuel : Nat) → List Char → Option (List (List Piece × Written) × List Char)
  | 0, _ => none
  | fuel + 1, text => do
    let '"' :: rest := skip text | none
    let (key, rest) ← readPieces? rest
    let ':' :: rest := skip rest | none
    let (value, rest) ← read? fuel rest
    match skip rest with
    | ',' :: rest => do
      let (members, rest) ← readMembers? fuel rest
      return ((key, value) :: members, rest)
    | '\x7d' :: rest => return ([(key, value)], rest)
    | _ => none

end

/-- What a text is, if it keeps to the grammar. Each step of the reader takes a character, so the
fuel lasts. -/
def ofText? (text : String) : Option Written := do
  let chars := text.toList
  let (written, rest) ← read? (chars.length + 1) chars
  if (skip rest).isEmpty then return written else none

end Written

end RecordQuery.Json
