import RecordQuery.Json.Basic
import RecordQuery.Number.Decimal
import RecordQuery.Number.Shortest

/-!
# JSON text

A value has a compact text, with no blank between its parts, and an indented one. Both write strings
and numbers alike. A double is written with the fewest digits that read back, and always with a
point or an exponent, so that it is not read as an integer.
-/

namespace RecordQuery

namespace Double

/-- Doubles whose first digit stands at one of these powers of ten are written without exponent. -/
def positionalExponents (exponent : Int) : Bool := -5 ≤ exponent && exponent ≤ 15

/-- The text of a decimal whose first digit has the given place. -/
def layout (digits : List Char) (exponent : Int) : List Char :=
  let whole := exponent.toNat + 1
  if positionalExponents exponent then
    if exponent < 0 then
      '0' :: '.' :: List.replicate ((-exponent).toNat - 1) '0' ++ digits
    else if digits.length ≤ whole then
      digits ++ List.replicate (whole - digits.length) '0' ++ ['.', '0']
    else digits.take whole ++ '.' :: digits.drop whole
  else
    let fraction := digits.drop 1
    let mantissa := if fraction.isEmpty then digits else digits.take 1 ++ '.' :: fraction
    let sign := if exponent < 0 then '-' else '+'
    mantissa ++ 'e' :: sign :: Nat.toDigits 10 exponent.natAbs

/-- The text of a double. -/
def text (d : Double) : String :=
  let sign := if d.negative then ['-'] else []
  if d.units = 0 then String.ofList (sign ++ ['0', '.', '0'])
  else
    let short := shortest d.units
    let digits := Nat.toDigits 10 short.digits
    String.ofList (sign ++ layout digits (short.exponent + digits.length - 1))

end Double

namespace Json

/-- A character inside a string: quote, backslash and control characters are escaped. -/
def escapeChar (c : Char) : List Char :=
  match c with
  | '"' => ['\\', '"']
  | '\\' => ['\\', '\\']
  | '\x08' => ['\\', 'b']
  | '\x0c' => ['\\', 'f']
  | '\n' => ['\\', 'n']
  | '\r' => ['\\', 'r']
  | '\t' => ['\\', 't']
  | _ =>
    if c.toNat < 0x20 then
      ['\\', 'u', '0', '0', Nat.digitChar (c.toNat / 16), Nat.digitChar (c.toNat % 16)]
    else [c]

/-- The text of a string, between quotes. -/
def quoted (s : String) : String :=
  String.ofList ('"' :: s.toList.flatMap escapeChar ++ ['"'])

/-- The decimal digits of an integer, behind a minus sign if it is negative. -/
def integerText (n : Int) : String :=
  String.ofList ((if n < 0 then ['-'] else []) ++ Nat.toDigits 10 n.natAbs)

mutual

/-- The compact text of a value. -/
def text : Json → String
  | null => "null"
  | bool true => "true"
  | bool false => "false"
  | integer n => integerText n
  | double d => d.text
  | string s => quoted s
  | array items => "[" ++ ",".intercalate (itemTexts items) ++ "]"
  | object members => "\x7b" ++ ",".intercalate (memberTexts members) ++ "\x7d"

/-- The compact texts of the items of an array. -/
def itemTexts : List Json → List String
  | [] => []
  | item :: rest => text item :: itemTexts rest

/-- The compact texts of the members of an object. -/
def memberTexts : List (String × Json) → List String
  | [] => []
  | (key, value) :: rest => (quoted key ++ ":" ++ text value) :: memberTexts rest

end

/-- A line break and two blanks for each level. -/
def newline (level : Nat) : String :=
  String.ofList ('\n' :: List.replicate (2 * level) ' ')

/-- Parts between two brackets, each on a line of its own. -/
def block (level : Nat) (opening closing : String) (parts : List String) : String :=
  if parts.isEmpty then opening ++ closing
  else
    opening ++ newline (level + 1) ++ ("," ++ newline (level + 1)).intercalate parts ++
      newline level ++ closing

mutual

/-- The text of a value at a level of indentation, two blanks to a level. -/
def indented (level : Nat) : Json → String
  | array items => block level "[" "]" (indentedItems (level + 1) items)
  | object members => block level "\x7b" "\x7d" (indentedMembers (level + 1) members)
  | null => text null
  | bool b => text (bool b)
  | integer n => text (integer n)
  | double d => text (double d)
  | string s => text (string s)

/-- The indented texts of the items of an array. -/
def indentedItems (level : Nat) : List Json → List String
  | [] => []
  | item :: rest => indented level item :: indentedItems level rest

/-- The indented texts of the members of an object. -/
def indentedMembers (level : Nat) : List (String × Json) → List String
  | [] => []
  | (key, value) :: rest =>
    (quoted key ++ ": " ++ indented level value) :: indentedMembers level rest

end

/-- The text of a number, if the value is one. -/
def numberText? : Json → Option String
  | integer n => some (integerText n)
  | double d => some d.text
  | _ => none

end Json

end RecordQuery
