/-!
# Quoted text

A string stands in a query text in one of three forms: between single or double quotes, where a
backslash escapes the quote and itself, or between `<<<` and `>>>`, where everything stands for
itself. `quote` picks the form that reads most plainly, and `unescape` takes the escapes out again.

Typographic quotes count as straight ones wherever they stand: `straighten` replaces them first, one
character for one, so that offsets keep their meaning.
-/

namespace RecordQuery.Text

/-- A character with a typographic quote made straight. -/
def straightenChar (c : Char) : Char :=
  if 0x2018 ≤ c.toNat ∧ c.toNat ≤ 0x201B then '\''
  else if 0x201C ≤ c.toNat ∧ c.toNat ≤ 0x201F then '"'
  else c

/-- A text with its typographic quotes made straight. -/
def straighten (text : String) : String := String.ofList (text.toList.map straightenChar)

/-- Whether a list of characters occurs in another without a gap. -/
def occursIn (pattern : List Char) : List Char → Bool
  | [] => pattern.isEmpty
  | c :: rest => pattern.isPrefixOf (c :: rest) || occursIn pattern rest

/-! ## Escapes -/

/-- A backslash before every backslash and every closing quote. -/
def escape (closing : Char) (text : List Char) : List Char :=
  text.flatMap fun c => if c = '\\' ∨ c = closing then ['\\', c] else [c]

/-- A text with the backslashes taken out that escape a backslash or the closing quote; any other
backslash stands for itself. -/
def unescape (closing : Char) : List Char → List Char
  | '\\' :: c :: rest =>
    if c = closing ∨ c = '\\' then c :: unescape closing rest
    else '\\' :: c :: unescape closing rest
  | c :: rest => c :: unescape closing rest
  | [] => []

/-! ## Quotes -/

/-- A text between two copies of a quote. -/
def between (closing : Char) (text : List Char) : List Char := closing :: text ++ [closing]

/-- A text as a block that stands for itself. -/
def block (text : List Char) : List Char := "<<<".toList ++ text ++ ">>>".toList

/-- A text in the quoted form that reads most plainly: single quotes, unless it holds some; else
double quotes, unless it holds those too; else a block, unless it could not be closed after it. -/
def quoteChars (text : List Char) : List Char :=
  if !text.contains '\'' then between '\'' (escape '\'' text)
  else if !text.contains '"' then between '"' (escape '"' text)
  else if !occursIn ">>>".toList text && text.getLast? != some '>' then block text
  else between '\'' (escape '\'' text)

/-- `quoteChars` on strings. -/
def quote (text : String) : String := String.ofList (quoteChars text.toList)

/-- A text in a quoted form without escapes, for places where the text is taken as it stands. -/
def quoteVerbatimChars (text : List Char) : List Char :=
  if !text.contains '\'' then between '\'' text
  else if !text.contains '"' then between '"' text
  else block text

/-- `quoteVerbatimChars` on strings. -/
def quoteVerbatim (text : String) : String := String.ofList (quoteVerbatimChars text.toList)

end RecordQuery.Text
