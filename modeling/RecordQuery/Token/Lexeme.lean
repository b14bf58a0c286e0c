import RecordQuery.Text.Blank
import RecordQuery.Text.Letter

/-!
# Lexemes

The source is first cut into *lexemes*, each a piece of text of one sort, without regard to what
parentheses enclose. Nothing is lost: the texts of the lexemes, one after the other, are the source.

What a lexeme starts with decides its sort. Quoted text, brackets and blocks run to their
terminator, or to the end of the source where it is missing. Signs, words and other characters form
runs, which end where something else begins; three opening angle brackets begin a block even in the
middle of a run of signs.
-/

namespace RecordQuery

/-- The sorts of characters that form runs. -/
inductive RunKind where
  | symbol
  | word
  | other
deriving DecidableEq, Repr, Inhabited

/-- A piece of the source. A body is the text between the terminators, of which the closing one may
be missing. -/
inductive Lexeme where
  | blank (c : Char)
  | opening
  | closing
  | delimiter (c : Char)
  | quoted (quote : Char) (body : List Char) (closed : Bool)
  | block (body : List Char) (closed : Bool)
  | bracketed (body : List Char) (closed : Bool)
  | run (kind : RunKind) (chars : List Char)
deriving DecidableEq, Repr, Inhabited

/-- What a text starts with. -/
inductive Lead where
  | blank
  | opening
  | closing
  | delimiter
  | quote
  | bracket
  | block
  | run (kind : RunKind)
deriving DecidableEq, Repr

namespace Lexeme

/-- A terminator, where it is there. -/
def terminator (closed : Bool) (text : List Char) : List Char := if closed then text else []

/-- The text of a lexeme. -/
def source : Lexeme → List Char
  | blank c => [c]
  | opening => ['(']
  | closing => [')']
  | delimiter c => [c]
  | quoted quote body closed => quote :: body ++ terminator closed [quote]
  | block body closed => '<' :: '<' :: '<' :: body ++ terminator closed ['>', '>', '>']
  | bracketed body closed => '[' :: body ++ terminator closed [']']
  | run _ chars => chars

/-! ## Leads -/

/-- The comparison signs. -/
def isSign (c : Char) : Bool := c == '=' || c == '!' || c == '<' || c == '>'

/-- The characters of words. -/
def isWordChar (c : Char) : Bool :=
  Text.isLetter c || "_.-:*/@$#%".toList.contains c

/-- What a text starts with, given its first character and the others. -/
def lead (c : Char) (rest : List Char) : Lead :=
  if Text.isBlank c then .blank
  else if c = '(' then .opening
  else if c = ')' then .closing
  else if c = ',' ∨ c = ';' then .delimiter
  else if c = '"' ∨ c = '\'' then .quote
  else if c = '[' then .bracket
  else if c = '<' ∧ ['<', '<'].isPrefixOf rest then .block
  else if isSign c then .run .symbol
  else if isWordChar c then .run .word
  else .run .other

/-! ## Bodies -/

/-- The start of a text up to a terminator, whether the terminator was there, and what follows. -/
structure Piece where
  body : List Char
  closed : Bool
  rest : List Char
deriving DecidableEq, Repr

/-- A piece with another character in front. -/
def Piece.cons (c : Char) (piece : Piece) : Piece := { piece with body := c :: piece.body }

/-- Text up to a quote. A backslash takes the next character with it. -/
def quotedPiece (quote : Char) : List Char → Piece
  | [] => ⟨[], false, []⟩
  | '\\' :: c :: rest => ((quotedPiece quote rest).cons c).cons '\\'
  | c :: rest => if c = quote then ⟨[], true, rest⟩ else (quotedPiece quote rest).cons c

/-- Text up to three closing angle brackets. -/
def blockPiece : List Char → Piece
  | [] => ⟨[], false, []⟩
  | c :: rest =>
    if ['>', '>', '>'].isPrefixOf (c :: rest) then ⟨[], true, rest.drop 2⟩
    else (blockPiece rest).cons c

/-- Text up to a closing bracket. -/
def bracketedPiece : List Char → Piece
  | [] => ⟨[], false, []⟩
  | c :: rest => if c = ']' then ⟨[], true, rest⟩ else (bracketedPiece rest).cons c

/-- The longest run of one sort that a text starts with. -/
def runPiece (kind : RunKind) : List Char → Piece
  | [] => ⟨[], false, []⟩
  | c :: rest =>
    if lead c rest = .run kind then (runPiece kind rest).cons c else ⟨[], true, c :: rest⟩

/-- A quotation leaves no more than there was. -/
theorem length_rest_quotedPiece (quote : Char) (text : List Char) :
    (quotedPiece quote text).rest.length ≤ text.length := by
  fun_induction quotedPiece quote text with
  | case1 => simp
  | case2 c rest ih => simp only [Piece.cons, List.length_cons]; omega
  | case3 rest => simp
  | case4 c rest _ _ ih => simp only [Piece.cons, List.length_cons]; omega

/-- A block leaves no more than there was. -/
theorem length_rest_blockPiece (text : List Char) :
    (blockPiece text).rest.length ≤ text.length := by
  fun_induction blockPiece text with
  | case1 => simp
  | case2 c rest _ => simp only [List.length_drop, List.length_cons]; omega
  | case3 c rest _ ih => simp only [Piece.cons, List.length_cons]; omega

/-- A name in brackets leaves no more than there was. -/
theorem length_rest_bracketedPiece (text : List Char) :
    (bracketedPiece text).rest.length ≤ text.length := by
  fun_induction bracketedPiece text with
  | case1 => simp
  | case2 rest => simp
  | case3 c rest _ ih => simp only [Piece.cons, List.length_cons]; omega

/-- A run leaves no more than there was. -/
theorem length_rest_runPiece (kind : RunKind) (text : List Char) :
    (runPiece kind text).rest.length ≤ text.length := by
  fun_induction runPiece kind text with
  | case1 => simp
  | case2 c rest _ ih => simp only [Piece.cons, List.length_cons]; omega
  | case3 c rest _ => simp

/-! ## Scanning -/

/-- The lexemes of a text. -/
def scan : List Char → List Lexeme
  | [] => []
  | c :: rest =>
    match lead c rest with
    | .blank => blank c :: scan rest
    | .opening => opening :: scan rest
    | .closing => closing :: scan rest
    | .delimiter => delimiter c :: scan rest
    | .quote =>
      let piece := quotedPiece c rest
      quoted c piece.body piece.closed :: scan piece.rest
    | .bracket =>
      let piece := bracketedPiece rest
      bracketed piece.body piece.closed :: scan piece.rest
    | .block =>
      let piece := blockPiece (rest.drop 2)
      block piece.body piece.closed :: scan piece.rest
    | .run kind =>
      let piece := runPiece kind rest
      run kind (c :: piece.body) :: scan piece.rest
termination_by text => text.length
decreasing_by
  all_goals simp only [List.length_cons]
  all_goals try omega
  · have := length_rest_quotedPiece c rest; omega
  · have := length_rest_bracketedPiece rest; omega
  · have := length_rest_blockPiece (rest.drop 2)
    have : (rest.drop 2).length ≤ rest.length := by simp
    omega
  · have := length_rest_runPiece kind rest; omega

end Lexeme

end RecordQuery
