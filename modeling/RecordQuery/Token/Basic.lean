import RecordQuery.Problem

/-!
# Tokens

A token is a stretch of the source with a lexical class. Tokens are numbered in the order of the
source, and a token that owns a parenthesised list comes before the tokens in it.

A word or symbol that is a keyword carries the kind it stands for as its *rule*, and its text is the
keyword in upper case, whatever was typed.
-/

namespace RecordQuery

/-- The lexical classes of tokens. -/
inductive TokenKind where
  /-- Letters, digits and the marks that words may hold. -/
  | word
  /-- Comparison signs. -/
  | symbol
  /-- A quoted string, its escapes taken out. -/
  | literal
  /-- Text that stands for itself. -/
  | blob
  /-- A property in brackets. -/
  | bracketed
  /-- A comma or a semicolon. -/
  | delimiter
  /-- An opening parenthesis that belongs to no token before it. -/
  | group
  /-- Anything else. -/
  | other
deriving DecidableEq, Repr, Inhabited

/-- The plain name of a class of tokens. -/
def TokenKind.name : TokenKind → String
  | word => "word"
  | symbol => "symbol"
  | literal => "literal"
  | blob => "blob"
  | bracketed => "bracketed"
  | delimiter => "delimiter"
  | group => "group"
  | other => "other"

/-- A token. `childrenEnd` is the offset behind its parenthesised list, if it owns one. -/
structure Token where
  id : Nat
  text : String
  kind : TokenKind
  span : Span
  childrenEnd : Option Nat := none
  rule : Option Kind := none
  fault : Option TokenFault := none
deriving DecidableEq, Inhabited

namespace Token

/-- Whether a token is quoted or verbatim text. -/
def isLiteral (token : Token) : Bool := token.kind == .literal || token.kind == .blob

/-- Whether a token is a comma or a semicolon. -/
def isDelimiter (token : Token) : Bool := token.kind == .delimiter

/-- Whether a token is a comma. -/
def isComma (token : Token) : Bool := token.isDelimiter && token.text == ","

/-- Whether a token is a semicolon. -/
def isSemicolon (token : Token) : Bool := token.isDelimiter && token.text == ";"

/-- Whether a token owns a parenthesised list. -/
def hasChildren (token : Token) : Bool := token.childrenEnd.isSome

/-- The span of a token together with its parenthesised list. -/
def fullSpan (token : Token) : Span :=
  match token.childrenEnd with
  | some stop => ⟨token.span.start, max stop token.span.stop⟩
  | none => token.span

/-- Whether a token is a bare word, in any case. -/
def isWord (token : Token) (word : String) : Bool :=
  token.kind == .word && upperCase token.text == word

/-- Whether a token is the keyword of a clause. -/
def isClause (token : Token) : Bool := token.kind == .word && token.rule.any Kind.isClause

/-- Whether a token is the keyword of a connective. -/
def isConnective (token : Token) : Bool := token.kind == .word && token.rule.any Kind.isConnective

end Token

/-- What a character of the source belongs to; tokens are given by their numbers. -/
inductive Slot where
  /-- White space between tokens. -/
  | space
  /-- The text of a token, with its quotes or brackets. -/
  | token (id : Nat)
  /-- The parenthesis that opens the list of a token. -/
  | opening (id : Nat)
  /-- The parenthesis that closes the list of a token. -/
  | closing (id : Nat)
deriving DecidableEq, Repr, Inhabited

namespace Slot

/-- The token that a character belongs to. -/
def owner? : Slot → Option Nat
  | space => none
  | token id | opening id | closing id => some id

/-- A slot with the number of its token replaced. -/
def mapOwner (f : Nat → Nat) : Slot → Slot
  | space => space
  | token id => token (f id)
  | opening id => opening (f id)
  | closing id => closing (f id)

end Slot

end RecordQuery
