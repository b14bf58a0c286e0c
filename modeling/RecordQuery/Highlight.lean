import RecordQuery.Reading

/-!
# Highlighting

An editor paints every token of a text by its category, which follows from what the token is and
from what it was read as. Groups have no text of their own and are left out. The words that were
merged into a keyword keep their place in the list, next to the keyword that covers them.
-/

namespace RecordQuery

namespace Highlight

/-- The categories of tokens that an editor tells apart. -/
inductive Category where
  | clause
  | operator
  | conjunction
  | property
  | value
  | literal
  | aliasName
  | delimiter
  | error
  | plain
deriving DecidableEq, Repr

/-- The plain name of a category. -/
def Category.name : Category → String
  | clause => "clause"
  | operator => "operator"
  | conjunction => "conjunction"
  | property => "property"
  | value => "value"
  | literal => "literal"
  | aliasName => "alias"
  | delimiter => "delimiter"
  | error => "error"
  | plain => "plain"

/-- The category of a token that is no keyword, given what it was read as. -/
def categoryOfRole (token : Token) : Option Role → Category
  | some .property => .property
  | some .aliasName => .aliasName
  | some .direction => .operator
  | some .value => if token.isLiteral then .literal else .value
  | none =>
    if token.isDelimiter then .delimiter
    else if token.kind = .other then .error
    else .plain

/-- The category of a token, given what it was read as. -/
def categoryOf (token : Token) (role : Option Role) : Category :=
  if token.fault.isSome then .error
  else if token.isClause then .clause
  else if token.isConnective then .conjunction
  else if token.rule.isSome && !token.isLiteral then .operator
  else categoryOfRole token role

end Highlight

/-- A stretch of the source and its category. -/
structure Highlight where
  span : Span
  category : Highlight.Category
deriving DecidableEq

/-- The highlights of a text, in the order in which they start. -/
def Reading.highlights (r : Reading) : List Highlight :=
  let painted := r.tokens.filter fun token => token.kind != .group
  let highlights := painted.map fun token =>
    { span := token.span, category := Highlight.categoryOf token (r.notes.role? token) }
  highlights.mergeSort fun a b => a.span.start ≤ b.span.start

end RecordQuery
