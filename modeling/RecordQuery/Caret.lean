import RecordQuery.Reading
import RecordQuery.Token.Links

/-!
# The caret

What an editor can say about a place in a query text: the token under the caret, or the last one
before it, what that token is, and the clause and the phrase around it. The phrase is the largest
one around the token that is neither a clause nor a group of conditions, reached from the innermost
phrase by going outwards one phrase at a time. What the phrase is about is looked up beneath `NOT`
and `AS`.

The caret also edits: it replaces the phrase, or appends a condition behind it.
-/

namespace RecordQuery

/-- What stands under the caret. -/
inductive Facet where
  | clause
  | property
  | operator
  | value
  | conjunction
  | delimiter
  | none
deriving DecidableEq, Repr

namespace Facet

/-- The plain name of a facet. -/
def name : Facet → String
  | clause => "clause"
  | property => "property"
  | operator => "operator"
  | value => "value"
  | conjunction => "conjunction"
  | delimiter => "delimiter"
  | none => "none"

/-- The facet of a token that is no keyword. -/
def ofRole : Option Role → Facet
  | some .property | some .aliasName => property
  | some .value => value
  | some .direction => operator
  | Option.none => none

/-- The facet of a token, given what it was read as. -/
def ofToken (token : Token) (role : Option Role) : Facet :=
  if token.isDelimiter then delimiter
  else if token.isClause then clause
  else if token.isConnective then conjunction
  else if token.rule.isSome && !token.isLiteral then operator
  else ofRole role

end Facet

/-- A condition or an expression, told by its parts. -/
structure Synopsis where
  negated : Bool := false
  aliasName : Option String := none
  aggregates : Bool := false
  property : Option PropertyRef := none
  operator : Option Kind := none
  values : List ScalarValue := []

namespace Synopsis

/-- The parts of an operator without a wrapper. -/
def ofCore (op : Operator) : Synopsis where
  aggregates := op.containsAggregate
  property := op.firstProperty?
  operator := some op.kind
  values := op.values

/-- The parts of an operator, beneath `AS` if that is what it is. -/
def ofNamed (op : Operator) : Synopsis :=
  if op.kind = .asName then
    { ofCore (op.children.headD op) with
      aliasName := op.values.head?.bind ScalarValue.string? }
  else ofCore op

/-- The parts of an operator, beneath `NOT` and `AS`. -/
def ofOperator (op : Operator) : Synopsis :=
  if op.kind = .not then { ofNamed (op.children.headD op) with negated := true }
  else ofNamed op

end Synopsis

/-- A place in a text and what is found there. -/
structure Caret where
  source : List Char
  offset : Nat
  /-- The token under the caret. -/
  token : Option Token := none
  facet : Facet := .none
  /-- The clause the token stands in. -/
  clause : Option Kind := none
  /-- The span of the phrase around the token. -/
  phrase : Option Span := none
  /-- What the phrase is about. -/
  synopsis : Synopsis := {}

namespace Caret

/-! ## Finding -/

/-- The token of a number. -/
def tokenOf? (r : Reading) (id : Nat) : Option Token := r.tokens.find? fun token => token.id == id

/-- The last token up to an offset, a comma not counting if commas are skipped. -/
def locate (r : Reading) (offset : Nat) (skipCommas : Bool) : Option Token :=
  (r.forest.slots.take (offset + 1)).reverse.findSome? fun slot => do
    let token ← tokenOf? r (← slot.owner?)
    if skipCommas && token.isComma then none else some token

/-- The ancestor at the top level of a token. -/
def rootOf (r : Reading) (token : Token) : Token :=
  match r.forest.links.find? fun link => link.token.id == token.id with
  | some link => (tokenOf? r link.root).getD token
  | none => token

/-- The clause that a token stands in: the last one at the top level that does not start behind the
root of the token. -/
def enclosingClause (r : Reading) (token : Token) : Option Kind :=
  let start := (rootOf r token).span.start
  let before := r.forest.trees.filter fun tree =>
    tree.token.isClause && tree.token.span.start ≤ start
  before.getLast?.bind fun tree => tree.token.rule

/-- Whether a phrase is a clause or a group of conditions. -/
def isBoundary (phrase : Phrase) : Bool := phrase.kind.isClause || phrase.kind.isConnective

/-- The outermost phrase around one that is reached without entering a clause or a group of
conditions. Phrases only lie in later ones, so there are at most as many steps as phrases. -/
def climb (notes : Notes) : (steps : Nat) → (phrase : Phrase) → (index : Nat) → Phrase
  | 0, phrase, _ => phrase
  | steps + 1, phrase, index =>
    match notes.parent? index with
    | none => phrase
    | some outer =>
      match notes.phrases[outer]? with
      | none => phrase
      | some parent => if isBoundary parent then phrase else climb notes steps parent outer

/-- The phrase around a token. -/
def phraseAround (notes : Notes) (token : Token) : Option Phrase := do
  let index ← notes.owner? token
  let phrase ← notes.phrases[index]?
  return climb notes notes.phrases.size phrase index

/-- The caret on a token. -/
def onToken (r : Reading) (offset : Nat) (token : Token) : Caret :=
  let role := r.notes.role? token
  let phrase := phraseAround r.notes token
  let synopsis := (phrase.map fun phrase => Synopsis.ofOperator phrase.operator).getD {}
  let aliasName := if role = some .aliasName then some token.text else synopsis.aliasName
  { source := r.setting.source
    offset
    token := some token
    facet := Facet.ofToken token role
    clause := enclosingClause r token
    phrase := phrase.map Phrase.span
    synopsis := { synopsis with aliasName } }

end Caret

/-- The caret at an offset. -/
def Reading.caretAt (r : Reading) (offset : Nat) (skipCommas : Bool) : Caret :=
  match Caret.locate r offset skipCommas with
  | some token => Caret.onToken r offset token
  | none => { source := r.setting.source, offset }

namespace Caret

/-! ## Editing -/

/-- What an edit works on: the phrase, else the token, else the place itself. -/
def target (caret : Caret) : Span :=
  (caret.phrase.or (caret.token.map Token.span)).getD ⟨caret.offset, caret.offset⟩

/-- The source with the phrase replaced by another text. -/
def replace (caret : Caret) (text : String) : String :=
  String.ofList (caret.target.splice caret.source text.toList)

/-- The source with a condition joined to the phrase. -/
def append (caret : Caret) (connective : Connective) (text : String) : String :=
  let stop := caret.target.stop
  let addition := " " ++ connective.keyword ++ " " ++ text
  String.ofList ((Span.mk stop stop).splice caret.source addition.toList)

end Caret

end RecordQuery
