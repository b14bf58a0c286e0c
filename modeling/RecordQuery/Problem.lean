import RecordQuery.Kind
import RecordQuery.Scalar.Basic
import RecordQuery.Span

/-!
# Problems

What can go wrong while a query is read, from text or from JSON. A fault names a cause and carries
what its message mentions; the wording of all messages, and the broad class of each fault, stand in
this module only.

Faults come in three groups, by what was being read: characters, phrases of tokens, or JSON forms.
A problem is a fault together with the place in the source it points at, if there is one, and the
source text itself.
-/

namespace RecordQuery

/-- The broad classes of problems. -/
inductive ProblemKind where
  /-- Characters that form no complete token. -/
  | lexical
  /-- Tokens that form no phrase or no clause. -/
  | structural
  /-- A wrong number of operands. -/
  | arity
  /-- An operand of a wrong type. -/
  | type
  /-- A JSON form that is none of the language. -/
  | json
  /-- A safety ceiling passed, or a production used where it has no meaning. -/
  | internal
deriving DecidableEq, Repr, Inhabited

/-- The plain name of a class of problems. -/
def ProblemKind.name : ProblemKind → String
  | lexical => "lexical"
  | structural => "structural"
  | arity => "arity"
  | type => "type"
  | json => "json"
  | internal => "internal"

/-! ## Faults -/

/-- Faults found among the characters of a query text. -/
inductive TokenFault where
  | unterminatedString
  | unterminatedBlock
  | unterminatedProperty
  | missingParenthesis
  | unexpectedParenthesis
  | nestedTooDeep (limit : Nat)
deriving DecidableEq, Repr

/-- Faults found among the tokens of a query text. -/
inductive PhraseFault where
  | tooManySteps (limit : Nat)
  -- clauses
  | clauseKeywordExpected (found : String)
  | repeatedClause (kind : Kind)
  | emptyClause (kind : Kind)
  | leftoverInClause (found : String) (kind : Kind)
  | leftoverAfterCondition (found : String)
  | conditionClauseExpected (kind : Kind)
  | conditionClauseMismatch (kind : Kind) (found : String)
  | expressionExpected (kind : Kind)
  | directionExpected (found : String)
  | rowCountExpected
  | rowCountMismatch (found : String)
  | cannotStartClause (kind : Kind)
  | onlyClause (kind : Kind)
  | notClause (kind : Kind)
  -- connectives and parentheses
  | conditionOnBothSides (word : String)
  | conditionExpectedAfter (word : String)
  | joinsConditions (connective : Connective) (found : String)
  | emptyParentheses
  | leftoverInParentheses (found : String)
  -- phrases
  | unknownFunction (name : String)
  | parameterExpected (function : String)
  | leftoverInParameters (found function : String)
  | unexpectedOperator (found : String)
  | uninterpretable (phrase : String)
  -- guards that no reading meets
  | emptyPhrase
  | settledItem
  | nothingToFold
  | lostNode
  | parameterMissing
  -- operands
  | propertyExpected (found : String)
  | valueExpected (found : String)
  | nameExpected (found : String)
  | conditionExpected (found : String)
  | wrongType (allowed : List ScalarType) (actual : ScalarType) (found : String)
  -- productions
  | leftOperandMissing (family : Family) (kind : Kind)
  | rightOperandMissing (family : Family) (kind : Kind)
  | parenthesisExpected (kind : Kind)
  | parameterCount (kind : Kind) (expected actual : Nat)
  | boundCount (actual : Nat)
  | valuesMissing (kind : Kind)
deriving DecidableEq, Repr

/-- Faults found in a JSON form. -/
inductive FormFault where
  | propertyExpected (found : String)
  | aliasNotString
  | idMissing
  | numberOutOfRange (text : String)
  | scalarExpected (found : String)
  | operatorExpected (found : String)
  | oneKeyExpected (found : Nat)
  | unknownOperator (key : String)
  | arrayExpected (kind : Kind) (found : String)
  | operandCount (kind : Kind) (expected actual : Nat)
  | subjectExpected (found : String)
  | stringExpected (kind : Kind) (actual : ScalarType)
  | numericBoundExpected (actual : ScalarType)
  | valueListExpected (kind : Kind)
  | valuesMissing (kind : Kind)
  | notCondition (kind : Kind)
  | aliasNameExpected
  | argumentType (kind : Kind) (expected actual : ScalarType)
  | conditionExpected (clause found : Kind)
  | orderEntryExpected (found : String)
  | invalidDirection (found : String)
  | rowCountExpected (found : String)
  | queryExpected (found : String)
  | unknownClause (key : String)
  | notClause (kind : Kind)
deriving DecidableEq, Repr

/-- A fault of any group; `reported` is one that a host adds in its own words. -/
inductive Fault where
  | token (fault : TokenFault)
  | phrase (fault : PhraseFault)
  | form (fault : FormFault)
  | reported (message : String)
deriving DecidableEq, Repr

/-- A number in decimal digits. -/
def numeral (n : Nat) : String := String.ofList (Nat.toDigits 10 n)

namespace TokenFault

/-- The class of a fault among characters. -/
def kind : TokenFault → ProblemKind
  | unexpectedParenthesis => .structural
  | nestedTooDeep _ => .internal
  | _ => .lexical

/-- The message of a fault among characters. -/
def message : TokenFault → String
  | unterminatedString => "unterminated string literal"
  | unterminatedBlock => "unterminated '<<<' block"
  | unterminatedProperty => "unterminated '[' property reference"
  | missingParenthesis => "missing ')'"
  | unexpectedParenthesis => "unexpected ')'"
  | nestedTooDeep limit => "parentheses nested deeper than " ++ numeral limit

end TokenFault

namespace PhraseFault

/-- The class of a fault among tokens. -/
def kind : PhraseFault → ProblemKind
  | tooManySteps _ | cannotStartClause _ | onlyClause _ | notClause _ | emptyPhrase | settledItem
  | nothingToFold | lostNode | parameterMissing => .internal
  | parameterCount .. | boundCount _ | valuesMissing _ => .arity
  | wrongType .. | directionExpected _ | rowCountMismatch _ => .type
  | _ => .structural

/-- What a family wants to have on the left of an operator. -/
def leftOperand (family : Family) (kind : Kind) : String :=
  match family with
  | .comparison => "expected a property before '" ++ kind.keyword ++ "'"
  | .projection => "expected an expression before " ++ kind.keyword
  | _ => "expected a property before " ++ kind.keyword

/-- What a family wants to have on the right of an operator. -/
def rightOperand (family : Family) (kind : Kind) : String :=
  match family with
  | .comparison => "expected a value after '" ++ kind.keyword ++ "'"
  | .existence => "expected a property after " ++ kind.keyword
  | .projection => "expected a name after " ++ kind.keyword
  | _ => "expected a condition after " ++ kind.keyword

/-- The message of a fault among tokens. -/
def message : PhraseFault → String
  | tooManySteps limit => "gave up after " ++ numeral limit ++ " reduction steps"
  | clauseKeywordExpected found =>
    "expected a clause keyword (SELECT, WHERE, ...) but found '" ++ found ++ "'"
  | repeatedClause kind => kind.keyword ++ " appears more than once"
  | emptyClause kind => "expected a complete expression after " ++ kind.keyword
  | leftoverInClause found kind => "unexpected '" ++ found ++ "' in " ++ kind.keyword ++ " clause"
  | leftoverAfterCondition found => "unexpected '" ++ found ++ "' after the condition"
  | conditionClauseExpected kind => kind.keyword ++ " must be followed by a condition"
  | conditionClauseMismatch kind found =>
    kind.keyword ++ " must be followed by a condition, found '" ++ found ++ "'"
  | expressionExpected kind => "expected an expression in " ++ kind.keyword
  | directionExpected found => "ORDER BY needs ASC or DESC after '" ++ found ++ "'"
  | rowCountExpected => "expected a row count after LIMIT"
  | rowCountMismatch found => "LIMIT must be a non-negative integer, found " ++ found
  | cannotStartClause kind => kind.keyword ++ " cannot start a clause"
  | onlyClause kind => kind.keyword ++ " is only valid as a clause"
  | notClause kind => kind.keyword ++ " is not a clause"
  | conditionOnBothSides word => word ++ " needs a condition on both sides"
  | conditionExpectedAfter word => "expected a condition after " ++ word
  | joinsConditions connective found =>
    connective.keyword ++ " joins conditions, found '" ++ found ++ "'"
  | emptyParentheses => "empty parentheses"
  | leftoverInParentheses found => "unexpected '" ++ found ++ "' inside parentheses"
  | unknownFunction name => "unknown function '" ++ name ++ "'"
  | parameterExpected function => "expected a parameter for " ++ function
  | leftoverInParameters found function =>
    "unexpected '" ++ found ++ "' in the parameters of " ++ function
  | unexpectedOperator found => "unexpected '" ++ found ++ "'"
  | uninterpretable phrase => "cannot interpret phrase '" ++ phrase ++ "'"
  | emptyPhrase => "phrase reduced to nothing"
  | settledItem => "digest_at called on a settled item"
  | nothingToFold => "consolidate called without terms"
  | lostNode => "lost group node"
  | parameterMissing => "parameter count checked above"
  | propertyExpected found => "expected a property but found '" ++ found ++ "'"
  | valueExpected found => "expected a value but found '" ++ found ++ "'"
  | nameExpected found => "expected a name but found '" ++ found ++ "'"
  | conditionExpected found => "expected a condition but found '" ++ found ++ "'"
  | wrongType allowed actual found =>
    "expected a " ++ " or ".intercalate (allowed.map ScalarType.name) ++ " but found " ++
      actual.name ++ " '" ++ found ++ "'"
  | leftOperandMissing family kind => leftOperand family kind
  | rightOperandMissing family kind => rightOperand family kind
  | parenthesisExpected kind => "expected '(' after " ++ kind.keyword
  | parameterCount kind expected actual =>
    kind.keyword ++ " takes exactly " ++ numeral expected ++
      (if expected = 1 then " parameter" else " parameters") ++ ", found " ++ numeral actual
  | boundCount actual => "BETWEEN takes exactly two bounds, found " ++ numeral actual
  | valuesMissing kind => kind.keyword ++ " requires at least one value"

end PhraseFault

namespace FormFault

/-- The class of a fault in a JSON form. -/
def kind : FormFault → ProblemKind
  | operandCount .. | valuesMissing _ => .arity
  | stringExpected .. | numericBoundExpected _ | argumentType .. | invalidDirection _
  | rowCountExpected _ => .type
  | notClause _ => .internal
  | _ => .json

/-- The message of a fault in a JSON form. -/
def message : FormFault → String
  | propertyExpected found => "expected a property descriptor, found " ++ found
  | aliasNotString => "alias reference must be a string"
  | idMissing => "property source is missing 'id'"
  | numberOutOfRange text => "number " ++ text ++ " is out of range"
  | scalarExpected found => "expected a scalar value, found " ++ found
  | operatorExpected found => "expected an operator object, found " ++ found
  | oneKeyExpected found => "operator objects must have exactly one key, found " ++ numeral found
  | unknownOperator key => "unknown operator '" ++ key ++ "'"
  | arrayExpected kind found => "'" ++ kind.jsonKey ++ "' expects an array, found " ++ found
  | operandCount kind expected actual =>
    "'" ++ kind.jsonKey ++ "' expects " ++ numeral expected ++ " operands, found " ++
      numeral actual
  | subjectExpected found => "expected a property or operator, found value " ++ found
  | stringExpected kind actual =>
    "'" ++ kind.jsonKey ++ "' compares against a string, found " ++ actual.name
  | numericBoundExpected actual => "'between' bounds must be numbers, found " ++ actual.name
  | valueListExpected kind => "'" ++ kind.jsonKey ++ "' expects a list of values"
  | valuesMissing kind => "'" ++ kind.jsonKey ++ "' requires at least one value"
  | notCondition kind => "'" ++ kind.jsonKey ++ "' is not a condition"
  | aliasNameExpected => "'as' expects an alias name"
  | argumentType kind expected actual =>
    "'" ++ kind.jsonKey ++ "' expects a " ++ expected.name ++ " argument, found " ++ actual.name
  | conditionExpected clause found =>
    "'" ++ clause.jsonKey ++ "' expects a condition, found '" ++ found.jsonKey ++ "'"
  | orderEntryExpected found =>
    "'order_by' entries are [expression, direction], found " ++ found
  | invalidDirection found => "invalid sort direction " ++ found
  | rowCountExpected found => "'limit' must be a non-negative integer, found " ++ found
  | queryExpected found => "expected a query object, found " ++ found
  | unknownClause key => "unknown clause '" ++ key ++ "'"
  | notClause kind => kind.keyword ++ " is not a clause"

end FormFault

namespace Fault

/-- The class of a fault. -/
def kind : Fault → ProblemKind
  | token fault => fault.kind
  | phrase fault => fault.kind
  | form fault => fault.kind
  | reported _ => .internal

/-- The message of a fault. -/
def message : Fault → String
  | token fault => fault.message
  | phrase fault => fault.message
  | form fault => fault.message
  | reported message => message

end Fault

/-! ## Problems -/

/-- A place in a source text, with the text found there. -/
structure Location where
  text : String
  span : Span
deriving DecidableEq, Repr

/-- A fault, the place it points at, and the source text; the text is empty where it is unknown. -/
structure Problem where
  fault : Fault
  location : Option Location := none
  expression : String := ""
deriving DecidableEq

namespace Problem

/-- The class of a problem. -/
def kind (problem : Problem) : ProblemKind := problem.fault.kind

/-- A fault in a JSON form, which has no source text. -/
def ofForm (fault : FormFault) : Problem := { fault := .form fault }

/-- Adds the source text to a problem that has none. -/
def inExpression (problem : Problem) (expression : String) : Problem :=
  if problem.expression.isEmpty then { problem with expression } else problem

/-- The message of a problem, with the place it points at. -/
def message (problem : Problem) : String :=
  match problem.location with
  | none => problem.fault.message
  | some place =>
    problem.fault.message ++ " at " ++ numeral place.span.start ++ ".." ++
      numeral place.span.stop ++ " near '" ++ place.text ++ "'"

end Problem

end RecordQuery
