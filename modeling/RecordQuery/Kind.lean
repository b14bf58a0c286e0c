/-!
# Operator kinds

The catalogue of all operators of the language. Each kind belongs to one of six families, and most
of what there is to know about a kind follows from its family: whether it is a clause, a condition,
a function with parenthesised parameters, and when it claims its neighbours while a phrase is
reduced. The few exceptions are written out in the functions below.

A kind has three names: the keyword of the query text, the key of the JSON form, and the plain name
under which descriptions of a query mention it.
-/

namespace RecordQuery

/-- The operators of the language. -/
inductive Kind where
  | equals
  | notEquals
  | greaterThan
  | lessThan
  | greaterOrEqual
  | lessOrEqual
  | contains
  | like
  | cidrMatch
  | isIn
  | between
  | containsAny
  | containsAll
  | isPresent
  | isNull
  | and
  | or
  | not
  | asName
  | count
  | uniqueCount
  | min
  | max
  | avg
  | sum
  | fromEpochTime
  | interval
  | window
  | regexpMatch
  | select
  | whereClause
  | groupBy
  | groupByPermuted
  | having
  | orderBy
  | limit
  | timeRange
deriving DecidableEq, Repr, Inhabited

/-- The families of operators; the operators of one family are written alike. -/
inductive Family where
  | comparison
  | membership
  | existence
  | logical
  | projection
  | clause
deriving DecidableEq, Repr

/-- The two operators that join conditions. -/
inductive Connective where
  | and
  | or
deriving DecidableEq, Repr

namespace Kind

/-- Every kind, in the order of the catalogue. -/
def all : List Kind :=
  [equals, notEquals, greaterThan, lessThan, greaterOrEqual, lessOrEqual, contains, like, cidrMatch,
    isIn, between, containsAny, containsAll, isPresent, isNull, and, or, not, asName, count,
    uniqueCount, min, max, avg, sum, fromEpochTime, interval, window, regexpMatch, select,
    whereClause, groupBy, groupByPermuted, having, orderBy, limit, timeRange]

/-! ## Names -/

/-- The keyword in query texts. -/
def keyword : Kind → String
  | equals => "="
  | notEquals => "!="
  | greaterThan => ">"
  | lessThan => "<"
  | greaterOrEqual => ">="
  | lessOrEqual => "<="
  | contains => "CONTAINS"
  | like => "LIKE"
  | cidrMatch => "CIDR_MATCH"
  | isIn => "IN"
  | between => "BETWEEN"
  | containsAny => "CONTAINS_ANY"
  | containsAll => "CONTAINS_ALL"
  | isPresent => "EXISTS"
  | isNull => "ISNULL"
  | and => "AND"
  | or => "OR"
  | not => "NOT"
  | asName => "AS"
  | count => "COUNT"
  | uniqueCount => "UCOUNT"
  | min => "MIN"
  | max => "MAX"
  | avg => "AVG"
  | sum => "SUM"
  | fromEpochTime => "FROM_EPOCHTIME"
  | interval => "INTERVAL"
  | window => "WINDOW"
  | regexpMatch => "REGEXP_MATCH"
  | select => "SELECT"
  | whereClause => "WHERE"
  | groupBy => "GROUP BY"
  | groupByPermuted => "GROUP BY PERMUTED"
  | having => "HAVING"
  | orderBy => "ORDER BY"
  | limit => "LIMIT"
  | timeRange => "TIME_RANGE"

/-- The key in the JSON form. -/
def jsonKey : Kind → String
  | equals => "="
  | notEquals => "!="
  | greaterThan => ">"
  | lessThan => "<"
  | greaterOrEqual => ">="
  | lessOrEqual => "<="
  | contains => "contains"
  | like => "like"
  | cidrMatch => "cidr_match"
  | isIn => "in"
  | between => "between"
  | containsAny => "contains_any"
  | containsAll => "contains_all"
  | isPresent => "exists"
  | isNull => "isnull"
  | and => "and"
  | or => "or"
  | not => "not"
  | asName => "as"
  | count => "count"
  | uniqueCount => "ucount"
  | min => "min"
  | max => "max"
  | avg => "avg"
  | sum => "sum"
  | fromEpochTime => "from_epochtime"
  | interval => "interval"
  | window => "window"
  | regexpMatch => "regexp_match"
  | select => "select"
  | whereClause => "where"
  | groupBy => "group_by"
  | groupByPermuted => "group_by_permuted"
  | having => "having"
  | orderBy => "order_by"
  | limit => "limit"
  | timeRange => "time_range"

/-- The plain name, which descriptions of a query use. -/
def name : Kind → String
  | equals => "equals"
  | notEquals => "not_equals"
  | greaterThan => "greater_than"
  | lessThan => "less_than"
  | greaterOrEqual => "greater_or_equal"
  | lessOrEqual => "less_or_equal"
  | isPresent => "exists"
  | isNull => "is_null"
  | uniqueCount => "unique_count"
  | fromEpochTime => "from_epoch_time"
  | kind => kind.jsonKey

/-- The kind whose keyword is one given word. The keywords of several words are put together from
single tokens and are not found here. -/
def ofKeyword? (word : String) : Option Kind :=
  all.find? fun kind => !kind.keyword.toList.contains ' ' && kind.keyword == word

/-- The kind of a JSON key. -/
def ofJsonKey? (key : String) : Option Kind := all.find? fun kind => kind.jsonKey == key

/-- The kind of a plain name. -/
def ofName? (name : String) : Option Kind := all.find? fun kind => kind.name == name

/-! ## Families and what follows from them -/

/-- The family of a kind. -/
def family : Kind → Family
  | equals | notEquals | greaterThan | lessThan | greaterOrEqual | lessOrEqual | contains | like
  | cidrMatch => .comparison
  | isIn | between | containsAny | containsAll => .membership
  | isPresent | isNull => .existence
  | and | or | not => .logical
  | asName | count | uniqueCount | min | max | avg | sum | fromEpochTime | interval | window
  | regexpMatch => .projection
  | select | whereClause | groupBy | groupByPermuted | having | orderBy | limit | timeRange =>
      .clause

/-- Whether a kind is a clause of a query. -/
def isClause (kind : Kind) : Bool := kind.family == .clause

/-- Whether a kind joins conditions. -/
def isConnective : Kind → Bool
  | and | or => true
  | _ => false

/-- Whether a kind aggregates the values of a property over records. -/
def isAggregate : Kind → Bool
  | count | uniqueCount | min | max | avg | sum => true
  | _ => false

/-- Whether a kind is written with parameters in parentheses. -/
def isFunction (kind : Kind) : Bool :=
  match kind.family with
  | .membership => true
  | .projection => kind != asName
  | .clause => kind == timeRange
  | _ => false

/-- Whether a kind is written before its property. -/
def precedesProperty (kind : Kind) : Bool := kind.family == .existence

/-- Whether a kind is true or false of a record. -/
def isCondition (kind : Kind) : Bool :=
  match kind.family with
  | .comparison | .membership | .existence | .logical => true
  | .projection => kind == regexpMatch
  | .clause => false

/-- What an aggregate without `AS` appends to the name of its property. -/
def aliasSuffix? : Kind → Option String
  | count => some "Count"
  | uniqueCount => some "UniqueCount"
  | min => some "Min"
  | max => some "Max"
  | avg => some "Avg"
  | sum => some "Sum"
  | _ => none

/-- When a kind is reduced inside a phrase: the lowest tier first. A kind of tier 0 never is. -/
def tier (kind : Kind) : Nat :=
  match kind.family with
  | .projection => if kind = asName then 5 else 1
  | .comparison | .membership => 2
  | .existence => 3
  | .logical => if kind = not then 4 else 0
  | .clause => 0

/-- Whether a kind is one of the two grouping clauses, of which a query has one at most. -/
def isGrouping : Kind → Bool
  | groupBy | groupByPermuted => true
  | _ => false

/-- Whether two kinds compete for one place in a query. -/
def competes (a b : Kind) : Bool := a == b || (a.isGrouping && b.isGrouping)

/-- The clauses, in the order in which a query lists them. -/
def clauseOrder : List Kind :=
  [select, whereClause, groupBy, groupByPermuted, having, orderBy, limit, timeRange]

/-- The place of a kind among the clauses; kinds that are no clause come last. -/
def rank (kind : Kind) : Nat := clauseOrder.idxOf kind

end Kind

namespace Family

/-- The plain name of a family. -/
def name : Family → String
  | comparison => "comparison"
  | membership => "membership"
  | existence => "existence"
  | logical => "logical"
  | projection => "projection"
  | clause => "clause"

end Family

namespace Connective

/-- The operator a connective is. -/
def kind : Connective → Kind
  | and => .and
  | or => .or

/-- The word between the conditions. -/
def keyword (connective : Connective) : String := connective.kind.keyword

end Connective

/-- A text with its ASCII letters in upper case. -/
def upperCase (text : String) : String := String.ofList (text.toList.map Char.toUpper)

/-- Words that are parts of keywords, or values, without being a keyword themselves. -/
def reservedWords : List String :=
  ["GROUP", "BY", "ORDER", "PERMUTED", "ASC", "DESC", "TRUE", "FALSE", "NULL"]

/-- Whether a word, in any case, cannot stand for a property without brackets. -/
def isReserved (word : String) : Bool :=
  (Kind.ofKeyword? (upperCase word)).isSome || reservedWords.contains (upperCase word)

end RecordQuery
