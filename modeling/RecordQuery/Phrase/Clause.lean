import RecordQuery.Phrase.Group

/-!
# Clauses

A query text is a sequence of clauses, each a keyword and a body; semicolons between them mean
nothing. A body is read from the elements behind its keyword and ends where the next clause begins.
Reading a body may look beyond that place only to fail.

A clause may come once, the two grouping clauses counting as one. A keyword without a body is a
fault, but not one that stops the reading.
-/

namespace RecordQuery

namespace Clause

open Phrase

/-- Whether nothing is left of the body of a clause. -/
def atEnd : List Element → Bool
  | [] => true
  | e :: _ => e.token.isClause || e.token.isSemicolon

/-- Phrases with commas between them, and what is left behind them. -/
def commaList (setting : Setting) (kind : Kind) (token : Token) (elements : List Element) :
    Parse (List Item × List Element) := do
  match ← (drawOne setting elements).forget with
  | none =>
    let place := (elements.head?.map Element.token).getD token
    Parse.failAt setting (.expressionExpected kind) place
  | some item =>
    match _h : afterRun elements with
    | [] => return ([item], [])
    | e :: rest =>
      if e.token.isComma then do
        let (items, left) ← commaList setting kind token rest
        return (item :: items, left)
      else return ([item], e :: rest)
termination_by elements.length
decreasing_by
  have := length_afterRun_le elements
  rw [_h] at this
  simp only [List.length_cons] at this
  omega

/-- The expressions that some items are. -/
def expressions (setting : Setting) : List Item → Parse (List Operand)
  | [] => return []
  | item :: rest => do
    let expression ← item.expression setting
    return expression :: (← expressions setting rest)

/-- A clause that lists expressions. -/
def projection (setting : Setting) (kind : Kind) (token : Token) (elements : List Element) :
    Parse (Operator × List Element) := do
  let (items, left) ← commaList setting kind token elements
  return ({ kind, operands := ← expressions setting items }, left)

/-- A clause that holds a condition. -/
def condition (setting : Setting) (kind : Kind) (token : Token) (elements : List Element) :
    Parse (Operator × List Element) := do
  let (item, left) ← (drawGroup setting elements).forget
  match item with
  | none => Parse.failAt setting (.conditionClauseExpected kind) token
  | some item =>
    match item.condition? with
    | some condition => return ({ kind, operands := [.operator condition] }, left)
    | none =>
      Parse.failAt setting (.conditionClauseMismatch kind (setting.slice item.span)) token

/-! ## Ordering -/

/-- Whether a token goes on with an entry of an ordering. Connectives do not end one. -/
def continuesEntry (token : Token) : Bool := !token.isDelimiter && !token.rule.any Kind.isClause

/-- The elements of the first entry of an ordering. -/
def entry : List Element → List Element
  | [] => []
  | e :: rest =>
    if e.token.isDelimiter then [] else e :: rest.takeWhile fun e => continuesEntry e.token

/-- The elements behind the first entry of an ordering. -/
def afterEntry : List Element → List Element
  | [] => []
  | e :: rest =>
    if e.token.isDelimiter then e :: rest else rest.dropWhile fun e => continuesEntry e.token

/-- An entry of an ordering leaves no more elements than there were. -/
theorem length_afterEntry_le (elements : List Element) :
    (afterEntry elements).length ≤ elements.length := by
  cases elements with
  | nil => simp [afterEntry]
  | cons e rest =>
    have := (List.dropWhile_sublist (l := rest) fun e => continuesEntry e.token).length_le
    simp only [afterEntry]
    split <;> simp only [List.length_cons] <;> omega

/-- The direction that the last item of an entry is, if there are items before it. -/
def direction (before : List Item) (last : Item) : Option String :=
  match last.term with
  | .raw => if before.isEmpty then none else direction? last.token.text
  | _ => none

/-- The expression and the direction of an entry. -/
def orderEntry (setting : Setting) (items : List Item) (last : Item) : Parse (List Operand) := do
  match direction items last with
  | none =>
    Parse.failAt setting (.directionExpected (setting.slice last.span)) last.token
  | some word => do
    let _ ← last.word setting .direction
    let subject ← reduce setting items
    return [← subject.expression setting, .value (.ofString word)]

/-- The entries of an ordering, and what is left behind them. -/
def orderEntries (setting : Setting) (token : Token) (elements : List Element) :
    Parse (List Operand × List Element) := do
  let items ← (readAll (entry elements) (afterEntry elements)).forget
  match items.getLast? with
  | none =>
    let place := (elements.head?.map Element.token).getD token
    Parse.failAt setting (.expressionExpected .orderBy) place
  | some last => do
    let operands ← orderEntry setting items.dropLast last
    match _h : afterEntry elements with
    | [] => return (operands, [])
    | e :: rest =>
      if e.token.isComma then do
        let (more, left) ← orderEntries setting token rest
        return (operands ++ more, left)
      else return (operands, e :: rest)
termination_by elements.length
decreasing_by
  have := length_afterEntry_le elements
  rw [_h] at this
  simp only [List.length_cons] at this
  omega

/-! ## Limits and ranges -/

/-- A limit on the number of rows. -/
def limit (setting : Setting) (token : Token) (elements : List Element) :
    Parse (Operator × List Element) := do
  match ← (drawOne setting elements).forget with
  | none => Parse.failAt setting .rowCountExpected token
  | some item => do
    let value ← item.value setting [.number]
    if value.isCount then
      return ({ kind := .limit, operands := [.value value] }, afterRun elements)
    else Parse.failAt setting (.rowCountMismatch value.text) item.token

/-- A range of time, whose bounds stand in the parentheses of the keyword. -/
def timeRange (setting : Setting) (element : Element) : Parse Operator := do
  let items ← if element.token.hasChildren then some <$> element.parameters else pure none
  let claim : Claim := ⟨.timeRange, element.token, items, none, none⟩
  let bounds ← claim.exactParameters setting 2
  return { kind := .timeRange, operands := ← Claim.values setting [.string, .number] bounds }

/-! ## Any clause -/

/-- The clause of a kind, read the way a family reads it, and what is left behind it. -/
def produce (setting : Setting) (family : Family) (kind : Kind) (keyword : Element)
    (elements : List Element) : Parse (Operator × List Element) :=
  match family with
  | .clause =>
    match kind with
    | .select | .groupBy | .groupByPermuted => projection setting kind keyword.token elements
    | .whereClause | .having => condition setting kind keyword.token elements
    | .orderBy => do
      let (operands, left) ← orderEntries setting keyword.token elements
      return ({ kind, operands }, left)
    | .limit => limit setting keyword.token elements
    | .timeRange => do return (← timeRange setting keyword, elements)
    | _ => throw { fault := .phrase (.notClause kind) }
  | _ => throw { fault := .phrase (.cannotStartClause kind) }

/-- Reads and notes the clause behind a keyword. The answer is how many elements its body takes. -/
def read (setting : Setting) (kind : Kind) (keyword : Element) (elements : List Element) :
    Parse Nat := do
  let token := keyword.token
  if (← get).draft.clauses.any fun entry => entry.1.competes kind then
    Parse.failAt setting (.repeatedClause kind) token
  if !token.hasChildren && atEnd elements then
    Parse.warn (setting.problemAt (.emptyClause kind) token)
    return 0
  let (clause, left) ← produce setting kind.family kind keyword elements
  if let some next := left.head? then
    if !atEnd left then
      Parse.failAt setting (.leftoverInClause (setting.describe next.token) kind) next.token
  let used := elements.length - left.length
  let span := (elements.take used).foldl (fun span e => span.cover e.token.fullSpan) token.fullSpan
  Parse.recordPhrase token span clause
  Parse.recordClause kind (clause.withSpan span)
  return used

/-- Reads and notes all clauses of a query. -/
def readAll (setting : Setting) (elements : List Element) : Parse Unit := do
  match elements with
  | [] => return
  | e :: rest =>
    if e.token.isSemicolon then readAll setting rest
    else
      match e.token.rule with
      | some kind =>
        if e.token.isClause then do
          let used ← read setting kind e rest
          readAll setting (rest.drop used)
        else Parse.failAt setting (.clauseKeywordExpected e.token.text) e.token
      | none => Parse.failAt setting (.clauseKeywordExpected e.token.text) e.token
termination_by elements.length
decreasing_by
  · simp
  · simp only [List.length_drop, List.length_cons]; omega

/-- Reads a condition without a keyword, as the condition of a query. -/
def readCondition (setting : Setting) (elements : List Element) : Parse Unit := do
  let (item, left) ← (drawGroup setting elements).forget
  match item with
  | none => return
  | some item => do
    if let some next := left.head? then
      Parse.failAt setting (.leftoverAfterCondition (setting.describe next.token)) next.token
    let condition ← item.condition setting
    Parse.recordClause .whereClause
      { kind := .whereClause, operands := [.operator condition], span := some item.span }

end Clause

end RecordQuery
