import RecordQuery.Operator.Basic

/-!
# Operators in query texts

Rendering puts the texts of the operands together as the family of the operator asks. Groups inside
groups stand in parentheses, and so does a negation inside a negation. A group without conditions is
rendered as nothing, and whatever it stands in leaves it out.
-/

namespace RecordQuery.Operator

/-- Texts with commas between them. -/
def commaList (texts : List String) : String := ", ".intercalate texts

/-- The text of an operand where a connective inside it would be read otherwise. -/
def nested (operand : Operand) (text : String) : String :=
  match operand with
  | .operator op => if op.isConnective && 1 < op.operands.length then "(" ++ text ++ ")" else text
  | _ => text

/-- The text of an operator, given the texts of its operands. -/
def layout (registry : Registry) (op : Operator) (texts : List String) : String :=
  let subject := match op.property with
    | some p => p.render registry
    | none => texts.headD ""
  let rest := match op.property with
    | some _ => List.zip op.operands texts
    | none => (List.zip op.operands texts).tail
  let restTexts := rest.map Prod.snd
  let keyword := op.kind.keyword
  match op.kind.family with
  | .comparison => subject ++ " " ++ keyword ++ " " ++ restTexts.headD ""
  | .membership => subject ++ " " ++ keyword ++ " (" ++ commaList restTexts ++ ")"
  | .existence =>
    keyword ++ " " ++ (match op.property with
      | some p => p.render registry
      | none => "")
  | .logical =>
    if op.kind = .not then
      match op.operands, texts with
      | operand :: _, text :: _ =>
        match operand with
        | .operator ⟨.not, _, _, _⟩ => "NOT (" ++ text ++ ")"
        | _ =>
          let inner := nested operand text
          if inner.isEmpty then "" else "NOT " ++ inner
      | _, _ => ""
    else
      (" " ++ keyword ++ " ").intercalate
        ((List.zipWith nested op.operands texts).filter fun text => !text.isEmpty)
  | .projection =>
    if op.kind = .asName then
      let name := (rest.head?.bind fun entry => entry.1.string?).getD ""
      subject ++ " AS " ++ (PropertyRef.byAlias name).render registry
    else
      let arguments := rest.map fun (operand, text) =>
        match op.kind, operand with
        | .regexpMatch, .value v => Text.quoteVerbatim v.text
        | _, _ => text
      keyword ++ "(" ++ commaList (subject :: arguments) ++ ")"
  | .clause =>
    match op.kind with
    | .orderBy =>
      let entries := (pairs (List.zip op.operands texts)).map fun entry =>
        let direction := ((entry[1]?).bind fun part => part.1.string?).getD "asc"
        ((entry.head?.map Prod.snd).getD "") ++ " " ++ upperCase direction
      keyword ++ " " ++ commaList entries
    | .timeRange => keyword ++ "(" ++ commaList texts ++ ")"
    | _ => keyword ++ " " ++ commaList texts

mutual

/-- An operator in a query text. -/
def render (registry : Registry) : Operator → String
  | ⟨kind, property, operands, span⟩ =>
    layout registry ⟨kind, property, operands, span⟩ (renderOperands registry operands)

/-- Operands in a query text. -/
def renderOperands (registry : Registry) : List Operand → List String
  | [] => []
  | .property p :: rest => p.render registry :: renderOperands registry rest
  | .value v :: rest => v.render registry :: renderOperands registry rest
  | .operator op :: rest => render registry op :: renderOperands registry rest

end

end RecordQuery.Operator

namespace RecordQuery.Operand

/-- An operand in a query text. -/
def render (registry : Registry) : Operand → String
  | property p => p.render registry
  | value v => v.render registry
  | operator op => op.render registry

end RecordQuery.Operand
