import RecordQuery.Kind

/-!
# The list of operators

Every operator with the shape it has in a query text and the key it has in JSON, family by family.
-/

namespace RecordQuery.Overview

/-- The families, in the order in which they are listed. -/
def families : List Family := [.clause, .logical, .comparison, .membership, .existence, .projection]

/-- The heading of a family. -/
def heading : Family → String
  | .clause => "CLAUSES"
  | .logical => "LOGICAL"
  | .comparison => "COMPARISON"
  | .membership => "MEMBERSHIP"
  | .existence => "EXISTENCE"
  | .projection => "PROJECTION"

/-- The shape of an operator in a query text. -/
def usage (kind : Kind) : String :=
  match kind.family with
  | .clause => if kind = .timeRange then kind.keyword ++ "(start, end)" else kind.keyword ++ " ..."
  | .logical => (if kind.isConnective then "cond " else "") ++ kind.keyword ++ " cond"
  | .comparison => "prop " ++ kind.keyword ++ " value"
  | .membership => "prop " ++ kind.keyword ++ " (value, ...)"
  | .existence => kind.keyword ++ " prop"
  | .projection =>
    if kind = .asName then "expr " ++ kind.keyword ++ " name" else kind.keyword ++ "(prop, ...)"

/-- The width of the column of shapes. -/
def usageWidth : Nat := 34

/-- The line about an operator. -/
def line (kind : Kind) : String :=
  let note := match kind.aliasSuffix? with
    | some suffix => "  (alias <prop>" ++ suffix ++ ")"
    | none => ""
  let shape := String.ofList (List.rightpad usageWidth ' ' (usage kind).toList)
  "  " ++ shape ++ " " ++ kind.jsonKey ++ note ++ "\n"

/-- The lines about a family. -/
def block (family : Family) : String :=
  let kinds := Kind.all.filter fun kind => kind.family == family
  "\n" ++ heading family ++ "\n\n" ++ String.join (kinds.map line)

/-- The whole list. -/
def text : String := "SAQL OPERATORS\n" ++ String.join (families.map block)

end RecordQuery.Overview
