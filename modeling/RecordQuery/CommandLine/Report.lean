import RecordQuery.Caret
import RecordQuery.Highlight

/-!
# Reports for editors

The JSON forms in which an editor gets the caret and the highlights of a text.
-/

namespace RecordQuery

/-- The JSON form of something that may be missing. -/
def Json.ofOption {α : Type} (f : α → Json) : Option α → Json
  | some a => f a
  | none => .null

/-- The report of a span. -/
def Span.report (s : Span) : Json := .object [("start", .integer s.start), ("end", .integer s.stop)]

/-- The report of a property reference. -/
def PropertyRef.report (p : PropertyRef) : Json :=
  .object [("namespace", .ofOption .string p.scope?), ("id", .string p.label),
    ("alias", .bool p.isAlias)]

/-- The report of a caret. -/
def Caret.report (caret : Caret) : Json :=
  .object [
    ("offset", .integer caret.offset),
    ("token_text", .ofOption (fun token => .string token.text) caret.token),
    ("token_span", .ofOption (fun token => token.span.report) caret.token),
    ("facet", .string caret.facet.name),
    ("clause", .ofOption (fun kind => .string kind.name) caret.clause),
    ("phrase", .ofOption Span.report caret.phrase),
    ("negated", .bool caret.synopsis.negated),
    ("alias", .ofOption .string caret.synopsis.aliasName),
    ("aggregate", .bool caret.synopsis.aggregates),
    ("property", .ofOption PropertyRef.report caret.synopsis.property),
    ("operator", .ofOption (fun kind => .string kind.name) caret.synopsis.operator),
    ("values", .array (caret.synopsis.values.map ScalarValue.toJson))]

/-- The report of a highlight. -/
def Highlight.report (highlight : Highlight) : Json :=
  .object [("span", highlight.span.report), ("class", .string highlight.category.name)]

end RecordQuery
