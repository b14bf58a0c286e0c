import RecordQuery.Problem

/-!
# Property references

A property reference names a property of the searched records, in the default namespace or in
another, or an alias that the query declares with `AS`.

In a query text a reference is a bare word where that is read back as the same reference, and stands
in brackets otherwise. The namespace is written before a colon. So that no other colon is taken for
that one, a name with a colon in the default namespace is written with the namespace spelt out.
-/

namespace RecordQuery

/-- A reference to a property, or to an alias. The default namespace is `none`. -/
inductive PropertyRef where
  | field (scope : Option String) (id : String)
  | byAlias (name : String)
deriving DecidableEq, Repr, Inhabited

namespace PropertyRef

/-- The namespace of a property written without one. -/
def defaultScope : String := "default"

/-- A property in the default namespace. -/
def ofId (id : String) : PropertyRef := field none id

/-- A property in a namespace, which may be the default one. -/
def inScope (scope id : String) : PropertyRef :=
  field (if scope = defaultScope then none else some scope) id

/-- The id of the property, or the name of the alias. -/
def label : PropertyRef → String
  | field _ id => id
  | byAlias name => name

/-- The namespace, if it is not the default one. -/
def scope? : PropertyRef → Option String
  | field scope _ => scope
  | byAlias _ => none

/-- The namespace. -/
def scope (p : PropertyRef) : String := p.scope?.getD defaultScope

/-- Whether a reference is to an alias. -/
def isAlias : PropertyRef → Bool
  | field .. => false
  | byAlias _ => true

/-! ## Query text -/

/-- A text cut at its first colon, if both parts hold something. -/
def splitScope (text : List Char) : Option (List Char × List Char) :=
  let scope := text.takeWhile (· ≠ ':')
  match text.dropWhile (· ≠ ':') with
  | _ :: name => if scope.isEmpty || name.isEmpty then none else some (scope, name)
  | [] => none

/-- The reference that a text denotes, a registered name standing for its id. -/
def ofText (text : String) (registry : Registry) : PropertyRef :=
  match splitScope text.toList with
  | some (scope, name) =>
    inScope (String.ofList scope) (registry.propertyId (String.ofList name))
  | none => ofId (registry.propertyId text)

/-- The characters that a bare name starts with. -/
def startsBare (c : Char) : Bool :=
  ('A' ≤ c && c ≤ 'Z') || ('a' ≤ c && c ≤ 'z') || c == '_'

/-- The characters that a bare name goes on with. -/
def continuesBare (c : Char) : Bool :=
  startsBare c || ('0' ≤ c && c ≤ '9') || c == '.' || c == '-'

/-- Whether a name is read as one word without brackets. -/
def isBare (name : String) : Bool :=
  match name.toList with
  | [] => false
  | c :: rest => startsBare c && rest.all continuesBare

/-- The name a reference is shown under. -/
def shownName (p : PropertyRef) (registry : Registry) : String :=
  match p with
  | field _ id => registry.propertyName id
  | byAlias name => name

/-- The text of a reference, before it is put into brackets. -/
def writtenText (p : PropertyRef) (registry : Registry) : String :=
  let name := p.shownName registry
  match p with
  | field (some scope) _ => scope ++ ":" ++ name
  | field none _ => if name.toList.contains ':' then defaultScope ++ ":" ++ name else name
  | byAlias _ => name

/-- Whether a reference is written without brackets. -/
def isPlain (p : PropertyRef) (registry : Registry) : Bool :=
  let name := p.shownName registry
  (match p.scope? with
    | some scope => isBare scope
    | none => true) && isBare name && !isReserved name

/-- A reference in a query text. -/
def render (p : PropertyRef) (registry : Registry) : String :=
  let text := p.writtenText registry
  if p.isPlain registry then text else "[" ++ text ++ "]"

/-! ## JSON form -/

/-- The JSON form of a reference. -/
def toJson : PropertyRef → Json
  | byAlias name => .object [("alias", .string name)]
  | field (some scope) id =>
    .object [("source", .object [("ns", .string scope), ("id", .string id)])]
  | field none id => .object [("source", .string id)]

/-- The property that the value under `source` denotes, in a descriptor that is given for the
message. -/
def ofSource (descriptor : Json) : Option Json → Except FormFault PropertyRef
  | some (.string id) => .ok (ofId id)
  | some (.object source) =>
    match (Table.get? source "id").bind Json.string? with
    | none => .error .idMissing
    | some id =>
      match (Table.get? source "ns").bind Json.string? with
      | some scope => .ok (inScope scope id)
      | none => .ok (ofId id)
  | _ => .error (.propertyExpected descriptor.text)

/-- The reference that a JSON object denotes. -/
def ofJson (json : Json) : Except FormFault PropertyRef :=
  match json.members? with
  | none => .error (.propertyExpected json.text)
  | some members =>
    match Table.get? members "alias" with
    | some (.string name) => .ok (byAlias name)
    | some _ => .error .aliasNotString
    | none => ofSource json (Table.get? members "source")

end PropertyRef

end RecordQuery
