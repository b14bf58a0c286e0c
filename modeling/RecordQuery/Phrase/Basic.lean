import RecordQuery.Query.Draft
import RecordQuery.Token.Merge

/-!
# Phrases

A phrase is a run of tokens that stands for one operator or one operand. Its elements are *items*: a
token as it stands, an operator that still has to claim its neighbours, or a finished operand.

Reading phrases takes *notes*. They hold the draft of the query, the phrases completed so far, in
order, and what single tokens were read as. Notes are kept when the reading fails, so that an editor
can be told about the phrases before the fault.

Which phrase owns a token, and which phrase a phrase lies in, is not recorded but follows from the
list of phrases: the owner of a token is the first phrase that encloses it, and the parent of a
phrase is the first later one that encloses it.
-/

namespace RecordQuery

/-- What a token was read as. -/
inductive Role where
  | property
  | value
  /-- A name that `AS` introduces. -/
  | aliasName
  /-- The direction of an ordering. -/
  | direction
deriving DecidableEq, Repr

/-- The plain name of a role. -/
def Role.name : Role → String
  | property => "property"
  | value => "value"
  | aliasName => "alias"
  | direction => "direction"

mutual

/-- What an item of a phrase is so far. -/
inductive Term where
  /-- A token that has no meaning yet. -/
  | raw
  /-- An operator that has not claimed its neighbours, and the parameters in its parentheses. -/
  | pending (kind : Kind) (parameters : Option (List Item))
  /-- A finished operand. -/
  | node (operand : Operand)

/-- An item of a phrase: the token it begins with or is about, its span, and what it is. -/
structure Item where
  token : Token
  span : Span
  term : Term

end

instance : Inhabited Item := ⟨default, default, .raw⟩

/-- A completed phrase: its operator, the token the operator is about, and its span. -/
structure Phrase where
  kind : Kind
  anchor : Nat
  span : Span
  operator : Operator
deriving Inhabited

/-- What is noted while phrases are read. -/
structure Notes where
  draft : Draft := {}
  /-- The phrases completed, in order. -/
  phrases : Array Phrase := #[]
  /-- What tokens were read as, the latest first. -/
  roles : List (Nat × Role) := []
  /-- The groups whose contents were read. -/
  opened : List Nat := []
deriving Inhabited

namespace Notes

/-- What a token was read as. -/
def role? (notes : Notes) (token : Token) : Option Role := List.lookup token.id notes.roles

/-- The phrase that owns a token: the first one that encloses it. -/
def owner? (notes : Notes) (token : Token) : Option Nat :=
  notes.phrases.findIdx? fun phrase => phrase.span.encloses token.fullSpan

/-- The phrase that a phrase lies in: the first one after it that encloses it. -/
def parent? (notes : Notes) (index : Nat) : Option Nat := do
  let phrase ← notes.phrases[index]?
  let later := notes.phrases.toList.drop (index + 1)
  return index + 1 + (← later.findIdx? fun other => other.span.encloses phrase.span)

/-- Whether a token was read: it lies in a phrase, or it is a group whose contents were read. -/
def isRead (notes : Notes) (token : Token) : Bool :=
  (notes.owner? token).isSome || notes.opened.contains token.id

end Notes

/-- What stays the same while a text is read. -/
structure Setting where
  source : List Char
  registry : Registry
  ceilings : Ceilings

namespace Setting

/-- The source text as a string. -/
def text (setting : Setting) : String := String.ofList setting.source

/-- The part of the source in a span. -/
def slice (setting : Setting) (span : Span) : String := String.ofList (span.slice setting.source)

/-- A token in the words of the source, with its parentheses. -/
def describe (setting : Setting) (token : Token) : String := setting.slice token.fullSpan

/-- A fault that points at a token. -/
def problemAt (setting : Setting) (fault : PhraseFault) (token : Token) : Problem :=
  { fault := .phrase fault
    location := some ⟨setting.describe token, token.fullSpan⟩
    expression := setting.text }

/-- The fault of a loop that goes on for too long. -/
def exhausted (setting : Setting) : Problem :=
  { fault := .phrase (.tooManySteps setting.ceilings.steps), expression := setting.text }

end Setting

/-! ## Reading with notes -/

/-- Reading that takes notes and may fail. -/
abbrev Reader (ε α : Type) := ExceptT ε (StateM Notes) α

/-- Reading that fails with a problem. -/
abbrev Parse (α : Type) := Reader Problem α

namespace Parse

/-- Fails with a fault that points at a token. -/
def failAt {α : Type} (setting : Setting) (fault : PhraseFault) (token : Token) : Parse α :=
  throw (setting.problemAt fault token)

/-- Notes what a token was read as. -/
def setRole (token : Token) (role : Role) : Parse Unit :=
  modify fun notes => { notes with roles := (token.id, role) :: notes.roles }

/-- Notes a name and what it stands for. -/
def bindAlias (name : String) (target : Operand) : Parse Unit :=
  modify fun notes => { notes with draft := notes.draft.bind name target }

/-- Notes a completed phrase. -/
def recordPhrase (anchor : Token) (span : Span) (operator : Operator) : Parse Unit :=
  modify fun notes =>
    { notes with
      phrases := notes.phrases.push ⟨operator.kind, anchor.id, span, operator.withSpan span⟩ }

/-- Notes a problem that does not stop the reading. -/
def warn (problem : Problem) : Parse Unit :=
  modify fun notes => { notes with draft := notes.draft.note problem }

/-- Notes a clause. -/
def recordClause (kind : Kind) (clause : Operator) : Parse Unit :=
  modify fun notes => { notes with draft := notes.draft.record kind clause }

/-- Notes that the contents of a group were read. -/
def markOpened (token : Token) : Parse Unit :=
  modify fun notes => { notes with opened := token.id :: notes.opened }

end Parse

end RecordQuery
