import RecordQuery.Phrase.Clause
import RecordQuery.Query.Basic

/-!
# Reading query texts

A reading holds a text cut into tokens, and the notes taken of it so far. Reading the clauses, or a
condition alone, turns the notes into a query; where that fails, the notes up to the fault remain.
-/

namespace RecordQuery

/-- A text that is being read. -/
structure Reading where
  setting : Setting
  forest : TokenForest
  notes : Notes

namespace Reading

/-- Cuts a text into tokens. -/
def start (text : String) (registry : Registry) (ceilings : Ceilings) : Except Problem Reading := do
  let forest ← TokenForest.ofText text ceilings
  return {
    setting := ⟨forest.source, registry, ceilings⟩
    forest := forest.merge
    notes := { draft := { problems := forest.problems } } }

/-- The elements at the top level. -/
def elements (r : Reading) : List Element := TokenTree.elements r.setting r.forest.trees

/-- Goes on with a reading. -/
def resume {ε α : Type} (r : Reading) (reading : Reader ε α) : Except ε α × Reading :=
  let (result, notes) := (reading.run.run r.notes).run
  (result, { r with notes })

/-- The query that a reading of the text leads to. -/
def compile (r : Reading) (reading : Parse Unit) : Except Problem Query :=
  match r.resume reading with
  | (.ok _, done) => .ok (.ofDraft done.notes.draft)
  | (.error problem, _) => .error (problem.inExpression r.setting.text)

/-- Reads all clauses. A problem that stops the reading is noted; the answer is whether there was
none. -/
def evaluate (r : Reading) : Bool × Reading :=
  match r.resume (Clause.readAll r.setting r.elements) with
  | (.ok _, done) => (true, done)
  | (.error problem, done) =>
    let draft := done.notes.draft.note (problem.inExpression r.setting.text)
    (false, { done with notes := { done.notes with draft } })

/-- Every token of the text, in the order of their numbers. -/
def tokens (r : Reading) : List Token := r.forest.tokens

end Reading

namespace Query

/-- The query that a text denotes. -/
def ofText (text : String) (registry : Registry) (ceilings : Ceilings) : Except Problem Query := do
  let r ← Reading.start text registry ceilings
  r.compile (Clause.readAll r.setting r.elements)

/-- The query whose condition a text denotes. -/
def ofCondition (text : String) (registry : Registry) (ceilings : Ceilings) :
    Except Problem Query := do
  let r ← Reading.start text registry ceilings
  r.compile (Clause.readCondition r.setting r.elements)

end Query

end RecordQuery
