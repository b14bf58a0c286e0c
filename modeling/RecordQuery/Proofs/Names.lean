import RecordQuery.Proofs.Reader
import RecordQuery.Proofs.Shape

/-!
# Names in the order of reading

Whether a word is read as a property or as an alias depends on the names that were bound before it.
`Operator.mentions` lists what reading the text of an operator does with names, in the order in
which it does so: it looks references up, and it binds the names of `AS` and the default names of
aggregates. The text of the operator gives its references back exactly if each of them is to an
alias when its name is bound already, and not otherwise, which is what `Mention.resolves` asks.

`Reader.Yields` says that a reading succeeds, given which names are bound before it, and which names
are bound after it.
-/

namespace RecordQuery

/-- What reading a text does with a name. -/
inductive Mention where
  /-- Looks up the name that a reference is written as. -/
  | refer (p : PropertyRef)
  /-- Binds a name. -/
  | bind (name : String)

namespace Mention

/-- The names that are bound after some mentions. -/
def bound : List String → List Mention → List String
  | names, [] => names
  | names, refer _ :: rest => bound names rest
  | names, bind name :: rest => bound (name :: names) rest

/-- Whether each reference in some mentions is to an alias exactly if its name is bound. -/
def resolves (registry : Registry) : List String → List Mention → Bool
  | _, [] => true
  | names, refer p :: rest =>
    p.isAlias == names.contains (p.writtenText registry) && resolves registry names rest
  | names, bind name :: rest => resolves registry (name :: names) rest

@[simp] lemma bound_append (names : List String) (a b : List Mention) :
    bound names (a ++ b) = bound (bound names a) b := by
  induction a generalizing names with
  | nil => rfl
  | cons mention a ih => cases mention <;> exact ih _

@[simp] lemma resolves_append (registry : Registry) (names : List String) (a b : List Mention) :
    resolves registry names (a ++ b) =
      (resolves registry names a && resolves registry (bound names a) b) := by
  induction a generalizing names with
  | nil => simp [resolves, bound]
  | cons mention a ih =>
    cases mention with
    | refer p => rw [List.cons_append, resolves, ih, resolves, bound, Bool.and_assoc]
    | bind name => rw [List.cons_append, resolves, ih, resolves, bound]

/-- A reference that resolves is an alias exactly if its name is bound before it. -/
lemma resolves_refer {registry : Registry} {names : List String} {p : PropertyRef}
    (h : resolves registry names [refer p] = true) :
    p.isAlias = names.contains (p.writtenText registry) := by
  simpa [resolves] using h

end Mention

/-- Whether a clause reads all its expressions before it looks up those that are properties. -/
def Kind.looksUpLast : Kind → Bool
  | select | groupBy | groupByPermuted => true
  | _ => false

namespace Operator

/-- The name that an operator introduces. -/
def introduces? (op : Operator) : Option String :=
  if op.kind = .asName then op.values.head?.bind ScalarValue.string? else op.defaultAlias?

/-- Only `AS` and aggregates introduce names. -/
lemma introduces?_eq_none {op : Operator} (h : op.kind.family ≠ .projection) :
    op.introduces? = none := by
  have hkind : op.kind ≠ .asName ∧ op.kind.aliasSuffix? = none := by
    cases hop : op.kind <;> rw [hop] at h <;> first | exact ⟨by decide, rfl⟩ | exact absurd rfl h
  rw [introduces?, if_neg hkind.1, defaultAlias?, hkind.2]

/-- The references among some operands. -/
def references (operands : List Operand) : List Mention :=
  operands.filterMap fun
    | .property p => some (.refer p)
    | _ => none

mutual

/-- What reading the text of an operator does with names. -/
def mentions : Operator → List Mention
  | ⟨kind, property, operands, span⟩ =>
    property.toList.map .refer ++
      (mentionsIn (!kind.looksUpLast) operands ++
        (if kind.looksUpLast then references operands else []) ++
        (introduces? ⟨kind, property, operands, span⟩).toList.map .bind)

/-- What reading the texts of some operands does with names, with or without looking up those that
are properties. -/
def mentionsIn (all : Bool) : List Operand → List Mention
  | [] => []
  | .property p :: rest => (if all then [.refer p] else []) ++ mentionsIn all rest
  | .value _ :: rest => mentionsIn all rest
  | .operator op :: rest => mentions op ++ mentionsIn all rest

end

end Operator

/-! ## Readings that succeed -/

/-- What is known of notes: the names that are bound, the clauses, and that there is no problem. -/
structure Notes.Knows (names : List String) (clauses : List (Kind × Operator)) (n : Notes) :
    Prop where
  isAlias : ∀ name, n.draft.isAlias name = names.contains name
  clauses : n.draft.clauses = clauses
  problems : n.draft.problems = []

/-- At the beginning no name is bound. -/
lemma Notes.knows_empty : Notes.Knows [] [] {} := ⟨fun _ => rfl, rfl, rfl⟩

/-- A table has the names it had and the one that is put in. -/
lemma Table.contains_insertSorted {α : Type} (table : Table α) (key name : String) (value : α) :
    Table.contains (Table.insertSorted table key value) name =
      (name == key || Table.contains table name) := by
  induction table with
  | nil => by_cases h : name = key <;> simp [Table.insertSorted, Table.contains, Table.get?_cons, h]
  | cons entry rest ih =>
    simp only [Table.contains] at ih ⊢
    rw [Table.insertSorted]
    split
    · rename_i hkey
      by_cases h : name = key <;> simp [Table.get?_cons, hkey, h]
    · split
      · by_cases h : name = key <;> simp [Table.get?_cons, h]
      · by_cases h : name = entry.1 <;> simp [Table.get?_cons, h, ih]

namespace Reader

variable {ε δ α β : Type}

/-- Whether a reading succeeds with some names bound before it, and comes to a result that has a
property, with other names bound after it. -/
def Yields (names names' : List String) (P : α → Prop) (reading : Reader ε α) : Prop :=
  ∀ n clauses, Notes.Knows names clauses n →
    ∃ a n', on reading n = (.ok a, n') ∧ P a ∧ Notes.Knows names' clauses n'

variable {names names' names'' : List String} {P : α → Prop} {Q : β → Prop}

/-- A result yields what holds of it, and binds no name. -/
lemma Yields.pure {a : α} (h : P a) : Yields names names P (pure a : Reader ε α) :=
  fun n _ hn => ⟨a, n, rfl, h, hn⟩

/-- Names that the first step binds are bound in the second. -/
lemma Yields.bind {reading : Reader ε α} {next : α → Reader ε β} (h : Yields names names' P reading)
    (hnext : ∀ a, P a → Yields names' names'' Q (next a)) :
    Yields names names'' Q (reading >>= next) := by
  intro n clauses hn
  obtain ⟨a, n', hread, ha, hn'⟩ := h n clauses hn
  obtain ⟨b, n'', hread', hb, hn''⟩ := hnext a ha n' clauses hn'
  refine ⟨b, n'', ?_, hb, hn''⟩
  rw [on_bind, hread, goOn_ok, hread']

/-- A result may be changed after the reading. -/
lemma Yields.map {reading : Reader ε α} {f : α → β} (h : Yields names names' P reading)
    (hf : ∀ a, P a → Q (f a)) : Yields names names' Q (f <$> reading) := by
  rw [map_eq_pure_bind]
  exact h.bind fun a ha => .pure (hf a ha)

/-- What is yielded may be said in a weaker way. -/
lemma Yields.mono {R : α → Prop} {reading : Reader ε α} (h : Yields names names' P reading)
    (hPR : ∀ a, P a → R a) : Yields names names' R reading := by
  intro n clauses hn
  obtain ⟨a, n', hread, ha, hn'⟩ := h n clauses hn
  exact ⟨a, n', hread, hPR a ha, hn'⟩

/-- A reading that succeeds comes to what every run of it comes to. -/
lemma Yields.ensures {R : α → Prop} {reading : Reader ε α} (h : Yields names names' P reading)
    (hR : Ensures R reading) : Yields names names' (fun a => P a ∧ R a) reading := by
  intro n clauses hn
  obtain ⟨a, n', hread, ha, hn'⟩ := h n clauses hn
  exact ⟨a, n', hread, ⟨ha, hR n a n' hread⟩, hn'⟩

/-- What a reading yields has nothing to do with how failures are reported. -/
lemma Yields.adapt {f : ε → δ} {reading : Reader ε α} (h : Yields names names' P reading) :
    Yields names names' P (ExceptT.adapt f reading) := by
  intro n clauses hn
  obtain ⟨a, n', hread, ha, hn'⟩ := h n clauses hn
  refine ⟨a, n', ?_, ha, hn'⟩
  rw [on_adapt, hread]

/-- What a reading that looks at the notes does depends on the names that are bound. -/
lemma Yields.get {next : Notes → Reader ε α}
    (h : ∀ n : Notes, (∀ name, n.draft.isAlias name = names.contains name) →
      Yields names names' P (next n)) : Yields names names' P (get >>= next) := by
  intro n clauses hn
  rw [on_bind, on_get, goOn_ok]
  exact h n hn.isAlias n clauses hn

/-- A change of notes that leaves the draft as it is. -/
lemma Yields.modify {f : Notes → Notes} (h : ∀ n, (f n).draft = n.draft) :
    Yields names names (fun _ => True) (modify f : Reader ε Unit) := by
  intro n clauses hn
  refine ⟨(), f n, rfl, trivial, ?_⟩
  have hdraft : (f n).draft = n.draft := h n
  exact ⟨by rw [hdraft]; exact hn.isAlias, by rw [hdraft]; exact hn.clauses,
    by rw [hdraft]; exact hn.problems⟩

/-- Giving a token its role binds no name. -/
lemma Yields.setRole (token : Token) (role : Role) :
    Yields names names (fun _ => True) (Parse.setRole token role) := .modify fun _ => rfl

/-- Noting a phrase binds no name. -/
lemma Yields.recordPhrase (token : Token) (span : Span) (op : Operator) :
    Yields names names (fun _ => True) (Parse.recordPhrase token span op) := .modify fun _ => rfl

/-- Noting that a token opens a list binds no name. -/
lemma Yields.markOpened (token : Token) :
    Yields names names (fun _ => True) (Parse.markOpened token) := .modify fun _ => rfl

/-- Binding an alias binds its name. -/
lemma Yields.bindAlias (name : String) (target : Operand) :
    Yields names (name :: names) (fun _ => True) (Parse.bindAlias name target) := by
  intro n clauses hn
  refine ⟨(), _, rfl, trivial, fun other => ?_, hn.clauses, hn.problems⟩
  have hcontains : n.draft.isAlias other = names.contains other := hn.isAlias other
  simp only [Draft.isAlias] at hcontains ⊢
  rw [Draft.bind, Table.contains_insertSorted, hcontains, List.contains_cons]

end Reader

end RecordQuery
