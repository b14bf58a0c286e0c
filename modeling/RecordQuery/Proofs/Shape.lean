import Mathlib.Tactic.Common
import RecordQuery.Operator.Encode
import RecordQuery.Operator.Decode

/-!
# Shapes of operators

Only few operators make sense as trees: a comparison has a subject and one scalar, a negation one
condition, an ordering expressions and directions in turn. `Operator.Shaped` lists these shapes, one
node at a time, and `Operator.Everywhere` asks for a property at every node of a tree.

Texts and JSON forms do not allow quite the same trees. What they differ in is left open in
`ShapeRules`, so that the list of shapes is written once.

Two trees that were written in different places, or in different words, still are the same tree for
most purposes. `Operator.core` is what remains of a tree then.
-/

namespace RecordQuery

namespace Operator

/-! ## Cores -/

mutual

/-- A tree without the spans of its operators and the texts of its scalars. -/
def core : Operator → Operator
  | ⟨kind, property, operands, _⟩ => ⟨kind, property, coreOperands operands, none⟩

/-- Operands without the spans of operators and the texts of scalars. -/
def coreOperands : List Operand → List Operand
  | [] => []
  | .property p :: rest => .property p :: coreOperands rest
  | .value v :: rest => .value ⟨v.value, ""⟩ :: coreOperands rest
  | .operator op :: rest => .operator (core op) :: coreOperands rest

end

end Operator

/-- An operand without spans and the texts of scalars. -/
def Operand.core : Operand → Operand
  | .property p => .property p
  | .value v => .value ⟨v.value, ""⟩
  | .operator op => .operator op.core

namespace Operator

/-- The cores of operands are taken one by one. -/
lemma coreOperands_eq_map (operands : List Operand) :
    coreOperands operands = operands.map Operand.core := by
  induction operands with
  | nil => rfl
  | cons operand rest ih =>
    cases operand <;> simp only [coreOperands, ih, List.map_cons, Operand.core]

@[simp] lemma core_kind (op : Operator) : op.core.kind = op.kind := by
  cases op; simp [core]

@[simp] lemma core_property (op : Operator) : op.core.property = op.property := by
  cases op; simp [core]

@[simp] lemma core_operands (op : Operator) : op.core.operands = op.operands.map Operand.core := by
  cases op; simp [core, coreOperands_eq_map]

@[simp] lemma core_withSpan (op : Operator) (span : Span) : (op.withSpan span).core = op.core := by
  cases op; simp [core, withSpan]

/-- Two trees have one core exactly when they agree in kind and property, and their operands do. -/
lemma core_eq_iff {a b : Operator} :
    a.core = b.core ↔
      a.kind = b.kind ∧ a.property = b.property ∧
        a.operands.map Operand.core = b.operands.map Operand.core := by
  cases a; cases b; simp [core, coreOperands_eq_map]

mutual

/-- The JSON form of a tree is that of its core. -/
lemma toJson_core : (op : Operator) → op.core.toJson = op.toJson
  | ⟨kind, property, operands, _⟩ => by
    simp only [core, toJson, operandsToJson_coreOperands operands]

/-- The JSON forms of operands are those of their cores. -/
lemma operandsToJson_coreOperands :
    (operands : List Operand) → operandsToJson (coreOperands operands) = operandsToJson operands
  | [] => rfl
  | .property p :: rest => by
    simp only [coreOperands, operandsToJson, operandsToJson_coreOperands rest]
  | .value v :: rest => by
    simp only [coreOperands, operandsToJson, operandsToJson_coreOperands rest, ScalarValue.toJson]
  | .operator op :: rest => by
    simp only [coreOperands, operandsToJson, operandsToJson_coreOperands rest, toJson_core op]

end

/-- Trees with one core have one JSON form. -/
lemma toJson_eq_of_core_eq {a b : Operator} (h : a.core = b.core) : a.toJson = b.toJson := by
  rw [← toJson_core a, h, toJson_core b]

/-! ## Properties of all nodes -/

mutual

/-- Induction on operators: what holds of an operator if it holds of the operators among its
operands holds of all. -/
lemma induction {P : Operator → Prop}
    (step : ∀ op, (∀ child, .operator child ∈ op.operands → P child) → P op) :
    (op : Operator) → P op
  | ⟨_, _, operands, _⟩ => step _ fun child hchild => inductionIn step operands child hchild

/-- What holds by induction of the operators among some operands. -/
lemma inductionIn {P : Operator → Prop}
    (step : ∀ op, (∀ child, .operator child ∈ op.operands → P child) → P op) :
    (operands : List Operand) → ∀ child, .operator child ∈ operands → P child
  | .operator op :: rest, child, hchild => by
    obtain h | h := List.mem_cons.mp hchild
    · cases h
      exact induction step op
    · exact inductionIn step rest child h
  | .property _ :: rest, child, hchild => inductionIn step rest child (by simpa using hchild)
  | .value _ :: rest, child, hchild => inductionIn step rest child (by simpa using hchild)

end

mutual

/-- Whether a property holds of an operator and of all operators beneath it. -/
def Everywhere (P : Operator → Prop) : Operator → Prop
  | ⟨kind, property, operands, span⟩ =>
    P ⟨kind, property, operands, span⟩ ∧ EverywhereIn P operands

/-- Whether a property holds of all operators in and beneath some operands. -/
def EverywhereIn (P : Operator → Prop) : List Operand → Prop
  | [] => True
  | .operator op :: rest => Everywhere P op ∧ EverywhereIn P rest
  | .property _ :: rest | .value _ :: rest => EverywhereIn P rest

end

mutual

/-- A property that can be decided can be decided of all operators in a tree. -/
def decidableEverywhere (P : Operator → Prop) [DecidablePred P] :
    (op : Operator) → Decidable (op.Everywhere P)
  | ⟨_, _, operands, _⟩ =>
    have := decidableEverywhereIn P operands
    inferInstanceAs (Decidable (_ ∧ _))

/-- A property that can be decided can be decided of all operators in some operands. -/
def decidableEverywhereIn (P : Operator → Prop) [DecidablePred P] :
    (operands : List Operand) → Decidable (EverywhereIn P operands)
  | [] => inferInstanceAs (Decidable True)
  | .operator op :: rest =>
    have := decidableEverywhere P op
    have := decidableEverywhereIn P rest
    inferInstanceAs (Decidable (_ ∧ _))
  | .property _ :: rest | .value _ :: rest => decidableEverywhereIn P rest

end

instance (P : Operator → Prop) [DecidablePred P] : DecidablePred (Everywhere P) :=
  decidableEverywhere P

/-- A property holds everywhere in operands if it does in each operator among them. -/
lemma everywhereIn_iff {P : Operator → Prop} {operands : List Operand} :
    EverywhereIn P operands ↔ ∀ op, .operator op ∈ operands → op.Everywhere P := by
  induction operands with
  | nil => simp [EverywhereIn]
  | cons operand rest ih => cases operand <;> simp [EverywhereIn, ih]

/-- A property holds everywhere in a tree when it holds of the root, and everywhere in each operator
among the operands. -/
lemma everywhere_iff {P : Operator → Prop} {op : Operator} :
    op.Everywhere P ↔ P op ∧ ∀ child, .operator child ∈ op.operands → child.Everywhere P := by
  cases op
  simp only [Everywhere, everywhereIn_iff]

/-- What holds everywhere in an operator holds of it. -/
lemma Everywhere.root {P : Operator → Prop} {op : Operator} (h : op.Everywhere P) : P op :=
  (everywhere_iff.mp h).1

mutual

/-- What follows at every node from what holds at every node. -/
lemma Everywhere.imp {P Q : Operator → Prop} (hPQ : ∀ op, P op → Q op) :
    (op : Operator) → op.Everywhere P → op.Everywhere Q
  | ⟨_, _, operands, _⟩, h => by
    rw [Everywhere] at h ⊢
    exact ⟨hPQ _ h.1, EverywhereIn.imp hPQ operands h.2⟩

/-- What follows at every node of some operands from what holds there. -/
lemma EverywhereIn.imp {P Q : Operator → Prop} (hPQ : ∀ op, P op → Q op) :
    (operands : List Operand) → EverywhereIn P operands → EverywhereIn Q operands
  | [], _ => trivial
  | .operator op :: rest, h => by
    rw [EverywhereIn] at h ⊢
    exact ⟨Everywhere.imp hPQ op h.1, EverywhereIn.imp hPQ rest h.2⟩
  | .property _ :: rest, h => by
    rw [EverywhereIn] at h ⊢
    exact EverywhereIn.imp hPQ rest h
  | .value _ :: rest, h => by
    rw [EverywhereIn] at h ⊢
    exact EverywhereIn.imp hPQ rest h

end

/-- What holds everywhere in a tree does so together. -/
lemma Everywhere.and {P Q : Operator → Prop} {op : Operator} (hP : op.Everywhere P)
    (hQ : op.Everywhere Q) : op.Everywhere fun op => P op ∧ Q op := by
  induction op using Operator.induction with
  | step op ih =>
    rw [everywhere_iff] at hP hQ ⊢
    exact ⟨⟨hP.1, hQ.1⟩, fun child hchild =>
      ih child hchild (hP.2 child hchild) (hQ.2 child hchild)⟩

/-! ## The list of shapes -/

/-- An operator about a subject, with further operands and a span. -/
def stated (kind : Kind) (subject : Operand) (rest : List Operand) (span : Option Span) :
    Operator :=
  { (about kind subject).withOperands rest with span }

/-- An operator about a subject with further operands is one that is stated. -/
lemma about_withOperands (kind : Kind) (subject : Operand) (rest : List Operand) :
    (about kind subject).withOperands rest = stated kind subject rest none := by
  cases subject <;> rfl

@[simp] lemma stated_kind (kind : Kind) (subject : Operand) (rest : List Operand)
    (span : Option Span) : (stated kind subject rest span).kind = kind := by
  cases subject <;> rfl

@[simp] lemma stated_withSpan (kind : Kind) (subject : Operand) (rest : List Operand)
    (span : Option Span) (newSpan : Span) :
    (stated kind subject rest span).withSpan newSpan = stated kind subject rest (some newSpan) := by
  cases subject <;> rfl

/-- The operands of an operator that is stated are the subject and the rest. -/
lemma mem_operands_stated {kind : Kind} {subject operand : Operand} {rest : List Operand}
    {span : Option Span} (h : operand ∈ (stated kind subject rest span).operands) :
    operand = subject ∨ operand ∈ rest := by
  cases subject <;> simp_all [stated, about, withOperands]

/-- The core of an operator about a subject depends on the cores of its operands only. -/
lemma core_stated_eq {kind : Kind} {a b : Operand} {as bs : List Operand} {r s : Option Span}
    (h : a.core = b.core) (hrest : as.map Operand.core = bs.map Operand.core) :
    (stated kind a as r).core = (stated kind b bs s).core := by
  cases a <;> cases b <;> simp_all [stated, about, withOperands, Operand.core, core_eq_iff]

end Operator

/-- Looking up the names in a scalar keeps its type. -/
@[simp] lemma ScalarValue.type_resolveNames (v : ScalarValue) (registry : Registry) :
    (v.resolveNames registry).type = v.type := by
  unfold ScalarValue.resolveNames
  split
  · rename_i s hs
    split
    · simp [ScalarValue.type, hs, Scalar.type]
    · rfl
  · rfl

/-- What the list of shapes leaves open. -/
structure ShapeRules where
  /-- The property references. -/
  ref : PropertyRef → Prop
  /-- The scalars. -/
  scalar : ScalarValue → Prop
  /-- The names that `AS` introduces. -/
  name : String → Prop
  /-- The subjects of comparisons and membership tests. -/
  subject : Operand → Prop
  /-- What `AS` names. -/
  target : Operand → Prop
  /-- The expressions that clauses list. -/
  listed : Operand → Prop
  /-- The numbers of conditions in a group. -/
  groupSize : Nat → Prop
  /-- The numbers of expressions in a clause. -/
  listSize : Nat → Prop
  /-- The types of the bounds of a time range. -/
  bound : ScalarType → Prop

namespace Operator

/-- The operands of an ordering, given its expressions with their directions. -/
def orderOperands (entries : List (Operand × String)) : List Operand :=
  entries.flatMap fun entry => [entry.1, .value (.ofString entry.2)]

/-- There are two directions. -/
lemma direction?_cases {text word : String} (h : direction? text = some word) :
    word = "asc" ∨ word = "desc" := by
  unfold direction? at h
  split at h
  · exact .inl (by simpa using h.symm)
  · split at h
    · exact .inr (by simpa using h.symm)
    · cases h

/-- The shapes of operators, not looking into their operands. -/
inductive Shaped (R : ShapeRules) : Operator → Prop
  | comparison {kind : Kind} {subject : Operand} {value : ScalarValue} {span : Option Span}
      (family : kind.family = .comparison) (hsubject : R.subject subject) (hvalue : R.scalar value)
      (allowed : ScalarValue.allows kind.comparable value.type = true) :
      Shaped R (stated kind subject [.value value] span)
  | membership {kind : Kind} {subject : Operand} {values : List ScalarValue} {span : Option Span}
      (family : kind.family = .membership) (hsubject : R.subject subject)
      (hvalues : ∀ v ∈ values, R.scalar v)
      (bounds : kind = .between → values.length = 2 ∧ ∀ v ∈ values, v.type = .number)
      (nonempty : values ≠ []) :
      Shaped R (stated kind subject (values.map .value) span)
  | existence {kind : Kind} {p : PropertyRef} {span : Option Span}
      (family : kind.family = .existence) (hp : R.ref p) : Shaped R ⟨kind, some p, [], span⟩
  | negation {condition : Operator} {span : Option Span} (isCondition : condition.isCondition) :
      Shaped R ⟨.not, none, [.operator condition], span⟩
  | group {connective : Connective} {conditions : List Operator} {span : Option Span}
      (size : R.groupSize conditions.length) (areConditions : ∀ c ∈ conditions, c.isCondition) :
      Shaped R ⟨connective.kind, none, conditions.map .operator, span⟩
  | naming {target : Operand} {name : String} {span : Option Span} (htarget : R.target target)
      (hname : R.name name) :
      Shaped R ⟨.asName, none, [target, .value (.ofString name)], span⟩
  | function {kind : Kind} {p : PropertyRef} {values : List ScalarValue} {span : Option Span}
      (family : kind.family = .projection) (notNaming : kind ≠ .asName) (hp : R.ref p)
      (hvalues : ∀ v ∈ values, R.scalar v)
      (types : values.map ScalarValue.type = kind.argumentType?.toList) :
      Shaped R ⟨kind, some p, values.map .value, span⟩
  | listing {kind : Kind} {operands : List Operand} {span : Option Span}
      (lists : kind = .select ∨ kind = .groupBy ∨ kind = .groupByPermuted)
      (hlisted : ∀ operand ∈ operands, R.listed operand) (size : R.listSize operands.length) :
      Shaped R ⟨kind, none, operands, span⟩
  | filter {kind : Kind} {condition : Operator} {span : Option Span}
      (filters : kind = .whereClause ∨ kind = .having) (isCondition : condition.isCondition) :
      Shaped R ⟨kind, none, [.operator condition], span⟩
  | ordering {entries : List (Operand × String)} {span : Option Span}
      (hlisted : ∀ entry ∈ entries, R.listed entry.1)
      (directions : ∀ entry ∈ entries, entry.2 = "asc" ∨ entry.2 = "desc")
      (size : R.listSize entries.length) :
      Shaped R ⟨.orderBy, none, orderOperands entries, span⟩
  | limit {value : ScalarValue} {span : Option Span} (hvalue : R.scalar value)
      (isCount : value.isCount = true) : Shaped R ⟨.limit, none, [.value value], span⟩
  | timeRange {first last : ScalarValue} {span : Option Span} (hfirst : R.scalar first)
      (hlast : R.scalar last) (firstType : R.bound first.type) (lastType : R.bound last.type) :
      Shaped R ⟨.timeRange, none, [.value first, .value last], span⟩

/-- The shape of an operator has nothing to do with its span. -/
lemma Shaped.withSpan {R : ShapeRules} {op : Operator} (h : Shaped R op) (span : Span) :
    Shaped R (op.withSpan span) := by
  cases h with
  | comparison family hsubject hvalue allowed =>
    rw [stated_withSpan]
    exact .comparison family hsubject hvalue allowed
  | membership family hsubject hvalues bounds nonempty =>
    rw [stated_withSpan]
    exact .membership family hsubject hvalues bounds nonempty
  | existence family hp => exact .existence family hp
  | negation isCondition => exact .negation isCondition
  | group size areConditions => exact .group size areConditions
  | naming htarget hname => exact .naming htarget hname
  | function family notNaming hp hvalues types =>
    exact .function family notNaming hp hvalues types
  | listing lists hlisted size => exact .listing lists hlisted size
  | filter filters isCondition => exact .filter filters isCondition
  | ordering hlisted directions size => exact .ordering hlisted directions size
  | limit hvalue isCount => exact .limit hvalue isCount
  | timeRange hfirst hlast firstType lastType => exact .timeRange hfirst hlast firstType lastType

/-- What the shapes leave open can be relaxed. -/
lemma Shaped.mono {R S : ShapeRules} {op : Operator} (ref : ∀ p, R.ref p → S.ref p)
    (scalar : ∀ v, R.scalar v → S.scalar v) (name : ∀ n, R.name n → S.name n)
    (subject : ∀ x, R.subject x → S.subject x) (target : ∀ x, R.target x → S.target x)
    (listed : ∀ x, R.listed x → S.listed x) (groupSize : ∀ n, R.groupSize n → S.groupSize n)
    (listSize : ∀ n, R.listSize n → S.listSize n) (bound : ∀ t, R.bound t → S.bound t)
    (h : Shaped R op) : Shaped S op := by
  cases h with
  | comparison family hsubject hvalue allowed =>
    exact .comparison family (subject _ hsubject) (scalar _ hvalue) allowed
  | membership family hsubject hvalues bounds nonempty =>
    exact .membership family (subject _ hsubject) (fun v hv => scalar v (hvalues v hv)) bounds
      nonempty
  | existence family hp => exact .existence family (ref _ hp)
  | negation isCondition => exact .negation isCondition
  | group size areConditions => exact .group (groupSize _ size) areConditions
  | naming htarget hname => exact .naming (target _ htarget) (name _ hname)
  | function family notNaming hp hvalues types =>
    exact .function family notNaming (ref _ hp) (fun v hv => scalar v (hvalues v hv)) types
  | listing lists hlisted size =>
    exact .listing lists (fun x hx => listed x (hlisted x hx)) (listSize _ size)
  | filter filters isCondition => exact .filter filters isCondition
  | ordering hlisted directions size =>
    exact .ordering (fun entry he => listed _ (hlisted entry he)) directions (listSize _ size)
  | limit hvalue isCount => exact .limit (scalar _ hvalue) isCount
  | timeRange hfirst hlast firstType lastType =>
    exact .timeRange (scalar _ hfirst) (scalar _ hlast) (bound _ firstType) (bound _ lastType)

/-- A property that holds everywhere does so whatever the span of the root is, if that holds of the
property itself. -/
lemma Everywhere.withSpan {P : Operator → Prop} {op : Operator} (h : op.Everywhere P) (span : Span)
    (hP : P op → P (op.withSpan span)) : (op.withSpan span).Everywhere P := by
  rw [everywhere_iff] at h ⊢
  exact ⟨hP h.1, h.2⟩

end Operator

end RecordQuery
