import RecordQuery.Proofs.QueryHistory
import RecordQuery.Proofs.ValueEquality

/-!
# What a condition is worth on a record

A condition is a tree, and has a value on every record: a group joins the values of its conditions,
a negation turns the value of its condition around, and a leaf compares what the record has for a
property with the scalars it lists, by `Json.IsEqual`. `Operator.holdsOf` is this value, by
recursion on the tree.

Records are tested otherwise: the tree is written as JSON, and the test finds its way through that
form by itself, with a fault for everything it does not expect. Here the two are shown to agree.
The JSON form of a tree that was read shows the shapes of its nodes, and for each of the eight
operators the test understands there is one lemma that says what it makes of that shape. As these
lemmas ask nothing of the record, no record makes such a condition fail.
-/

namespace RecordQuery

/-! ## The value of a tree -/

/-- What a record has for a property, which is null where it lacks the property. An alias is a name
of the default namespace. -/
def Subject.valueOf (subject : Subject) (p : PropertyRef) : Json :=
  (subject p.label p.scope).getD .null

section

variable [DecimalReader]

/-- Whether a value has one that is equal to another among those it holds: an array holds its items,
null holds nothing, and anything else itself. -/
def Json.HasHeld (actual wanted : Json) : Prop :=
  match actual with
  | .array items => ∃ item ∈ items, item.IsEqual wanted
  | .null => False
  | json => json.IsEqual wanted

/-- What a test takes a value to hold is what it holds. -/
lemma Evaluation.exists_held_iff (actual wanted : Json) :
    (∃ item ∈ held actual, item.IsEqual wanted) ↔ actual.HasHeld wanted := by
  cases actual <;> simp [held, Json.HasHeld]

instance (actual wanted : Json) : Decidable (actual.HasHeld wanted) :=
  decidable_of_iff _ (Evaluation.exists_held_iff actual wanted)

/-- How a leaf of a kind compares the value of its property with the scalars it lists. -/
def Kind.compares (kind : Kind) (actual : Json) (scalars : List Json) : Bool :=
  match kind with
  | .equals => decide (∀ scalar ∈ scalars, actual.IsEqual scalar)
  | .notEquals => decide (∀ scalar ∈ scalars, ¬ actual.IsEqual scalar)
  | .isIn => decide (∃ scalar ∈ scalars, actual.IsEqual scalar)
  | .containsAny => decide (∃ scalar ∈ scalars, actual.HasHeld scalar)
  | .containsAll => decide (∀ scalar ∈ scalars, actual.HasHeld scalar)
  | _ => false

end

namespace Operator

section

variable [DecimalReader]

mutual

/-- The value of a condition on a record. -/
def holdsOf (subject : Subject) : Operator → Bool
  | ⟨kind, property, operands, _⟩ =>
    match kind with
    | .and => allHold subject operands
    | .or => someHolds subject operands
    | .not => !allHold subject operands
    | kind =>
      match property with
      | some p =>
        kind.compares (subject.valueOf p)
          ((operands.filterMap Operand.value?).map ScalarValue.toJson)
      | none => false

/-- Whether all conditions among some operands hold on a record. -/
def allHold (subject : Subject) : List Operand → Bool
  | [] => true
  | .operator op :: rest => holdsOf subject op && allHold subject rest
  | _ :: rest => allHold subject rest

/-- Whether some condition among some operands holds on a record. -/
def someHolds (subject : Subject) : List Operand → Bool
  | [] => false
  | .operator op :: rest => holdsOf subject op || someHolds subject rest
  | _ :: rest => someHolds subject rest

end

/-- All conditions hold if each of them does. -/
lemma allHold_eq (subject : Subject) (conditions : List Operator) :
    allHold subject (conditions.map .operator) = conditions.all (holdsOf subject) := by
  induction conditions with
  | nil => rfl
  | cons condition rest ih => rw [List.map_cons, allHold, ih, List.all_cons]

/-- Some condition holds if one of them does. -/
lemma someHolds_eq (subject : Subject) (conditions : List Operator) :
    someHolds subject (conditions.map .operator) = conditions.any (holdsOf subject) := by
  induction conditions with
  | nil => rfl
  | cons condition rest ih => rw [List.map_cons, someHolds, ih, List.any_cons]

variable (subject : Subject) (span : Option Span)

/-- A group holds if all its conditions hold or one of them, as its connective says. -/
lemma holdsOf_group (connective : Connective) (conditions : List Operator) :
    holdsOf subject ⟨connective.kind, none, conditions.map .operator, span⟩ =
      match connective with
      | .and => conditions.all (holdsOf subject)
      | .or => conditions.any (holdsOf subject) := by
  cases connective with
  | and => exact allHold_eq subject conditions
  | or => exact someHolds_eq subject conditions

/-- A negation holds if its condition does not. -/
lemma holdsOf_not (condition : Operator) :
    holdsOf subject ⟨.not, none, [.operator condition], span⟩ = !holdsOf subject condition := by
  rw [holdsOf, allHold, allHold, Bool.and_true]

/-- A leaf holds if the value of the property compares with the scalars as its kind says. -/
lemma holdsOf_leaf {kind : Kind}
    (hkind : kind ∈ [Kind.equals, .notEquals, .isIn, .containsAny, .containsAll]) (p : PropertyRef)
    (values : List ScalarValue) :
    holdsOf subject (stated kind (.property p) (values.map .value) span) =
      kind.compares (subject.valueOf p) (values.map ScalarValue.toJson) := by
  have hvalues : (values.map Operand.value).filterMap Operand.value? = values := by
    simp [Operand.value?, Function.comp_def]
  cases kind <;> simp_all [stated, about, withOperands, holdsOf]

end

/-- Whether an operator is one that the test of a record understands: a connective, a negation, or
one of the five tests of the value of a property. -/
def IsTestable (op : Operator) : Prop :=
  op.kind = .and ∨ op.kind = .or ∨ op.kind = .not ∨
    op.kind ∈ [Kind.equals, .notEquals, .isIn, .containsAny, .containsAll] ∧ op.property.isSome

instance : DecidablePred IsTestable := fun _ => inferInstanceAs (Decidable (_ ∨ _))

/-- The families that can be tested. -/
lemma IsTestable.family {op : Operator} (h : op.IsTestable) :
    op.kind.family = .logical ∨ op.kind.family = .comparison ∨ op.kind.family = .membership := by
  unfold IsTestable at h
  generalize op.kind = kind at h ⊢
  cases kind <;> simp_all [Kind.family]

/-- A leaf that can be tested is of one of five kinds, and about a property. -/
lemma IsTestable.of_stated {kind : Kind} {operand : Operand} {rest : List Operand}
    {span : Option Span} (h : (stated kind operand rest span).IsTestable)
    (hfamily : kind.family ≠ .logical) :
    kind ∈ [Kind.equals, .notEquals, .isIn, .containsAny, .containsAll] ∧
      ∃ p, operand = .property p := by
  unfold IsTestable at h
  rw [stated_kind] at h
  obtain rfl | rfl | rfl | ⟨hkind, hproperty⟩ := h
  · exact absurd rfl hfamily
  · exact absurd rfl hfamily
  · exact absurd rfl hfamily
  · cases operand with
    | property p => exact ⟨hkind, p, rfl⟩
    | _ => cases hproperty

/-- The operators that were read: those that JSON values denote, the operators that the clauses of a
text hold, and all beneath them. -/
inductive IsRead : Operator → Prop
  | ofJson {op : Operator} (json : Json) (h : Operator.ofJson json = .ok op) : IsRead op
  | ofText {op clause : Operator} (mode : Mode) (text : String) (registry : Registry)
      (ceilings : Ceilings) (q : Query) (h : mode.query text registry ceilings = .ok q)
      (hclause : clause ∈ q.clauses) (hop : .operator op ∈ clause.operands) : IsRead op
  | beneath {op child : Operator} (h : IsRead op) (hchild : .operator child ∈ op.operands) :
      IsRead child

/-- What was read has the shapes of JSON forms. -/
lemma IsRead.wellFormed {op : Operator} (h : op.IsRead) : op.WellFormed := by
  induction h with
  | @ofJson op json h =>
    cases json with
    | object members => exact ensures_ofMembers members op h
    | _ => cases h
  | ofText mode text registry ceilings q h hclause hop =>
    have hq : q.WellFormed := by
      cases mode with
      | clauses => exact (Query.IsRead.ofText text registry ceilings h).wellFormed
      | condition => exact (Query.IsRead.ofCondition text registry ceilings h).wellFormed
    exact (everywhere_iff.mp (hq.clauses _ hclause)).2 _ hop
  | beneath h hchild ih => exact (everywhere_iff.mp ih).2 _ hchild

end Operator

/-! ## Testing JSON forms -/

namespace Operator

/-- A group is written as its key with the list of its conditions. -/
lemma toJson_group (connective : Connective) (conditions : List Operator) (span : Option Span) :
    toJson ⟨connective.kind, none, conditions.map .operator, span⟩ =
      .object [(connective.kind.jsonKey, .array (conditions.map toJson))] := by
  have hforms : operandsToJson (conditions.map .operator) = conditions.map toJson := by
    rw [operandsToJson_eq_map, List.map_map]
    rfl
  cases connective <;> rw [toJson, hforms] <;> rfl

/-- A membership is written as its key with the property and the list of its values. -/
lemma toJson_listed {kind : Kind}
    (hkind : kind = .isIn ∨ kind = .containsAny ∨ kind = .containsAll) (p : PropertyRef)
    (values : List ScalarValue) (span : Option Span) :
    toJson (stated kind (.property p) (values.map .value) span) =
      .object [(kind.jsonKey, .array [p.toJson, .array (values.map ScalarValue.toJson)])] := by
  have hforms : operandsToJson (values.map .value) = values.map ScalarValue.toJson := by
    rw [operandsToJson_eq_map, List.map_map]
    rfl
  obtain rfl | rfl | rfl := hkind <;> exact congrArg (fun forms =>
    Json.object [(_, .array [p.toJson, .array forms])]) hforms

end Operator

namespace Evaluation

/-- The descriptor of a property leads to the value that the record has for it. -/
lemma resolve_toJson (subject : Subject) (p : PropertyRef) :
    resolve subject p.toJson = some (subject.valueOf p) := by
  cases p with
  | byAlias name => rfl
  | field scope id => cases scope <;> rfl

section

variable [DecimalReader]

/-- Conditions that are all worth something can be tested together. -/
lemma testAll_eq {subject : Subject} {conditions : List Operator}
    (h : ∀ c ∈ conditions, test subject c.toJson = .ok (c.holdsOf subject)) :
    testAll subject (conditions.map Operator.toJson) =
      .ok (conditions.map (Operator.holdsOf subject)) := by
  induction conditions with
  | nil => rfl
  | cons condition rest ih =>
    rw [List.map_cons, testAll, h condition (by simp), ih fun c hc => h c (by simp [hc])]
    rfl

/-- A group of conditions that are all worth something. -/
lemma test_group {subject : Subject} (connective : Connective) {conditions : List Operator}
    (h : ∀ c ∈ conditions, test subject c.toJson = .ok (c.holdsOf subject)) :
    test subject (.object [(connective.kind.jsonKey, .array (conditions.map Operator.toJson))]) =
      .ok (match connective with
        | .and => conditions.all (Operator.holdsOf subject)
        | .or => conditions.any (Operator.holdsOf subject)) := by
  cases connective with
  | and =>
    refine Eq.trans (b := (fun results : List Bool => results.all id) <$>
      testAll subject (conditions.map Operator.toJson)) rfl ?_
    rw [testAll_eq h]
    simp
  | or =>
    refine Eq.trans (b := (fun results : List Bool => results.any id) <$>
      testAll subject (conditions.map Operator.toJson)) rfl ?_
    rw [testAll_eq h]
    simp

/-- The test of a negation is the test of its condition, turned round. -/
lemma test_not (subject : Subject) (operand : Json) :
    test subject (.object [("not", .array [operand])]) = Bool.not <$> test subject operand := by
  rw [test, if_neg (by decide), if_neg (by decide), if_pos rfl]
  simp only [testAll]
  cases test subject operand with
  | error e => rfl
  | ok b => cases b <;> rfl

/-- A leaf is tested as its kind compares. -/
lemma leafTest?_comparison {kind : Kind} (hkind : kind = .equals ∨ kind = .notEquals) :
    leafTest? kind.jsonKey = some fun actual scalar => some (kind.compares actual [scalar]) := by
  obtain rfl | rfl := hkind <;>
  · refine congrArg some (funext fun actual => funext fun scalar => congrArg some ?_)
    rw [Bool.eq_iff_iff]
    simp [Kind.compares, equal_iff, ← Bool.not_eq_true]

/-- A leaf with a list is tested as its kind compares. -/
lemma leafTest?_membership {kind : Kind}
    (hkind : kind = .isIn ∨ kind = .containsAny ∨ kind = .containsAll) :
    leafTest? kind.jsonKey =
      some fun actual operand => operand.items?.map fun scalars =>
        kind.compares actual scalars := by
  obtain rfl | rfl | rfl := hkind <;>
  · refine congrArg some (funext fun actual => funext fun operand =>
      congrArg (operand.items?.map ·) (funext fun scalars => ?_))
    rw [Bool.eq_iff_iff]
    simp only [Kind.compares, List.any_eq_true, List.all_eq_true, equal_iff, exists_held_iff,
      decide_eq_true_eq]

/-- A leaf of one scalar. -/
lemma test_comparison (subject : Subject) {kind : Kind} (hkind : kind = .equals ∨ kind = .notEquals)
    (p : PropertyRef) (v : ScalarValue) :
    test subject (.object [(kind.jsonKey, .array [p.toJson, v.toJson])]) =
      .ok (kind.compares (subject.valueOf p) [v.toJson]) := by
  have hleaf : test subject (.object [(kind.jsonKey, .array [p.toJson, v.toJson])]) =
      testLeaf subject kind.jsonKey [p.toJson, v.toJson] := by
    obtain rfl | rfl := hkind <;> rfl
  rw [hleaf, testLeaf, leafTest?_comparison hkind]
  dsimp only
  rw [resolve_toJson, Option.bind_some]

/-- A leaf of a list of scalars. -/
lemma test_membership (subject : Subject) {kind : Kind}
    (hkind : kind = .isIn ∨ kind = .containsAny ∨ kind = .containsAll) (p : PropertyRef)
    (scalars : List Json) :
    test subject (.object [(kind.jsonKey, .array [p.toJson, .array scalars])]) =
      .ok (kind.compares (subject.valueOf p) scalars) := by
  have hleaf : test subject (.object [(kind.jsonKey, .array [p.toJson, .array scalars])]) =
      testLeaf subject kind.jsonKey [p.toJson, .array scalars] := by
    obtain rfl | rfl | rfl := hkind <;> rfl
  rw [hleaf, testLeaf, leafTest?_membership hkind]
  dsimp only
  rw [resolve_toJson, Option.bind_some]
  rfl

/-- The test of the JSON form of a condition comes to the value of the condition,
and never fails. -/
theorem test_toJson (subject : Subject) (op : Operator) :
    op.WellFormed → op.Everywhere Operator.IsTestable →
      test subject op.toJson = .ok (op.holdsOf subject) := by
  induction op using Operator.induction with
  | step op ih =>
    intro hop htestable
    obtain ⟨hshape, hchildren⟩ := Operator.everywhere_iff.mp hop
    obtain ⟨hkind, htestables⟩ := Operator.everywhere_iff.mp htestable
    have hchild : ∀ child, .operator child ∈ op.operands →
        test subject child.toJson = .ok (child.holdsOf subject) := fun child hmem =>
      ih child hmem (hchildren child hmem) (htestables child hmem)
    clear ih hop htestable hchildren htestables
    -- The shapes of the other families have kinds that cannot be tested.
    have hfamily := hkind.family
    cases hshape with
    | @comparison kind _ v _ family _ _ _ =>
      obtain ⟨hleaf, p, rfl⟩ := hkind.of_stated (by simp [family])
      obtain rfl | rfl : kind = .equals ∨ kind = .notEquals := by
        cases kind <;> simp_all [Kind.family]
      · exact test_comparison subject (.inl rfl) p v
      · exact test_comparison subject (.inr rfl) p v
    | @membership kind _ values _ family _ _ _ _ =>
      obtain ⟨hleaf, p, rfl⟩ := hkind.of_stated (by simp [family])
      have hlist : kind = .isIn ∨ kind = .containsAny ∨ kind = .containsAll := by
        cases kind <;> simp_all [Kind.family]
      rw [Operator.toJson_listed hlist, Operator.holdsOf_leaf _ _ hleaf]
      exact test_membership subject hlist p _
    | @negation condition _ _ =>
      have htest := hchild condition (by simp)
      refine (test_not subject condition.toJson).trans ?_
      rw [htest, Operator.holdsOf_not]
      rfl
    | @group connective conditions _ _ _ =>
      rw [Operator.toJson_group, Operator.holdsOf_group]
      exact test_group connective fun c hc => hchild c (List.mem_map_of_mem hc)
    | existence family _ => simp [family] at hfamily
    | naming _ _ => simp [Kind.family] at hfamily
    | function family _ _ _ _ => simp [family] at hfamily
    | listing lists _ _ => obtain rfl | rfl | rfl := lists <;> simp [Kind.family] at hfamily
    | filter filters _ => obtain rfl | rfl := filters <;> simp [Kind.family] at hfamily
    | ordering _ _ _ => simp [Kind.family] at hfamily
    | limit _ _ => simp [Kind.family] at hfamily
    | timeRange _ _ _ _ => simp [Kind.family] at hfamily

end

end Evaluation

namespace Query

/-- A record is tested without fault, and the answer is the value of the condition: for every
condition that was read and has none but the eight operators the test understands. -/
theorem test_eq_holdsOf [DecimalReader] (q : Query) (op : Operator) (subject : Subject)
    (hq : q.Reached) (hcondition : q.condition? = some op) (hread : op.IsRead)
    (htestable : op.Everywhere Operator.IsTestable) :
    (q.test subject).1 = .ok (op.holdsOf subject) := by
  have hform : q.conditionJson.1 = some op.toJson := by
    rw [conditionJson_fst hq.remembersCondition, hcondition, Option.map_some]
  unfold test
  rcases hmemo : q.conditionJson with ⟨condition, q'⟩
  obtain rfl : condition = some op.toJson := by
    rw [hmemo] at hform
    exact hform
  exact Evaluation.test_toJson subject op hread.wellFormed htestable

/-- A group with a test for equality, a negated test of a property in a namespace, and a test of an
alias for a truth value and a number. It holds on a record that has the number as a double, and not
on one that lacks it. -/
theorem test_eq_holdsOf_sample :
    ∃ (q : Query) (op : Operator),
      Query.ofJson (.object [("where", .object [("and", .array [
        .object [("=", .array [.object [("source", .string "host")], .string "a"])],
        .object [("not", .array [.object [("in", .array [
          .object [("source", .object [("ns", .string "flow"), ("id", .string "proto")])],
          .array [.string "tcp", .null]])]])],
        .object [("contains_all", .array [.object [("alias", .string "tags")],
          .array [.bool true, .integer 1]])]])])]) = .ok q ∧
      q.condition? = some op ∧ op.IsRead ∧ op.Everywhere Operator.IsTestable ∧
      (q.test (Subject.ofJson (.object [("host", .string "a"),
        ("flow", .object [("proto", .string "udp")]),
        ("tags", .array [.double ⟨false, Double.unitsPerOne⟩, .bool true])]))).1 = .ok true ∧
      (q.test (Subject.ofJson (.object [("host", .string "a"),
        ("flow", .object [("proto", .string "udp")]), ("tags", .bool true)]))).1 = .ok false := by
  obtain ⟨json, hjson⟩ : ∃ json : Json, json = .object [("and", .array [
      .object [("=", .array [.object [("source", .string "host")], .string "a"])],
      .object [("not", .array [.object [("in", .array [
        .object [("source", .object [("ns", .string "flow"), ("id", .string "proto")])],
        .array [.string "tcp", .null]])]])],
      .object [("contains_all", .array [.object [("alias", .string "tags")],
        .array [.bool true, .integer 1]])]])] := ⟨_, rfl⟩
  obtain ⟨one, hone⟩ : ∃ one : ScalarValue, one =
      ⟨.number ⟨false, 1, 0, by decide, by decide, by simp⟩, "1"⟩ := ⟨_, rfl⟩
  obtain ⟨op, hop⟩ : ∃ op : Operator, op = .group .and [
      { kind := .equals, property := some (.ofId "host"), operands := [.value (.ofString "a")] },
      { kind := .not, operands := [.operator
        { kind := .isIn, property := some (.inScope "flow" "proto")
          operands := [.value (.ofString "tcp"), .value .null] }] },
      { kind := .containsAll, property := some (.byAlias "tags")
        operands := [.value (.ofBool true), .value one] }] := ⟨_, rfl⟩
  obtain ⟨q, hq⟩ : ∃ q : Query, q =
      { clauses := [{ kind := .whereClause, operands := [.operator op] }] } := ⟨_, rfl⟩
  have hdecode : Operator.ofJson json = .ok op := by
    subst hjson hop hone
    rfl
  have hofJson : Query.ofJson (.object [("where", json)]) = .ok q := by
    subst hjson hq hop hone
    rfl
  have hcondition : q.condition? = some op := by
    subst hq
    rfl
  have htestable : op.Everywhere Operator.IsTestable := by
    subst hop hone
    decide
  have hread : op.IsRead := .ofJson json hdecode
  have htest := fun subject =>
    test_eq_holdsOf q op subject (.read (.ofJson _ hofJson)) hcondition hread htestable
  refine ⟨q, op, hjson ▸ hofJson, hcondition, hread, htestable, ?_, ?_⟩
  · rw [htest]
    subst hop hone
    decide +kernel
  · rw [htest]
    subst hop hone
    decide +kernel

end Query

end RecordQuery
