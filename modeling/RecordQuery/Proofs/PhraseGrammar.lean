import RecordQuery.Proofs.Settling

/-!
# The grammar of phrases

A phrase is reduced tier by tier, with no grammar in sight: whatever stands beside an operator when
its turn comes is what it claims. `Phrase.IsCondition` is the grammar that results. A phrase comes
to a condition if it is some `NOT`s before one of five things: a finished condition, a comparison
between a subject and a scalar, a subject before a membership test, an existence test before a
property, and a call of `REGEXP_MATCH`.

The lemmas of this file say what each family makes of the items it claims, as an equivalence: what
the operator asks of them, and which operator results. Scalars are read the same whatever names are
known, and properties and subjects are read on the notes that the operator finds.
-/

namespace RecordQuery

open Reader

namespace Reader

variable {ε α β : Type} {reading : Reader ε α} {notes notes' : Notes} {a : α}

/-- Whether a reading succeeds on some notes, and what it comes to. -/
def Returns (reading : Reader ε α) (notes : Notes) (a : α) : Prop := (on reading notes).1 = .ok a

/-- A reading returns a result if it does so with some notes left. -/
lemma returns_iff : Returns reading notes a ↔ ∃ notes', on reading notes = (.ok a, notes') := by
  constructor
  · intro h
    exact ⟨(on reading notes).2, Prod.ext h rfl⟩
  · rintro ⟨notes', h⟩
    rw [Returns, h]

/-- A reading that succeeds returns its result. -/
lemma Returns.of_on (h : on reading notes = (.ok a, notes')) : Returns reading notes a :=
  returns_iff.mpr ⟨notes', h⟩

/-- A result that is given is the one returned. -/
lemma returns_pure {b : α} : Returns (pure a : Reader ε α) notes b ↔ a = b := by
  simp [Returns]

/-- A failure returns nothing. -/
lemma not_returns_throw {e : ε} : ¬ Returns (throw e : Reader ε α) notes a := by
  simp [Returns]

/-- A failure returns nothing, whatever would come after it. -/
lemma not_returns_stop {e : ε} {next : α → Reader ε β} {b : β} :
    ¬ Returns (MonadExcept.throw e >>= next) notes b := by
  rw [Returns, on_bind, on_throw, goOn_error]
  simp

/-- A reading in two steps succeeds if the first step does, and the second on the
notes it leaves. -/
lemma returns_bind {next : α → Reader ε β} {b : β} :
    Returns (reading >>= next) notes b ↔
      ∃ a notes', on reading notes = (.ok a, notes') ∧ Returns (next a) notes' b := by
  rw [Returns, on_bind]
  rcases h : on reading notes with ⟨e | a, notes'⟩
  · simp
  · rw [goOn_ok]
    simp [Returns]

/-- What follows the first step does not look at the notes. -/
lemma returns_bind_of_forall {next : α → Reader ε β} {b : β} {P : α → Prop}
    (h : ∀ a notes', Returns (next a) notes' b ↔ P a) :
    Returns (reading >>= next) notes b ↔ ∃ a, Returns reading notes a ∧ P a := by
  constructor
  · intro hb
    obtain ⟨a, notes', hon, ha⟩ := returns_bind.mp hb
    exact ⟨a, .of_on hon, (h a notes').mp ha⟩
  · rintro ⟨a, ha, hP⟩
    obtain ⟨notes', hon⟩ := returns_iff.mp ha
    exact returns_bind.mpr ⟨a, notes', hon, (h a notes').mpr hP⟩

end Reader

/-! ## What an operator may claim -/

namespace Item

variable {s : Setting} {notes notes' : Notes} {item : Item} {op : Operator}

/-- The item that an operator becomes when it is settled. -/
def ofOperator (token : Token) (span : Span) (op : Operator) : Item :=
  ⟨token, span, .node (.operator (op.withSpan span))⟩

/-- Whether an item is finished, as an operator. -/
def IsOperator (item : Item) : Prop := ∃ op, item.term = .node (.operator op)

/-- Whether an item is an operator that waits to be settled. -/
def IsPending (item : Item) : Prop := ∃ kind parameters, item.term = .pending kind parameters

/-- The item of a finished operator is one. -/
lemma isOperator_ofOperator (token : Token) (span : Span) (op : Operator) :
    (ofOperator token span op).IsOperator := ⟨_, rfl⟩

/-- A finished operator does not wait for anything. -/
lemma IsOperator.not_isPending (h : item.IsOperator) : ¬ item.IsPending := by
  obtain ⟨op, hop⟩ := h
  rintro ⟨kind, parameters, hpending⟩
  rw [hop] at hpending
  cases hpending

/-- The item of a finished operator is a condition if the operator is. -/
lemma condition?_ofOperator {token : Token} {span : Span} :
    (ofOperator token span op).condition? =
    if op.isCondition then some (op.withSpan span) else none :=
  rfl

/-- Only finished operators are conditions. -/
lemma isOperator_of_condition? (h : item.condition? = some op) : item.IsOperator := by
  unfold condition? at h
  split at h
  · exact ⟨_, by assumption⟩
  · cases h

/-- What claims an item as a property finds a word, or a property. -/
lemma not_returns_property {p : PropertyRef} (h : item.IsOperator ∨ item.IsPending) :
    ¬ Returns (item.property s) notes p := by
  obtain ⟨token, span, term⟩ := item
  obtain ⟨op, hop⟩ | ⟨kind, parameters, hpending⟩ := h
  · cases hop
    exact not_returns_throw
  · cases hpending
    exact not_returns_throw

/-- What claims an item as a scalar finds a word, or a scalar. -/
lemma not_returns_value {v : ScalarValue} {allowed : List ScalarType}
    (h : item.IsOperator ∨ item.IsPending) : ¬ Returns (item.value s allowed) notes v := by
  obtain ⟨token, span, term⟩ := item
  obtain ⟨op, hop⟩ | ⟨kind, parameters, hpending⟩ := h
  · cases hop
    exact not_returns_throw
  · cases hpending
    exact not_returns_throw

/-- The names that are known make no difference to scalars. -/
lemma returns_value {v : ScalarValue} {allowed : List ScalarType}
    (h : Returns (item.value s allowed) notes v) : Returns (item.value s allowed) notes' v := by
  obtain ⟨token, span, term⟩ := item
  unfold Item.value at h ⊢
  dsimp only at h ⊢
  split at h
  case h_1 | h_2 | h_3 =>
    split at h
    · exact absurd h not_returns_throw
    · exact h
  case h_4 => exact h
  case h_5 => exact absurd h not_returns_throw

/-- To read an item as an operand that is a property is to read it as a property. -/
lemma returns_property_map {x : Operand} :
    Returns (do return .property (← item.property s)) notes x ↔
      ∃ p, Returns (item.property s) notes p ∧ .property p = x :=
  returns_bind_of_forall fun _ _ => returns_pure

/-- A finished operator is a subject if it is no condition. -/
lemma returns_subject_ofOperator {token : Token} {span : Span} {x : Operand} :
    Returns ((ofOperator token span op).subject s) notes x ↔
      op.isCondition = false ∧ .operator (op.withSpan span) = x := by
  have hcondition : (op.withSpan span).isCondition = op.isCondition := rfl
  unfold subject
  dsimp only [ofOperator]
  rw [hcondition]
  cases h : op.isCondition with
  | true =>
    rw [if_pos rfl, returns_property_map]
    constructor
    · rintro ⟨p, hp, -⟩
      exact absurd hp (not_returns_property (.inl (isOperator_ofOperator token span op)))
    · rintro ⟨hfalse, -⟩
      cases hfalse
  | false =>
    rw [if_neg Bool.false_ne_true, returns_pure]
    simp

/-- An operator that waits to be settled is no subject. -/
lemma not_returns_subject_of_isPending {x : Operand} (h : item.IsPending) :
    ¬ Returns (item.subject s) notes x := by
  have hproperty : ∀ p, ¬ Returns (item.property s) notes p :=
    fun p => not_returns_property (.inr h)
  obtain ⟨kind, parameters, hpending⟩ := h
  unfold subject
  rw [hpending]
  dsimp only
  rw [returns_property_map]
  rintro ⟨p, hp, -⟩
  exact hproperty p hp

/-- Reading an item as a condition returns the condition it is, and nothing else. -/
lemma returns_condition : Returns (item.condition s) notes op ↔ item.condition? = some op := by
  unfold condition
  split
  · rename_i c hc
    rw [returns_pure, hc, Option.some_inj]
  · rename_i hnone
    rw [hnone]
    simp [Parse.failAt, not_returns_throw]

end Item

/-! ## The grammar -/

namespace Phrase

open Item

variable {s : Setting} {notes notes' : Notes} {item inner : Item} {items : List Item}
  {op : Operator}

/-- Whether items are scalars of some types, in their order. -/
def AreValues (s : Setting) (notes : Notes) (allowed : List ScalarType) (items : List Item)
    (values : List ScalarValue) : Prop :=
  List.Forall₂ (fun item v => Returns (item.value s allowed) notes v) items values

/-- Whether an item is a well-formed call of a function, and the operator it stands for: its
parameters are a property, and an argument where the kind calls for one. -/
inductive IsCall (s : Setting) (notes : Notes) : Item → Operator → Prop
  | intro {token : Token} {span : Span} {kind : Kind} {first : Item} {rest : List Item}
      {p : PropertyRef} {values : List ScalarValue} (tier : kind.tier = 1)
      (count : rest.length = kind.argumentType?.toList.length)
      (property : Returns (first.property s) notes p)
      (arguments : AreValues s notes kind.argumentType?.toList rest values) :
      IsCall s notes ⟨token, span, .pending kind (some (first :: rest))⟩
        { kind, property := some p, operands := values.map .value }

/-- Whether an item can be what a comparison or a membership test is about: it is a subject as it
stands, or a call of a function that is no condition. -/
inductive IsSubject (s : Setting) (notes : Notes) : Item → Operand → Prop
  | accepted {item : Item} {x : Operand} (subject : Returns (item.subject s) notes x) :
      IsSubject s notes item x
  | call {item : Item} {op : Operator} (call : IsCall s notes item op)
      (kind : op.kind ≠ .regexpMatch) : IsSubject s notes item (.operator (op.withSpan item.span))

/-- Whether the number of parameters is what a membership test asks for. -/
def HasArity (kind : Kind) (items : List Item) : Prop :=
  if kind = .between then items.length = 2 else items ≠ []

/-- The types of the parameters of a membership test; none means that all are allowed. -/
def memberTypes (kind : Kind) : List ScalarType := if kind = .between then [.number] else []

/-- The phrases without `NOT` that come to a condition, and the item they come to. -/
inductive IsPrimary (s : Setting) (notes : Notes) : List Item → Item → Prop
  | finished {item : Item} {op : Operator} (condition : item.condition? = some op) :
      IsPrimary s notes [item] item
  | comparison {left right : Item} {token : Token} {span : Span} {kind : Kind}
      {parameters : Option (List Item)} {x : Operand} {v : ScalarValue}
      (family : kind.family = .comparison) (subject : IsSubject s notes left x)
      (value : Returns (right.value s kind.comparable) notes v) :
      IsPrimary s notes [left, ⟨token, span, .pending kind parameters⟩, right]
        (ofOperator token ((span.cover left.span).cover right.span)
          ((Operator.about kind x).withOperands [.value v]))
  | membership {left : Item} {token : Token} {span : Span} {kind : Kind} {parameters : List Item}
      {x : Operand} {values : List ScalarValue} (family : kind.family = .membership)
      (subject : IsSubject s notes left x) (arity : HasArity kind parameters)
      (list : AreValues s notes (memberTypes kind) parameters values) :
      IsPrimary s notes [left, ⟨token, span, .pending kind (some parameters)⟩]
        (ofOperator token (span.cover left.span)
          ((Operator.about kind x).withOperands (values.map .value)))
  | existence {right : Item} {token : Token} {span : Span} {kind : Kind}
      {parameters : Option (List Item)} {p : PropertyRef} (family : kind.family = .existence)
      (property : Returns (right.property s) notes p) :
      IsPrimary s notes [⟨token, span, .pending kind parameters⟩, right]
        (ofOperator token (span.cover right.span) { kind, property := some p })
  | regexp {item : Item} {op : Operator} (call : IsCall s notes item op)
      (kind : op.kind = .regexpMatch) :
      IsPrimary s notes [item] (ofOperator item.token item.span op)

/-- Whether an item is a `NOT` that waits to be settled. -/
def IsNegation (item : Item) : Prop := ∃ parameters, item.term = .pending .not parameters

/-- The negation of a condition by the `NOT` before it. -/
def negate (negation inner : Item) : Item :=
  ofOperator negation.token (negation.span.cover inner.span)
    { kind := .not, operands := inner.condition?.toList.map .operator }

/-- The phrases that come to a condition, and the item they come to. -/
def IsCondition (s : Setting) (notes : Notes) (items : List Item) (item : Item) : Prop :=
  ∃ negations rest inner, items = negations ++ rest ∧ (∀ n ∈ negations, IsNegation n) ∧
    IsPrimary s notes rest inner ∧ item = negations.foldr negate inner

/-- A condition behind negations is a condition, negated as often. -/
lemma isCondition_negations {negations : List Item} (hnegations : ∀ n ∈ negations, IsNegation n)
    (h : IsCondition s notes items item) :
    IsCondition s notes (negations ++ items) (negations.foldr negate item) := by
  obtain ⟨more, rest, inner, rfl, hmore, hrest, rfl⟩ := h
  refine ⟨negations ++ more, rest, inner, (List.append_assoc ..).symm, ?_, hrest,
    (List.foldr_append ..).symm⟩
  exact List.forall_mem_append.mpr ⟨hnegations, hmore⟩

/-- A condition without a negation before it is a condition. -/
lemma IsPrimary.isCondition (h : IsPrimary s notes items item) : IsCondition s notes items item :=
  ⟨[], items, item, rfl, by simp, h, rfl⟩

/-- A call waits to be settled. -/
lemma IsCall.isPending (h : IsCall s notes item op) : item.IsPending := by
  cases h
  exact ⟨_, _, rfl⟩

/-- A negation waits to be settled. -/
lemma IsNegation.isPending (h : IsNegation item) : item.IsPending := by
  obtain ⟨parameters, h⟩ := h
  exact ⟨_, _, h⟩

/-- Whether items are values does not depend on the notes. -/
lemma AreValues.of_notes {allowed : List ScalarType} {values : List ScalarValue}
    (h : AreValues s notes' allowed items values) : AreValues s notes allowed items values :=
  List.Forall₂.imp (fun _ _ hv => returns_value hv) h

/-- Of the operators that are no clause, a function is a condition only if it is `REGEXP_MATCH`. -/
lemma isCondition_of_tier_one {kind : Kind} (h : kind.tier = 1) :
    kind.isCondition = (kind == .regexpMatch) := by
  cases kind <;> first | rfl | exact absurd h (by decide)

/-- A phrase that comes to a condition comes to an item that is one. -/
lemma IsPrimary.exists_condition? (h : IsPrimary s notes items item) :
    ∃ op, item.condition? = some op := by
  have hfamily : ∀ {kind : Kind}, kind.family = .comparison ∨ kind.family = .membership ∨
      kind.family = .existence → kind.isCondition = true := by
    rintro kind (h | h | h) <;> rw [Kind.isCondition, h]
  have habout : ∀ {kind : Kind} {x : Operand} {operands : List Operand},
      ((Operator.about kind x).withOperands operands).isCondition = kind.isCondition := by
    intro kind x operands
    cases x <;> rfl
  cases h with
  | finished condition => exact ⟨_, condition⟩
  | comparison family =>
      exact ⟨_, by rw [condition?_ofOperator, habout, hfamily (.inl family)]; rfl⟩
  | membership family =>
    exact ⟨_, by rw [condition?_ofOperator, habout, hfamily (.inr (.inl family))]; rfl⟩
  | existence family =>
    refine ⟨_, if_pos ?_⟩
    exact hfamily (.inr (.inr family))
  | regexp call kind =>
    refine ⟨_, if_pos ?_⟩
    rw [Operator.isCondition, Operator.withSpan, kind]
    rfl

/-! ## Settling one operator -/

section

variable {claim : Claim} {β : Type} {b : β}

/-- A step that asks for an item goes on with the item that is there. -/
lemma returns_require_bind {fault : PhraseFault} {one : Option Item} {next : Item → Parse β} :
    Returns (claim.require s fault one >>= next) notes b ↔
      ∃ item, one = some item ∧ Returns (next item) notes b := by
  cases one with
  | none => simp [Claim.require, Parse.failAt, not_returns_throw]
  | some item => simp [Claim.require]

/-- A step that asks for parameters goes on with those that are there. -/
lemma returns_requireParameters_bind {next : List Item → Parse β} :
    Returns (claim.requireParameters s >>= next) notes b ↔
      ∃ items, claim.parameters = some items ∧ Returns (next items) notes b := by
  unfold Claim.requireParameters
  split
  · rename_i items hitems
    simp [hitems]
  · rename_i hnone
    simp [hnone, Parse.failAt, not_returns_throw]

/-- Items are read as the values that they are. -/
lemma returns_values {allowed : List ScalarType} {operands : List Operand} :
    Returns (Claim.values s allowed items) notes operands ↔
      ∃ values, AreValues s notes allowed items values ∧ values.map .value = operands := by
  induction items generalizing notes operands with
  | nil =>
    rw [Claim.values, returns_pure]
    constructor
    · rintro rfl
      exact ⟨[], .nil, rfl⟩
    · rintro ⟨_, ⟨⟩, rfl⟩
      rfl
  | cons item rest ih =>
    rw [Claim.values, returns_bind]
    constructor
    · rintro ⟨v, notes', hv, hrest⟩
      obtain ⟨others, notes'', hothers, rfl⟩ := by
        simpa only [returns_bind, returns_pure] using hrest
      obtain ⟨values, hvalues, rfl⟩ := ih.mp (.of_on hothers)
      exact ⟨v :: values, .cons (.of_on hv) hvalues.of_notes, rfl⟩
    · rintro ⟨_, hvalues, rfl⟩
      obtain ⟨v, values, hv, hothers, rfl⟩ := List.forall₂_cons_left_iff.mp hvalues
      obtain ⟨notes', hv⟩ := returns_iff.mp hv
      obtain ⟨notes'', hrest⟩ := returns_iff.mp (ih.mpr ⟨values, AreValues.of_notes hothers, rfl⟩)
      exact ⟨v, notes', hv, returns_bind.mpr ⟨_, notes'', hrest, returns_pure.mpr rfl⟩⟩

/-- A comparison is made of a subject before it and a value behind it that it may compare. -/
lemma returns_comparison :
    Returns (claim.comparison s) notes op ↔ ∃ left right x v, claim.left = some left ∧
      claim.right = some right ∧ Returns (left.subject s) notes x ∧
      Returns (right.value s claim.kind.comparable) notes v ∧
      (Operator.about claim.kind x).withOperands [.value v] = op := by
  unfold Claim.comparison
  constructor
  · intro h
    obtain ⟨left, hleft, h⟩ := returns_require_bind.mp h
    obtain ⟨right, hright, h⟩ := returns_require_bind.mp h
    obtain ⟨x, notes', hx, h⟩ := returns_bind.mp h
    obtain ⟨v, notes'', hv, h⟩ := returns_bind.mp h
    exact ⟨left, right, x, v, hleft, hright, .of_on hx, returns_value (.of_on hv),
      returns_pure.mp h⟩
  · rintro ⟨left, right, x, v, hleft, hright, hx, hv, hop⟩
    obtain ⟨notes', hx⟩ := returns_iff.mp hx
    have hv' : Returns (right.value s claim.kind.comparable) notes' v := returns_value hv
    obtain ⟨notes'', hv⟩ := returns_iff.mp hv'
    refine returns_require_bind.mpr ⟨left, hleft, returns_require_bind.mpr ⟨right, hright, ?_⟩⟩
    exact returns_bind.mpr ⟨x, notes', hx, returns_bind.mpr ⟨v, notes'', hv, returns_pure.mpr hop⟩⟩

/-- What a membership lists are values of the types that its kind allows. -/
lemma returns_listed {x : Operand} :
    Returns (do
      return (Operator.about claim.kind x).withOperands
        (← Claim.values s (memberTypes claim.kind) items)) notes op ↔
      ∃ values, AreValues s notes (memberTypes claim.kind) items values ∧
        (Operator.about claim.kind x).withOperands (values.map .value) = op := by
  rw [returns_bind_of_forall fun _ _ => returns_pure]
  simp only [returns_values]
  constructor
  · rintro ⟨_, ⟨values, hvalues, rfl⟩, hop⟩
    exact ⟨values, hvalues, hop⟩
  · rintro ⟨values, hvalues, hop⟩
    exact ⟨_, ⟨values, hvalues, rfl⟩, hop⟩

/-- A membership is made of a subject before it and as many values in its parentheses as its kind
takes. -/
lemma returns_membership :
    Returns (claim.membership s) notes op ↔ ∃ items left x values, claim.parameters = some items ∧
      claim.left = some left ∧ Returns (left.subject s) notes x ∧ HasArity claim.kind items ∧
      AreValues s notes (memberTypes claim.kind) items values ∧
      (Operator.about claim.kind x).withOperands (values.map .value) = op := by
  -- the list is read if its length is right
  have hlist : ∀ {items : List Item} {x : Operand} {notes' : Notes},
      Returns (do
        if claim.kind = .between then
          if items.length ≠ 2 then Parse.failAt s (.boundCount items.length) claim.token
        else if items.isEmpty then Parse.failAt s (.valuesMissing claim.kind) claim.token
        let allowed := if claim.kind = .between then [.number] else []
        return (Operator.about claim.kind x).withOperands (← Claim.values s allowed items))
        notes' op ↔
      HasArity claim.kind items ∧
        ∃ values, AreValues s notes (memberTypes claim.kind) items values ∧
        (Operator.about claim.kind x).withOperands (values.map .value) = op := by
    intro items x notes'
    have hvalues : Returns (do
        return (Operator.about claim.kind x).withOperands
          (← Claim.values s (memberTypes claim.kind) items)) notes' op ↔ _ := returns_listed
    have hnotes : ∀ values, AreValues s notes' (memberTypes claim.kind) items values ↔
        AreValues s notes (memberTypes claim.kind) items values := fun _ => ⟨.of_notes, .of_notes⟩
    simp only [hnotes] at hvalues
    unfold memberTypes at hvalues
    unfold HasArity memberTypes
    by_cases hbetween : claim.kind = .between
    · simp only [if_pos hbetween] at hvalues ⊢
      by_cases hcount : items.length = 2
      · simp only [hcount, ne_eq, not_true_eq_false, if_false, true_and]
        exact hvalues
      · simp only [hcount, ne_eq, not_false_eq_true, if_true, false_and, iff_false]
        exact not_returns_stop
    · simp only [if_neg hbetween] at hvalues ⊢
      cases items with
      | nil =>
        simp only [List.isEmpty_nil, if_true, ne_eq, not_true_eq_false, false_and, iff_false]
        exact not_returns_stop
      | cons item rest =>
        simp only [List.isEmpty_cons, Bool.false_eq_true, if_false, ne_eq, List.cons_ne_nil,
          not_false_eq_true, true_and]
        exact hvalues
  unfold Claim.membership
  rw [returns_requireParameters_bind]
  simp only [returns_require_bind, returns_bind_of_forall fun _ _ => hlist]
  constructor
  · rintro ⟨items, hitems, left, hleft, x, hx, harity, values, hvalues, hop⟩
    exact ⟨items, left, x, values, hitems, hleft, hx, harity, hvalues, hop⟩
  · rintro ⟨items, left, x, values, hitems, hleft, hx, harity, hvalues, hop⟩
    exact ⟨items, hitems, left, hleft, x, hx, harity, values, hvalues, hop⟩

/-- A test for existence is made of the property behind it. -/
lemma returns_existence :
    Returns (claim.existence s) notes op ↔ ∃ right p, claim.right = some right ∧
      Returns (right.property s) notes p ∧ { kind := claim.kind, property := some p } = op := by
  unfold Claim.existence
  rw [returns_require_bind]
  simp only [returns_bind_of_forall fun _ _ => returns_pure, exists_and_left]

/-- Only a negation is made of a condition behind it. -/
lemma returns_logical :
    Returns (claim.logical s) notes op ↔ claim.kind = .not ∧ ∃ right c, claim.right = some right ∧
      right.condition? = some c ∧ { kind := .not, operands := [.operator c] } = op := by
  unfold Claim.logical
  by_cases hkind : claim.kind = .not
  · simp only [hkind, ne_eq, not_true_eq_false, if_false, true_and]
    rw [returns_require_bind]
    simp only [returns_bind_of_forall fun _ _ => returns_pure, returns_condition, exists_and_left]
  · simp only [hkind, ne_eq, not_false_eq_true, if_true, false_and, iff_false]
    exact not_returns_stop

/-- A step that counts parameters goes on with as many as it asks for. -/
lemma returns_exactParameters_bind {count : Nat} {next : List Item → Parse β} :
    Returns (claim.exactParameters s count >>= next) notes b ↔
      ∃ items, claim.parameters = some items ∧ items.length = count ∧
        Returns (next items) notes b := by
  unfold Claim.exactParameters
  rw [bind_assoc, returns_requireParameters_bind]
  refine exists_congr fun items => and_congr_right fun _ => ?_
  by_cases hcount : items.length = count
  · rw [if_pos hcount, pure_bind, eq_true hcount, true_and]
  · rw [if_neg hcount, eq_false hcount, false_and, iff_false]
    exact not_returns_stop

/-- The parameters of a function are a property and values of the type of its argument. -/
lemma returns_arguments {first : Item} {rest : List Item} :
    Returns (claim.arguments s (first :: rest)) notes op ↔
      ∃ p values, Returns (first.property s) notes p ∧
        AreValues s notes claim.kind.argumentType?.toList rest values ∧
        { kind := claim.kind, property := some p, operands := values.map .value } = op := by
  unfold Claim.arguments
  constructor
  · intro h
    obtain ⟨p, notes', hp, h⟩ := returns_bind.mp h
    obtain ⟨_, notes'', hread, h⟩ := returns_bind.mp h
    obtain ⟨values, hvalues, rfl⟩ := returns_values.mp (.of_on hread)
    exact ⟨p, values, .of_on hp, hvalues.of_notes, returns_pure.mp h⟩
  · rintro ⟨p, values, hp, hvalues, hop⟩
    obtain ⟨notes', hp⟩ := returns_iff.mp hp
    have hlisted : Returns (Claim.values s claim.kind.argumentType?.toList rest) notes'
        (values.map .value) := returns_values.mpr ⟨values, hvalues.of_notes, rfl⟩
    obtain ⟨notes'', hread⟩ := returns_iff.mp hlisted
    exact returns_bind.mpr
      ⟨p, notes', hp, returns_bind.mpr ⟨_, notes'', hread, returns_pure.mpr hop⟩⟩

/-- A function is made of its parameters, whatever name it introduces. -/
lemma returns_function (htier : claim.kind.tier = 1) (own : Span) :
    Returns (claim.function s) notes op ↔
      ∃ items, claim.parameters = some items ∧
        IsCall s notes ⟨claim.token, own, .pending claim.kind (some items)⟩ op := by
  have hcount : (if claim.kind.argumentType?.isSome then 2 else 1) =
      claim.kind.argumentType?.toList.length + 1 := by
    cases claim.kind.argumentType? <;> rfl
  unfold Claim.function
  rw [returns_exactParameters_bind, hcount]
  refine exists_congr fun items => and_congr_right fun hitems => ?_
  -- a name may be noted, but what is returned is what was made
  refine Iff.trans (and_congr_right fun _ =>
    returns_bind_of_forall (P := fun made => made = op) fun made _ => ?_) ?_
  · cases made.defaultAlias? with
    | none => exact returns_pure
    | some name => exact returns_pure
  rw [exists_eq_right]
  cases items with
  | nil =>
    constructor
    · rintro ⟨hlength, -⟩
      cases hlength
    · intro h
      cases h
  | cons first rest =>
    rw [returns_arguments, List.length_cons, Nat.add_right_cancel_iff]
    constructor
    · rintro ⟨hlength, p, values, hp, hvalues, rfl⟩
      exact .intro htier hlength hp hvalues
    · rintro ⟨-, hlength, hp, hvalues⟩
      exact ⟨hlength, _, _, hp, hvalues, rfl⟩

/-- An operator is settled as what is produced from its neighbours. -/
lemma returns_settle {own : Span} :
    Returns (settle s own claim) notes item ↔
      ∃ op, Returns (claim.produce s claim.kind.family) notes op ∧
        ofOperator claim.token (claim.span own) op = item :=
  returns_bind_of_forall fun _ _ => returns_pure

end

end Phrase

end RecordQuery
