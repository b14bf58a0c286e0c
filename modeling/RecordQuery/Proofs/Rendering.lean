import RecordQuery.Proofs.Extent
import RecordQuery.Proofs.Names

/-!
# Texts of shapes

For each of the shapes of operators the lemmas of this file say what its text is, and what reading
this text does with names. A group asks that none of its conditions has an empty text, since those
would be left out.
-/

namespace RecordQuery

namespace Operator

variable {registry : Registry}

/-- The text of an operator is laid out from the texts of its operands. -/
lemma render_eq (registry : Registry) (op : Operator) :
    op.render registry = layout registry op (renderOperands registry op.operands) := by
  cases op
  rw [render]

/-- Operands are rendered one by one. -/
lemma renderOperands_eq_map (registry : Registry) (operands : List Operand) :
    renderOperands registry operands = operands.map (Operand.render registry) := by
  induction operands with
  | nil => rfl
  | cons operand rest ih =>
    cases operand <;> simp only [renderOperands, ih, List.map_cons, Operand.render]

/-! ## Conditions about a subject -/

/-- A comparison is written with its keyword between the subject and the value. -/
lemma render_stated_comparison {kind : Kind} (family : kind.family = .comparison)
    (subject : Operand) (v : ScalarValue) (span : Option Span) :
    (stated kind subject [.value v] span).render registry =
      subject.render registry ++ " " ++ kind.keyword ++ " " ++ v.render registry := by
  cases subject <;>
    simp [render_eq, layout, stated, about, withOperands, family, renderOperands_eq_map,
      Operand.render]

/-- A membership is written with its values in parentheses, a comma between any two. -/
lemma render_stated_membership {kind : Kind} (family : kind.family = .membership)
    (subject : Operand) (values : List ScalarValue) (span : Option Span) :
    (stated kind subject (values.map .value) span).render registry =
      subject.render registry ++ " " ++ kind.keyword ++ " (" ++
        commaList (values.map fun v => v.render registry) ++ ")" := by
  have hvalues : (values.map Operand.value).map (Operand.render registry) =
      values.map fun v => v.render registry := by
    rw [List.map_map]
    rfl
  cases subject with
  | property p =>
    simp only [render_eq, layout, stated, about, withOperands, family, renderOperands_eq_map,
      List.nil_append, Operand.render]
    rw [List.map_snd_zip (by simp), hvalues]
  | value v =>
    simp only [render_eq, layout, stated, about, withOperands, family, renderOperands_eq_map,
      List.singleton_append, List.map_cons, List.headD_cons, List.zip_cons_cons, List.tail_cons]
    rw [List.map_snd_zip (by simp), hvalues]
  | operator op =>
    simp only [render_eq, layout, stated, about, withOperands, family, renderOperands_eq_map,
      List.singleton_append, List.map_cons, List.headD_cons, List.zip_cons_cons, List.tail_cons]
    rw [List.map_snd_zip (by simp), hvalues]

/-- What reading a condition about a subject does with names is what reading the subject does. -/
lemma mentions_stated {kind : Kind}
    (family : kind.family = .comparison ∨ kind.family = .membership) (subject : Operand)
    (values : List ScalarValue) (span : Option Span) :
    (stated kind subject (values.map .value) span).mentions = mentionsIn true [subject] := by
  have hvalues : mentionsIn true (values.map Operand.value) = [] := by
    induction values with
    | nil => rfl
    | cons v values ih => rw [List.map_cons, mentionsIn, ih]
  have hkind : kind.looksUpLast = false ∧ kind ≠ .asName ∧ kind.aliasSuffix? = none := by
    cases kind <;> revert family <;> decide
  cases subject <;>
    simp [stated, about, withOperands, mentions, mentionsIn, hvalues, hkind.1, introduces?,
      hkind.2.1, defaultAlias?, hkind.2.2]

/-- A comparison or a membership takes one round more than its subject. -/
lemma rounds_stated {kind : Kind}
    (family : kind.family = .comparison ∨ kind.family = .membership) (subject : Operand)
    (values : List ScalarValue) (span : Option Span) :
    (stated kind subject (values.map .value) span).rounds = 1 + roundsIn kind [subject] := by
  have hvalues : roundsIn kind (values.map Operand.value) = 0 := by
    cases values <;> simp [roundsIn]
  have hkind : (kind.isConnective || kind.isClause) = false := by
    cases kind <;> revert family <;> decide
  rw [rounds_eq, stated_kind, hkind]
  cases subject <;> simp [stated, about, withOperands, roundsIn, hvalues]

/-- Values are nested nowhere, so the depth comes from the subject and the parentheses of a
function. -/
lemma depth_stated (kind : Kind) (subject : Operand) (values : List ScalarValue)
    (span : Option Span) :
    (stated kind subject (values.map .value) span).depth =
      max (if kind.isFunction then 1 else 0) (depthIn kind [subject]) := by
  have hvalues : depthIn kind (values.map Operand.value) = 0 := by
    induction values with
    | nil => rfl
    | cons v values ih => rw [List.map_cons, depthIn, ih]
  rw [depth_eq, stated_kind]
  cases subject <;> simp [stated, about, withOperands, depthIn, hvalues]

/-- The values of an operator are those among its operands. -/
lemma mem_values {op : Operator} {v : ScalarValue} : v ∈ op.values ↔ .value v ∈ op.operands := by
  rw [values, List.mem_filterMap]
  constructor
  · rintro ⟨operand, hoperand, heq⟩
    cases operand with
    | value w =>
      cases heq
      exact hoperand
    | _ => cases heq
  · exact fun h => ⟨_, h, rfl⟩

/-- What is listed behind the subject is among the values. -/
lemma mem_values_stated {kind : Kind} {x : Operand} {rest : List Operand} {span : Option Span}
    {v : ScalarValue} (h : .value v ∈ rest) : v ∈ (stated kind x rest span).values := by
  rw [mem_values]
  cases x <;> simp [stated, about, withOperands, h]

/-! ## Functions and existence tests -/

/-- A test for existence is written with the property behind the keyword. -/
lemma render_existence {kind : Kind} (family : kind.family = .existence) (p : PropertyRef)
    (span : Option Span) :
    (Operator.mk kind (some p) [] span).render registry =
      kind.keyword ++ " " ++ p.render registry := by
  simp [render_eq, layout, family]

/-- A test for existence mentions its property. -/
lemma mentions_existence {kind : Kind} (family : kind.family = .existence) (p : PropertyRef)
    (span : Option Span) : (Operator.mk kind (some p) [] span).mentions = [.refer p] := by
  have hkind : kind.looksUpLast = false ∧ kind ≠ .asName ∧ kind.aliasSuffix? = none := by
    cases kind <;> revert family <;> decide
  simp [mentions, mentionsIn, hkind.1, introduces?, hkind.2.1, defaultAlias?, hkind.2.2]

/-- The text of a parameter of a function. -/
def parameterText (registry : Registry) (kind : Kind) (v : ScalarValue) : String :=
  if kind = .regexpMatch then Text.quoteVerbatim v.text else v.render registry

/-- The parameters of a function are written one by one, and a pattern without escapes. -/
lemma parameterTexts_eq (registry : Registry) (kind : Kind) (values : List ScalarValue) :
    (List.zip (values.map Operand.value)
      ((values.map Operand.value).map (Operand.render registry))).map
        (fun (operand, text) =>
          match kind, operand with
          | .regexpMatch, .value v => Text.quoteVerbatim v.text
          | _, _ => text) = values.map (parameterText registry kind) := by
  induction values with
  | nil => rfl
  | cons v values ih =>
    rw [List.map_cons, List.map_cons, List.zip_cons_cons, List.map_cons, ih, List.map_cons,
      parameterText]
    cases kind <;> rfl

/-- A function is written with its property and its values in parentheses. -/
lemma render_function {kind : Kind} (family : kind.family = .projection) (hname : kind ≠ .asName)
    (p : PropertyRef) (values : List ScalarValue) (span : Option Span) :
    (Operator.mk kind (some p) (values.map .value) span).render registry =
      kind.keyword ++ "(" ++
        commaList (p.render registry :: values.map (parameterText registry kind)) ++ ")" := by
  simp only [render_eq, layout, family, if_neg hname, renderOperands_eq_map]
  rewrite [← parameterTexts_eq]
  rfl

/-- A function mentions its property, and the alias that it has by default. -/
lemma mentions_function {kind : Kind} (family : kind.family = .projection) (hname : kind ≠ .asName)
    (p : PropertyRef) (values : List ScalarValue) (span : Option Span) :
    (Operator.mk kind (some p) (values.map .value) span).mentions =
      .refer p :: (Operator.mk kind (some p) (values.map .value) none).defaultAlias?.toList.map
        .bind := by
  have hvalues : mentionsIn true (values.map Operand.value) = [] := by
    induction values with
    | nil => rfl
    | cons v values ih => rw [List.map_cons, mentionsIn, ih]
  have hkind : kind.looksUpLast = false := by
    cases kind <;> revert family <;> decide
  simp [mentions, hkind, hvalues, introduces?, hname, defaultAlias?]

/-! ## Names -/

/-- A naming is written with the alias behind what it names. -/
lemma render_naming (target : Operand) (name : String) (span : Option Span) :
    (Operator.mk .asName none [target, .value (.ofString name)] span).render registry =
      target.render registry ++ " AS " ++ (PropertyRef.byAlias name).render registry := by
  simp [render_eq, layout, Kind.family, renderOperands_eq_map, Operand.string?, Operand.value?,
    ScalarValue.string?, ScalarValue.ofString]

/-- A naming mentions what is in its target, and then binds its alias. -/
lemma mentions_naming {target : Operand} {name : String} (span : Option Span)
    (htarget : target.value? = none) :
    (Operator.mk .asName none [target, .value (.ofString name)] span).mentions =
      mentionsIn true [target] ++ [.bind name] := by
  have hname : (Operator.mk .asName none [target, .value (.ofString name)] span).introduces? =
      some name := by
    cases target with
    | value v => cases htarget
    | property p => rfl
    | operator op => rfl
  rw [mentions, hname]
  cases target <;> simp [mentionsIn, Kind.looksUpLast]

/-! ## Conditions of conditions -/

/-- The text of an operand in the text of an operator. -/
def enclosedText (kind : Kind) (op : Operator) (text : String) : String :=
  if encloses kind op then "(" ++ text ++ ")" else text

/-- What a group or a negation writes of an operand is its text, in parentheses where the kinds ask
for it. -/
lemma nested_eq {kind : Kind} (hkind : kind.isConnective = true ∨ kind = .not) {op : Operator}
    (hnot : kind = .not → op.kind ≠ .not) (text : String) :
    nested (.operator op) text = enclosedText kind op text := by
  have hfamily : (kind.family == .logical) = true := by
    obtain h | rfl := hkind
    · cases kind <;> revert h <;> decide
    · decide
  have hnegation : (kind == .not && op.kind == .not) = false := by
    by_cases h : kind = .not
    · simp [h, hnot h]
    · simp [h]
  simp only [nested, enclosedText, encloses, hfamily, hnegation, Bool.true_and, Bool.or_false,
    Bool.and_eq_true, decide_eq_true_eq]

/-- Nothing is written of an operand exactly if its text is empty and no parentheses are put around
it. -/
lemma enclosedText_eq_empty_iff {kind : Kind} {op : Operator} {text : String} :
    enclosedText kind op text = "" ↔ encloses kind op = false ∧ text = "" := by
  unfold enclosedText
  split
  · rename_i hencloses
    have hne : "(" ++ text ++ ")" ≠ "" := fun h => by
      have := congrArg String.toList h
      simp at this
    simp [hencloses, hne]
  · rename_i hencloses
    simp [hencloses]

/-- A negation is written unless the text behind it is empty. -/
lemma render_negation_eq (condition : Operator) (span : Option Span) :
    (Operator.mk .not none [.operator condition] span).render registry =
      let text := enclosedText .not condition (condition.render registry)
      if text.isEmpty then "" else "NOT " ++ text := by
  have hlayout : (Operator.mk .not none [.operator condition] span).render registry =
      if condition.kind = .not then "NOT (" ++ condition.render registry ++ ")"
      else if (nested (.operator condition) (condition.render registry)).isEmpty then ""
        else "NOT " ++ nested (.operator condition) (condition.render registry) := by
    obtain ⟨kind, property, operands, cspan⟩ := condition
    rw [render_eq]
    simp only [layout, Kind.family, renderOperands_eq_map, List.map_cons, List.map_nil,
      Operand.render, if_true]
    cases kind <;> rfl
  rw [hlayout]
  dsimp only
  by_cases hnot : condition.kind = .not
  · have hencloses : encloses .not condition = true := by
      simp [encloses, hnot, Kind.family]
    have hsome : ¬ (enclosedText .not condition (condition.render registry)).isEmpty = true := by
      rw [String.isEmpty_iff, enclosedText_eq_empty_iff, hencloses]
      simp
    rw [if_pos hnot, if_neg hsome, enclosedText, if_pos hencloses]
    simp only [← String.append_assoc]
    rfl
  · have hnested : nested (.operator condition) (condition.render registry) =
        enclosedText .not condition (condition.render registry) :=
      nested_eq (.inr rfl) (fun _ => hnot) _
    rw [if_neg hnot, hnested]

/-- The negation of a condition with a text is written with the text behind `NOT`. -/
lemma render_negation {condition : Operator} (hne : condition.render registry ≠ "")
    (span : Option Span) :
    (Operator.mk .not none [.operator condition] span).render registry =
      "NOT " ++ enclosedText .not condition (condition.render registry) := by
  have hsome : ¬ (enclosedText .not condition (condition.render registry)).isEmpty = true := by
    rw [String.isEmpty_iff, enclosedText_eq_empty_iff]
    exact fun h => hne h.2
  rw [render_negation_eq]
  exact if_neg hsome

/-- A negation mentions what its condition does. -/
lemma mentions_negation (condition : Operator) (span : Option Span) :
    (Operator.mk .not none [.operator condition] span).mentions = condition.mentions := by
  simp [mentions, mentionsIn, Kind.looksUpLast, introduces?, defaultAlias?, Kind.aliasSuffix?]

/-- Of the conditions of a group those are written that have a text. -/
lemma render_group_eq (connective : Connective) (conditions : List Operator) (span : Option Span) :
    (Operator.mk connective.kind none (conditions.map .operator) span).render registry =
      (" " ++ connective.keyword ++ " ").intercalate
        ((conditions.map fun c => enclosedText connective.kind c (c.render registry)).filter
          fun text => !text.isEmpty) := by
  have hkind : connective.kind.isConnective = true ∧ connective.kind ≠ .not ∧
      connective.kind.family = .logical := by cases connective <;> decide
  obtain ⟨hconnective, hnot, hfamily⟩ := hkind
  have htexts : List.zipWith nested (conditions.map Operand.operator)
      ((conditions.map Operand.operator).map (Operand.render registry)) =
        conditions.map fun c => enclosedText connective.kind c (c.render registry) := by
    induction conditions with
    | nil => rfl
    | cons c conditions ih =>
      rw [List.map_cons, List.map_cons, List.zipWith_cons_cons, ih, List.map_cons, Operand.render,
        nested_eq (.inl hconnective) fun h => absurd h hnot]
  rw [render_eq]
  simp only [layout, hfamily, if_neg hnot, renderOperands_eq_map]
  rw [htexts]
  rfl

/-- A group of conditions with texts is written with its connective between any two. -/
lemma render_group {connective : Connective} {conditions : List Operator}
    (hne : ∀ c ∈ conditions, c.render registry ≠ "") (span : Option Span) :
    (Operator.mk connective.kind none (conditions.map .operator) span).render registry =
      (" " ++ connective.keyword ++ " ").intercalate
        (conditions.map fun c => enclosedText connective.kind c (c.render registry)) := by
  rw [render_group_eq, List.filter_eq_self.mpr]
  intro text htext
  obtain ⟨c, hc, rfl⟩ := List.mem_map.mp htext
  rw [Bool.not_eq_true', ← Bool.not_eq_true, String.isEmpty_iff, enclosedText_eq_empty_iff]
  exact fun h => hne c hc h.2

/-- What is mentioned in conditions is what each of them mentions, in order. -/
lemma mentionsIn_map_operator (all : Bool) (conditions : List Operator) :
    mentionsIn all (conditions.map .operator) = conditions.flatMap mentions := by
  induction conditions with
  | nil => rfl
  | cons c conditions ih => rw [List.map_cons, mentionsIn, ih, List.flatMap_cons]

/-- A group mentions what its conditions do, in order. -/
lemma mentions_group (connective : Connective) (conditions : List Operator) (span : Option Span) :
    (Operator.mk connective.kind none (conditions.map .operator) span).mentions =
      conditions.flatMap mentions := by
  have hkind : connective.kind.looksUpLast = false ∧ connective.kind ≠ .asName ∧
      connective.kind.aliasSuffix? = none := by
    cases connective <;> decide
  simp [mentions, mentionsIn_map_operator, hkind.1, introduces?, hkind.2.1, defaultAlias?,
    hkind.2.2]

/-! ## Clauses -/

/-- The text of a clause with its operands behind the keyword. -/
lemma render_clause {kind : Kind} (family : kind.family = .clause) (hordering : kind ≠ .orderBy)
    (hrange : kind ≠ .timeRange) (operands : List Operand) (span : Option Span) :
    (Operator.mk kind none operands span).render registry =
      kind.keyword ++ " " ++ commaList (operands.map (Operand.render registry)) := by
  simp only [render_eq, layout, family, renderOperands_eq_map]

/-- A range of time is written like a function. -/
lemma render_timeRange (operands : List Operand) (span : Option Span) :
    (Operator.mk .timeRange none operands span).render registry =
      "TIME_RANGE(" ++ commaList (operands.map (Operand.render registry)) ++ ")" := by
  simp only [render_eq, layout, Kind.family, renderOperands_eq_map]
  rfl

/-- An ordering is written with the direction of each entry behind it. -/
lemma render_ordering (entries : List (Operand × String)) (span : Option Span) :
    (Operator.mk .orderBy none (orderOperands entries) span).render registry =
      "ORDER BY " ++ commaList
        (entries.map fun entry => entry.1.render registry ++ " " ++ upperCase entry.2) := by
  have hpairs : (pairs (List.zip (orderOperands entries)
      ((orderOperands entries).map (Operand.render registry)))).map (fun entry =>
        ((entry.head?.map Prod.snd).getD "") ++ " " ++
          upperCase (((entry[1]?).bind fun part => part.1.string?).getD "asc")) =
      entries.map fun entry => entry.1.render registry ++ " " ++ upperCase entry.2 := by
    induction entries with
    | nil => rfl
    | cons entry entries ih =>
      have hcons : orderOperands (entry :: entries) =
          entry.1 :: .value (.ofString entry.2) :: orderOperands entries := rfl
      rw [hcons]
      simp only [List.map_cons, List.zip_cons_cons, pairs, ih]
      rfl
  simp only [render_eq, layout, Kind.family, renderOperands_eq_map, ← hpairs]
  rfl

/-- A clause mentions what is in its operands; what it looks up last comes behind. -/
lemma mentions_clause {kind : Kind} (family : kind.family = .clause) (operands : List Operand)
    (span : Option Span) :
    (Operator.mk kind none operands span).mentions =
      mentionsIn (!kind.looksUpLast) operands ++
        (if kind.looksUpLast then references operands else []) := by
  have hkind : kind ≠ .asName ∧ kind.aliasSuffix? = none := by
    cases kind <;> revert family <;> decide
  simp [mentions, introduces?, hkind.1, defaultAlias?, hkind.2]

/-- What operands mention comes in their order. -/
lemma mentionsIn_cons (all : Bool) (operand : Operand) (operands : List Operand) :
    mentionsIn all (operand :: operands) = mentionsIn all [operand] ++ mentionsIn all operands := by
  cases operand <;> simp [mentionsIn]

/-- Directions mention nothing. -/
lemma mentionsIn_orderOperands (entries : List (Operand × String)) :
    mentionsIn true (orderOperands entries) =
      entries.flatMap fun entry => mentionsIn true [entry.1] := by
  induction entries with
  | nil => rfl
  | cons entry entries ih =>
    have hcons : orderOperands (entry :: entries) =
        entry.1 :: .value (.ofString entry.2) :: orderOperands entries := rfl
    rw [hcons, mentionsIn_cons, mentionsIn, ih, List.flatMap_cons]

/-- The depth of operands is that of the deepest one. -/
lemma depthIn_cons (kind : Kind) (operand : Operand) (operands : List Operand) :
    depthIn kind (operand :: operands) = max (depthIn kind [operand]) (depthIn kind operands) := by
  cases operand <;> simp [depthIn]

end Operator

end RecordQuery
