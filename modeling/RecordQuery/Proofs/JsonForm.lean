import RecordQuery.Proofs.Compiling
import RecordQuery.Proofs.Decoding
import RecordQuery.Proofs.Numerals

/-!
# Reading back JSON forms

The JSON form of a query forgets where its operators stood and in which words its scalars were
written. Apart from that, reading the form back gives the same query, if the numbers in it are whole
and have 64 bits: only these are written as integers, all others as doubles.

The reader refuses most JSON values. So it has to be shown as well that it refuses none that a query
is written as. Queries that were read from JSON forms have passed its checks already. Those that
were read from texts have not, but their shapes are among the ones that pass.
-/

namespace RecordQuery

open Decoding

/-! ## Equal trees -/

mutual

/-- Two operators that differ in spans and the texts of scalars only. -/
inductive Operator.SameTree : Operator → Operator → Prop
  | intro {kind : Kind} {property : Option PropertyRef} {as bs : List Operand} {r s : Option Span}
      (operands : List.Forall₂ Operand.SameTree as bs) :
      Operator.SameTree ⟨kind, property, as, r⟩ ⟨kind, property, bs, s⟩

/-- Two operands that differ in spans and the texts of scalars only. -/
inductive Operand.SameTree : Operand → Operand → Prop
  | property (p : PropertyRef) : Operand.SameTree (.property p) (.property p)
  | value {v w : ScalarValue} (same : v.value.same w.value = true) :
      Operand.SameTree (.value v) (.value w)
  | operator {a b : Operator} (same : Operator.SameTree a b) :
      Operand.SameTree (.operator a) (.operator b)

end

/-- Whether a scalar is no number, or a whole number of 64 bits. -/
def ScalarValue.IsWhole (v : ScalarValue) : Prop := ∀ d, v.value = .number d → d.toInt64?.isSome

/-- Whether all numbers among the operands of an operator are whole numbers of 64 bits. -/
def Operator.HoldsWhole (op : Operator) : Prop := ∀ v, .value v ∈ op.operands → v.IsWhole

/-- Two scalars of one value have one JSON form, if it is that of an integer where they are
numbers. -/
lemma ScalarValue.toJson_eq_of_same {v w : ScalarValue} (h : v.value.same w.value = true)
    (hv : v.IsWhole) : v.toJson = w.toJson := by
  obtain ⟨v, text⟩ := v
  obtain ⟨w, text'⟩ := w
  cases v with
  | number d =>
    cases w with
    | number e =>
      obtain ⟨n, hn⟩ := Option.isSome_iff_exists.mp (hv d rfl)
      have he := Decimal.toInt64?_of_same h hn
      simp only [ScalarValue.toJson, Decimal.toJson, hn, he]
    | _ => cases h
  | _ => cases w <;> simp_all [Scalar.same, ScalarValue.toJson]

namespace Operator

/-- The JSON forms of operands are taken one by one. -/
lemma operandsToJson_eq_map (operands : List Operand) :
    operandsToJson operands = operands.map Operand.toJson := by
  induction operands with
  | nil => rfl
  | cons operand rest ih =>
    cases operand <;> rw [operandsToJson, ih, List.map_cons, Operand.toJson]

/-- Equal trees with whole numbers only have one JSON form. -/
lemma SameTree.toJson_eq (a : Operator) :
    ∀ {b : Operator}, SameTree a b → a.Everywhere HoldsWhole → a.toJson = b.toJson := by
  induction a using Operator.induction with
  | step a ih =>
    rintro b h hwhole
    obtain ⟨hroot, hchildren⟩ := everywhere_iff.mp hwhole
    cases h with
    | @intro kind property as bs r s hoperands =>
      have hforms : as.map Operand.toJson = bs.map Operand.toJson := by
        clear hwhole
        induction hoperands with
        | nil => rfl
        | @cons x y xs ys hxy _ ihrest =>
          rw [List.map_cons, List.map_cons]
          congr 1
          · cases hxy with
            | property => rfl
            | value hsame =>
              exact ScalarValue.toJson_eq_of_same hsame (hroot _ (by simp))
            | operator hsame =>
              exact ih _ (by simp) hsame (hchildren _ (by simp))
          · refine ihrest (fun child hchild => ih child ?_) (fun v hv => hroot v ?_)
              fun child hchild => hchildren child ?_
            · exact List.mem_cons_of_mem _ hchild
            · exact List.mem_cons_of_mem _ hv
            · exact List.mem_cons_of_mem _ hchild
      rw [toJson, toJson, operandsToJson_eq_map, operandsToJson_eq_map, hforms]

end Operator

/-! ## Parts without operators -/

/-- The members of no operator are taken for those of a property. -/
lemma Kind.jsonKey_ne (kind : Kind) : kind.jsonKey ≠ "source" ∧ kind.jsonKey ≠ "alias" := by
  cases kind <;> decide

/-- A reference is read back from its JSON form, unless it names the namespace that is the default
one. -/
lemma PropertyRef.ofJson_toJson {p : PropertyRef} (h : p.scope? ≠ some PropertyRef.defaultScope) :
    PropertyRef.ofJson p.toJson = .ok p := by
  rcases p with ⟨_ | scope, id⟩ | name
  · rfl
  · have hscope : scope ≠ PropertyRef.defaultScope := by simpa [PropertyRef.scope?] using h
    have hread : PropertyRef.ofJson (PropertyRef.toJson (.field (some scope) id)) =
        .ok (PropertyRef.inScope scope id) := rfl
    rw [hread, PropertyRef.inScope, if_neg hscope]
  · rfl

/-- Scalars that are the same have the same type. -/
lemma Scalar.type_eq_of_same {a b : Scalar} (h : a.same b = true) : a.type = b.type := by
  cases a <;> cases b <;> simp_all [Scalar.same, Scalar.type]

namespace ScalarValue

/-- Two scalars of one value, both or neither of which count rows. -/
structure Reads (v w : ScalarValue) : Prop where
  same : v.value.same w.value = true
  isCount : v.isCount = w.isCount

/-- A value that is read back as another has the type of the other. -/
lemma Reads.type {v w : ScalarValue} (h : v.Reads w) : w.type = v.type :=
  (Scalar.type_eq_of_same h.same).symm

/-- A scalar that holds no fraction is read back. -/
lemma succeeds_ofJson {v : ScalarValue} (hv : v.IsWhole) : Succeeds v.Reads (ofJson v.toJson) := by
  obtain ⟨value, text⟩ := v
  cases value with
  | string s => exact Succeeds.ok ⟨by simp [ofString, Scalar.same], rfl⟩
  | boolean b => exact Succeeds.ok ⟨by simp [ofBool, Scalar.same], rfl⟩
  | null => exact Succeeds.ok ⟨rfl, rfl⟩
  | number d =>
    obtain ⟨n, hn⟩ := Option.isSome_iff_exists.mp (hv d rfl)
    obtain ⟨e, he, hsame, hnegative, hwhole⟩ := Decimal.ofText?_integerText_of_toInt64? hn
    have hd : d.isWhole = true :=
      ((Decimal.signed_eq_iff d n).mp ((Decimal.toInt64?_eq_some_iff d n).mp hn).1).1
    refine ⟨⟨.number e, Json.integerText n⟩, ?_, ⟨hsame, ?_⟩⟩
    · simp only [toJson, Decimal.toJson, hn, ofJson, Json.numberText?, he]
    · simp only [isCount, decimal?, hnegative, hwhole, hd]

end ScalarValue

namespace Operator

section

variable {v : ScalarValue} (hv : v.IsWhole)
include hv

/-- A whole value is read back as an operand. -/
lemma succeeds_valueOperand :
    Succeeds (Operand.SameTree (.value v)) (valueOperand v.toJson) :=
  Succeeds.map (ScalarValue.succeeds_ofJson hv) fun _ hw => .value hw.same

/-- A whole number is read back as a bound. -/
lemma succeeds_boundOperand (htype : v.type = .number) :
    Succeeds (Operand.SameTree (.value v)) (boundOperand v.toJson) := by
  refine Succeeds.bind (ScalarValue.succeeds_ofJson hv) fun w hw => ?_
  rw [if_pos (hw.type.trans htype)]
  exact Succeeds.ok (.value hw.same)

/-- A whole value is read back beside an operator that may compare values of its type. -/
lemma succeeds_comparedOperand {kind : Kind}
    (hallows : ScalarValue.allows kind.comparable v.type = true) :
    Succeeds (Operand.SameTree (.value v)) (comparedOperand kind v.toJson) := by
  refine Succeeds.bind (ScalarValue.succeeds_ofJson hv) fun w hw => ?_
  rw [if_pos (by rw [hw.type]; exact hallows)]
  exact Succeeds.ok (.value hw.same)

/-- A limit by a count is read back. -/
lemma succeeds_limitOf (hcount : v.isCount = true) (span : Option Span) :
    Succeeds (SameTree ⟨.limit, none, [.value v], span⟩) (limitOf v.toJson) := by
  refine Succeeds.bind (ScalarValue.succeeds_ofJson hv) fun w hw => ?_
  rw [if_pos (hw.isCount ▸ hcount)]
  exact Succeeds.ok (.intro (.cons (.value hw.same) .nil))

end

/-- Values that are read back one by one are operands that are read back one by one. -/
lemma forall₂_values {values : List ScalarValue} {operands : List Operand}
    (h : List.Forall₂ (fun v operand => Operand.SameTree (.value v) operand) values operands) :
    List.Forall₂ Operand.SameTree (values.map .value) operands :=
  List.forall₂_map_left_iff.mpr h

/-- Whole values in a list are read back, as long as there are some. -/
lemma succeeds_listedOperands {kind : Kind} {values : List ScalarValue} (hne : values ≠ [])
    (hvalues : ∀ v ∈ values, v.IsWhole) :
    Succeeds (List.Forall₂ Operand.SameTree (values.map .value))
      (listedOperands kind (.array (values.map ScalarValue.toJson))) := by
  obtain ⟨operands, hread, hsame⟩ :=
    Succeeds.mapM fun v hv => succeeds_valueOperand (hvalues v hv)
  refine ⟨operands, ?_, forall₂_values hsame⟩
  rw [← hread]
  cases values with
  | nil => exact absurd rfl hne
  | cons v values => rfl

/-! ## Operators -/

/-- Whether reading the payload of an operator gives the operator back. -/
def IsReadBack (op : Operator) : Prop :=
  Succeeds (SameTree op) (ofPayload op.kind.family op.kind op.entry.2)

/-- Whether an operand can be a subject, and is read back if it is an operator. -/
structure LeadsBack (operand : Operand) : Prop where
  canLead : operand.CanLead
  isReadBack : ∀ op, operand = .operator op → op.IsReadBack

/-- An operator that is read back is read from an object with nothing else in it. -/
lemma succeeds_ofMembers {op : Operator} (h : op.IsReadBack) :
    Succeeds (SameTree op) (ofMembers [op.entry]) := by
  have hread : ofMembers [op.entry] = ofPayload op.kind.family op.kind op.entry.2 := by
    rw [entry, ofMembers, Kind.ofJsonKey?_jsonKey]
  rw [hread]
  exact h

/-- An operand that can stand before an operator is read back as one that can. -/
lemma succeeds_operandOfJson {operand : Operand} (h : LeadsBack operand) :
    Succeeds operand.SameTree (do checkSubject (← operandOfJson operand.toJson)) := by
  cases operand with
  | property p =>
    have hread : operandOfJson p.toJson = Operand.property <$> PropertyRef.ofJson p.toJson := by
      rcases p with ⟨_ | scope, id⟩ | name <;> rfl
    rw [Operand.toJson, hread, PropertyRef.ofJson_toJson h.canLead]
    exact Succeeds.ok (.property p)
  | operator op =>
    obtain ⟨hsource, halias⟩ := op.kind.jsonKey_ne
    have hmembers : (Table.contains [op.entry] "source" || Table.contains [op.entry] "alias") =
        false := by
      simp [Table.contains, Table.get?_cons, entry, hsource.symm, halias.symm]
    rw [Operand.toJson, toJson_eq_entry, operandOfJson, hmembers, if_neg Bool.false_ne_true]
    refine Succeeds.bind (Succeeds.map (succeeds_ofMembers (h.isReadBack op rfl))
      fun _ hop => Operand.SameTree.operator hop) fun operand hoperand => ?_
    cases hoperand with
    | operator hop => exact Succeeds.ok (.operator hop)
  | value v => exact h.canLead.elim

/-- Operands of a listing are read back one by one. -/
lemma succeeds_subjectsOfJson {operands : List Operand}
    (h : ∀ operand ∈ operands, LeadsBack operand) :
    Succeeds (List.Forall₂ Operand.SameTree operands)
      (subjectsOfJson (operands.map Operand.toJson)) := by
  induction operands with
  | nil => exact Succeeds.ok .nil
  | cons operand rest ih =>
    rw [List.map_cons, subjectsOfJson, ← bind_assoc]
    refine Succeeds.bind (succeeds_operandOfJson (h operand (by simp))) fun subject hsubject => ?_
    refine Succeeds.bind (ih fun operand hmem => h operand (by simp [hmem])) fun subjects hrest =>
      ?_
    exact Succeeds.ok (.cons hsubject hrest)

/-- Operators of one tree are of one kind. -/
lemma SameTree.kind_eq {a b : Operator} (h : SameTree a b) : a.kind = b.kind := by
  cases h
  rfl

/-- Of operators of one tree both are conditions or none is. -/
lemma SameTree.isCondition {a b : Operator} (h : SameTree a b) : b.isCondition = a.isCondition := by
  rw [Operator.isCondition, Operator.isCondition, h.kind_eq]

/-- Conditions of a group are read back one by one. -/
lemma succeeds_conditionsOfJson {conditions : List Operator}
    (h : ∀ c ∈ conditions, c.isCondition = true ∧ c.IsReadBack) :
    Succeeds (List.Forall₂ Operand.SameTree (conditions.map .operator))
      (conditionsOfJson ((conditions.map .operator).map Operand.toJson)) := by
  induction conditions with
  | nil => exact Succeeds.ok .nil
  | cons c rest ih =>
    obtain ⟨hc, hback⟩ := h c (by simp)
    rw [List.map_cons, List.map_cons, Operand.toJson, toJson_eq_entry, conditionsOfJson]
    refine Succeeds.bind (succeeds_ofMembers hback) fun d hd => ?_
    rw [if_pos (hd.isCondition.trans hc)]
    refine Succeeds.bind (ih fun c hmem => h c (by simp [hmem])) fun operands hrest => ?_
    exact Succeeds.ok (.cons (.operator hd) hrest)

/-- The entries of an ordering are read back one by one, each with its direction. -/
lemma succeeds_orderOfJson {entries : List (Operand × String)}
    (h : ∀ entry ∈ entries, LeadsBack entry.1 ∧ (entry.2 = "asc" ∨ entry.2 = "desc")) :
    Succeeds (List.Forall₂ Operand.SameTree (orderOperands entries))
      (orderOfJson ((pairs ((orderOperands entries).map Operand.toJson)).map .array)) := by
  induction entries with
  | nil => exact Succeeds.ok .nil
  | cons entry rest ih =>
    obtain ⟨operand, word⟩ := entry
    obtain ⟨hoperand, hword⟩ := h (operand, word) (by simp)
    have hforms :
        (pairs ((orderOperands ((operand, word) :: rest)).map Operand.toJson)).map Json.array =
          .array [operand.toJson, .string word] ::
            (pairs ((orderOperands rest).map Operand.toJson)).map .array := rfl
    have hdirection : direction? word = some word := by
      obtain rfl | rfl := hword <;> decide +kernel
    rw [hforms, orderOfJson]
    simp only [Json.string?, Option.bind_some, hdirection]
    rw [← bind_assoc]
    refine Succeeds.bind (succeeds_operandOfJson hoperand) fun subject hsubject => ?_
    refine Succeeds.bind (ih fun entry hmem => h entry (by simp [hmem])) fun operands hrest => ?_
    refine Succeeds.ok (.cons hsubject (.cons (.value ?_) hrest))
    simp [ScalarValue.ofString, Scalar.same]

/-! ### Payloads -/

section

variable {kind : Kind} {subject : Operand} {rest : List Operand} {span : Option Span}

/-- A comparison is written as the list of its two sides. -/
lemma entry_stated_comparison (hfamily : kind.family = .comparison) :
    (stated kind subject rest span).entry.2 =
      .array [subject.toJson, (rest.map Operand.toJson).headD .null] := by
  cases subject <;>
    simp [stated, about, withOperands, entry, payload, hfamily, operandsToJson_eq_map,
      Operand.toJson]

/-- A membership is written with its values in a list of their own, and a range with its bounds
behind the subject. -/
lemma entry_stated_membership (hfamily : kind.family = .membership) :
    (stated kind subject rest span).entry.2 =
      if kind = .between then .array (subject.toJson :: rest.map Operand.toJson)
      else .array [subject.toJson, .array (rest.map Operand.toJson)] := by
  cases subject <;>
    simp [stated, about, withOperands, entry, payload, hfamily, operandsToJson_eq_map,
      Operand.toJson]

/-- Operators about subjects and values of one tree are of one tree. -/
lemma sameTree_stated {other : Operand} {others : List Operand} {span' : Option Span}
    (h : subject.SameTree other) (hrest : List.Forall₂ Operand.SameTree rest others) :
    SameTree (stated kind subject rest span) (stated kind other others span') := by
  cases h with
  | property p => exact .intro hrest
  | value hsame => exact .intro (.cons (.value hsame) hrest)
  | operator hsame => exact .intro (.cons (.operator hsame) hrest)

end

/-- A comparison is read back, whatever may stand before it. -/
lemma isReadBack_comparison {kind : Kind} {subject : Operand} {v : ScalarValue}
    {span : Option Span} (hfamily : kind.family = .comparison) (hsubject : LeadsBack subject)
    (hv : v.IsWhole) (hallows : ScalarValue.allows kind.comparable v.type = true) :
    (stated kind subject [.value v] span).IsReadBack := by
  rw [IsReadBack, entry_stated_comparison hfamily, stated_kind, ofPayload]
  simp only [hfamily, PayloadShape.of, List.map_cons, List.headD_cons]
  refine Succeeds.bind (P := fun _ => True) ⟨(), rfl, trivial⟩ fun _ _ => ?_
  rw [leadingSubject]
  refine Succeeds.bind (succeeds_operandOfJson hsubject) fun other hother => ?_
  rw [List.tail_cons, operandsAfter, leading, if_neg (by simp)]
  refine Succeeds.bind (Succeeds.bind (succeeds_comparedOperand hv hallows) fun operand hoperand =>
    Succeeds.ok (List.Forall₂.cons hoperand .nil)) fun operands hoperands => ?_
  rw [about_withOperands]
  exact Succeeds.ok (sameTree_stated hother hoperands)

/-- A membership in some values is read back, and so is a range with its two numbers. -/
lemma isReadBack_membership {kind : Kind} {subject : Operand} {values : List ScalarValue}
    {span : Option Span} (hfamily : kind.family = .membership) (hsubject : LeadsBack subject)
    (hvalues : ∀ v ∈ values, v.IsWhole) (hne : values ≠ [])
    (hbounds : kind = .between → values.length = 2 ∧ ∀ v ∈ values, v.type = .number) :
    (stated kind subject (values.map .value) span).IsReadBack := by
  have hforms : (values.map Operand.value).map Operand.toJson = values.map ScalarValue.toJson := by
    simp [Operand.toJson]
  rw [IsReadBack, entry_stated_membership hfamily, stated_kind, hforms]
  simp only [hfamily]
  by_cases hbetween : kind = .between
  · obtain ⟨hlength, htypes⟩ := hbounds hbetween
    rw [if_pos hbetween, ofPayload]
    simp only [PayloadShape.of, if_pos hbetween]
    refine Succeeds.bind (P := fun _ => True) ⟨(), if_pos (by simp [hlength]), trivial⟩
      fun _ _ => ?_
    rw [leadingSubject]
    refine Succeeds.bind (succeeds_operandOfJson hsubject) fun other hother => ?_
    have hbounds : operandsAfter .membership kind (values.map ScalarValue.toJson) =
        (values.map ScalarValue.toJson).mapM boundOperand := by
      obtain ⟨v, w, rfl⟩ := List.length_eq_two.mp hlength
      rfl
    rw [List.tail_cons, hbounds, leading, if_neg (by simp)]
    refine Succeeds.bind (Succeeds.mapM fun v hv => succeeds_boundOperand (hvalues v hv)
      (htypes v hv)) fun operands hoperands => ?_
    rw [about_withOperands]
    exact Succeeds.ok (sameTree_stated hother (forall₂_values hoperands))
  · rw [if_neg hbetween, ofPayload]
    simp only [PayloadShape.of, if_neg hbetween]
    refine Succeeds.bind (P := fun _ => True) ⟨(), rfl, trivial⟩ fun _ _ => ?_
    rw [leadingSubject]
    refine Succeeds.bind (succeeds_operandOfJson hsubject) fun other hother => ?_
    rw [List.tail_cons, operandsAfter, leading, if_neg (by simp)]
    refine Succeeds.bind (succeeds_listedOperands hne hvalues) fun operands hoperands => ?_
    rw [about_withOperands]
    exact Succeeds.ok (sameTree_stated hother hoperands)

/-- A test for existence is read back. -/
lemma isReadBack_existence {kind : Kind} {p : PropertyRef} {span : Option Span}
    (hfamily : kind.family = .existence) (hp : p.scope? ≠ some PropertyRef.defaultScope) :
    IsReadBack ⟨kind, some p, [], span⟩ := by
  simp only [IsReadBack, entry, payload, hfamily, Option.map_some, Option.getD_some, ofPayload,
    PayloadShape.of, propertyOf, PropertyRef.ofJson_toJson hp]
  exact Succeeds.ok (.intro .nil)

/-- A negation is read back if its condition is. -/
lemma isReadBack_negation {condition : Operator} {span : Option Span}
    (hcondition : condition.isCondition = true) (hback : condition.IsReadBack) :
    IsReadBack ⟨.not, none, [.operator condition], span⟩ := by
  have hconditions : ∀ c ∈ [condition], c.isCondition = true ∧ c.IsReadBack := by
    simp [hcondition, hback]
  have hread := succeeds_conditionsOfJson hconditions
  refine Succeeds.bind (P := fun _ => True) ⟨(), rfl, trivial⟩ fun _ _ => ?_
  exact Succeeds.bind hread fun operands hoperands => Succeeds.ok (.intro hoperands)

/-- A group is read back if its conditions are. -/
lemma isReadBack_group {connective : Connective} {conditions : List Operator} {span : Option Span}
    (h : ∀ c ∈ conditions, c.isCondition = true ∧ c.IsReadBack) :
    IsReadBack ⟨connective.kind, none, conditions.map .operator, span⟩ := by
  have hread := succeeds_conditionsOfJson h
  rw [← operandsToJson_eq_map] at hread
  cases connective <;>
    exact Succeeds.bind hread fun operands hoperands => Succeeds.ok (.intro hoperands)

/-- A naming is read back if what it names is. -/
lemma isReadBack_naming {target : Operand} {name : String} {span : Option Span}
    (htarget : LeadsBack target) :
    IsReadBack ⟨.asName, none, [target, .value (.ofString name)], span⟩ := by
  simp only [IsReadBack, entry, payload, Kind.family, operandsToJson_eq_map, Option.map_none,
    List.map_cons, List.map_nil, List.headD_cons, List.tail_cons, ofPayload, PayloadShape.of,
    if_pos]
  refine Succeeds.bind (P := fun _ => True) ⟨(), rfl, trivial⟩ fun _ _ => ?_
  rw [leadingSubject]
  refine Succeeds.bind (succeeds_operandOfJson htarget) fun other hother => ?_
  refine Succeeds.ok (.intro (.cons hother (.cons (.value ?_) .nil)))
  simp [ScalarValue.ofString, Scalar.same]

/-- A function is read back with the arguments that its kind calls for. -/
lemma isReadBack_function {kind : Kind} {p : PropertyRef} {values : List ScalarValue}
    {span : Option Span} (hfamily : kind.family = .projection) (hnaming : kind ≠ .asName)
    (hp : p.scope? ≠ some PropertyRef.defaultScope) (hvalues : ∀ v ∈ values, v.IsWhole)
    (htypes : values.map ScalarValue.type = kind.argumentType?.toList) :
    IsReadBack ⟨kind, some p, values.map .value, span⟩ := by
  simp only [IsReadBack, entry, payload, hfamily, operandsToJson_eq_map, Option.map_some, ofPayload,
    PayloadShape.of, if_neg hnaming, functionOf]
  cases htype : kind.argumentType? with
  | none =>
    obtain rfl : values = [] := by simpa [htype] using htypes
    simp only [propertyOf, List.map_nil, PropertyRef.ofJson_toJson hp]
    exact Succeeds.ok (.intro .nil)
  | some expected =>
    rw [htype, Option.toList_some] at htypes
    obtain ⟨v, rfl, hv⟩ : ∃ v, values = [v] ∧ v.type = expected := by
      obtain ⟨v, rest, rfl, hv, hrest⟩ := List.map_eq_cons_iff.mp htypes
      obtain rfl := List.map_eq_nil_iff.mp hrest
      exact ⟨v, rfl, hv⟩
    simp only [List.map_cons, List.map_nil, Operand.toJson, PropertyRef.ofJson_toJson hp]
    refine Succeeds.bind (P := fun q => q = p) ⟨p, rfl, rfl⟩ ?_
    rintro _ rfl
    refine Succeeds.bind (ScalarValue.succeeds_ofJson (hvalues v (by simp))) fun w hw => ?_
    rw [if_pos (hw.type.trans hv)]
    exact Succeeds.ok (.intro (.cons (.value hw.same) .nil))

/-- A clause that lists operands is read back if they are. -/
lemma isReadBack_listing {kind : Kind} {operands : List Operand} {span : Option Span}
    (lists : kind = .select ∨ kind = .groupBy ∨ kind = .groupByPermuted)
    (h : ∀ operand ∈ operands, LeadsBack operand) : IsReadBack ⟨kind, none, operands, span⟩ := by
  have hread := succeeds_subjectsOfJson h
  rw [← operandsToJson_eq_map] at hread
  obtain rfl | rfl | rfl := lists <;>
    exact Succeeds.bind hread fun operands hoperands => Succeeds.ok (.intro hoperands)

/-- A clause with a condition is read back if the condition is. -/
lemma isReadBack_filter {kind : Kind} {condition : Operator} {span : Option Span}
    (filters : kind = .whereClause ∨ kind = .having) (hcondition : condition.isCondition = true)
    (hback : condition.IsReadBack) : IsReadBack ⟨kind, none, [.operator condition], span⟩ := by
  have hshape : PayloadShape.of kind.family kind = .condition := by
    obtain rfl | rfl := filters <;> rfl
  have hentry :
      (entry ⟨kind, none, [.operator condition], span⟩).2 = .object [condition.entry] := by
    rw [← toJson_eq_entry]
    obtain rfl | rfl := filters <;> rfl
  rw [IsReadBack, hentry, ofPayload, hshape]
  refine Succeeds.bind (succeeds_ofMembers hback) fun other hother => ?_
  rw [if_pos (hother.isCondition.trans hcondition)]
  exact Succeeds.ok (.intro (.cons (.operator hother) .nil))

/-- A limit is read back. -/
lemma isReadBack_limit {v : ScalarValue} {span : Option Span} (hv : v.IsWhole)
    (hcount : v.isCount = true) : IsReadBack ⟨.limit, none, [.value v], span⟩ := by
  have hread : ∀ json : Json, ofPayload .clause .limit json = limitOf json := by
    intro json
    cases json <;> rfl
  refine (congrArg (Succeeds _) (hread _)).mpr ?_
  exact succeeds_limitOf hv hcount span

/-- A range of time is read back. -/
lemma isReadBack_timeRange {first last : ScalarValue} {span : Option Span} (hfirst : first.IsWhole)
    (hlast : last.IsWhole) : IsReadBack ⟨.timeRange, none, [.value first, .value last], span⟩ := by
  refine Succeeds.bind (P := fun _ => True) ⟨(), rfl, trivial⟩ fun _ _ => ?_
  have hread : Succeeds (List.Forall₂ (fun v operand => Operand.SameTree (.value v) operand)
      [first, last]) (([first, last].map ScalarValue.toJson).mapM valueOperand) := by
    refine Succeeds.mapM fun v hv => succeeds_valueOperand ?_
    obtain rfl | rfl : v = first ∨ v = last := by simpa using hv
    · exact hfirst
    · exact hlast
  exact Succeeds.bind hread fun operands hoperands =>
    Succeeds.ok (.intro (forall₂_values hoperands))

/-- A well-formed operator that holds no fractions is read back. -/
theorem isReadBack_of_wellFormed (op : Operator) :
    op.WellFormed → op.Everywhere HoldsWhole → op.IsReadBack := by
  induction op using Operator.induction with
  | step op ih =>
    intro hop hwhole
    obtain ⟨hshape, hchildren⟩ := everywhere_iff.mp hop
    obtain ⟨hvalues, hwholes⟩ := everywhere_iff.mp hwhole
    -- operands are read back before their operator
    have hback : ∀ child, .operator child ∈ op.operands → child.IsReadBack := fun child hchild =>
      ih child hchild (hchildren child hchild) (hwholes child hchild)
    clear ih hop hwhole hchildren hwholes
    have subject_mem : ∀ {kind : Kind} {subject : Operand} {rest : List Operand}
        {span : Option Span} {child : Operator}, subject = .operator child →
        .operator child ∈ (stated kind subject rest span).operands := by
      rintro kind _ rest span child rfl
      simp [stated, about, withOperands]
    have rest_mem : ∀ {kind : Kind} {subject operand : Operand} {rest : List Operand}
        {span : Option Span}, operand ∈ rest →
        operand ∈ (stated kind subject rest span).operands := by
      intro kind subject operand rest span h
      cases subject <;> simp [stated, about, withOperands, h]
    cases hshape with
    | comparison family hsubject hvalue allowed =>
      refine isReadBack_comparison family ⟨hsubject, fun child hchild => ?_⟩ ?_ allowed
      · exact hback child (subject_mem hchild)
      · exact hvalues _ (rest_mem (by simp))
    | @membership kind subject values span family hsubject _ bounds nonempty =>
      refine isReadBack_membership family ⟨hsubject, fun child hchild => ?_⟩ ?_ nonempty bounds
      · exact hback child (subject_mem hchild)
      · exact fun v hv => hvalues v (rest_mem (List.mem_map_of_mem hv))
    | existence family hp => exact isReadBack_existence family hp
    | negation isCondition => exact isReadBack_negation isCondition (hback _ (by simp))
    | group _ areConditions =>
      exact isReadBack_group fun c hc => ⟨areConditions c hc, hback c (List.mem_map_of_mem hc)⟩
    | naming htarget _ =>
      refine isReadBack_naming ⟨htarget, fun child hchild => hback child ?_⟩
      simp [hchild]
    | function family notNaming hp _ types =>
      exact isReadBack_function family notNaming hp
        (fun v hv => hvalues v (List.mem_map_of_mem hv)) types
    | listing lists hlisted _ =>
      refine isReadBack_listing lists fun operand hmem => ⟨hlisted operand hmem, ?_⟩
      rintro child rfl
      exact hback child hmem
    | filter filters isCondition =>
      exact isReadBack_filter filters isCondition (hback _ (by simp))
    | @ordering entries span hlisted directions _ =>
      have hentries : ∀ entry ∈ entries,
          LeadsBack entry.1 ∧ (entry.2 = "asc" ∨ entry.2 = "desc") := by
        refine fun entry hmem =>
          ⟨⟨hlisted entry hmem, fun child hchild => ?_⟩, directions entry hmem⟩
        refine hback child (List.mem_flatMap.mpr ⟨entry, hmem, ?_⟩)
        simp [hchild]
      have hread := succeeds_orderOfJson hentries
      rw [← operandsToJson_eq_map] at hread
      exact Succeeds.bind hread fun operands hoperands => Succeeds.ok (.intro hoperands)
    | limit _ isCount => exact isReadBack_limit (hvalues _ (by simp)) isCount
    | timeRange _ _ _ _ =>
      exact isReadBack_timeRange (hvalues _ (by simp)) (hvalues _ (by simp))

end Operator

/-! ## Queries -/

namespace Query

/-- Whether the clauses of a query are in order, and each has the shape of a JSON form. -/
structure WellFormed (q : Query) : Prop where
  inOrder : InOrder q.clauses
  clauses : ∀ clause ∈ q.clauses, clause.WellFormed

/-- Putting a well-formed clause in keeps a query well-formed. -/
lemma WellFormed.setClause {q : Query} {clause : Operator} (hq : q.WellFormed)
    (hclause : clause.kind.isClause = true) (h : clause.WellFormed) :
    (q.setClause clause).WellFormed := by
  refine ⟨hq.inOrder.setClause hclause, fun other hother => ?_⟩
  obtain rfl | hother := mem_setClause hother
  · exact h
  · exact hq.clauses other hother

/-- Reading further clauses into a well-formed query leaves it well-formed, if it succeeds. -/
lemma ensures_addMembers (members : List (String × Json)) :
    ∀ q : Query, q.WellFormed → Ensures WellFormed (q.addMembers members) := by
  induction members with
  | nil => exact fun q hq => Ensures.ok hq
  | cons member rest ih =>
    intro q hq
    obtain ⟨key, payload⟩ := member
    rw [addMembers]
    split
    · exact Ensures.error
    · rename_i kind hkind
      have hclause : kind.isClause = true := (Option.filter_eq_some_iff.mp hkind).2
      refine Ensures.bind (Operator.ensures_ofPayload kind payload) ?_
      rintro clause ⟨rfl, hwell⟩
      exact ih _ (hq.setClause hclause hwell)

/-- Every query that is read from JSON is well-formed. -/
lemma wellFormed_of_ofJson {json : Json} {q : Query} (h : ofJson json = .ok q) : q.WellFormed := by
  unfold ofJson at h
  split at h
  · cases h
  · rename_i members _
    have hread := Ensures.bind (ensures_addMembers members empty ⟨.nil, by simp [empty]⟩)
      fun q' hq' => Ensures.ok (P := WellFormed) (a := { q' with aliases := q'.collectAliases })
        ⟨hq'.inOrder, hq'.clauses⟩
    exact hread q h

/-- The words of texts. No property reference spells the default namespace out. -/
def textVocabulary : Vocabulary :=
  ⟨fun p => p.scope? ≠ some PropertyRef.defaultScope, fun _ => True, fun _ => True⟩

/-- Every token can be read with the vocabulary of texts. -/
lemma covers_textVocabulary (registry : Registry) (token : Token) :
    textVocabulary.Covers registry token := by
  refine ⟨fun _ => ⟨?_, ?_⟩, fun _ => trivial, fun _ => trivial⟩
  · show (PropertyRef.ofText token.text registry).scope? ≠ some PropertyRef.defaultScope
    unfold PropertyRef.ofText
    split
    · exact PropertyRef.scope?_inScope _ _
    · simp [PropertyRef.ofId, PropertyRef.scope?]
  · show (PropertyRef.byAlias token.text).scope? ≠ some PropertyRef.defaultScope
    simp [PropertyRef.scope?]

/-- The shapes that texts denote are shapes of JSON forms. -/
lemma IsOfText.wellFormed {q : Query} (h : q.IsOfText textVocabulary) : q.WellFormed := by
  have subject : ∀ operand, (ShapeRules.ofText textVocabulary).subject operand →
      operand.CanLead := by
    rintro (p | v | op) hop
    · exact hop
    · exact hop
    · trivial
  have listed : ∀ operand, (ShapeRules.ofText textVocabulary).listed operand → operand.CanLead := by
    rintro (p | v | op) hop
    · exact hop
    · exact hop
    · trivial
  refine ⟨h.inOrder, fun clause hclause => ?_⟩
  refine Operator.Everywhere.imp (fun op hop => ?_) clause (h.shaped clause hclause)
  exact Operator.Shaped.mono (R := .ofText textVocabulary) (fun _ hp => hp) (fun _ _ => trivial)
    (fun _ _ => trivial) subject subject listed (fun _ _ => trivial) (fun _ _ => trivial)
    (fun _ _ => trivial) hop

/-! ### Reading back -/

/-- Clauses of one tree, taken one by one, are of the same kinds. -/
lemma kinds_eq {as bs : List Operator} (h : List.Forall₂ Operator.SameTree as bs) :
    as.map Operator.kind = bs.map Operator.kind := by
  induction h with
  | nil => rfl
  | cons hab _ ih => rw [List.map_cons, List.map_cons, ih, hab.kind_eq]

/-- Clauses in order are read back behind those that were read before them. -/
lemma succeeds_addMembers (after : List Operator) :
    ∀ (before : List Operator) (q : Query), List.Forall₂ Operator.SameTree before q.clauses →
      InOrder (before ++ after) → (∀ clause ∈ after, clause.IsReadBack) →
        Succeeds (fun q' => List.Forall₂ Operator.SameTree (before ++ after) q'.clauses)
          (q.addMembers (after.map Operator.entry)) := by
  induction after with
  | nil =>
    intro before q hq _ _
    refine Succeeds.ok ?_
    rw [List.append_nil]
    exact hq
  | cons clause rest ih =>
    intro before q hq horder hback
    have hclause : clause.kind.isClause = true := horder.areClauses clause (by simp)
    have hfilter :
        (Kind.ofJsonKey? clause.kind.jsonKey).filter Kind.isClause = some clause.kind := by
      rw [Kind.ofJsonKey?_jsonKey, Option.filter_some, if_pos hclause]
    rw [List.map_cons, Operator.entry, addMembers, hfilter]
    refine Succeeds.bind (hback clause (by simp)) fun other hother => ?_
    have hkind : other.kind = clause.kind := hother.kind_eq.symm
    have hlast : ∀ c ∈ q.clauses,
        c.kind.rank < other.kind.rank ∧ c.kind.competes other.kind = false := by
      intro c hc
      have hmem : c.kind ∈ before.map Operator.kind := by
        rw [kinds_eq hq]
        exact List.mem_map_of_mem hc
      obtain ⟨b, hb, hbc⟩ := List.mem_map.mp hmem
      rw [hkind, ← hbc]
      exact (List.pairwise_append.mp horder.increasing).2.2 b hb clause (by simp)
    have happend := setClause_eq_append hlast
    have hnext := ih (before ++ [clause]) (q.setClause other) ?_ ?_ ?_
    · rw [List.append_assoc, List.singleton_append] at hnext
      exact hnext
    · rw [happend]
      exact List.rel_append hq (.cons hother .nil)
    · rw [List.append_assoc, List.singleton_append]
      exact horder
    · exact fun c hc => hback c (by simp [hc])

/-- Clauses of one tree have the same entries in JSON, where the numbers in them are whole. -/
lemma map_entry_eq {as bs : List Operator} (h : List.Forall₂ Operator.SameTree as bs)
    (hwhole : ∀ clause ∈ as, clause.Everywhere Operator.HoldsWhole) :
    as.map Operator.entry = bs.map Operator.entry := by
  induction h with
  | nil => rfl
  | @cons a b as bs hab _ ih =>
    have hforms := Operator.SameTree.toJson_eq a hab (hwhole a (by simp))
    rw [Operator.toJson_eq_entry, Operator.toJson_eq_entry] at hforms
    rw [List.map_cons, List.map_cons, ih fun c hc => hwhole c (by simp [hc])]
    congr 1
    simpa using hforms

/-- Whether a query was read, from a JSON form or from a text. -/
inductive IsRead (q : Query) : Prop
  | ofJson (json : Json) (h : ofJson json = .ok q)
  | ofText (text : String) (registry : Registry) (ceilings : Ceilings)
      (h : ofText text registry ceilings = .ok q)
  | ofCondition (text : String) (registry : Registry) (ceilings : Ceilings)
      (h : ofCondition text registry ceilings = .ok q)

/-- Every query that was read, from a text or from JSON, is well-formed. -/
lemma IsRead.wellFormed {q : Query} (h : q.IsRead) : q.WellFormed := by
  cases h with
  | ofJson json h => exact wellFormed_of_ofJson h
  | ofText text registry ceilings h =>
    exact (isOfText_ofText (covers_textVocabulary registry) h).wellFormed
  | ofCondition text registry ceilings h =>
    exact (isOfText_ofCondition (covers_textVocabulary registry) h).wellFormed

/-- A query that was read, and in which all numbers are whole, is the one that its JSON form
denotes. -/
theorem ofJson_toJson_of_isRead (q : Query) (hread : q.IsRead)
    (hwhole : ∀ clause ∈ q.clauses, clause.Everywhere Operator.HoldsWhole) :
    ∃ q', Query.ofJson q.toJson = .ok q' ∧ List.Forall₂ Operator.SameTree q.clauses q'.clauses ∧
      q'.toJson = q.toJson := by
  obtain ⟨horder, hwell⟩ := hread.wellFormed
  have hback : ∀ clause ∈ q.clauses, clause.IsReadBack := fun clause hclause =>
    Operator.isReadBack_of_wellFormed clause (hwell clause hclause) (hwhole clause hclause)
  obtain ⟨q', hq', hsame⟩ := succeeds_addMembers q.clauses [] empty .nil horder hback
  rw [List.nil_append] at hsame
  refine ⟨{ q' with aliases := q'.collectAliases }, ?_, hsame, ?_⟩
  · rw [toJson_eq_entries horder, ofJson]
    simp only [Json.members?, hq']
    rfl
  · rw [toJson_eq_ofEntries, toJson_eq_ofEntries q, map_entry_eq hsame hwhole]

/-- A count that is compared with a number, and a limit. -/
theorem ofJson_toJson_of_isRead_limit :
    ∃ q q' : Query,
      Query.ofJson (.object [("limit", .integer 3), ("where", .object [(">",
        .array [.object [("count", .array [.object [("source", .string "a")]])], .integer 3])])]) =
          .ok q ∧
      (∀ clause ∈ q.clauses, clause.Everywhere Operator.HoldsWhole) ∧
      Query.ofJson q.toJson = .ok q' ∧ List.Forall₂ Operator.SameTree q.clauses q'.clauses ∧
      q'.toJson = q.toJson := by
  obtain ⟨three, hthree⟩ : ∃ three : ScalarValue, three =
      ⟨.number ⟨false, 3, 0, by decide, by decide, by simp⟩, "3"⟩ := ⟨_, rfl⟩
  obtain ⟨counted, hcounted⟩ : ∃ counted : Operator, counted =
      { kind := .count, property := some (.ofId "a") } := ⟨_, rfl⟩
  obtain ⟨q, hq⟩ : ∃ q : Query, q =
      { clauses := [
          { kind := .whereClause
            operands := [.operator
              { kind := .greaterThan, operands := [.operator counted, .value three] }] },
          { kind := .limit, operands := [.value three] }] } := ⟨_, rfl⟩
  have hread : Query.ofJson (.object [("limit", .integer 3), ("where", .object [(">",
      .array [.object [("count", .array [.object [("source", .string "a")]])], .integer 3])])]) =
        .ok q := by
    subst hthree hcounted hq
    rfl
  have hthree' : three.IsWhole := by
    subst hthree
    rintro d ⟨⟩
    rfl
  have hwhole : ∀ clause ∈ q.clauses, clause.Everywhere Operator.HoldsWhole := by
    subst hq hcounted
    simp [Operator.Everywhere, Operator.EverywhereIn, Operator.HoldsWhole, hthree']
  obtain ⟨q', hback⟩ := ofJson_toJson_of_isRead q (.ofJson _ hread) hwhole
  exact ⟨q, q', hread, hwhole, hback⟩

end Query

end RecordQuery
