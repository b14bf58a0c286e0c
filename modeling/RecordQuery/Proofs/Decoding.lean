import Mathlib.Data.List.Basic
import RecordQuery.Proofs.Shape

/-!
# What the JSON form of operators can denote

The reader of JSON forms checks types and lengths wherever it meets an operator. So whatever it
comes to has one of the listed shapes at every node. The checks do not depend on what is beneath a
node, which is why the proof follows the reader: it goes down the JSON value, and at each node the
family of the kind decides which shape there is.
-/

namespace RecordQuery

/-! ## Results of decoders -/

namespace Decoding

variable {ε α β : Type}

/-- Whether a result has a property, if there is one. -/
def Ensures (P : α → Prop) (result : Except ε α) : Prop := ∀ a, result = .ok a → P a

/-- A result ensures what holds of it. -/
lemma Ensures.ok {P : α → Prop} {a : α} (h : P a) : Ensures P (.ok a : Except ε α) := by
  rintro _ ⟨⟩
  exact h

/-- A failure ensures anything. -/
lemma Ensures.error {P : α → Prop} {e : ε} : Ensures P (.error e : Except ε α) := by
  rintro _ ⟨⟩

/-- What the second step ensures, given what the first one does, both together ensure. -/
lemma Ensures.bind {P : α → Prop} {Q : β → Prop} {result : Except ε α} {next : α → Except ε β}
    (h : Ensures P result) (hnext : ∀ a, P a → Ensures Q (next a)) :
    Ensures Q (result >>= next) := by
  intro b hb
  cases result with
  | error e => cases hb
  | ok a => exact hnext a (h a rfl) b hb

/-- A result that is changed ensures what the change makes of it. -/
lemma Ensures.map {P : α → Prop} {Q : β → Prop} {result : Except ε α} {f : α → β}
    (h : Ensures P result) (hf : ∀ a, P a → Q (f a)) : Ensures Q (f <$> result) := by
  intro b hb
  cases result with
  | error e => cases hb
  | ok a =>
    cases hb
    exact hf a (h a rfl)

/-- Nothing is always ensured. -/
lemma Ensures.trivial {result : Except ε α} : Ensures (fun _ => True) result :=
  fun _ _ => True.intro

/-- A step for each member of a list ensures as many results, and of each what the step ensures. -/
lemma Ensures.mapM {P : β → Prop} {f : α → Except ε β} (h : ∀ a, Ensures P (f a)) (as : List α) :
    Ensures (fun bs => bs.length = as.length ∧ ∀ b ∈ bs, P b) (as.mapM f) := by
  induction as with
  | nil => exact Ensures.ok ⟨rfl, by simp⟩
  | cons a as ih =>
    rw [List.mapM_cons]
    refine Ensures.bind (h a) fun b hb => Ensures.bind ih fun bs hbs => Ensures.ok ⟨?_, ?_⟩
    · rw [List.length_cons, List.length_cons, hbs.1]
    · rintro c (_ | ⟨_, hc⟩)
      · exact hb
      · exact hbs.2 c hc

/-- Whether there is a result, and it has a property. -/
def Succeeds (P : α → Prop) (result : Except ε α) : Prop := ∃ a, result = .ok a ∧ P a

/-- A result is a success. -/
lemma Succeeds.ok {P : α → Prop} {a : α} (h : P a) : Succeeds P (.ok a : Except ε α) :=
  ⟨a, rfl, h⟩

/-- If the first step succeeds, and the second one on what the first may come to, both
together do. -/
lemma Succeeds.bind {P : α → Prop} {Q : β → Prop} {result : Except ε α} {next : α → Except ε β}
    (h : Succeeds P result) (hnext : ∀ a, P a → Succeeds Q (next a)) :
    Succeeds Q (result >>= next) := by
  obtain ⟨a, rfl, ha⟩ := h
  exact hnext a ha

/-- A success that is changed is one. -/
lemma Succeeds.map {P : α → Prop} {Q : β → Prop} {result : Except ε α} {f : α → β}
    (h : Succeeds P result) (hf : ∀ a, P a → Q (f a)) : Succeeds Q (f <$> result) := by
  obtain ⟨a, rfl, ha⟩ := h
  exact ⟨f a, rfl, hf a ha⟩

/-- If a step succeeds on each member of a list, all of them together do, in order. -/
lemma Succeeds.mapM {γ : Type} {R : α → β → Prop} {f : γ → Except ε β} {g : α → γ} {as : List α}
    (h : ∀ a ∈ as, Succeeds (R a) (f (g a))) :
    Succeeds (List.Forall₂ R as) ((as.map g).mapM f) := by
  induction as with
  | nil => exact Succeeds.ok .nil
  | cons a as ih =>
    rw [List.map_cons, List.mapM_cons]
    refine Succeeds.bind (h a (by simp)) fun b hb => ?_
    refine Succeeds.bind (ih fun a ha => h a (by simp [ha])) fun bs hbs => ?_
    exact Succeeds.ok (.cons hb hbs)

end Decoding

open Decoding

/-! ## The rules of JSON forms -/

/-- The operands that can be a subject in a JSON form. -/
def Operand.CanLead : Operand → Prop
  | .property p => p.scope? ≠ some PropertyRef.defaultScope
  | .operator _ => True
  | .value _ => False

/-- The shapes of the operators that JSON forms denote. -/
def ShapeRules.ofJson : ShapeRules where
  ref p := p.scope? ≠ some PropertyRef.defaultScope
  scalar _ := True
  name _ := True
  subject := Operand.CanLead
  target := Operand.CanLead
  listed := Operand.CanLead
  groupSize _ := True
  listSize _ := True
  bound _ := True

/-- Whether an operator has a shape of JSON forms at every node. -/
abbrev Operator.WellFormed (op : Operator) : Prop := op.Everywhere (Operator.Shaped .ofJson)

/-- Whether an operand is one that JSON forms denote. -/
def Operand.WellFormed : Operand → Prop
  | .property p => p.scope? ≠ some PropertyRef.defaultScope
  | .operator op => op.WellFormed
  | .value _ => True

/-- Whether an operand is a subject that JSON forms denote. -/
def Operand.Leads (operand : Operand) : Prop := operand.CanLead ∧ operand.WellFormed

/-! ## Parts without operators -/

/-- A property named with a namespace never has the default one: this is left out. -/
lemma PropertyRef.scope?_inScope (scope id : String) :
    (PropertyRef.inScope scope id).scope? ≠ some PropertyRef.defaultScope := by
  unfold PropertyRef.inScope
  split
  · simp [PropertyRef.scope?]
  · simpa [PropertyRef.scope?]

/-- No property is read from JSON with the default namespace. -/
lemma PropertyRef.ensures_ofSource (descriptor : Json) (source : Option Json) :
    Ensures (fun p : PropertyRef => p.scope? ≠ some PropertyRef.defaultScope)
      (PropertyRef.ofSource descriptor source) := by
  unfold PropertyRef.ofSource
  split
  · exact Ensures.ok (by simp [PropertyRef.ofId, PropertyRef.scope?])
  · split
    · exact Ensures.error
    · split
      · exact Ensures.ok (PropertyRef.scope?_inScope _ _)
      · exact Ensures.ok (by simp [PropertyRef.ofId, PropertyRef.scope?])
  · exact Ensures.error

/-- No reference spells the default namespace out. -/
lemma PropertyRef.ensures_ofJson (json : Json) :
    Ensures (fun p : PropertyRef => p.scope? ≠ some PropertyRef.defaultScope)
      (PropertyRef.ofJson json) := by
  unfold PropertyRef.ofJson
  split
  · exact Ensures.error
  · split
    · exact Ensures.ok (by simp [PropertyRef.scope?])
    · exact Ensures.error
    · exact PropertyRef.ensures_ofSource _ _

namespace Operator

/-- Arguments that pass a count are as many as it asks for. -/
lemma ensures_checkCount (kind : Kind) (args : List Json) (expected : Nat) :
    Ensures (fun _ => args.length = expected) (checkCount kind args expected) := by
  unfold checkCount
  split
  · rename_i h
    exact Ensures.ok h
  · exact Ensures.error

/-- A well-formed operand that passes as a subject can stand before an operator. -/
lemma ensures_checkSubject {operand : Operand} (h : operand.WellFormed) :
    Ensures Operand.Leads (checkSubject operand) := by
  cases operand with
  | property p => exact Ensures.ok ⟨h, h⟩
  | operator op => exact Ensures.ok ⟨trivial, h⟩
  | value v => exact Ensures.error

/-- A value in JSON is read as a value. -/
lemma ensures_valueOperand (json : Json) :
    Ensures (fun operand => ∃ v, operand = .value v) (valueOperand json) :=
  Ensures.map Ensures.trivial fun v _ => ⟨v, rfl⟩

/-- A bound in JSON is read as a number. -/
lemma ensures_boundOperand (json : Json) :
    Ensures (fun operand => ∃ v, operand = .value v ∧ v.type = .number) (boundOperand json) := by
  refine Ensures.bind Ensures.trivial fun v _ => ?_
  split
  · rename_i h
    exact Ensures.ok ⟨v, rfl, h⟩
  · exact Ensures.error

/-- What an operator compares with is a value of a type that it compares. -/
lemma ensures_comparedOperand (kind : Kind) (json : Json) :
    Ensures (fun operand => ∃ v, operand = .value v ∧
      ScalarValue.allows kind.comparable v.type = true) (comparedOperand kind json) := by
  refine Ensures.bind Ensures.trivial fun v _ => ?_
  split
  · rename_i h
    exact Ensures.ok ⟨v, rfl, h⟩
  · exact Ensures.error

/-- Operands that are scalars are a list of scalars. -/
lemma exists_values {P : ScalarValue → Prop} {operands : List Operand}
    (h : ∀ operand ∈ operands, ∃ v, operand = .value v ∧ P v) :
    ∃ values : List ScalarValue, operands = values.map .value ∧ ∀ v ∈ values, P v := by
  induction operands with
  | nil => exact ⟨[], rfl, by simp⟩
  | cons operand rest ih =>
    obtain ⟨v, rfl, hv⟩ := h operand (by simp)
    obtain ⟨values, rfl, hvalues⟩ := ih fun operand hmem => h operand (by simp [hmem])
    refine ⟨v :: values, rfl, ?_⟩
    rintro w (_ | ⟨_, hw⟩)
    · exact hv
    · exact hvalues w hw

/-- A list in JSON is read as some values, one at least. -/
lemma ensures_listedOperands (kind : Kind) (json : Json) :
    Ensures (fun operands => ∃ values : List ScalarValue, operands = values.map .value ∧
    values ≠ [])
      (listedOperands kind json) := by
  unfold listedOperands
  split
  · exact Ensures.error
  · rename_i items hitems
    intro operands hoperands
    obtain ⟨hlength, hvalues⟩ := Ensures.mapM ensures_valueOperand items operands hoperands
    obtain ⟨values, rfl, -⟩ := exists_values (P := fun _ => True) fun operand hmem => by
      obtain ⟨v, hv⟩ := hvalues operand hmem
      exact ⟨v, hv, trivial⟩
    refine ⟨values, rfl, ?_⟩
    rintro rfl
    exact hitems (by simpa [eq_comm] using hlength)
  · exact Ensures.error

/-- As many bounds are read as there are, and they are numbers. -/
lemma ensures_boundOperands (bounds : List Json) :
    Ensures (fun operands => ∃ values : List ScalarValue, operands = values.map .value ∧
      values.length = bounds.length ∧ ∀ v ∈ values, v.type = .number)
      (bounds.mapM boundOperand) := by
  intro operands hoperands
  obtain ⟨hlength, hvalues⟩ := Ensures.mapM ensures_boundOperand bounds operands hoperands
  obtain ⟨values, rfl, htypes⟩ := exists_values hvalues
  exact ⟨values, rfl, by simpa using hlength, htypes⟩

/-! ## Operators -/

/-- An operator of a known shape is well-formed if its operands are. -/
lemma WellFormed.intro {op : Operator} (h : Shaped .ofJson op)
    (hoperands : ∀ operand ∈ op.operands, operand.WellFormed) : op.WellFormed := by
  refine everywhere_iff.mpr ⟨h, fun child hchild => ?_⟩
  exact hoperands _ hchild

/-- An operator with a property and nothing else is read as a well-formed one of its kind. -/
lemma ensures_propertyOf {kind : Kind}
    (h : kind.family = .existence ∨ kind.family = .projection ∧ kind ≠ .asName ∧
      kind.argumentType? = none) (args : List Json) :
    Ensures (fun op => op.kind = kind ∧ op.WellFormed) (propertyOf kind args) := by
  unfold propertyOf
  split
  · refine Ensures.bind (PropertyRef.ensures_ofJson _) fun p hp => Ensures.ok ⟨rfl, ?_⟩
    refine .intro ?_ (by simp)
    obtain hfamily | ⟨hfamily, hnaming, htype⟩ := h
    · exact .existence hfamily hp
    · have hvalues : Shaped .ofJson ⟨kind, some p, [].map .value, none⟩ :=
        .function hfamily hnaming hp (by simp) (by simp [htype])
      exact hvalues
  · exact Ensures.error

/-- A function is read as a well-formed one of its kind. -/
lemma ensures_functionOf {kind : Kind} (hfamily : kind.family = .projection)
    (hnaming : kind ≠ .asName) (args : List Json) :
    Ensures (fun op => op.kind = kind ∧ op.WellFormed) (functionOf kind args) := by
  unfold functionOf
  split
  · rename_i htype
    exact ensures_propertyOf (.inr ⟨hfamily, hnaming, htype⟩) args
  · rename_i expected htype
    split
    · refine Ensures.bind (PropertyRef.ensures_ofJson _) fun p hp => ?_
      refine Ensures.bind Ensures.trivial fun v _ => ?_
      split
      · rename_i hv
        have hvalues : Shaped .ofJson ⟨kind, some p, [v].map .value, none⟩ :=
          .function hfamily hnaming hp (fun _ _ => trivial) (by simp [htype, hv])
        exact Ensures.ok ⟨rfl, .intro hvalues (by simp [Operand.WellFormed])⟩
      · exact Ensures.error
    · exact Ensures.error

/-- A limit is read as a well-formed one. -/
lemma ensures_limitOf (json : Json) :
    Ensures (fun op => op.kind = .limit ∧ op.WellFormed) (limitOf json) := by
  refine Ensures.bind Ensures.trivial fun v _ => ?_
  split
  · rename_i h
    exact Ensures.ok ⟨rfl, .intro (.limit trivial h) (by simp [Operand.WellFormed])⟩
  · exact Ensures.error

/-- The operator about a subject that a family makes of the operands behind the subject. -/
lemma ensures_leading {kind : Kind} {count : Nat} {args : List Json} {subject : Operand}
    (hshape : PayloadShape.of kind.family kind = .subjectFirst count) (hcount : args.length = count)
    (hsubject : subject.Leads) :
    Ensures
      (fun operands => (leading kind.family kind subject).withOperands operands |>.WellFormed)
      (operandsAfter kind.family kind args.tail) := by
  -- behind the subject there are values only, and those are always well-formed
  have toWellFormed : ∀ values : List ScalarValue,
      Shaped .ofJson (stated kind subject (values.map .value) none) →
      (stated kind subject (values.map .value) none).WellFormed := by
    intro values h
    refine .intro h fun operand hmem => ?_
    obtain rfl | hmem := mem_operands_stated hmem
    · exact hsubject.2
    · obtain ⟨v, -, rfl⟩ := List.mem_map.mp hmem
      trivial
  cases hfamily : kind.family with
  | comparison =>
    simp only [hfamily, PayloadShape.of, PayloadShape.subjectFirst.injEq] at hshape
    obtain ⟨first, right, rfl⟩ : ∃ first right, args = [first, right] :=
      List.length_eq_two.mp (hcount.trans hshape.symm)
    refine Ensures.bind (ensures_comparedOperand kind right) fun operand hoperand => ?_
    obtain ⟨v, rfl, hv⟩ := hoperand
    refine Ensures.ok ?_
    rw [leading, if_neg (by simp), about_withOperands]
    exact toWellFormed [v] (.comparison hfamily hsubject.1 trivial hv)
  | membership =>
    simp only [hfamily, PayloadShape.of, PayloadShape.subjectFirst.injEq] at hshape
    rw [leading, if_neg (by simp)]
    simp only [about_withOperands]
    split at hshape
    · rename_i hbetween
      obtain ⟨first, low, high, rfl⟩ : ∃ first low high, args = [first, low, high] :=
        List.length_eq_three.mp (hcount.trans hshape.symm)
      intro operands hoperands
      obtain ⟨values, rfl, hlength, htypes⟩ := ensures_boundOperands [low, high] operands hoperands
      refine toWellFormed values (.membership hfamily hsubject.1 (fun _ _ => trivial)
        (fun _ => ⟨hlength, htypes⟩) ?_)
      rintro rfl
      cases hlength
    · rename_i hbetween
      obtain ⟨first, right, rfl⟩ : ∃ first right, args = [first, right] :=
        List.length_eq_two.mp (hcount.trans hshape.symm)
      intro operands hoperands
      obtain ⟨values, rfl, hne⟩ := ensures_listedOperands kind right operands hoperands
      exact toWellFormed values (.membership hfamily hsubject.1 (fun _ _ => trivial)
        (fun h => absurd h hbetween) hne)
  | projection =>
    simp only [hfamily, PayloadShape.of] at hshape
    split at hshape
    · rename_i hnaming
      subst hnaming
      cases hshape
      obtain ⟨first, name, rfl⟩ : ∃ first name, args = [first, name] := List.length_eq_two.mp hcount
      have hname : Ensures (fun operand => ∃ name, operand = .value (.ofString name))
          (aliasName name) := by
        unfold aliasName
        split
        · exact Ensures.ok ⟨_, rfl⟩
        · exact Ensures.error
      refine Ensures.bind hname fun operand hoperand => Ensures.ok ?_
      obtain ⟨name, rfl⟩ := hoperand
      refine .intro (.naming hsubject.1 trivial) ?_
      rintro operand hmem
      obtain rfl | rfl : operand = subject ∨ operand = .value (.ofString name) := by
        simpa [leading, withOperands] using hmem
      · exact hsubject.2
      · trivial
    · cases hshape
  -- no other family begins with a subject
  | _ => cases kind <;> simp_all [PayloadShape.of, Kind.family]

/-- The layouts that hold parts of some kind, and the kinds that have them. -/
lemma kind_of_shape (kind : Kind) :
    match PayloadShape.of kind.family kind with
    | .subjectFirst _ => True
    | .property => kind.family = .existence
    | .parameters => kind.family = .projection ∧ kind ≠ .asName
    | .conditions => kind = .and ∨ kind = .or ∨ kind = .not
    | .subjects => kind = .select ∨ kind = .groupBy ∨ kind = .groupByPermuted
    | .ordering => kind = .orderBy
    | .bounds => kind = .timeRange
    | .condition => kind = .whereClause ∨ kind = .having
    | .rowCount => kind = .limit
    | .notClause => False := by
  cases kind <;> simp [PayloadShape.of, Kind.family]

/-- Operands that are well-formed conditions. -/
def AreConditions (operands : List Operand) : Prop :=
  ∃ conditions : List Operator, operands = conditions.map .operator ∧
    ∀ c ∈ conditions, c.isCondition = true ∧ c.WellFormed

/-- A group or negation of well-formed conditions is well-formed. -/
lemma AreConditions.wellFormed {kind : Kind} {operands : List Operand} {args : List Json}
    (hkind : kind = .and ∨ kind = .or ∨ kind = .not)
    (hnot : kind = .not → args.length = 1) (hlength : operands.length = args.length)
    (h : AreConditions operands) : (⟨kind, none, operands, none⟩ : Operator).WellFormed := by
  obtain ⟨conditions, rfl, hconditions⟩ := h
  refine .intro ?_ ?_
  · have group : ∀ connective : Connective,
        Shaped .ofJson ⟨connective.kind, none, conditions.map .operator, none⟩ :=
      fun connective => .group trivial fun c hc => (hconditions c hc).1
    obtain rfl | rfl | rfl := hkind
    · exact group .and
    · exact group .or
    · obtain ⟨c, rfl⟩ : ∃ c, conditions = [c] :=
        List.length_eq_one_iff.mp (by simpa [hnot rfl] using hlength)
      exact .negation (hconditions c (by simp)).1
  · intro operand hmem
    obtain ⟨c, hc, rfl⟩ := List.mem_map.mp hmem
    exact (hconditions c hc).2

/-- Expressions that are well-formed subjects, each followed by its direction. -/
def AreOrdered (operands : List Operand) : Prop :=
  ∃ entries : List (Operand × String), operands = orderOperands entries ∧
    ∀ entry ∈ entries, entry.1.Leads ∧ (entry.2 = "asc" ∨ entry.2 = "desc")

/-- An ordering by well-formed operands with directions is well-formed. -/
lemma AreOrdered.wellFormed {operands : List Operand} (h : AreOrdered operands) :
    (⟨.orderBy, none, operands, none⟩ : Operator).WellFormed := by
  obtain ⟨entries, rfl, hentries⟩ := h
  refine .intro ?_ fun operand hmem => ?_
  · exact .ordering (fun entry he => (hentries entry he).1.1)
      (fun entry he => (hentries entry he).2) trivial
  · obtain ⟨entry, he, hoperand⟩ := List.mem_flatMap.mp hmem
    obtain rfl | rfl : operand = entry.1 ∨ operand = .value (.ofString entry.2) := by
      simpa using hoperand
    · exact (hentries entry he).1.2
    · trivial

mutual

/-- Every operand that a JSON value denotes is well-formed. -/
lemma ensures_operandOfJson : (json : Json) → Ensures Operand.WellFormed (operandOfJson json)
  | .object members => by
    rw [operandOfJson]
    split
    · exact Ensures.map (PropertyRef.ensures_ofJson _) fun p hp => hp
    · exact Ensures.map (ensures_ofMembers members) fun op hop => hop
  | .null | .bool _ | .integer _ | .double _ | .string _ | .array _ => by
    rw [operandOfJson]
    · refine fun operand hoperand => ?_
      obtain ⟨v, rfl⟩ := ensures_valueOperand _ operand hoperand
      trivial
    · simp

/-- Every operator that the members of an object denote is well-formed. -/
lemma ensures_ofMembers :
    (members : List (String × Json)) → Ensures WellFormed (ofMembers members)
  | [] => Ensures.error
  | [(key, payload)] => by
    rw [ofMembers]
    split
    · rename_i kind _
      exact fun op hop => (ensures_ofPayload kind payload op hop).2
    · exact Ensures.error
  | _ :: _ :: _ => Ensures.error

/-- Every operator that a payload denotes is well-formed, and of the kind asked for. -/
lemma ensures_ofPayload (kind : Kind) :
    (json : Json) → Ensures (fun op => op.kind = kind ∧ op.WellFormed)
      (ofPayload kind.family kind json)
  | .array args => by
    have hkind := kind_of_shape kind
    rw [ofPayload]
    cases hshape : PayloadShape.of kind.family kind with
    | subjectFirst count =>
      dsimp only
      refine Ensures.bind (ensures_checkCount kind args count) fun _ hcount => ?_
      refine Ensures.bind (ensures_leadingSubject kind args) fun subject hsubject => ?_
      refine Ensures.bind (ensures_leading hshape hcount hsubject) fun operands h => ?_
      refine Ensures.ok ⟨?_, h⟩
      unfold leading
      split
      · rfl
      · rw [about_withOperands, stated_kind]
    | property =>
      rw [hshape] at hkind
      exact ensures_propertyOf (.inl hkind) args
    | parameters =>
      rw [hshape] at hkind
      exact ensures_functionOf hkind.1 hkind.2 args
    | conditions =>
      rw [hshape] at hkind
      dsimp only
      -- a negation has its one condition counted first, a group has any number
      have next : (kind = .not → args.length = 1) →
          Ensures (fun op : Operator => op.kind = kind ∧ op.WellFormed)
            (do .ok { kind, operands := ← conditionsOfJson args }) := fun hnot => by
        refine Ensures.bind (ensures_conditionsOfJson args) fun operands h => Ensures.ok ⟨rfl, ?_⟩
        exact h.2.wellFormed hkind hnot h.1
      split
      · refine Ensures.bind (ensures_checkCount kind args 1) fun _ hcount => ?_
        exact next fun _ => hcount
      · rename_i h
        exact next fun hnot => absurd hnot h
    | subjects =>
      rw [hshape] at hkind
      refine Ensures.bind (ensures_subjectsOfJson args) fun operands h => Ensures.ok ⟨rfl, ?_⟩
      exact .intro (.listing hkind (fun operand hmem => (h operand hmem).1) trivial)
        fun operand hmem => (h operand hmem).2
    | ordering =>
      rw [hshape] at hkind
      subst hkind
      refine Ensures.bind (ensures_orderOfJson args) fun operands h => Ensures.ok ⟨rfl, ?_⟩
      exact h.wellFormed
    | bounds =>
      rw [hshape] at hkind
      subst hkind
      refine Ensures.bind (ensures_checkCount _ args 2) fun _ hcount => ?_
      refine Ensures.bind (Ensures.mapM ensures_valueOperand args) fun operands h => ?_
      obtain ⟨first, last, rfl⟩ := List.length_eq_two.mp (h.1.trans hcount)
      obtain ⟨v, rfl⟩ := h.2 first (by simp)
      obtain ⟨w, rfl⟩ := h.2 last (by simp)
      exact Ensures.ok ⟨rfl, .intro (.timeRange trivial trivial trivial trivial)
        (by simp [Operand.WellFormed])⟩
    | condition => exact Ensures.error
    | rowCount =>
      rw [hshape] at hkind
      subst hkind
      exact ensures_limitOf _
    | notClause => exact Ensures.error
  | .object members => by
    have hkind := kind_of_shape kind
    rw [ofPayload]
    cases hshape : PayloadShape.of kind.family kind with
    | condition =>
      rw [hshape] at hkind
      refine Ensures.bind (ensures_ofMembers members) fun condition h => ?_
      split
      · rename_i hc
        refine Ensures.ok ⟨rfl, .intro (.filter hkind hc) ?_⟩
        simpa [Operand.WellFormed] using h
      · exact Ensures.error
    | rowCount =>
      rw [hshape] at hkind
      subst hkind
      exact ensures_limitOf _
    | _ => exact Ensures.error
  -- outside of lists and objects there are counts only
  | .null | .bool _ | .integer _ | .double _ | .string _ => by
    have hkind := kind_of_shape kind
    rw [ofPayload]
    · cases hshape : PayloadShape.of kind.family kind with
      | rowCount =>
        rw [hshape] at hkind
        subst hkind
        exact ensures_limitOf _
      | _ => exact Ensures.error
    · simp
    · simp

/-- The first of some arguments is a subject. -/
lemma ensures_leadingSubject (kind : Kind) :
    (args : List Json) → Ensures Operand.Leads (leadingSubject kind args)
  | [] => Ensures.error
  | json :: _ =>
    Ensures.bind (ensures_operandOfJson json) fun _ hoperand => ensures_checkSubject hoperand

/-- What stands in a group are conditions. -/
lemma ensures_conditionsOfJson : (args : List Json) →
    Ensures (fun operands => operands.length = args.length ∧ AreConditions operands)
      (conditionsOfJson args)
  | [] => Ensures.ok ⟨rfl, [], rfl, by simp⟩
  | .object members :: rest => by
    rw [conditionsOfJson]
    refine Ensures.bind (ensures_ofMembers members) fun condition h => ?_
    split
    · rename_i hc
      refine Ensures.bind (ensures_conditionsOfJson rest) fun operands hrest => Ensures.ok ?_
      obtain ⟨hlength, conditions, rfl, hconditions⟩ := hrest
      refine ⟨by simpa using hlength, condition :: conditions, rfl, ?_⟩
      rintro c (_ | ⟨_, hmem⟩)
      · exact ⟨hc, h⟩
      · exact hconditions c hmem
    · exact Ensures.error
  | .null :: _ | .bool _ :: _ | .integer _ :: _ | .double _ :: _ | .string _ :: _
  | .array _ :: _ => by
    rw [conditionsOfJson]
    · exact Ensures.error
    · simp

/-- What a clause lists are subjects. -/
lemma ensures_subjectsOfJson : (args : List Json) →
    Ensures (fun operands => ∀ operand ∈ operands, operand.Leads) (subjectsOfJson args)
  | [] => Ensures.ok (by simp)
  | json :: rest => by
    rw [subjectsOfJson]
    refine Ensures.bind (ensures_operandOfJson json) fun operand hoperand => ?_
    refine Ensures.bind (ensures_checkSubject hoperand) fun subject hsubject => ?_
    refine Ensures.bind (ensures_subjectsOfJson rest) fun operands hrest => Ensures.ok ?_
    rintro operand (_ | ⟨_, hmem⟩)
    · exact hsubject
    · exact hrest operand hmem

/-- What an ordering lists are subjects and directions. -/
lemma ensures_orderOfJson : (args : List Json) → Ensures AreOrdered (orderOfJson args)
  | [] => Ensures.ok ⟨[], rfl, by simp⟩
  | .array [expression, direction] :: rest => by
    rw [orderOfJson]
    split
    · exact Ensures.error
    · rename_i word hword
      refine Ensures.bind (ensures_operandOfJson expression) fun operand hoperand => ?_
      refine Ensures.bind (ensures_checkSubject hoperand) fun subject hsubject => ?_
      refine Ensures.bind (ensures_orderOfJson rest) fun operands hrest => Ensures.ok ?_
      obtain ⟨entries, rfl, hentries⟩ := hrest
      obtain ⟨text, -, htext⟩ := Option.bind_eq_some_iff.mp hword
      refine ⟨(subject, word) :: entries, rfl, ?_⟩
      rintro entry (_ | ⟨_, hmem⟩)
      · exact ⟨hsubject, direction?_cases htext⟩
      · exact hentries entry hmem
  | .null :: _ | .bool _ :: _ | .integer _ :: _ | .double _ :: _ | .string _ :: _
  | .object _ :: _ | .array [] :: _ | .array [_] :: _ | .array (_ :: _ :: _ :: _) :: _ => by
    rw [orderOfJson]
    · exact Ensures.error
    · simp

end

end Operator

end RecordQuery
