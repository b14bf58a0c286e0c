import RecordQuery.Proofs.ConditionValue

/-!
# Testing a record for the value it has

A query that asks whether a property is equal to some value should match the records that have just
this value. For strings, truth values and null it does. A number goes a longer way: the query keeps
the decimal that its text denotes, and writes this decimal as JSON again before a record is tested,
as an integer where 64 bits with a sign hold it and as a double else.

So for numbers it is the way back that decides. Whole decimals that are written as integers are
found, if the text of the number is read when it is compared; this covers all integers with a sign,
whatever reader compares them. Where a decimal is written as a double, the record matches exactly if
this double is equal to the number in question, and that is not always so: an integer beyond the
signed ones has no double of its own, and no reader finds it.
-/

namespace RecordQuery

namespace Json

/-- The decimal that the text of a number denotes. -/
def decimal? (v : Json) : Option Decimal :=
  v.numberText?.bind fun text => Decimal.ofText? text.toList

section

variable [DecimalReader] {v : Json} {text : String} {d : Decimal}

/-- Whether a value is equal to what it is written as once a query has taken it in. A number is
written as the integer that its decimal is, if it is one of 64 bits, and else as the double that the
decimal leads to. -/
def IsKept (v : Json) : Prop :=
  ∀ d, v.decimal? = some d →
    (∃ n, d.toInt64? = some n ∧ v.IsEqual (.integer n)) ∨
      d.toInt64? = none ∧ ∃ x, d.toDouble? = some x ∧ v.IsEqual (.double x)

/-- What is no number is kept. -/
lemma isKept_of_isNumber (h : v.isNumber = false) : v.IsKept := by
  have hnone : v.decimal? = none := by
    cases v with
    | integer n => cases h
    | double x => cases h
    | _ => rfl
  intro d hd
  rw [hnone] at hd
  cases hd

/-- A number that is read is read as its decimal. -/
lemma decimal?_of_read? (htext : v.numberText? = some text)
    (hread : DecimalReader.read? text = some d) : v.decimal? = some d := by
  rw [decimal?, htext, Option.bind_some]
  obtain hdenotes | ⟨-, hnone⟩ := DecimalReader.read?_eq v text htext
  · rw [← hdenotes, hread]
  · rw [hread] at hnone
    cases hnone

/-- A number that is compared by value is compared by that of its decimal. -/
lemma exists_decimal?_of_value? {number : ℚ} (h : v.value? = some number) :
    ∃ d, v.decimal? = some d ∧ d.value = number := by
  obtain ⟨d, hd, hnumber⟩ := Option.map_eq_some_iff.mp h
  obtain ⟨text, htext, hread⟩ := Option.bind_eq_some_iff.mp hd
  exact ⟨d, decimal?_of_read? htext hread, hnumber⟩

/-- Integers are read by every reader. -/
lemma read?_integerText (n : Int) :
    DecimalReader.read? (integerText n) = Decimal.ofText? (integerText n).toList := by
  obtain hdenotes | ⟨hexponent, -⟩ := DecimalReader.read?_eq (.integer n) (integerText n) rfl
  · exact hdenotes
  · exact absurd hexponent (Decimal.not_mem_integerText n)

/-- The value by which an integer is compared. -/
lemma value?_integer {n : Int} (h : Decimal.ofText? (integerText n).toList = some d) :
    (integer n).value? = some d.value := by
  have hread : (integer n).numberText?.bind DecimalReader.read? = some d :=
    (read?_integerText n).trans h
  rw [value?, hread, Option.map_some]

/-- A number that is read as a whole number of 64 bits is kept. -/
lemma isKept_of_read? {n : Int} (htext : v.numberText? = some text)
    (hread : DecimalReader.read? text = some d) (hn : d.toInt64? = some n) : v.IsKept := by
  have hvalue : v.value? = some d.value := by
    rw [value?, htext, Option.bind_some, hread, Option.map_some]
  obtain ⟨e, he, hsame, -⟩ := Decimal.ofText?_integerText_of_toInt64? hn
  have hequal : d.value = e.value := (Decimal.same_iff_value_eq d e).mp hsame
  intro d' hd'
  obtain rfl : d = d' := Option.some.inj ((decimal?_of_read? htext hread).symm.trans hd')
  exact .inl ⟨n, hn, .inl ⟨d.value, hvalue, by rw [value?_integer he, hequal]⟩⟩

/-- The integers of 64 bits with a sign are kept. -/
lemma isKept_of_integer {n : Int} (hlow : -(twoTo 63 : Int) ≤ n) (hhigh : n < (twoTo 63 : Int)) :
    (integer n).IsKept := by
  have htwo : twoTo 63 < twoTo 96 := by decide
  have hbound : n.natAbs < twoTo 96 := by omega
  have hread := read?_integerText n
  rw [Decimal.ofText?_integerText n hbound, Decimal.make?, dif_pos ⟨hbound, by decide⟩] at hread
  refine isKept_of_read? rfl hread ((Decimal.toInt64?_eq_some_iff _ n).mpr ⟨?_, hlow, hhigh⟩)
  simp only [Decimal.signed]
  rw [Decimal.signed_natAbs]
  simp [tenTo]

/-- No number is null. -/
lemma not_isEqual_null (h : v.decimal? = some d) : ¬ v.IsEqual .null := by
  rintro (⟨_, -, hnull⟩ | ⟨-, hsame⟩)
  · cases hnull
  · cases hsame
    cases h

/-- A number is equal to the form of its decimal exactly if it is kept. -/
lemma isEqual_toJson_iff (hv : v.decimal? = some d) : v.IsEqual d.toJson ↔ v.IsKept := by
  have hkept : v.IsKept ↔ (∃ n, d.toInt64? = some n ∧ v.IsEqual (.integer n)) ∨
      d.toInt64? = none ∧ ∃ x, d.toDouble? = some x ∧ v.IsEqual (.double x) := by
    rw [IsKept, hv]
    simp
  rw [hkept, Decimal.toJson]
  cases hinteger : d.toInt64? with
  | some n => simp
  | none =>
    cases hdouble : d.toDouble? with
    | some x => simp
    | none => simp [not_isEqual_null hv]

/-- A value that a query takes in is equal to what the query writes for it exactly if it is kept. -/
lemma isEqual_toJson_of_ofJson {w : ScalarValue} (h : ScalarValue.ofJson v = .ok w) :
    v.IsEqual w.toJson ↔ v.IsKept := by
  have ofNumber : ∀ {text : String} {d : Decimal}, v.numberText? = some text →
      Decimal.ofText? text.toList = some d → w = ⟨.number d, text⟩ →
      (v.IsEqual w.toJson ↔ v.IsKept) := by
    rintro text d htext hd rfl
    have hv : v.decimal? = some d := by rw [decimal?, htext, Option.bind_some, hd]
    rw [ScalarValue.toJson]
    exact isEqual_toJson_iff hv
  cases v with
  | string s =>
    cases h
    exact iff_of_true (.inr ⟨.inl rfl, .string s⟩) (isKept_of_isNumber rfl)
  | bool b =>
    cases h
    exact iff_of_true (.inr ⟨.inl rfl, .bool b⟩) (isKept_of_isNumber rfl)
  | null =>
    cases h
    exact iff_of_true (.inr ⟨.inl rfl, .null⟩) (isKept_of_isNumber rfl)
  | integer | double =>
    dsimp only [ScalarValue.ofJson, numberText?] at h
    split at h
    · rename_i d hd
      exact ofNumber rfl hd (Except.ok.inj h).symm
    · cases h
  | array items => cases h
  | object members => cases h

/-- The largest integer of 64 bits without a sign leads to a double that is another number. -/
lemma not_isKept_unsigned : ¬ (integer 18446744073709551615).IsKept := by
  obtain ⟨d, hd⟩ : ∃ d : Decimal, d =
      ⟨false, 18446744073709551615, 0, by decide, by decide, by simp⟩ := ⟨_, rfl⟩
  obtain ⟨x, hx⟩ : ∃ x : Double, x = ⟨false, twoTo 64 * Double.unitsPerOne⟩ := ⟨_, rfl⟩
  have hdecimal : (integer 18446744073709551615).decimal? = some d := by
    subst hd
    decide +kernel
  have hinteger : d.toInt64? = none := by
    subst hd
    decide +kernel
  have hdouble : d.toDouble? = some x := by
    subst hd hx
    decide +kernel
  have hother : ((double x).decimal?.map fun e => d.same e) = some false := by
    subst hd hx
    decide +kernel
  intro hkept
  obtain ⟨n, hn, -⟩ | ⟨-, y, hy, hequal⟩ := hkept d hdecimal
  · rw [hinteger] at hn
    cases hn
  · obtain rfl : x = y := Option.some.inj (hdouble.symm.trans hy)
    obtain ⟨number, hleft, hright⟩ | ⟨-, hsame⟩ := hequal
    · -- both are read, as decimals of two values
      obtain ⟨d', hd', hleft⟩ := exists_decimal?_of_value? hleft
      obtain ⟨e, he, hright⟩ := exists_decimal?_of_value? hright
      obtain rfl : d = d' := Option.some.inj (hdecimal.symm.trans hd')
      rw [he, Option.map_some, (Decimal.same_iff_value_eq d e).mpr (hleft.trans hright.symm)]
        at hother
      cases hother
    · cases hsame

end

end Json

/-- The JSON form of a query that compares a property with a value. -/
def Query.comparisonJson (kind : Kind) (p : String) (v : Json) : Json :=
  .object [("where", .object [(kind.jsonKey, .array [.object [("source", .string p)], v])])]

namespace Query

/-- The query that compares a property with a scalar. -/
def comparing (kind : Kind) (p : String) (w : ScalarValue) : Query :=
  { clauses := [{ kind := .whereClause
                  operands := [.operator { kind, property := some (.ofId p)
                                           operands := [.value w] }] }] }

/-- A comparison for equality is read exactly if its value is. -/
lemma ofMembers_comparison {kind : Kind} (hkind : kind = .equals ∨ kind = .notEquals) (p : String)
    (v : Json) :
    Operator.ofMembers [(kind.jsonKey, .array [.object [("source", .string p)], v])] =
      (ScalarValue.ofJson v).map fun w =>
        { kind, property := some (.ofId p), operands := [.value w] } := by
  have hread : Operator.ofMembers [(kind.jsonKey, .array [.object [("source", .string p)], v])] =
      Operator.operandsAfter .comparison kind [v] >>= fun operands =>
        .ok { kind, property := some (.ofId p), operands } := by
    obtain rfl | rfl := hkind <;> rfl
  have hvalue : Operator.operandsAfter .comparison kind [v] =
      (ScalarValue.ofJson v).map fun w => [.value w] := by
    have hallows : ∀ type, ScalarValue.allows kind.comparable type = true := by
      obtain rfl | rfl := hkind <;> exact fun _ => rfl
    simp only [Operator.operandsAfter, Operator.comparedOperand, hallows, if_true]
    cases ScalarValue.ofJson v <;> rfl
  rw [hread, hvalue]
  cases ScalarValue.ofJson v <;> rfl

/-- A query that compares for equality is read exactly if its value is. -/
lemma ofJson_comparisonJson {kind : Kind} (hkind : kind = .equals ∨ kind = .notEquals) (p : String)
    (v : Json) :
    Query.ofJson (comparisonJson kind p v) = (ScalarValue.ofJson v).map (comparing kind p) := by
  have hread : Query.ofJson (comparisonJson kind p v) =
      ((Operator.ofMembers [(kind.jsonKey, .array [.object [("source", .string p)], v])] >>=
        fun condition =>
          if condition.isCondition then
            .ok { kind := .whereClause, operands := [.operator condition] }
          else .error (.conditionExpected .whereClause condition.kind)) >>=
        fun clause => Query.empty.setClause clause |>.addMembers []) >>=
        fun q => .ok { q with aliases := q.collectAliases } := rfl
  rw [hread, ofMembers_comparison hkind]
  cases ScalarValue.ofJson v with
  | error e => rfl
  | ok w => obtain rfl | rfl := hkind <;> rfl

section

variable [DecimalReader]

/-- A query that compares for equality is tested as its kind compares. -/
lemma test_comparing {kind : Kind} (hkind : kind = .equals ∨ kind = .notEquals) (p : String)
    (w : ScalarValue) (subject : Subject) :
    ((comparing kind p w).test subject).1 =
      .ok (kind.compares (subject.valueOf (.ofId p)) [w.toJson]) := by
  have htest := Evaluation.test_comparison subject hkind (.ofId p) w
  obtain rfl | rfl := hkind
  · exact htest
  · exact htest

/-- A query that compares a property with a value for equality, and is read, answers for the record
that has just this value, and so does the query that compares them for inequality. Whatever reads
the numbers that are compared, the record matches exactly if the value is kept: so it does for
strings, truth values, null, integers of 64 bits with a sign, and all numbers that are
read as such integers. -/
theorem test_self (p : String) (v : Json) (q : Query)
    (h : Query.ofJson (comparisonJson .equals p v) = .ok q) :
    ∃ (q' : Query) (isFound : Bool),
      Query.ofJson (comparisonJson .notEquals p v) = .ok q' ∧
      (q.test (Subject.ofJson (.object [(p, v)]))).1 = .ok isFound ∧
      (q'.test (Subject.ofJson (.object [(p, v)]))).1 = .ok (!isFound) ∧
      (isFound = true ↔ v.IsKept) ∧
      (v.isNumber = false → isFound = true) ∧
      (∀ n, v = .integer n → -(twoTo 63 : Int) ≤ n → n < (twoTo 63 : Int) → isFound = true) ∧
      (∀ text d n, v.numberText? = some text → DecimalReader.read? text = some d →
        d.toInt64? = some n → isFound = true) := by
  rw [ofJson_comparisonJson (.inl rfl)] at h
  rcases hv : ScalarValue.ofJson v with e | w
  · rw [hv] at h
    cases h
  · rw [hv] at h
    cases h
    have hvalue : (Subject.ofJson (.object [(p, v)])).valueOf (.ofId p) = v := by
      simp [Subject.valueOf, Subject.ofJson, PropertyRef.ofId, PropertyRef.label, PropertyRef.scope,
        PropertyRef.scope?, Json.get?, Json.members?, Table.get?]
    have hkept : decide (v.IsEqual w.toJson) = true ↔ v.IsKept :=
      decide_eq_true_iff.trans (Json.isEqual_toJson_of_ofJson hv)
    refine ⟨comparing .notEquals p w, decide (v.IsEqual w.toJson), ?_, ?_, ?_, hkept, ?_, ?_, ?_⟩
    · rw [ofJson_comparisonJson (.inr rfl), hv]
      rfl
    · rw [test_comparing (.inl rfl), hvalue]
      simp [Kind.compares]
    · rw [test_comparing (.inr rfl), hvalue]
      simp [Kind.compares]
    · exact fun hnumber => hkept.mpr (Json.isKept_of_isNumber hnumber)
    · rintro n rfl hlow hhigh
      exact hkept.mpr (Json.isKept_of_integer hlow hhigh)
    · exact fun text d n htext hread hn => hkept.mpr (Json.isKept_of_read? htext hread hn)

end

/-- The largest integer of 64 bits without a sign is read, but the record that has it is not found,
whatever reads the numbers that are compared. -/
theorem test_self_unsigned :
    ∃ q : Query,
      Query.ofJson (comparisonJson .equals "p" (.integer 18446744073709551615)) = .ok q ∧
      ∀ [DecimalReader],
        (q.test (Subject.ofJson (.object [("p", .integer 18446744073709551615)]))).1 =
          .ok false := by
  obtain ⟨w, hw⟩ : ∃ w : ScalarValue, w =
      ⟨.number ⟨false, 18446744073709551615, 0, by decide, by decide, by simp⟩,
        "18446744073709551615"⟩ := ⟨_, rfl⟩
  have hvalue : ScalarValue.ofJson (.integer 18446744073709551615) = .ok w := by
    subst hw
    rfl
  have hread : Query.ofJson (comparisonJson .equals "p" (.integer 18446744073709551615)) =
      .ok (comparing .equals "p" w) := by
    rw [ofJson_comparisonJson (.inl rfl), hvalue]
    rfl
  refine ⟨_, hread, @fun _ => ?_⟩
  obtain ⟨_, isFound, -, htest, -, hkept, -⟩ := test_self "p" _ _ hread
  obtain rfl : isFound = false := by
    rw [Bool.eq_false_iff]
    exact fun hfound => Json.not_isKept_unsigned (hkept.mp hfound)
  exact htest

end Query

end RecordQuery
