import RecordQuery.Evaluation
import RecordQuery.Proofs.TypedNumbers

/-!
# When two values are equal

Values are compared in two ways. Two numbers that are both read as decimals are equal if they are
one rational number, whatever digits they are written with. All other values are equal if they are
the same JSON value: the same word or string, the same number of one sort, the same items in an
array, the same members in an object in any order.

`Json.IsEqual` says this on its own, by rational numbers and by `Json.IsSame`, and `equal_iff` that
it is what a test computes. So what a test of a record comes to can be told without the test.
-/

namespace RecordQuery

/-! ## Readers -/

/-- What is read by a reader that takes no exponents. -/
def DecimalReader.readPlain? (text : String) : Option Decimal :=
  if 'e' ∈ text.toList then none else Decimal.ofText? text.toList

/-- Only texts with an exponent are left out. -/
lemma DecimalReader.readPlain?_eq (text : String) :
    readPlain? text = Decimal.ofText? text.toList ∨ 'e' ∈ text.toList ∧ readPlain? text = none := by
  unfold readPlain?
  split
  · rename_i hexponent
    exact .inr ⟨hexponent, rfl⟩
  · exact .inl rfl

/-- The reader that takes no exponents. -/
@[reducible]
def DecimalReader.plain : DecimalReader where
  read? := readPlain?
  read?_eq _ text _ := readPlain?_eq text

namespace Json

/-! ## The same JSON value -/

/-- Whether two values are the same JSON value. The two zeros among the doubles are; the members of
an object are found by their keys. -/
inductive IsSame : Json → Json → Prop
  | null : IsSame .null .null
  | bool (b : Bool) : IsSame (.bool b) (.bool b)
  | integer (n : Int) : IsSame (.integer n) (.integer n)
  | double (x : Double) : IsSame (.double x) (.double x)
  | zero (a b : Bool) : IsSame (.double ⟨a, 0⟩) (.double ⟨b, 0⟩)
  | string (s : String) : IsSame (.string s) (.string s)
  | array {as bs : List Json} (length_eq : as.length = bs.length)
      (items : ∀ pair ∈ as.zip bs, IsSame pair.1 pair.2) : IsSame (.array as) (.array bs)
  | object {as bs : List (String × Json)} (partner : String → Json)
      (length_eq : as.length = bs.length)
      (found : ∀ entry ∈ as, Table.get? bs entry.1 = some (partner entry.1))
      (members : ∀ entry ∈ as, IsSame entry.2 (partner entry.1)) : IsSame (.object as) (.object bs)

/-- Doubles are the same number if they are one double or both zero. -/
lemma isSame_double_iff (a b : Double) : IsSame (.double a) (.double b) ↔ a.same b = true := by
  obtain ⟨negative, units⟩ := a
  obtain ⟨negative', units'⟩ := b
  rw [Double.same, Bool.and_eq_true, Bool.or_eq_true, beq_iff_eq, beq_iff_eq, beq_iff_eq]
  constructor
  · rintro (_ | _ | _ | _ | _)
    · exact ⟨rfl, .inl rfl⟩
    · exact ⟨rfl, .inr rfl⟩
  · rintro ⟨hunits, hsign | hzero⟩
    · cases hunits
      cases hsign
      exact .double _
    · cases hunits
      cases hzero
      exact .zero _ _

/-- Arrays are the same if their items are, one by one. -/
lemma isSame_array_iff (as bs : List Json) :
    IsSame (.array as) (.array bs) ↔
      as.length = bs.length ∧ ∀ pair ∈ as.zip bs, IsSame pair.1 pair.2 := by
  constructor
  · rintro (_ | _ | _ | _ | _ | _ | ⟨hlength, hitems⟩)
    exact ⟨hlength, hitems⟩
  · rintro ⟨hlength, hitems⟩
    exact .array hlength hitems

/-- Objects are the same if they have equally many members, and the first one has none but members
of the second. -/
lemma isSame_object_iff (as bs : List (String × Json)) :
    IsSame (.object as) (.object bs) ↔
      as.length = bs.length ∧
        ∀ entry ∈ as, ∃ b, Table.get? bs entry.1 = some b ∧ IsSame entry.2 b := by
  constructor
  · rintro (_ | _ | _ | _ | _ | _ | _ | ⟨partner, hlength, hfound, hmembers⟩)
    exact ⟨hlength, fun entry h => ⟨_, hfound entry h, hmembers entry h⟩⟩
  · rintro ⟨hlength, h⟩
    refine .object (fun key => (Table.get? bs key).getD .null) hlength ?_ ?_
    · intro entry hentry
      obtain ⟨b, hb, -⟩ := h entry hentry
      rw [hb, Option.getD_some]
    · intro entry hentry
      obtain ⟨b, hb, hsame⟩ := h entry hentry
      rwa [hb, Option.getD_some]

/-- Values are compared as JSON values rightly. -/
theorem same_iff (a b : Json) : a.same b = true ↔ IsSame a b := by
  -- by the recursion of the comparison, with lists of items and of members beside it
  refine (same.mutual_induct (fun a b => a.same b = true ↔ IsSame a b)
    (fun as bs => sameMembers as bs = true ↔
      ∀ entry ∈ as, ∃ b, Table.get? bs entry.1 = some b ∧ IsSame entry.2 b)
    (fun as bs => sameItems as bs = true ↔
      as.length = bs.length ∧ ∀ pair ∈ as.zip bs, IsSame pair.1 pair.2)
    ?null ?bool ?integer ?double ?string ?array ?object ?other ?noItems ?items ?otherItems
    ?noMembers ?members).1 a b
  case null => exact iff_of_true rfl .null
  case bool =>
    intro a b
    rw [same, beq_iff_eq]
    exact ⟨fun h => h ▸ .bool a, fun h => by cases h; rfl⟩
  case integer =>
    intro a b
    rw [same, beq_iff_eq]
    exact ⟨fun h => h ▸ .integer a, fun h => by cases h; rfl⟩
  case double => exact fun a b => (isSame_double_iff a b).symm
  case string =>
    intro a b
    rw [same, beq_iff_eq]
    exact ⟨fun h => h ▸ .string a, fun h => by cases h; rfl⟩
  case array =>
    intro as bs ih
    rw [same, ih, isSame_array_iff]
  case object =>
    intro as bs ih
    rw [same, Bool.and_eq_true, beq_iff_eq, ih, isSame_object_iff]
  -- values of two sorts
  case other =>
    intro a b hnull hbool hinteger hdouble hstring harray hobject
    have hfalse : a.same b = false := by
      unfold same
      split <;> simp_all
    refine iff_of_false (by rw [hfalse]; decide) fun h => ?_
    cases h with
    | null => exact hnull rfl rfl
    | bool => exact hbool _ _ rfl rfl
    | integer => exact hinteger _ _ rfl rfl
    | double => exact hdouble _ _ rfl rfl
    | zero => exact hdouble _ _ rfl rfl
    | string => exact hstring _ _ rfl rfl
    | array => exact harray _ _ rfl rfl
    | object => exact hobject _ _ rfl rfl
  case noItems => exact iff_of_true rfl ⟨rfl, by simp⟩
  case items =>
    intro a as b bs hfirst hrest
    rw [sameItems, Bool.and_eq_true, hfirst, hrest, List.zip_cons_cons, List.forall_mem_cons,
      List.length_cons, List.length_cons, Nat.add_right_cancel_iff]
    tauto
  case otherItems =>
    intro as bs hnil hcons
    rcases as with _ | ⟨a, as⟩ <;> rcases bs with _ | ⟨b, bs⟩
    · exact (hnil rfl rfl).elim
    · exact iff_of_false (by simp [sameItems]) (by simp)
    · exact iff_of_false (by simp [sameItems]) (by simp)
    · exact (hcons _ _ _ _ rfl rfl).elim
  case noMembers => exact fun bs => iff_of_true rfl (by simp)
  case members =>
    intro key a rest bs hfirst hrest
    rw [sameMembers, Bool.and_eq_true, hrest, List.forall_mem_cons]
    refine and_congr_left fun _ => ?_
    cases hget : Table.get? bs key with
    | none => simp
    | some b => simp [hfirst b]

/-! ## Equal values -/

variable [DecimalReader]

/-- The number that a number is read as. -/
def value? (v : Json) : Option ℚ :=
  (v.numberText?.bind DecimalReader.read?).map Decimal.value

/-- Whether two values are equal: numbers that are both read if they are one rational number, and
otherwise what is the same JSON value. -/
def IsEqual (a b : Json) : Prop :=
  (∃ number, a.value? = some number ∧ b.value? = some number) ∨
    (a.value? = none ∨ b.value? = none) ∧ IsSame a b

end Json

namespace Evaluation

variable [DecimalReader]

/-- A test compares two values rightly. -/
theorem equal_iff (a b : Json) : equal a b = true ↔ a.IsEqual b := by
  unfold Json.IsEqual Json.value? equal
  cases ha : a.numberText? with
  | none => simp [Json.same_iff]
  | some x =>
    cases hb : b.numberText? with
    | none => simp [Json.same_iff]
    | some y =>
      simp only [Option.bind_some]
      cases hx : DecimalReader.read? x with
      | none => simp [Json.same_iff]
      | some d =>
        cases hy : DecimalReader.read? y with
        | none => simp [Json.same_iff]
        | some e =>
          -- both are read
          rw [Option.map_some, Option.map_some]
          refine (Decimal.same_iff_value_eq d e).trans
            ⟨fun h => .inl ⟨_, rfl, congrArg some h.symm⟩, ?_⟩
          rintro (⟨number, hd, he⟩ | ⟨hd | he, -⟩)
          · exact Option.some.inj (hd.trans he.symm)
          · cases hd
          · cases he

instance (a b : Json) : Decidable (a.IsEqual b) := decidable_of_iff _ (equal_iff a b)

end Evaluation

-- For a reader that takes exponents `1e16` is the integer, for one that does not it is not.
example :
    (Json.double ⟨false, tenTo 16 * Double.unitsPerOne⟩).IsEqual (.integer 10000000000000000) ∧
      ¬ @Json.IsEqual .plain (.double ⟨false, tenTo 16 * Double.unitsPerOne⟩)
        (.integer 10000000000000000) := by
  decide +kernel

end RecordQuery
