import Mathlib.Data.List.Perm.Basic
import Mathlib.Tactic.Common
import RecordQuery.Evaluation

/-!
# Which conditions fail

No record has a say in whether the test of a condition fails. A fault tells of a form that is none:
an object without a single key, operands that are no list or too many, a descriptor that describes
no property, a list that is missing, a key that is unknown. What the record holds is compared only
after all that was settled, and a comparison never fails. So a condition that fails on one record
fails on all of them, with one fault (`failAlike_test`).

This needs that the parts of a connective are tested to the last one, whatever the first ones come
to. It is also why the parts can be put into another order: the value of a group is the same then,
and a group with a part that fails still fails, though the fault may be that of another part.
`Reordered` says what another order of a condition is, with groups inside groups reordered as well.
-/

namespace RecordQuery

namespace Evaluation

variable {α β γ δ : Type}

/-! ## Outcomes that fail alike -/

/-- Whether two tests fail with one fault, or neither fails. -/
def FailAlike (x : Except EvaluationFault α) (y : Except EvaluationFault β) : Prop :=
  ∀ fault, x = .error fault ↔ y = .error fault

namespace FailAlike

/-- The same fault is a failure alike. -/
lemma error (fault : EvaluationFault) :
    FailAlike (.error fault : Except EvaluationFault α)
      (.error fault : Except EvaluationFault β) := by
  intro other
  constructor <;> rintro ⟨⟩ <;> rfl

/-- Two results do not fail. -/
lemma ok (a : α) (b : β) : FailAlike (.ok a) (.ok b) := by
  intro fault
  constructor <;> rintro ⟨⟩

/-- Tests that fail alike do so when another one that does is made after them. -/
lemma bind {x : Except EvaluationFault α} {y : Except EvaluationFault β}
    {f : α → Except EvaluationFault γ} {g : β → Except EvaluationFault δ} (h : FailAlike x y)
    (hnext : ∀ a b, FailAlike (f a) (g b)) : FailAlike (x >>= f) (y >>= g) := by
  rcases x with fault | a
  · have hy : y = .error fault := (h fault).mp rfl
    rw [hy]
    exact error fault
  · rcases y with fault | b
    · have hx := (h fault).mpr rfl
      cases hx
    · exact hnext a b

end FailAlike

/-! ## Leaves -/

/-- Whether a descriptor describes a property does not depend on the record. -/
lemma isSome_resolve (s s' : Subject) (descriptor : Json) :
    (resolve s descriptor).isSome = (resolve s' descriptor).isSome := by
  unfold resolve
  split
  · rfl
  · rw [Option.isSome_map, Option.isSome_map]
  · rfl
  · rfl

section

variable [DecimalReader]

/-- Whether an operand suits an operator does not depend on the value it is compared with. -/
lemma isSome_leafTest {key : String} {test : Json → Json → Option Bool}
    (h : leafTest? key = some test) (actual actual' operand : Json) :
    (test actual operand).isSome = (test actual' operand).isSome := by
  unfold leafTest? at h
  split_ifs at h <;> cases h <;> simp

/-- A descriptor and an operand that suit an operator on one record do so on all. -/
lemma isSome_bind_resolve {key : String} {test : Json → Json → Option Bool}
    (h : leafTest? key = some test) (s s' : Subject) (property operand : Json) :
    ((resolve s property).bind fun actual => test actual operand).isSome =
      ((resolve s' property).bind fun actual => test actual operand).isSome := by
  have hresolve := isSome_resolve s s' property
  rcases hs : resolve s property with _ | actual <;>
    rcases hs' : resolve s' property with _ | actual'
  · rfl
  · simp [hs, hs'] at hresolve
  · simp [hs, hs'] at hresolve
  · exact isSome_leafTest h actual actual' operand

/-- The test of a leaf fails alike on all records. -/
lemma failAlike_testLeaf (s s' : Subject) (key : String) (operands : List Json) :
    FailAlike (testLeaf s key operands) (testLeaf s' key operands) := by
  unfold testLeaf
  rcases hkey : leafTest? key with _ | test
  · exact FailAlike.error _
  · rcases operands with _ | ⟨property, _ | ⟨operand, _ | ⟨third, rest⟩⟩⟩
    · exact FailAlike.error _
    · exact FailAlike.error _
    · have hsome := isSome_bind_resolve hkey s s' property operand
      dsimp only
      generalize (resolve s property).bind (fun actual => test actual operand) = x at hsome ⊢
      generalize (resolve s' property).bind (fun actual => test actual operand) = y at hsome ⊢
      rcases x with _ | result <;> rcases y with _ | result'
      · exact FailAlike.error _
      · cases hsome
      · cases hsome
      · exact FailAlike.ok result result'
    · exact FailAlike.error _

/-! ## Conditions -/

section

variable (s : Subject) (operands : List Json)

/-- The test of a negation is that of its operand, turned round. -/
lemma test_negation (h : operands.length = 1) :
    test s (.object [("not", .array operands)]) =
      testAll s operands >>= fun results => .ok (!results.all id) := by
  rw [test, if_neg (by decide), if_neg (by decide), if_pos rfl, h]
  rfl

/-- A negation has one operand. -/
lemma test_negation_malformed (h : operands.length ≠ 1) :
    test s (.object [("not", .array operands)]) = .error (malformed "not" (.array operands)) := by
  rw [test, if_neg (by decide), if_neg (by decide), if_pos rfl]
  split
  · contradiction
  · rfl

/-- What is neither a group nor a negation is tested as a leaf. -/
lemma test_leaf {key : String} (hand : key ≠ "and") (hor : key ≠ "or") (hnot : key ≠ "not") :
    test s (.object [(key, .array operands)]) = testLeaf s key operands := by
  rw [test, if_neg hand, if_neg hor, if_neg hnot]

end

/-- The test of a condition fails on all records or on none, and with one fault. -/
theorem failAlike_test (s s' : Subject) (condition : Json) :
    FailAlike (test s condition) (test s' condition) := by
  refine (test.mutual_induct (fun c => FailAlike (test s c) (test s' c))
    (fun cs => FailAlike (testAll s cs) (testAll s' cs)) ?_ ?_ ?_ ?_ ?_ ?_ ?_ ?_ ?_).1 condition
  · intro operands ih
    exact FailAlike.bind ih fun results results' => FailAlike.ok _ _
  · intro operands _ ih
    exact FailAlike.bind ih fun results results' => FailAlike.ok _ _
  · intro operands hlength _ _ ih
    rw [test_negation s operands hlength, test_negation s' operands hlength]
    exact FailAlike.bind ih fun results results' => FailAlike.ok _ _
  · intro operands hlength _ _
    rw [test_negation_malformed s operands hlength, test_negation_malformed s' operands hlength]
    exact FailAlike.error _
  · intro key operands hand hor hnot
    rw [test_leaf s operands hand hor hnot, test_leaf s' operands hand hor hnot]
    exact failAlike_testLeaf s s' key operands
  · intro key args hargs
    rw [test, test]
    · exact FailAlike.error _
    · exact hargs
    · exact hargs
  · intro json hnode hargs
    rw [test, test]
    · exact FailAlike.error _
    all_goals assumption
  · exact FailAlike.ok _ _
  · intro json rest hfirst hrest
    rw [testAll, testAll]
    exact FailAlike.bind hfirst fun first first' => FailAlike.bind hrest fun more more' =>
      FailAlike.ok _ _

end

/-! ## Conditions in another order -/

/-- A condition and what it becomes when the parts of some groups in it are put into another order.
The groups are those that are tested as conditions: the condition itself, the parts of a group, and
the condition in a negation. -/
inductive Reordered : Json → Json → Prop
  | refl (condition : Json) : Reordered condition condition
  | group {key : String} {parts changed ordered : List Json} (isGroup : key = "and" ∨ key = "or")
      (inside : List.Forall₂ Reordered parts changed) (order : changed.Perm ordered) :
      Reordered (.object [(key, .array parts)]) (.object [(key, .array ordered)])
  | negation {parts changed : List Json} (inside : List.Forall₂ Reordered parts changed) :
      Reordered (.object [("not", .array parts)]) (.object [("not", .array changed)])

namespace Reordered

/-- Parts are a reordering of themselves. -/
lemma forall₂_refl (parts : List Json) : List.Forall₂ Reordered parts parts :=
  List.forall₂_same.mpr fun part _ => refl part

/-- A node becomes a node of the same key. -/
lemma exists_parts {key : String} {parts : List Json} {c : Json}
    (h : Reordered (.object [(key, .array parts)]) c) :
    ∃ changed ordered, c = .object [(key, .array ordered)] ∧
      List.Forall₂ Reordered parts changed ∧ changed.Perm ordered := by
  generalize hnode : Json.object [(key, .array parts)] = node at h
  rcases h with _ | ⟨_, inside, order⟩ | inside
  · exact ⟨parts, parts, hnode.symm, forall₂_refl parts, .refl parts⟩
  · cases hnode
    exact ⟨_, _, rfl, inside, order⟩
  · cases hnode
    exact ⟨_, _, rfl, inside, .refl _⟩

/-- What is no connective and no negation stays as it is. -/
lemma eq_of_leaf {json c : Json} (h : Reordered json c)
    (hleaf : ∀ key parts, json = .object [(key, .array parts)] →
      key ≠ "and" ∧ key ≠ "or" ∧ key ≠ "not") : c = json := by
  rcases h with _ | ⟨isGroup, _, _⟩ | _
  · rfl
  · obtain ⟨hand, hor, -⟩ := hleaf _ _ rfl
    rcases isGroup with rfl | rfl
    · exact absurd rfl hand
    · exact absurd rfl hor
  · exact absurd rfl (hleaf _ _ rfl).2.2

end Reordered

/-- When the values of some tests, joined, come to a value. -/
lemma join_eq_ok_iff {x : Except EvaluationFault (List Bool)} {join : List Bool → Bool} {b : Bool} :
    (x >>= fun results => .ok (join results)) = .ok b ↔
      ∃ results, x = .ok results ∧ join results = b := by
  rcases x with fault | results
  · simp [bind, Except.bind]
  · simp [bind, Except.bind]

section

variable [DecimalReader]

/-- All of some conditions can be tested if each of them can be. -/
lemma testAll_eq_ok_iff (s : Subject) (conditions : List Json) (results : List Bool) :
    testAll s conditions = .ok results ↔
      List.Forall₂ (fun c result => test s c = .ok result) conditions results := by
  induction conditions generalizing results with
  | nil =>
    rw [testAll, List.forall₂_nil_left_iff, Except.ok.injEq]
    exact eq_comm
  | cons c rest ih =>
    rw [testAll, List.forall₂_cons_left_iff]
    constructor
    · intro h
      rcases hfirst : test s c with fault | first
      · simp [hfirst, bind, Except.bind] at h
      · rcases hrest : testAll s rest with fault | more
        · simp [hfirst, hrest, bind, Except.bind] at h
        · simp only [hfirst, hrest, bind, Except.bind, pure, Except.pure, Except.ok.injEq] at h
          exact ⟨first, more, rfl, (ih more).mp hrest, h.symm⟩
    · rintro ⟨first, more, hfirst, hrest, rfl⟩
      rw [hfirst, (ih more).mpr hrest]
      rfl

/-- Conditions that can be tested can be tested in another order, and come to the same values in
that order. -/
lemma exists_testAll_of_perm {s : Subject} {conditions ordered : List Json} {results : List Bool}
    (order : conditions.Perm ordered) (h : testAll s conditions = .ok results) :
    ∃ more, testAll s ordered = .ok more ∧ results.Perm more := by
  obtain ⟨more, hmore, hperm⟩ :=
    List.perm_comp_forall₂ order.symm ((testAll_eq_ok_iff s conditions results).mp h)
  exact ⟨more, (testAll_eq_ok_iff s ordered more).mpr hmore, hperm.symm⟩

/-- A group whose parts come to the same values, in one order or another, comes to one value, if the
values of the parts are joined in a way that does not ask for their order. -/
lemma join_eq_ok_iff_of_perm {s : Subject} {parts changed ordered : List Json}
    {join : List Bool → Bool} (hjoin : ∀ {as bs : List Bool}, as.Perm bs → join as = join bs)
    (hparts : ∀ results, testAll s parts = .ok results ↔ testAll s changed = .ok results)
    (order : changed.Perm ordered) (b : Bool) :
    (testAll s parts >>= fun results => .ok (join results)) = .ok b ↔
      (testAll s ordered >>= fun results => .ok (join results)) = .ok b := by
  rw [join_eq_ok_iff, join_eq_ok_iff]
  constructor
  · rintro ⟨results, hresults, rfl⟩
    obtain ⟨more, hmore, hperm⟩ := exists_testAll_of_perm order ((hparts results).mp hresults)
    exact ⟨more, hmore, (hjoin hperm).symm⟩
  · rintro ⟨results, hresults, rfl⟩
    obtain ⟨more, hmore, hperm⟩ := exists_testAll_of_perm order.symm hresults
    exact ⟨more, (hparts more).mpr hmore, (hjoin hperm).symm⟩

/-- A condition and what it becomes in another order come to the same values. -/
theorem test_reordered (s : Subject) (condition : Json) :
    ∀ c, Reordered condition c → ∀ b, test s condition = .ok b ↔ test s c = .ok b := by
  -- by the recursion of the test: the connectives, negation, leaves, whatever else, and lists of
  -- parts
  refine (test.mutual_induct
    (fun json => ∀ c, Reordered json c → ∀ b, test s json = .ok b ↔ test s c = .ok b)
    (fun parts => ∀ changed, List.Forall₂ Reordered parts changed →
      ∀ results, testAll s parts = .ok results ↔ testAll s changed = .ok results)
    ?_ ?_ ?_ ?_ ?_ ?_ ?_ ?_ ?_).1 condition
  · intro parts ih c h b
    obtain ⟨changed, ordered, rfl, inside, order⟩ := h.exists_parts
    exact join_eq_ok_iff_of_perm List.Perm.all_eq (ih changed inside) order b
  · intro parts _ ih c h b
    obtain ⟨changed, ordered, rfl, inside, order⟩ := h.exists_parts
    exact join_eq_ok_iff_of_perm List.Perm.any_eq (ih changed inside) order b
  · intro parts hlength _ _ ih c h b
    obtain ⟨changed, ordered, rfl, inside, order⟩ := h.exists_parts
    have hordered : ordered.length = 1 := by
      rw [← order.length_eq, ← inside.length_eq, hlength]
    rw [test_negation s parts hlength, test_negation s ordered hordered]
    exact join_eq_ok_iff_of_perm (fun hperm => congrArg Bool.not hperm.all_eq) (ih changed inside)
      order b
  · intro parts hlength _ _ c h b
    obtain ⟨changed, ordered, rfl, inside, order⟩ := h.exists_parts
    have hordered : ordered.length ≠ 1 := by
      rw [← order.length_eq, ← inside.length_eq]
      exact hlength
    rw [test_negation_malformed s parts hlength, test_negation_malformed s ordered hordered]
    simp
  · intro key parts hand hor hnot c h b
    have hc := h.eq_of_leaf fun key' parts' hnode => by
      cases hnode
      exact ⟨hand, hor, hnot⟩
    rw [hc]
  · intro key args hargs c h b
    have hc := h.eq_of_leaf fun key' parts hnode => by
      cases hnode
      exact (hargs parts rfl).elim
    rw [hc]
  · intro json hnode _ c h b
    rw [h.eq_of_leaf fun key parts hjson => (hnode key parts hjson).elim]
  · intro changed inside results
    rw [List.forall₂_nil_left_iff.mp inside]
  · intro json rest hfirst hrest changed inside results
    obtain ⟨c, more, hc, hmore, rfl⟩ := List.forall₂_cons_left_iff.mp inside
    rw [testAll_eq_ok_iff, testAll_eq_ok_iff, List.forall₂_cons_left_iff,
      List.forall₂_cons_left_iff]
    simp only [hfirst c hc, ← testAll_eq_ok_iff, hrest more hmore]

/-- Whether a condition fails is settled by the condition alone: it fails with one fault on all
records or on none. In another order it comes to the same value on every record, and fails exactly
where it failed before. -/
theorem test_settled_by_condition (condition : Json) (s s' : Subject) :
    (∀ fault, test s condition = .error fault ↔ test s' condition = .error fault) ∧
      ∀ c, Reordered condition c →
        (∀ b, test s condition = .ok b ↔ test s c = .ok b) ∧
          ((∃ fault, test s condition = .error fault) ↔ ∃ fault, test s c = .error fault) := by
  refine ⟨failAlike_test s s' condition, fun c hc => ⟨test_reordered s condition c hc, ?_⟩⟩
  have hok := test_reordered s condition c hc
  rcases hcondition : test s condition with fault | b
  · rcases hother : test s c with other | b
    · simp
    · rw [(hok b).mpr hother] at hcondition
      cases hcondition
  · rw [(hok b).mp hcondition]

end

/-- A group with a group in a negation, both in another order, on a record where the condition holds
and on one where it does not. -/
theorem test_settled_by_condition_sample :
    ∃ condition c : Json, Reordered condition c ∧ condition ≠ c ∧
      test (Subject.ofJson (.object [("a", .integer 1)])) c = .ok true ∧
      test (Subject.ofJson (.object [("b", .bool true)])) c = .ok false ∧
      ∀ s s' fault, test s condition = .error fault ↔ test s' condition = .error fault := by
  obtain ⟨a, ha⟩ : ∃ a : Json, a =
      .object [("=", .array [.object [("source", .string "a")], .integer 1])] := ⟨_, rfl⟩
  obtain ⟨b, hb⟩ : ∃ b : Json, b =
      .object [("in", .array [.object [("alias", .string "b")], .array [.bool true]])] := ⟨_, rfl⟩
  have hor : Reordered (.object [("or", .array [b, b, .object [("not", .array [a])]])])
      (.object [("or", .array [.object [("not", .array [a])], b, b])]) :=
    .group (.inr rfl) (Reordered.forall₂_refl _) (by
      exact ((List.Perm.swap _ _ _).cons _).trans (List.Perm.swap _ _ _))
  have hcondition : Reordered
      (.object [("and", .array [a, .object [("not", .array
        [.object [("or", .array [b, b, .object [("not", .array [a])]])]])]])])
      (.object [("and", .array [.object [("not", .array
        [.object [("or", .array [.object [("not", .array [a])], b, b])]])], a])]) :=
    .group (.inl rfl) (.cons (.refl a) (.cons (.negation (.cons hor .nil)) .nil))
      (List.Perm.swap _ _ _)
  refine ⟨_, _, hcondition, ?_, ?_, ?_, ?_⟩
  · subst ha hb
    simp
  · refine (((test_settled_by_condition _ _ (Subject.ofJson .null)).2 _ hcondition).1 true).mp ?_
    subst ha hb
    rfl
  · subst ha hb
    rfl
  · intro s s'
    exact (test_settled_by_condition _ s s').1

end Evaluation

end RecordQuery
