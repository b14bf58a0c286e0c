import RecordQuery.Proofs.BuiltCondition

/-!
# JSON forms of what a builder builds

A builder that starts from nothing builds a condition and nothing else (`Query.filteredBy`). No
reader has checked this condition, and still its JSON form is one that is read back: groups and
negations are put together from conditions only, and a negation from exactly one. So all depends on
the conditions that were added (`Contents.isRestorable_operators`).

Among these one is refused. A membership test can be added with a list of no values, which neither a
text nor a JSON form denotes. It is no group, so nothing drops it. Conditions are read from left to
right, all before the first one that is refused are read back, and the fault of this one goes up
through all groups and negations around it (`Contents.exists_fails`). That is the only way in which
reading back what was built can fail.
-/

namespace RecordQuery

namespace Operator

/-! ## Conditions that are read back, and conditions that are refused -/

/-- Whether an operator is a condition that has a shape of JSON forms at every node, and whose
numbers are whole ones of 64 bits. -/
structure IsRestorable (op : Operator) : Prop where
  isCondition : op.isCondition = true
  wellFormed : op.WellFormed
  holdsWhole : op.Everywhere HoldsWhole

/-- Whether reading the JSON form of an operator ends with a fault. -/
def Fails (fault : FormFault) (op : Operator) : Prop := ofMembers [op.entry] = .error fault

variable {fault : FormFault}

/-- What can be restored is read back. -/
lemma IsRestorable.isReadBack {op : Operator} (h : op.IsRestorable) : op.IsReadBack :=
  isReadBack_of_wellFormed op h.wellFormed h.holdsWhole

/-- A condition is restorable if what stands beneath it is, and it has the right shape itself. -/
lemma IsRestorable.intro {op : Operator} (hcondition : op.isCondition = true)
    (hshaped : Shaped .ofJson op) (hvalues : op.HoldsWhole)
    (hchildren : ∀ child, .operator child ∈ op.operands → child.IsRestorable) :
    op.IsRestorable where
  isCondition := hcondition
  wellFormed := everywhere_iff.mpr
    ⟨hshaped, fun child hchild => (hchildren child hchild).wellFormed⟩
  holdsWhole := everywhere_iff.mpr
    ⟨hvalues, fun child hchild => (hchildren child hchild).holdsWhole⟩

/-- The first of some conditions that is refused decides, if those before it are read back. -/
lemma conditionsOfJson_of_fails {before : List Operator} (after : List Operator) {op : Operator}
    (hbefore : ∀ c ∈ before, c.IsRestorable) (h : op.Fails fault) :
    conditionsOfJson (((before ++ op :: after).map .operator).map Operand.toJson) =
      .error fault := by
  induction before with
  | nil =>
    rw [List.nil_append, List.map_cons, List.map_cons, Operand.toJson, toJson_eq_entry,
      conditionsOfJson, h]
    rfl
  | cons c rest ih =>
    obtain ⟨hc, hrest⟩ := List.forall_mem_cons.mp hbefore
    obtain ⟨d, hd, hsame⟩ := succeeds_ofMembers hc.isReadBack
    rw [List.cons_append, List.map_cons, List.map_cons, Operand.toJson, toJson_eq_entry,
      conditionsOfJson, hd]
    refine (if_pos (hsame.isCondition.trans hc.isCondition)).trans ?_
    rw [ih hrest]
    rfl

/-- A group in which a condition is refused is refused. -/
lemma Fails.group {before : List Operator} (after : List Operator) {op : Operator}
    (hbefore : ∀ c ∈ before, c.IsRestorable) (h : op.Fails fault) (connective : Connective) :
    (Operator.group connective (before ++ op :: after)).Fails fault := by
  have hread := conditionsOfJson_of_fails after hbefore h
  rw [← operandsToJson_eq_map] at hread
  cases connective <;> exact congrArg (· >>= _) hread

/-- A negation of a condition that is refused is refused. -/
lemma Fails.negation {op : Operator} (h : op.Fails fault) :
    Fails fault { kind := .not, operands := [.operator op] } := by
  have hnone : ∀ c ∈ ([] : List Operator), c.IsRestorable := by simp
  have hread : conditionsOfJson [op.toJson] = .error fault := conditionsOfJson_of_fails [] hnone h
  have hnegation : ofMembers [entry { kind := .not, operands := [.operator op] }] =
      conditionsOfJson [op.toJson] >>= fun operands => .ok { kind := .not, operands } := rfl
  rw [Fails, hnegation, hread]
  rfl

end Operator

namespace GroupSort

variable (sort : GroupSort)

/-- An opened group of conditions that can be restored can be restored. -/
lemma isRestorable_condition {conditions : List Operator}
    (h : ∀ c ∈ conditions, c.IsRestorable) : (sort.condition conditions).IsRestorable := by
  have hgroup : ∀ connective, (Operator.group connective conditions).IsRestorable := by
    intro connective
    refine .intro (by cases connective <;> rfl) (.group trivial fun c hc => (h c hc).isCondition)
      ?_ ?_
    · intro v hv
      simp [Operator.group] at hv
    · intro child hchild
      exact h child (by simpa [Operator.group] using hchild)
  cases sort with
  | joined connective => exact hgroup connective
  | negated =>
    have hinner := hgroup .and
    refine .intro rfl (.negation hinner.isCondition) ?_ ?_
    · intro v hv
      cases List.mem_singleton.mp hv
    · intro child hchild
      cases List.mem_singleton.mp hchild
      exact hinner

/-- An opened group fails as the first of its conditions that cannot be restored. -/
lemma fails_condition {fault : FormFault} {before : List Operator} (after : List Operator)
    {op : Operator} (hbefore : ∀ c ∈ before, c.IsRestorable) (h : op.Fails fault) :
    (sort.condition (before ++ op :: after)).Fails fault := by
  cases sort with
  | joined connective => exact h.group after hbefore connective
  | negated => exact (h.group after hbefore .and).negation

end GroupSort

namespace Contents

/-- Groups of conditions that are read back are read back. -/
lemma isRestorable_operators (contents : Contents) (around : List OpenedGroup)
    (h : ∀ addition ∈ contents.additions around, addition.2.IsRestorable) :
    ∀ c ∈ contents.operators, c.IsRestorable := by
  induction contents generalizing around with
  | nil => exact fun c hc => absurd hc List.not_mem_nil
  | condition added rest ih =>
    obtain ⟨hadded, hrest⟩ := List.forall_mem_cons.mp h
    exact List.forall_mem_cons.mpr ⟨hadded, ih around hrest⟩
  | group opened inside rest ihinside ihrest =>
    obtain ⟨hinside, hrest⟩ := List.forall_mem_append.mp h
    exact List.forall_mem_cons.mpr
      ⟨opened.sort.isRestorable_condition (ihinside _ hinside), ihrest around hrest⟩

/-- Where some condition is refused, in whatever groups, so is an operator of the contents, and
those before it are read back. -/
lemma exists_fails {fault : FormFault} (contents : Contents) (around : List OpenedGroup)
    (h : ∀ addition ∈ contents.additions around,
      addition.2.IsRestorable ∨ addition.2.Fails fault)
    (hfails : ∃ addition ∈ contents.additions around, addition.2.Fails fault) :
    ∃ before op after, contents.operators = before ++ op :: after ∧
      (∀ c ∈ before, c.IsRestorable) ∧ op.Fails fault := by
  induction contents generalizing around with
  | nil =>
    obtain ⟨addition, hmem, -⟩ := hfails
    exact absurd hmem List.not_mem_nil
  | condition added rest ih =>
    obtain ⟨hadded, hrest⟩ := List.forall_mem_cons.mp h
    by_cases hfirst : added.Fails fault
    · exact ⟨[], added, rest.operators, rfl, by simp, hfirst⟩
    · have hlater : ∃ addition ∈ rest.additions around, addition.2.Fails fault := by
        simpa [additions, hfirst] using hfails
      obtain ⟨before, op, after, hoperators, hbefore, hop⟩ := ih around hrest hlater
      refine ⟨added :: before, op, after, ?_, ?_, hop⟩
      · rw [operators, hoperators, List.cons_append]
      · exact List.forall_mem_cons.mpr ⟨hadded.resolve_right hfirst, hbefore⟩
  | group opened inside rest ihinside ihrest =>
    obtain ⟨hinside, hrest⟩ := List.forall_mem_append.mp h
    by_cases hfirst : ∃ addition ∈ inside.additions (around ++ [opened]), addition.2.Fails fault
    · obtain ⟨before, op, after, hoperators, hbefore, hop⟩ := ihinside _ hinside hfirst
      refine ⟨[], opened.sort.condition inside.operators, rest.operators, rfl, by simp, ?_⟩
      rw [hoperators]
      exact opened.sort.fails_condition after hbefore hop
    · -- the group is read back as a whole, and what is refused stands behind it
      have hlater : ∃ addition ∈ rest.additions around, addition.2.Fails fault := by
        obtain ⟨addition, hmem, haddition⟩ := hfails
        rcases List.mem_append.mp hmem with hmem | hmem
        · exact absurd ⟨addition, hmem, haddition⟩ hfirst
        · exact ⟨addition, hmem, haddition⟩
      have hgroup := opened.sort.isRestorable_condition <|
        inside.isRestorable_operators (around ++ [opened]) fun addition hmem =>
          (hinside addition hmem).resolve_right fun hop => hfirst ⟨addition, hmem, hop⟩
      obtain ⟨before, op, after, hoperators, hbefore, hop⟩ := ihrest around hrest hlater
      refine ⟨opened.sort.condition inside.operators :: before, op, after, ?_, ?_, hop⟩
      · rw [operators, hoperators, List.cons_append]
      · exact List.forall_mem_cons.mpr ⟨hgroup, hbefore⟩

/-- Contents behind no condition make an `AND` group, unless there are none. -/
lemma behind_none (contents : Contents) :
    contents.behind none = none ∧ contents.operators = [] ∨
      contents.behind none = some ((GroupSort.joined .and).condition contents.operators) := by
  rw [behind]
  split
  · rename_i hempty
    exact .inl ⟨rfl, List.isEmpty_iff.mp hempty⟩
  · exact .inr rfl

end Contents

namespace Builder

/-! ## What calls add -/

/-- A test for one of no values is refused. -/
lemma fails_leaf_isIn {property : PropertyRef}
    (hproperty : property.scope? ≠ some PropertyRef.defaultScope) :
    (leaf .isIn property []).Fails (.valuesMissing .isIn) := by
  have hsubject : Operator.LeadsBack (.property property) := ⟨hproperty, nofun⟩
  obtain ⟨subject, hread, -⟩ := Operator.succeeds_operandOfJson hsubject
  have hform : Operator.ofMembers [(leaf .isIn property []).entry] =
      (do Operator.checkSubject (← Operator.operandOfJson property.toJson)) >>= fun subject =>
        Operator.listedOperands .isIn (.array []) >>= fun operands =>
          .ok ((Operator.leading .membership .isIn subject).withOperands operands) := rfl
  rw [Operand.toJson] at hread
  rw [Operator.Fails, hform, hread]
  rfl

/-- A condition on one property is read back if it has the shape of a JSON form. -/
lemma isRestorable_leaf {kind : Kind} {property : PropertyRef} {values : List ScalarValue}
    (hkind : kind.isCondition = true)
    (hshaped : Operator.Shaped .ofJson (.stated kind (.property property) (values.map .value) none))
    (hvalues : ∀ v ∈ values, v.IsWhole) : (leaf kind property values).IsRestorable := by
  refine .intro hkind hshaped ?_ ?_
  · intro v hv
    exact hvalues v (by simpa [leaf] using hv)
  · simp [leaf]

namespace Call

/-- Whether a call is about a property that does not spell the default namespace out, and compares
it with nothing but strings, truth values, null and whole numbers of 64 bits. -/
def IsPlain : Call → Prop
  | equals property value | notEquals property value =>
    property.scope? ≠ some PropertyRef.defaultScope ∧ value.IsWhole
  | isIn property values =>
    property.scope? ≠ some PropertyRef.defaultScope ∧ ∀ v ∈ values, v.IsWhole
  | openNegation | openGroup _ | close => True

variable {call : Call} {calls : List Call}

/-- A condition that a plain call adds is read back, unless it tests for one of no values. -/
lemma isRestorable_of_condition? {condition : Operator} (hplain : call.IsPlain)
    (h : call.condition? = some condition) (hvalues : ∀ property, call ≠ .isIn property []) :
    condition.IsRestorable := by
  cases call with
  | equals property value =>
    cases h
    exact isRestorable_leaf rfl (.comparison rfl hplain.1 trivial rfl) (by simpa using hplain.2)
  | notEquals property value =>
    cases h
    exact isRestorable_leaf rfl (.comparison rfl hplain.1 trivial rfl) (by simpa using hplain.2)
  | isIn property values =>
    cases h
    have hne : values ≠ [] := by
      rintro rfl
      exact hvalues property rfl
    exact isRestorable_leaf rfl (.membership rfl hplain.1 (fun _ _ => trivial) nofun hne) hplain.2
  | openNegation => cases h
  | openGroup connective => cases h
  | close => cases h

variable (hplain : ∀ call ∈ calls, call.IsPlain) (number : Nat) (opened : List OpenedGroup)
include hplain

/-- What plain calls add is read back, or refused for its missing values. -/
lemma isRestorable_or_fails {addition : List OpenedGroup × Operator}
    (h : addition ∈ additions number opened calls) :
    addition.2.IsRestorable ∨ addition.2.Fails (.valuesMissing .isIn) := by
  obtain ⟨call, hcall, hcondition⟩ := exists_of_mem_additions h
  by_cases hmissing : ∃ property, call = .isIn property []
  · obtain ⟨property, rfl⟩ := hmissing
    have hleaf : leaf .isIn property [] = addition.2 := Option.some.inj hcondition
    exact .inr (hleaf ▸ fails_leaf_isIn (hplain _ hcall).1)
  · exact .inl (isRestorable_of_condition? (hplain call hcall) hcondition
      fun property heq => hmissing ⟨property, heq⟩)

/-- What plain calls add is read back if none of them lists no values. -/
lemma isRestorable_of_mem_additions (hvalues : ∀ property, .isIn property [] ∉ calls)
    {addition : List OpenedGroup × Operator} (h : addition ∈ additions number opened calls) :
    addition.2.IsRestorable := by
  obtain ⟨call, hcall, hcondition⟩ := exists_of_mem_additions h
  refine isRestorable_of_condition? (hplain call hcall) hcondition fun property heq => ?_
  exact hvalues property (heq ▸ hcall)

/-- What a call adds that lists no values is refused. -/
lemma exists_fails_additions {property : PropertyRef} (h : .isIn property [] ∈ calls) :
    ∃ addition ∈ additions number opened calls, addition.2.Fails (.valuesMissing .isIn) := by
  have hadded : leaf .isIn property [] ∈ calls.filterMap condition? :=
    List.mem_filterMap.mpr ⟨_, h, rfl⟩
  rw [← map_snd_additions number opened] at hadded
  obtain ⟨addition, hmem, heq⟩ := List.mem_map.mp hadded
  refine ⟨addition, hmem, ?_⟩
  rw [heq]
  exact fails_leaf_isIn (hplain _ h).1

end Call

/-! ## Queries with a condition and nothing else -/

/-- A call changes the condition, and nothing else of the query. -/
lemma exists_query_call (b : Builder) (call : Call) :
    ∃ f, (b.call call).query = b.query.modifyCondition f := by
  have hattach : ∀ condition, (b.attach condition).2.query =
      b.query.modifyCondition (.modifyAt (·.extend condition) b.path) := fun _ => rfl
  rw [call_eq]
  rcases call.effect with condition | sort | _
  · exact ⟨_, hattach condition⟩
  · have henter : (b.enter (sort.condition []) sort.steps).query =
        (b.attach (sort.condition [])).2.query := by
      unfold enter
      split <;> simp_all
    exact ⟨_, henter.trans (hattach (sort.condition []))⟩
  · refine ⟨fun root => root, ?_⟩
    dsimp only [close]
    split <;> rfl

end Builder

namespace Query

/-- The query that has a condition, or none, and nothing else. -/
def filteredBy (condition? : Option Operator) : Query where
  clauses := condition?.toList.map fun condition =>
    { kind := .whereClause, operands := [.operator condition] }

variable (condition? : Option Operator)

@[simp] lemma condition?_filteredBy : (filteredBy condition?).condition? = condition? := by
  cases condition? <;> rfl

/-- Changing the condition of a query that has only a condition changes it, or an empty group. -/
lemma modifyCondition_filteredBy (f : Operator → Operator) :
    (filteredBy condition?).modifyCondition f =
      filteredBy (some (f (condition?.getD (.group .and [])))) := by
  cases condition? <;> rfl

/-- Pruning a query that has only a condition prunes it, and drops it if nothing is left. -/
lemma prune_filteredBy :
    (filteredBy condition?).prune =
      filteredBy ((condition?.map Operator.prune).filter fun c => !c.isEmptyGroup) := by
  rcases condition? with _ | root
  · rfl
  · have hpruned : Operator.pruneOperands [.operator root] =
        if root.prune.isEmptyGroup then [] else [.operator root.prune] := rfl
    by_cases hempty : root.prune.isEmptyGroup = true <;>
      simp [prune, filteredBy, withClauses, pruneFirst, Operator.prune, Option.filter, hpruned,
        hempty]

/-- Calls that start from a condition and nothing else come to a condition and nothing else. -/
lemma exists_query_run {condition? : Option Operator} {b : Builder} (calls : List Builder.Call)
    (hb : b.query = filteredBy condition?) :
    ∃ condition?, (b.run calls).query = filteredBy condition? := by
  induction calls generalizing b condition? with
  | nil => exact ⟨condition?, hb⟩
  | cons call rest ih =>
    obtain ⟨f, hcall⟩ := b.exists_query_call call
    rw [hb, modifyCondition_filteredBy] at hcall
    exact ih hcall

/-- What is built from the empty query has only a condition, or nothing. -/
lemma exists_built_empty (calls : List Builder.Call) :
    ∃ condition?, empty.built calls = filteredBy condition? := by
  have hempty : (Builder.ofQuery empty).query = filteredBy none := rfl
  obtain ⟨condition?, hquery⟩ := exists_query_run calls hempty
  exact ⟨_, by rw [built, Builder.build, hquery, prune_filteredBy]⟩

/-- What calls build from nothing, from the conditions that they add. -/
lemma exists_contents_built_empty (calls : List Builder.Call) :
    ∃ contents : Contents, contents.additions [] = Builder.Call.additions 0 [] calls ∧
      empty.built calls = filteredBy (contents.behind none) := by
  obtain ⟨condition?, hbuilt⟩ := exists_built_empty calls
  obtain ⟨contents, hadditions, -, hfilled, hclosing, hopening⟩ :=
    hasCondition_built hasCondition_empty .nil nofun calls
  refine ⟨contents, hadditions, ?_⟩
  rw [hbuilt]
  rw [hbuilt] at hclosing hopening
  by_cases hall : ∀ call ∈ calls, call = .close
  · have hnone : contents = .nil := by
      by_contra hne
      refine hfilled.additions_ne_nil hne [] ?_
      rw [hadditions, ← List.map_eq_nil_iff (f := Prod.snd), Builder.Call.map_snd_additions]
      exact List.filterMap_eq_nil_iff.mpr fun call hcall => by rw [hall call hcall]; rfl
    have hcondition := (hclosing hall).condition?_eq
    rw [condition?_filteredBy] at hcondition
    rw [hcondition, hnone]
    rfl
  · have hcondition := (hopening hall).condition?_eq
    rw [condition?_filteredBy] at hcondition
    rw [hcondition]
    rfl

/-! ## Reading back -/

/-- The JSON form of a query with a condition and nothing else is read as the condition is. -/
lemma ofJson_toJson_filteredBy (root : Operator) :
    ofJson (filteredBy (some root)).toJson = Operator.ofMembers [root.entry] >>= fun condition =>
      if condition.isCondition then .ok (filteredBy (some condition))
      else .error (.conditionExpected .whereClause condition.kind) := by
  have hread : ofJson (filteredBy (some root)).toJson =
      ((Operator.ofMembers [root.entry] >>= fun condition =>
          if condition.isCondition then
            .ok { kind := .whereClause, operands := [.operator condition] }
          else .error (.conditionExpected .whereClause condition.kind)) >>= fun clause =>
        (empty.setClause clause).addMembers []) >>= fun q =>
      .ok { q with aliases := q.collectAliases } := by
    cases root
    rfl
  rw [hread]
  cases Operator.ofMembers [root.entry] with
  | error fault => rfl
  | ok condition =>
    simp only [bind, Except.bind]
    cases condition.isCondition <;> rfl

/-- A query that has only a condition is written with one member. -/
lemma toJson_filteredBy (root : Operator) :
    (filteredBy (some root)).toJson = .object [(Kind.whereClause.jsonKey, root.toJson)] := rfl

/-- A query with a condition that is read back, or with none, and nothing else is read back. -/
lemma exists_ofJson_toJson_filteredBy {condition? : Option Operator}
    (h : ∀ root, condition? = some root → root.IsRestorable) :
    ∃ q, ofJson (filteredBy condition?).toJson = .ok q ∧
      List.Forall₂ Operator.SameTree (filteredBy condition?).clauses q.clauses ∧
      q.toJson = (filteredBy condition?).toJson := by
  rcases condition? with _ | root
  · exact ⟨filteredBy none, rfl, .nil, rfl⟩
  · have hroot := h root rfl
    obtain ⟨condition, hread, hsame⟩ := Operator.succeeds_ofMembers hroot.isReadBack
    have hcondition : condition.isCondition = true := hsame.isCondition.trans hroot.isCondition
    refine ⟨filteredBy (some condition), ?_, .cons (.intro (.cons (.operator hsame) .nil)) .nil, ?_⟩
    · rw [ofJson_toJson_filteredBy, hread]
      exact if_pos hcondition
    · rw [toJson_filteredBy, toJson_filteredBy, hsame.toJson_eq root hroot.holdsWhole]

section

variable {calls : List Builder.Call} (hplain : ∀ call ∈ calls, call.IsPlain)
include hplain

/-- What plain calls build from nothing is read back if none of them lists no values. -/
lemma exists_ofJson_toJson_built (hvalues : ∀ property, .isIn property [] ∉ calls) :
    ∃ q, ofJson (empty.built calls).toJson = .ok q ∧
      List.Forall₂ Operator.SameTree (empty.built calls).clauses q.clauses ∧
      q.toJson = (empty.built calls).toJson := by
  obtain ⟨contents, hadditions, hbuilt⟩ := exists_contents_built_empty calls
  rw [hbuilt]
  refine exists_ofJson_toJson_filteredBy fun root hroot => ?_
  rcases contents.behind_none with ⟨hnone, -⟩ | hbehind
  · rw [hnone] at hroot
    cases hroot
  · rw [hbehind] at hroot
    cases hroot
    refine (GroupSort.joined .and).isRestorable_condition (contents.isRestorable_operators [] ?_)
    rw [hadditions]
    exact fun addition hmem => Builder.Call.isRestorable_of_mem_additions hplain 0 [] hvalues hmem

/-- What plain calls build from nothing is refused if one of them lists no values. -/
lemma ofJson_toJson_built_eq_error {property : PropertyRef} (h : .isIn property [] ∈ calls) :
    ofJson (empty.built calls).toJson = .error (.valuesMissing .isIn) := by
  obtain ⟨contents, hadditions, hbuilt⟩ := exists_contents_built_empty calls
  have hfails := Builder.Call.exists_fails_additions hplain 0 [] h
  rw [← hadditions] at hfails
  obtain ⟨before, op, after, hoperators, hbefore, hop⟩ :=
    contents.exists_fails [] (fun addition hmem => by
      rw [hadditions] at hmem
      exact Builder.Call.isRestorable_or_fails hplain 0 [] hmem) hfails
  have hroot := (GroupSort.joined .and).fails_condition after hbefore hop
  rw [← hoperators] at hroot
  rcases contents.behind_none with ⟨-, hnil⟩ | hbehind
  · simp [hoperators] at hnil
  · rw [hbuilt, hbehind, ofJson_toJson_filteredBy, hroot]
    rfl

end

/-- Reading back what plain calls have built from nothing.

It gives a query with the same tree and the same JSON form exactly if no call tests for one of no
values. If one does, there is no query, and the fault is that the values are missing. -/
theorem ofJson_toJson_built {calls : List Builder.Call} (hplain : ∀ call ∈ calls, call.IsPlain) :
    ((∃ q, ofJson (empty.built calls).toJson = .ok q ∧
        List.Forall₂ Operator.SameTree (empty.built calls).clauses q.clauses ∧
        q.toJson = (empty.built calls).toJson) ↔
      ∀ property, .isIn property [] ∉ calls) ∧
    ((∃ property, .isIn property [] ∈ calls) →
      ofJson (empty.built calls).toJson = .error (.valuesMissing .isIn)) := by
  refine ⟨⟨?_, exists_ofJson_toJson_built hplain⟩, ?_⟩
  · rintro ⟨q, hq, -⟩ property hmissing
    rw [ofJson_toJson_built_eq_error hplain hmissing] at hq
    cases hq
  · rintro ⟨property, hmissing⟩
    exact ofJson_toJson_built_eq_error hplain hmissing

/-- A negation with a group that stays empty in it, which is read back, and the same with a test for
one of no values, which is not. -/
theorem ofJson_toJson_built_sample :
    ∃ calls more : List Builder.Call,
      (∀ call ∈ calls, call.IsPlain) ∧ (∀ call ∈ calls ++ more, call.IsPlain) ∧
      (empty.built calls).toJson = .object [("where", .object [("and", .array [
        .object [("=", .array [.object [("source", .string "a")], .integer 3])],
        .object [("not", .array [.object [("and", .array [
          .object [("!=", .array [.object [("source", .string "b")], .null])],
          .object [("in", .array [.object [("source", .string "c")],
            .array [.string "x", .bool true]])]])]])]])])] ∧
      (∃ q, ofJson (empty.built calls).toJson = .ok q ∧ q.toJson = (empty.built calls).toJson) ∧
      ofJson (empty.built (calls ++ more)).toJson = .error (.valuesMissing .isIn) := by
  obtain ⟨three, hthree⟩ : ∃ three : ScalarValue, three =
      ⟨.number ⟨false, 3, 0, by decide, by decide, by simp⟩, "3"⟩ := ⟨_, rfl⟩
  obtain ⟨calls, hcalls⟩ : ∃ calls : List Builder.Call, calls = [.equals (.ofId "a") three,
      .openNegation, .notEquals (.ofId "b") .null, .openGroup .or, .close,
      .isIn (.ofId "c") [.ofString "x", .ofBool true]] := ⟨_, rfl⟩
  obtain ⟨more, hmore⟩ : ∃ more : List Builder.Call, more = [.isIn (.ofId "d") []] := ⟨_, rfl⟩
  have hwhole : three.IsWhole := by
    subst hthree
    rintro d ⟨⟩
    rfl
  have hothers : ∀ v ∈ [ScalarValue.null, .ofString "x", .ofBool true], v.IsWhole := by
    simp [ScalarValue.IsWhole, ScalarValue.null, ScalarValue.ofString, ScalarValue.ofBool]
  have hplain : ∀ call ∈ calls ++ more, call.IsPlain := by
    subst hcalls hmore
    simp_all [Builder.Call.IsPlain, PropertyRef.ofId, PropertyRef.scope?]
  have hfirst : ∀ call ∈ calls, call.IsPlain := fun call hcall =>
    hplain call (List.mem_append_left more hcall)
  obtain ⟨q, hread, -, hform⟩ := (ofJson_toJson_built hfirst).1.mpr (by
    subst hcalls
    simp)
  have hfault := (ofJson_toJson_built hplain).2 ⟨.ofId "d", by
    subst hmore
    simp⟩
  refine ⟨calls, more, hfirst, hplain, ?_, ⟨q, hread, hform⟩, hfault⟩
  subst hcalls hthree
  rfl

end Query

end RecordQuery
