import RecordQuery.Proofs.Items
import RecordQuery.Proofs.Guards

/-!
# Making operators

A claim with the right neighbours and parameters makes the operator that its tokens are written for.
There is one lemma for each family; each says which names have to be known, and which are bound
afterwards.
-/

namespace RecordQuery

open Reader Item

namespace Claim

variable {s : Setting} {names : List String} {kind : Kind} {token : Token}

/-- Whether items show scalars. -/
def ShowValues (registry : Registry) (values : List ScalarValue) (items : List Item) : Prop :=
  List.Forall₂ (fun v item => Shows registry (.value v) item) values items

/-- Items that show values are read as them. -/
lemma yields_values {allowed : List ScalarType} {values : List ScalarValue} {items : List Item}
    (h : ShowValues s.registry values items)
    (hallowed : ∀ v ∈ values, ScalarValue.allows allowed v.type = true) :
    Yields names names
      (fun operands => operands.map Operand.core = (values.map Operand.value).map Operand.core)
      (Claim.values s allowed items) := by
  induction h with
  | nil => exact .pure rfl
  | @cons v item values items hfirst _ ih =>
    obtain ⟨hv, hrest⟩ := List.forall_mem_cons.mp hallowed
    refine (yields_value hfirst hv).bind fun w hw => (ih hrest).bind fun operands hoperands =>
      .pure ?_
    rw [List.map_cons, List.map_cons, List.map_cons, hoperands, Operand.core, Operand.core, hw]

/-- A comparison is made of what its neighbours show. -/
lemma yields_comparison {subject : Operand} {v : ScalarValue} {left right : Item}
    (hleft : Shows s.registry subject left) (hsubject : Resolved s.registry names subject)
    (hcondition : ∀ op, subject = .operator op → op.isCondition = false)
    (hright : Shows s.registry (.value v) right)
    (hallowed : ScalarValue.allows kind.comparable v.type = true)
    (parameters : Option (List Item)) :
    Yields names names (fun op => op.core = (Operator.stated kind subject [.value v] none).core)
      (Claim.comparison s ⟨kind, token, parameters, some left, some right⟩) := by
  refine (Yields.pure rfl).bind fun _ hl => (Yields.pure rfl).bind fun _ hr => ?_
  subst hl hr
  refine (yields_subject hleft hsubject hcondition).bind fun x hx => ?_
  refine (yields_value hright hallowed).bind fun w hw => .pure ?_
  rw [Operator.about_withOperands]
  refine Operator.core_stated_eq hx ?_
  rw [List.map_singleton, List.map_singleton, Operand.core, Operand.core, hw]

/-- A membership is made of what its subject and its parameters show. -/
lemma yields_membership {subject : Operand} {values : List ScalarValue} {left : Item}
    {items : List Item} (hleft : Shows s.registry subject left)
    (hsubject : Resolved s.registry names subject)
    (hcondition : ∀ op, subject = .operator op → op.isCondition = false)
    (hitems : ShowValues s.registry values items)
    (hbounds : kind = .between → values.length = 2 ∧ ∀ v ∈ values, v.type = .number)
    (hvalues : values ≠ []) (right : Option Item) :
    Yields names names
      (fun op => op.core = (Operator.stated kind subject (values.map .value) none).core)
      (Claim.membership s ⟨kind, token, some items, some left, right⟩) := by
  refine (Yields.pure rfl).bind fun _ hi => (Yields.pure rfl).bind fun _ hl => ?_
  subst hi hl
  refine (yields_subject hleft hsubject hcondition).bind fun x hx => ?_
  have hlength : items.length = values.length := hitems.length_eq.symm
  have hread : Yields names names
      (fun op => op.core = (Operator.stated kind subject (values.map .value) none).core)
      (do
        let operands ← Claim.values s (if kind = .between then [.number] else []) items
        return (Operator.about kind x).withOperands operands) := by
    refine (yields_values hitems fun v hv => ?_).bind fun operands hoperands => .pure ?_
    · split
      · rename_i hbetween
        rw [(hbounds hbetween).2 v hv]
        rfl
      · rfl
    · rw [Operator.about_withOperands]
      exact Operator.core_stated_eq hx hoperands
  dsimp only
  by_cases hbetween : kind = .between
  · have hcount : ¬ items.length ≠ 2 := by simpa [hlength] using (hbounds hbetween).1
    simp only [if_pos hbetween, if_neg hcount] at hread ⊢
    exact hread
  · have hsome : ¬ items.isEmpty = true := by
      cases items with
      | nil => exact absurd (List.length_eq_zero_iff.mp hlength.symm) hvalues
      | cons _ _ => simp
    simp only [if_neg hbetween, if_neg hsome] at hread ⊢
    exact hread

/-- A test for existence is made of the property behind it. -/
lemma yields_existence {p : PropertyRef} {right : Item}
    (hright : Shows s.registry (.property p) right)
    (hp : Resolved s.registry names (.property p)) (parameters : Option (List Item))
    (left : Option Item) :
    Yields names names (fun op => op.core = (Operator.mk kind (some p) [] none).core)
      (Claim.existence s ⟨kind, token, parameters, left, some right⟩) := by
  refine (Yields.pure rfl).bind fun _ hr => ?_
  subst hr
  exact (yields_property hright hp).bind fun q hq => .pure (by rw [hq])

/-- A negation is made of the condition behind it. -/
lemma yields_negation {condition : Operator} {right : Item}
    (hright : Shows s.registry (.operator condition) right)
    (hcondition : condition.isCondition = true) (parameters : Option (List Item))
    (left : Option Item) :
    Yields names names
      (fun op => op.core = (Operator.mk .not none [.operator condition] none).core)
      (Claim.logical s ⟨.not, token, parameters, left, some right⟩) := by
  have hnot : ¬ Kind.not ≠ Kind.not := by simp
  rw [Claim.logical, if_neg hnot]
  refine (Yields.pure rfl).bind fun _ hr => ?_
  subst hr
  refine (yields_condition hright hcondition).bind fun c hc => .pure ?_
  simp [Operator.core_eq_iff, Operand.core, hc]

/-- A naming is made of its target and its alias, and binds the alias. -/
lemma yields_naming {target : Operand} {name : String} {left : Item} {t : Token}
    (hleft : Shows s.registry target left) (htarget : Resolved s.registry names target)
    (hcondition : ∀ op, target = .operator op → op.isCondition = false)
    (hclass : t.kind = .word ∨ t.kind = .bracketed) (htext : t.text = name)
    (parameters : Option (List Item)) :
    Yields names (name :: names)
      (fun op => op.core = (Operator.mk .asName none [target, .value (.ofString name)] none).core)
      (Claim.naming s ⟨kind, token, parameters, some left, some (ofToken t)⟩) := by
  refine (Yields.pure rfl).bind fun _ hl => (Yields.pure rfl).bind fun _ hr => ?_
  subst hl hr
  refine (yields_subject hleft htarget hcondition).bind fun x hx => ?_
  refine (yields_word hclass .aliasName).bind fun text htext' => ?_
  subst htext' htext
  refine (Yields.bindAlias _ x).bind fun _ _ => .pure ?_
  simp [Operator.core_eq_iff, hx]

/-- A function is made of what its parameters show, and binds its default alias. -/
lemma yields_function {p : PropertyRef} {values : List ScalarValue} {first : Item}
    {items : List Item} (hproperty : Shows s.registry (.property p) first)
    (hp : Resolved s.registry names (.property p))
    (hitems : ShowValues s.registry values items)
    (htypes : values.map ScalarValue.type = kind.argumentType?.toList) (left right : Option Item) :
    Yields names
      (Mention.bound names
        ((Operator.mk kind (some p) (values.map .value) none).defaultAlias?.toList.map .bind))
      (fun op => op.core = (Operator.mk kind (some p) (values.map .value) none).core)
      (Claim.function s ⟨kind, token, some (first :: items), left, right⟩) := by
  -- a function has as many arguments as its kind asks for
  have hcount : items.length = kind.argumentType?.toList.length := by
    rw [← hitems.length_eq, ← htypes, List.length_map]
  have hexact : (first :: items).length = if kind.argumentType?.isSome then 2 else 1 := by
    rw [List.length_cons, hcount]
    cases kind.argumentType? <;> rfl
  have hparameters : Yields names names (· = first :: items)
      (Claim.exactParameters s ⟨kind, token, some (first :: items), left, right⟩
        (if kind.argumentType?.isSome then 2 else 1)) := by
    refine (Yields.pure rfl).bind fun is his => ?_
    subst his
    rw [if_pos hexact]
    exact .pure rfl
  refine hparameters.bind fun is his => ?_
  subst his
  have harguments : Yields names names (fun op =>
        op.core = (Operator.mk kind (some p) (values.map .value) none).core)
      (Claim.arguments s ⟨kind, token, some (first :: items), left, right⟩
        (first :: items)) := by
    refine (yields_property hproperty hp).bind fun q hq => ?_
    refine (yields_values hitems fun v hv => ?_).bind fun operands hoperands => .pure ?_
    · have hmem : v.type ∈ kind.argumentType?.toList := by
        rw [← htypes]
        exact List.mem_map_of_mem hv
      rw [ScalarValue.allows, Bool.or_eq_true]
      exact .inr (List.contains_iff_mem.mpr hmem)
    · rw [hq, Operator.core_eq_iff]
      exact ⟨rfl, rfl, hoperands⟩
  refine harguments.bind fun op hop => ?_
  have halias : op.defaultAlias? =
      (Operator.mk kind (some p) (values.map .value) none).defaultAlias? := by
    obtain ⟨hkind, hproperty, -⟩ := Operator.core_eq_iff.mp hop
    rw [Operator.defaultAlias?, hkind, hproperty, Operator.defaultAlias?]
  rw [← halias]
  cases op.defaultAlias? with
  | none => exact .pure hop
  | some name => exact (Yields.bindAlias name (.operator op)).bind fun _ _ => .pure hop

end Claim

namespace Phrase

/-- An operator that a claim makes is shown by the item that it is settled as. -/
lemma yields_settle {s : Setting} {names names' : List String} {claim : Claim} {op : Operator}
    (h : Yields names names' (fun op' => op'.core = op.core) (claim.produce s claim.kind.family))
    (own : Span) :
    Yields names names' (Shows s.registry (.operator op)) (settle s own claim) := by
  refine h.bind fun op' hop => (Yields.recordPhrase _ _ _).bind fun _ _ => .pure (.operator ?_)
  rw [Operator.core_withSpan, hop]

end Phrase

end RecordQuery
