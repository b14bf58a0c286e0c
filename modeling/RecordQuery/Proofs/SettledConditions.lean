import RecordQuery.Proofs.PhraseGrammar
import RecordQuery.Proofs.Reducing

/-!
# Where phrases that come to a condition come from

Two remarks say why no other phrase than those of the grammar comes to a condition. What is claimed
has to be an operand already, so an operator that has not been settled can never be claimed, and no
phrase comes to one item without each of its operators being settled. And a finished operator can
only be claimed as a subject, if it is no condition, or by `NOT`, if it is one.

So whenever an operator is settled, the items it is made of are a phrase of the grammar themselves
or a call (`Phrase.Makes`), and if the phrase around it is one afterwards, it was one before. A pass
is some of these steps, and the phrase ends as a single finished condition. `AS` is left out of
this: it is settled last and leaves no condition.
-/

namespace RecordQuery

open Reader

namespace Phrase

open Item

variable {s : Setting} {notes notes' : Notes} {item inner : Item} {items : List Item}
  {op : Operator}

/-! ## Phrases that come to a condition -/

section

variable {kind : Kind} {token : Token} {span : Span} {parameters : Option (List Item)}
variable {left right : Option Item}

/-- Whether some items make one finished operator: they are a phrase that comes to a condition, or
the call of a function that is none. -/
def Makes (s : Setting) (notes : Notes) (taken : List Item) (node : Item) : Prop :=
  IsCondition s notes taken node ∨ ∃ call op, taken = [call] ∧ IsCall s notes call op ∧
    op.kind ≠ .regexpMatch ∧ node = ofOperator call.token call.span op

/-- An operator that is settled is made of itself and of the items it claims. -/
lemma makes_of_settle (hleft : kind.claimsLeft = false → left = none)
    (hright : kind.claimsRight = false → right = none) (hname : kind ≠ .asName)
    (h : Returns (settle s span ⟨kind, token, parameters, left, right⟩) notes item) :
    Makes s notes
      (left.toList ++ ⟨token, span, .pending kind parameters⟩ :: right.toList) item := by
  obtain ⟨op, hop, rfl⟩ := returns_settle.mp h
  unfold Claim.produce at hop
  dsimp only at hop
  -- each family takes the neighbours that its rule names; only a call of a function need not be a
  -- condition
  cases hfamily : kind.family with
  | comparison =>
    rw [hfamily] at hop
    obtain ⟨l, r, x, v, rfl, rfl, hx, hv, rfl⟩ := returns_comparison.mp hop
    exact .inl (IsPrimary.comparison hfamily (.accepted hx) hv).isCondition
  | membership =>
    rw [hfamily] at hop
    obtain rfl : right = none := hright (by simp [Kind.claimsRight, hfamily])
    obtain ⟨items, l, x, values, rfl, rfl, hx, harity, hvalues, rfl⟩ := returns_membership.mp hop
    exact .inl (IsPrimary.membership hfamily (.accepted hx) harity hvalues).isCondition
  | existence =>
    rw [hfamily] at hop
    obtain rfl : left = none := hleft (by simp [Kind.claimsLeft, hfamily])
    obtain ⟨r, p, rfl, hp, rfl⟩ := returns_existence.mp hop
    exact .inl (IsPrimary.existence hfamily hp).isCondition
  | logical =>
    rw [hfamily] at hop
    obtain rfl : left = none := hleft (by simp [Kind.claimsLeft, hfamily])
    obtain ⟨hnot, r, c, rfl, hc, rfl⟩ := returns_logical.mp hop
    obtain rfl : kind = .not := hnot
    refine .inl ⟨[⟨token, span, .pending .not parameters⟩], [r], r, rfl, ?_, .finished hc, ?_⟩
    · rintro _ ⟨⟩
      · exact ⟨parameters, rfl⟩
      · contradiction
    · rw [List.foldr_cons, List.foldr_nil, negate, hc]
      rfl
  | projection =>
    rw [hfamily] at hop
    have htier : kind.tier = 1 := by simp [Kind.tier, hfamily, hname]
    obtain rfl : left = none := hleft (by simp [Kind.claimsLeft, hfamily, hname])
    obtain rfl : right = none := hright (by simp [Kind.claimsRight, hfamily, hname])
    simp only [if_neg hname] at hop
    obtain ⟨items, hitems, hcall⟩ := (returns_function htier span).mp hop
    obtain rfl : parameters = some items := hitems
    by_cases hregexp : op.kind = .regexpMatch
    · exact .inl (IsPrimary.regexp hcall hregexp).isCondition
    · exact .inr ⟨_, op, rfl, hcall, hregexp, rfl⟩
  | clause =>
    rw [hfamily] at hop
    exact absurd hop not_returns_throw

variable {taken before after : List Item} {node : Item}

/-- What the grammar takes for a condition is one. -/
lemma IsCondition.exists_condition? (h : IsCondition s notes items item) :
    ∃ op, item.condition? = some op := by
  obtain ⟨negations, rest, inner, -, -, hrest, rfl⟩ := h
  cases negations with
  | nil => exact hrest.exists_condition?
  | cons negation negations => exact ⟨_, rfl⟩

/-- What a settled operator makes is a finished one. -/
lemma Makes.isOperator (h : Makes s notes taken node) : node.IsOperator := by
  obtain h | ⟨call, op, -, -, -, rfl⟩ := h
  · obtain ⟨op, hop⟩ := h.exists_condition?
    exact isOperator_of_condition? hop
  · exact isOperator_ofOperator ..

/-- A condition is no subject. -/
lemma not_isSubject_of_condition? {x : Operand} (h : item.condition? = some op) :
    ¬ IsSubject s notes item x := by
  have hoperator := isOperator_of_condition? h
  intro hx
  cases hx with
  | accepted subject =>
    obtain ⟨token, span, term⟩ := item
    obtain ⟨c, rfl⟩ := hoperator
    have hcondition : c.isCondition = true := by
      by_contra hc
      simp [condition?, hc] at h
    unfold Item.subject at subject
    dsimp only at subject
    rw [hcondition, if_pos rfl, returns_property_map] at subject
    obtain ⟨p, hp, -⟩ := subject
    exact not_returns_property (.inl ⟨c, rfl⟩) hp
  | call call => exact hoperator.not_isPending call.isPending

/-- A finished operator is a subject only if it was a call. -/
lemma Makes.exists_isSubject {x : Operand} (h : Makes s notes taken node)
    (hx : IsSubject s notes' node x) :
    ∃ call, taken = [call] ∧ IsSubject s notes call x ∧ call.span = node.span := by
  obtain h | ⟨call, op, rfl, hcall, hkind, rfl⟩ := h
  · obtain ⟨op, hop⟩ := h.exists_condition?
    exact absurd hx (not_isSubject_of_condition? hop)
  · refine ⟨call, rfl, ?_, rfl⟩
    cases hx with
    | accepted subject =>
      obtain ⟨-, rfl⟩ := returns_subject_ofOperator.mp subject
      exact .call hcall hkind
    | call pending => exact absurd pending.isPending (isOperator_ofOperator ..).not_isPending

/-- A finished operator is a condition only if it was a phrase that comes to one. -/
lemma Makes.isCondition (h : Makes s notes taken node) (hnode : node.condition? = some op) :
    IsCondition s notes taken node := by
  obtain h | ⟨call, made, -, hcall, hkind, rfl⟩ := h
  · exact h
  · cases hcall with
    | intro tier =>
      rw [condition?_ofOperator, Operator.isCondition, isCondition_of_tier_one tier,
        beq_eq_false_iff_ne.mpr hkind] at hnode
      cases hnode

/-- A phrase without `NOT` that comes to a condition does so before an operator of it is settled. -/
lemma Makes.isCondition_of_isPrimary (hnode : Makes s notes taken node)
    (h : IsPrimary s notes' (before ++ node :: after) item) :
    IsCondition s notes (before ++ taken ++ after) item := by
  have hpending :
      ∀ {token span kind parameters}, node ≠ ⟨token, span, .pending kind parameters⟩ := by
    rintro token span kind parameters rfl
    exact hnode.isOperator.not_isPending ⟨kind, parameters, rfl⟩
  -- a finished operator can only stand first, as the subject of a test: at every other place of a
  -- primary condition an operator waits, or a value or a property stands
  generalize hitems : before ++ node :: after = items at h
  cases h with
  | finished condition =>
    obtain _ | ⟨first, before⟩ := before
    · obtain ⟨rfl, rfl⟩ := List.cons_eq_cons.mp hitems
      simpa using hnode.isCondition condition
    · simp at hitems
  | comparison family subject value =>
    obtain _ | ⟨first, _ | ⟨second, before⟩⟩ := before
    · obtain ⟨rfl, rfl⟩ := List.cons_eq_cons.mp hitems
      obtain ⟨call, rfl, hcall, hspan⟩ := hnode.exists_isSubject subject
      rw [← hspan]
      exact (IsPrimary.comparison family hcall (returns_value value)).isCondition
    · obtain ⟨-, hnode, -⟩ : _ ∧ node = _ ∧ _ := by simpa using hitems
      exact absurd hnode hpending
    · have hlast : node ∈ before ++ node :: after := by simp
      simp only [List.cons_append, List.cons_eq_cons] at hitems
      rw [hitems.2.2, List.mem_singleton] at hlast
      subst hlast
      exact absurd value (not_returns_value (.inl hnode.isOperator))
  | membership family subject arity list =>
    obtain _ | ⟨first, before⟩ := before
    · obtain ⟨rfl, rfl⟩ := List.cons_eq_cons.mp hitems
      obtain ⟨call, rfl, hcall, hspan⟩ := hnode.exists_isSubject subject
      rw [← hspan]
      exact (IsPrimary.membership family hcall arity list.of_notes).isCondition
    · have hlast : node ∈ before ++ node :: after := by simp
      simp only [List.cons_append, List.cons_eq_cons] at hitems
      rw [hitems.2, List.mem_singleton] at hlast
      exact absurd hlast hpending
  | existence family property =>
    obtain _ | ⟨first, before⟩ := before
    · exact absurd (List.cons_eq_cons.mp hitems).1 hpending
    · have hlast : node ∈ before ++ node :: after := by simp
      simp only [List.cons_append, List.cons_eq_cons] at hitems
      rw [hitems.2, List.mem_singleton] at hlast
      subst hlast
      exact absurd property (not_returns_property (.inl hnode.isOperator))
  | regexp call kind =>
    have hlast : node ∈ before ++ node :: after := by simp
    rw [hitems, List.mem_singleton] at hlast
    subst hlast
    exact absurd call.isPending hnode.isOperator.not_isPending

/-- A phrase that comes to a condition does so before an operator of it is settled. -/
lemma Makes.isCondition_append (hnode : Makes s notes taken node)
    (h : IsCondition s notes' (before ++ node :: after) item) :
    IsCondition s notes (before ++ taken ++ after) item := by
  obtain ⟨negations, rest, inner, hitems, hnegations, hrest, rfl⟩ := h
  -- the operator is none of the `NOT`s that wait before the rest
  obtain ⟨middle, rfl, rfl⟩ :
      ∃ middle, before = negations ++ middle ∧ rest = middle ++ node :: after := by
    obtain ⟨later, hlater, hafter⟩ | ⟨middle, hbefore, hrest⟩ := List.append_eq_append_iff.mp hitems
    · cases later with
      | nil => exact ⟨[], by simpa using hlater.symm, hafter.symm⟩
      | cons first later =>
        obtain ⟨rfl, -⟩ := List.cons_eq_cons.mp hafter
        have hnegation : IsNegation node := hnegations node (by rw [hlater]; simp)
        exact absurd hnegation.isPending hnode.isOperator.not_isPending
    · exact ⟨middle, hbefore, hrest⟩
  rw [List.append_assoc, List.append_assoc, ← List.append_assoc middle]
  exact isCondition_negations hnegations (hnode.isCondition_of_isPrimary hrest)

end

/-! ## Passes that end in a condition -/

section

variable {tier budget left : Nat} {before after made : List Item}

/-- An item that waits at a tier waits for an operator of that tier. -/
lemma exists_of_pendingAt? {kind : Kind} {parameters : Option (List Item)}
    (h : pendingAt? tier item = some (kind, parameters)) :
    kind.tier = tier ∧ item = ⟨item.token, item.span, .pending kind parameters⟩ := by
  obtain ⟨token, span, term⟩ := item
  cases term with
  | pending other others =>
    rw [pendingAt?_pending] at h
    split at h
    · rename_i htier
      cases h
      exact ⟨htier, rfl⟩
    · cases h
  | raw => cases h
  | node operand => cases h

/-- What a pass to the right does with an operator whose turn it is, if it does not fail. -/
lemma exists_settle_of_passForward {kind : Kind} {parameters : Option (List Item)}
    {out : List Item × Nat} (hpending : pendingAt? tier item = some (kind, parameters))
    (h : on (passForward s tier budget before (item :: after)) notes = (.ok out, notes')) :
    ∃ node middle, on (settle s item.span ⟨kind, item.token, parameters,
        if kind.claimsLeft then before.head? else none,
        if kind.claimsRight then after.head? else none⟩) notes = (.ok node, middle) ∧
      on (passForward s tier (budget - 1) (node :: if kind.claimsLeft then before.tail else before)
        (if kind.claimsRight then after.tail else after)) middle = (.ok out, notes') := by
  rw [passForward_cons, hpending] at h
  dsimp only at h
  split at h
  · exact absurd (Returns.of_on h) not_returns_stop
  · exact exists_of_on_bind h

/-- If the items that a pass to the right leaves come to a condition, those before it do. -/
lemma isCondition_of_passForward (htier : tier ≠ 5) :
    (budget : Nat) → (before after : List Item) → (notes : Notes) →
      on (passForward s tier budget before after) notes = (.ok (made, left), notes') →
      IsCondition s notes' made item → IsCondition s notes (before.reverse ++ after) item
  | budget, before, [], notes, h, hmade => by
    rw [passForward_nil, on_pure] at h
    cases h
    rwa [List.append_nil]
  | budget, before, next :: after, notes, h, hmade => by
    cases hpending : pendingAt? tier next with
    | none =>
      rw [passForward_cons, hpending] at h
      have hrest := isCondition_of_passForward htier budget (next :: before) after notes h hmade
      rwa [List.reverse_cons, List.append_assoc, List.singleton_append] at hrest
    | some waiting =>
      obtain ⟨kind, parameters⟩ := waiting
      obtain ⟨hkind, hnext⟩ := exists_of_pendingAt? hpending
      obtain ⟨node, middle, hsettle, hrest⟩ := exists_settle_of_passForward hpending h
      have hlast := isCondition_of_passForward htier (budget - 1) _ _ middle hrest hmade
      rw [List.reverse_cons, List.append_assoc, List.singleton_append] at hlast
      have hname : kind ≠ .asName := by
        rintro rfl
        exact htier hkind.symm
      have hnode := makes_of_settle (by intro hclaims; rw [hclaims]; rfl)
        (by intro hclaims; rw [hclaims]; rfl) hname (.of_on hsettle)
      have hall := hnode.isCondition_append hlast
      have hreverse : ∀ one : Option Item, one.toList.reverse = one.toList := by
        rintro (_ | one) <;> rfl
      rw [← hnext] at hall
      rw [← toList_append_tail kind.claimsLeft before, ← toList_append_tail kind.claimsRight after,
        List.reverse_append, hreverse]
      simpa only [List.append_assoc, List.cons_append] using hall
termination_by _ _ after => after.length
decreasing_by
  · simp
  · simp only [List.length_cons]
    split
    · rw [List.length_tail]
      omega
    · omega

/-- If the items that a pass to the left leaves come to a condition, those before it do, whatever
stands before them. -/
lemma isCondition_of_passBackward (htier : tier ≠ 5) {items : List Item} :
    ∀ {made : List Item} {left : Nat} {notes' : Notes} (before : List Item),
      on (passBackward s tier budget items) notes = (.ok (made, left), notes') →
      IsCondition s notes' (before ++ made) item → IsCondition s notes (before ++ items) item := by
  induction items with
  | nil =>
    intro made left notes' before h hmade
    rw [passBackward, on_pure] at h
    cases h
    exact hmade
  | cons next rest ih =>
    intro made left notes' before h hmade
    rw [passBackward_cons] at h
    obtain ⟨⟨after, budget'⟩, middle, hrest, h⟩ := exists_of_on_bind h
    dsimp only at h
    -- the item itself comes after those behind it
    suffices hfirst : IsCondition s middle (before ++ next :: after) item by
      have hstep := ih (before ++ [next]) hrest
      rw [List.append_assoc, List.append_assoc, List.singleton_append,
        List.singleton_append] at hstep
      exact hstep hfirst
    cases hpending : pendingAt? tier next with
    | none =>
      rw [hpending] at h
      cases h
      exact hmade
    | some waiting =>
      obtain ⟨kind, parameters⟩ := waiting
      obtain ⟨hkind, hnext⟩ := exists_of_pendingAt? hpending
      rw [hpending] at h
      dsimp only at h
      split at h
      · exact absurd (Returns.of_on h) not_returns_stop
      obtain ⟨node, last, hsettle, h⟩ := exists_of_on_bind h
      cases h
      have hname : kind ≠ .asName := by
        rintro rfl
        exact htier hkind.symm
      have hnode := makes_of_settle (fun _ => rfl) (by intro hclaims; rw [hclaims]; rfl) hname
        (.of_on hsettle)
      have hall := hnode.isCondition_append hmade
      rw [← hnext] at hall
      rw [← toList_append_tail kind.claimsRight after]
      simpa only [List.append_assoc, List.cons_append, Option.toList_none,
        List.nil_append] using hall

/-- Whether an item is a finished `AS`. -/
def IsNaming (item : Item) : Prop := ∃ op, item.term = .node (.operator op) ∧ op.kind = .asName

/-- A naming is no condition. -/
lemma IsNaming.condition?_eq (h : IsNaming item) : item.condition? = none := by
  obtain ⟨op, hterm, hkind⟩ := h
  have hop : op.isCondition = false := by
    rw [Operator.isCondition, hkind]
    rfl
  rw [condition?, hterm]
  dsimp only
  rw [hop, if_neg Bool.false_ne_true]

/-- What the last tier settles is an `AS`. -/
lemma isNaming_of_settle {claim : Claim} {own : Span} (htier : claim.kind.tier = 5)
    (h : Returns (settle s own claim) notes item) : IsNaming item := by
  obtain ⟨op, hop, rfl⟩ := returns_settle.mp h
  have hname : claim.kind = .asName := by
    cases hkind : claim.kind <;> first | rfl | (rw [hkind] at htier; cases htier)
  have hnaming : Ensures (fun op : Operator => op.kind = .asName) (claim.naming s) := by
    unfold Claim.naming
    exact Ensures.trivial.bind fun _ _ => Ensures.trivial.bind fun _ _ => Ensures.trivial.bind
      fun _ _ => Ensures.trivial.bind fun _ _ => Ensures.trivial.bind fun _ _ => .pure rfl
  have hfamily : claim.kind.family = .projection := by rw [hname]; rfl
  unfold Claim.produce at hop
  rw [hfamily] at hop
  simp only [if_pos hname] at hop
  obtain ⟨notes', hop⟩ := returns_iff.mp hop
  have hkind : op.kind = .asName := hnaming _ _ _ hop
  exact ⟨op.withSpan _, rfl, hkind⟩

/-- The last pass leaves all items as they are, or an `AS`. -/
lemma eq_or_exists_isNaming : (budget : Nat) → (before after : List Item) → (notes : Notes) →
    on (passForward s 5 budget before after) notes = (.ok (made, left), notes') →
    made = before.reverse ++ after ∨ ∃ x ∈ made, IsNaming x
  | budget, before, [], notes, h => by
    rw [passForward_nil, on_pure] at h
    cases h
    exact .inl (List.append_nil _).symm
  | budget, before, next :: after, notes, h => by
    cases hpending : pendingAt? 5 next with
    | none =>
      rw [passForward_cons, hpending] at h
      have hrest := eq_or_exists_isNaming budget (next :: before) after notes h
      rwa [List.reverse_cons, List.append_assoc, List.singleton_append] at hrest
    | some waiting =>
      obtain ⟨kind, parameters⟩ := waiting
      obtain ⟨hkind, -⟩ := exists_of_pendingAt? hpending
      obtain ⟨node, middle, hsettle, hrest⟩ := exists_settle_of_passForward hpending h
      right
      obtain rfl | hnaming := eq_or_exists_isNaming (budget - 1) _ _ middle hrest
      · exact ⟨node, by simp, isNaming_of_settle hkind (.of_on hsettle)⟩
      · exact hnaming
termination_by _ _ after => after.length
decreasing_by
  · simp
  · simp only [List.length_cons]
    split
    · rw [List.length_tail]
      omega
    · omega

/-- Items that are reduced to a condition are a phrase that comes to one. -/
lemma isCondition_of_reduce (h : on (reduce s items) notes = (.ok item, notes'))
    (hitem : item.condition? = some op) : IsCondition s notes items item := by
  unfold reduce at h
  obtain ⟨settled, notes₅, hpasses, h⟩ := exists_of_on_bind h
  have hsettled : settled = [item] := by
    have hreturns : Returns _ notes₅ item := .of_on h
    dsimp only at hreturns
    split at hreturns
    · exact absurd hreturns not_returns_stop
    split at hreturns
    · exact congrArg (fun x => [x]) (returns_pure.mp hreturns)
    · exact absurd hreturns not_returns_throw
    · exact absurd hreturns not_returns_throw
  subst hsettled
  unfold passes at hpasses
  obtain ⟨⟨items₁, budget₁⟩, notes₁, hfirst, hpasses⟩ := exists_of_on_bind hpasses
  obtain ⟨⟨items₂, budget₂⟩, notes₂, hsecond, hpasses⟩ := exists_of_on_bind hpasses
  obtain ⟨⟨items₃, budget₃⟩, notes₃, hthird, hpasses⟩ := exists_of_on_bind hpasses
  obtain ⟨⟨items₄, budget₄⟩, notes₄, hfourth, hpasses⟩ := exists_of_on_bind hpasses
  obtain ⟨⟨made, budget₅⟩, notes₆, hfifth, hpasses⟩ := exists_of_on_bind hpasses
  obtain rfl : made = [item] := returns_pure.mp (.of_on hpasses)
  obtain rfl : items₄ = [item] := by
    obtain heq | ⟨x, hx, hnaming⟩ := eq_or_exists_isNaming _ _ _ _ hfifth
    · exact heq.symm
    · rw [List.mem_singleton.mp hx] at hnaming
      rw [hnaming.condition?_eq] at hitem
      cases hitem
  have hlast : IsCondition s notes₄ [item] item := (IsPrimary.finished hitem).isCondition
  have h₃ := isCondition_of_passBackward (by decide) [] hfourth hlast
  have h₂ := isCondition_of_passBackward (by decide) [] hthird h₃
  have h₁ := isCondition_of_passForward (by decide) _ _ _ _ hsecond h₂
  exact isCondition_of_passForward (by decide) _ _ _ _ hfirst h₁

end

end Phrase

end RecordQuery
