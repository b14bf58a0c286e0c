import RecordQuery.Proofs.SettledConditions

/-!
# Phrases of the grammar are reduced

A phrase of the grammar is followed through the tiers. The first makes a subject of a call, the
second and the third leave one finished condition behind the `NOT`s, and the fourth wraps it in
them. Each operator is settled once, so as many steps as there are items are enough.

With the converse from `SettledConditions`, `Phrase.returns_reduce_condition_iff` tells which
phrases are conditions, and which.
-/

namespace RecordQuery

open Reader

namespace Phrase

open Item

variable {s : Setting} {notes notes' : Notes} {item inner : Item} {items : List Item}
  {op : Operator}

section

variable {tier budget : Nat} {kind : Kind} {token : Token} {span : Span}
variable {parameters : Option (List Item)} {left right : Option Item} {before after : List Item}
variable {node : Item}

/-- An item that does not wait waits at no tier. -/
lemma pendingAt?_of_not_isPending (h : ¬ item.IsPending) : pendingAt? tier item = none := by
  obtain ⟨token, span, term⟩ := item
  cases term with
  | pending kind parameters => exact absurd ⟨kind, parameters, rfl⟩ h
  | raw => rfl
  | node operand => rfl

/-- What is read as a subject does not wait. -/
lemma not_isPending_of_subject {x : Operand} (h : Returns (item.subject s) notes x) :
    ¬ item.IsPending := fun hpending => not_returns_subject_of_isPending hpending h

/-- A condition does not wait. -/
lemma not_isPending_of_condition? (h : item.condition? = some op) : ¬ item.IsPending :=
  (isOperator_of_condition? h).not_isPending

/-- A pass to the right in which it is the turn of one operator. -/
lemma exists_passForward_turn (htier : kind.tier = tier) (hbefore : Idle tier before)
    (hafter : Idle tier after) (hleft : ∀ x, left = some x → ¬ x.IsPending)
    (hclaims : kind.claimsLeft = left.isSome ∧ kind.claimsRight = right.isSome)
    (hbudget : 1 ≤ budget)
    (h : Returns (settle s span ⟨kind, token, parameters, left, right⟩) notes node) :
    ∃ notes', on (passForward s tier budget []
      (before ++ (left.toList ++ ⟨token, span, .pending kind parameters⟩ :: right.toList) ++ after))
      notes = (.ok (before ++ node :: after, budget - 1), notes') := by
  have hidle : Idle tier (before ++ left.toList) := by
    refine idle_append.mpr ⟨hbefore, fun x hx => pendingAt?_of_not_isPending (hleft x ?_)⟩
    exact Option.mem_toList.mp hx
  have hitems :
    before ++ (left.toList ++ ⟨token, span, .pending kind parameters⟩ :: right.toList) ++
      after = (before ++ left.toList) ++ ⟨token, span, .pending kind parameters⟩ ::
        (right.toList ++ after) := by simp
  obtain ⟨notes', hsettle⟩ := returns_iff.mp h
  refine ⟨notes', ?_⟩
  have hclaimed :
    (if kind.claimsLeft then ((before ++ left.toList).reverse ++ []).head? else none) = left ∧
      (if kind.claimsLeft then ((before ++ left.toList).reverse ++ []).tail else
        (before ++ left.toList).reverse ++ []) = before.reverse ∧
      (if kind.claimsRight then (right.toList ++ after).head? else none) = right ∧
      (if kind.claimsRight then (right.toList ++ after).tail else right.toList ++ after) =
        after := by
    rw [hclaims.1, hclaims.2]
    cases left <;> cases right <;> simp
  obtain ⟨hl, hbefore', hr, hafter'⟩ := hclaimed
  rw [hitems, passForward_idle hidle, passForward_pending htier hbudget, hl, hbefore', hr, hafter',
    on_bind, hsettle, goOn_ok]
  have hrest := passForward_idle (s := s) hafter (budget - 1) (node :: before.reverse) []
  rw [List.append_nil] at hrest
  rw [hrest, passForward_nil, on_pure]
  simp

/-- A pass from the front leaves idle items as they are. -/
lemma passForward_of_idle (h : Idle tier items) :
    passForward s tier budget [] items = pure (items, budget) := by
  have hpass := passForward_idle (s := s) h budget [] []
  rwa [List.append_nil, List.append_nil, passForward_nil, List.reverse_reverse] at hpass

/-- A pass to the left leaves idle items as they are. -/
lemma passBackward_append (h : Idle tier before) :
    passBackward s tier budget (before ++ items) = (do
      let (made, rest) ← passBackward s tier budget items
      return (before ++ made, rest)) := by
  induction before with
  | nil => simp
  | cons first before ih =>
    obtain ⟨hfirst, hrest⟩ := idle_cons.mp h
    rw [List.cons_append, passBackward_cons, ih hrest]
    simp [hfirst]

/-- A pass to the left in which it is the turn of an operator. -/
lemma exists_passBackward_cons {right : Item} {rest : Nat} (htier : kind.tier = tier)
    (hclaims : kind.claimsRight = true) (hrest : 1 ≤ rest)
    (hitems : on (passBackward s tier budget items) notes = (.ok (right :: after, rest), notes'))
    (h : Returns (settle s span ⟨kind, token, parameters, none, some right⟩) notes' node) :
    ∃ notes'',
      on (passBackward s tier budget (⟨token, span, .pending kind parameters⟩ :: items)) notes =
      (.ok (node :: after, rest - 1), notes'') := by
  obtain ⟨notes'', hsettle⟩ := returns_iff.mp h
  have hpositive : ¬ rest = 0 := by omega
  refine ⟨notes'', ?_⟩
  rw [passBackward_cons, on_bind, hitems, goOn_ok]
  dsimp only
  rw [pendingAt?_pending, if_pos htier]
  simp only [if_neg hpositive, hclaims, if_true, List.head?_cons, List.tail_cons]
  rw [on_bind, hsettle, goOn_ok, on_pure]

/-- A call is settled as a finished operator. -/
lemma IsCall.returns_settle {call : Item} (h : IsCall s notes call op) : ∃ kind parameters,
    call.term = .pending kind parameters ∧ kind.tier = 1 ∧
      Returns (settle s call.span ⟨kind, call.token, parameters, none, none⟩) notes
        (ofOperator call.token call.span op) := by
  have hcall := h
  obtain @⟨token, span, kind, first, rest, p, values, tier, count, property, arguments⟩ := h
  have hfamily : kind.family = .projection ∧ kind ≠ .asName := by
    cases kind <;> first | exact ⟨rfl, by decide⟩ | exact absurd tier (by decide)
  refine ⟨kind, some (first :: rest), rfl, tier, Phrase.returns_settle.mpr ⟨_, ?_, rfl⟩⟩
  unfold Claim.produce
  dsimp only
  rw [hfamily.1]
  simp only [if_neg hfamily.2]
  exact (returns_function tier span).mpr ⟨_, rfl, hcall⟩

/-- The first pass settles a call that stands alone among idle items. -/
lemma IsCall.exists_passForward (h : IsCall s notes item op) (hbefore : Idle 1 before)
    (hafter : Idle 1 after) (hbudget : 1 ≤ budget) :
    ∃ notes', on (passForward s 1 budget [] (before ++ item :: after)) notes =
      (.ok (before ++ ofOperator item.token item.span op :: after, budget - 1), notes') := by
  obtain ⟨kind, parameters, hterm, htier, hsettle⟩ := h.returns_settle
  obtain ⟨token, span, term⟩ := item
  obtain rfl : term = .pending kind parameters := hterm
  have hclaims : kind.claimsLeft = (none : Option Item).isSome ∧
      kind.claimsRight = (none : Option Item).isSome := by
    cases kind <;> first | exact ⟨rfl, rfl⟩ | exact absurd htier (by decide)
  have hleft : ∀ x : Item, none = some x → ¬ x.IsPending := by simp
  simpa using exists_passForward_turn htier hbefore hafter hleft hclaims hbudget hsettle

/-- The first pass leaves a subject, as it stands or as the function that it calls. -/
lemma IsSubject.exists_passForward {x : Operand} (h : IsSubject s notes item x)
    (hbefore : Idle 1 before) (hafter : Idle 1 after) (hbudget : 1 ≤ budget) :
    ∃ subject rest notes', on (passForward s 1 budget [] (before ++ item :: after)) notes =
        (.ok (before ++ subject :: after, rest), notes') ∧
      Returns (subject.subject s) notes' x ∧ subject.span = item.span ∧ budget ≤ rest + 1 := by
  cases h with
  | accepted subject =>
    have hidle : Idle 1 (before ++ item :: after) := idle_append.mpr ⟨hbefore,
      idle_cons.mpr ⟨pendingAt?_of_not_isPending (not_isPending_of_subject subject), hafter⟩⟩
    refine ⟨item, budget, notes, ?_, subject, rfl, by omega⟩
    rw [passForward_of_idle hidle, on_pure]
  | call call kind =>
    obtain ⟨notes', hpass⟩ := call.exists_passForward hbefore hafter hbudget
    refine ⟨_, _, notes', hpass, returns_subject_ofOperator.mpr ⟨?_, rfl⟩, rfl, by omega⟩
    cases call with
    | intro tier =>
      rw [Operator.isCondition, isCondition_of_tier_one tier]
      exact beq_eq_false_iff_ne.mpr kind

/-- The first three tiers are three passes from the front, one after the other. -/
lemma on_early {items₁ items₂ : List Item} {made : List Item × Nat} {budget₁ budget₂ : Nat}
    {notes₁ notes₂ : Notes}
    (hfirst : on (passForward s 1 budget [] items) notes = (.ok (items₁, budget₁), notes₁))
    (hsecond : on (passForward s 2 budget₁ [] items₁) notes₁ = (.ok (items₂, budget₂), notes₂))
    (hthird : on (passBackward s 3 budget₂ items₂) notes₂ = (.ok made, notes')) :
    on (early s budget items) notes = (.ok made, notes') := by
  rw [early, on_bind, hfirst, goOn_ok, on_bind, hsecond, goOn_ok, hthird]

/-- Negations wait at the fourth tier only. -/
lemma idle_of_isNegation (h : ∀ n ∈ before, IsNegation n) (htier : tier ≠ 4) :
    Idle tier before := by
  intro n hn
  obtain ⟨parameters, hterm⟩ := h n hn
  obtain ⟨token, span, term⟩ := n
  obtain rfl : term = .pending .not parameters := hterm
  rw [pendingAt?_pending, if_neg]
  exact fun h => htier h.symm

/-- Negations with a finished item behind them wait at the fourth tier only. -/
lemma idle_append_singleton (hbefore : ∀ n ∈ before, IsNegation n) (htier : tier ≠ 4)
    (hitem : ¬ item.IsPending) : Idle tier (before ++ [item]) :=
  idle_append.mpr ⟨idle_of_isNegation hbefore htier,
    idle_cons.mpr ⟨pendingAt?_of_not_isPending hitem, .nil⟩⟩

/-- What the first tiers have made one item of stays so. -/
lemma on_early_of_passForward {rest : Nat} (hbefore : ∀ n ∈ before, IsNegation n)
    (hitem : ¬ item.IsPending)
    (h : on (passForward s 1 budget [] items) notes = (.ok (before ++ [item], rest), notes')) :
    on (early s budget items) notes = (.ok (before ++ [item], rest), notes') := by
  have hsecond : on (passForward s 2 rest [] (before ++ [item])) notes' =
      (.ok (before ++ [item], rest), notes') := by
    rw [passForward_of_idle (idle_append_singleton hbefore (by decide) hitem), on_pure]
  refine on_early h hsecond ?_
  rw [passBackward_idle (idle_append_singleton hbefore (by decide) hitem), on_pure]

/-- The first two tiers settle an operator that claims a subject before it. -/
lemma IsSubject.exists_early {x : Operand} (h : IsSubject s notes item x) (token : Token)
    (span : Span)
    (parameters : Option (List Item)) (hbefore : ∀ n ∈ before, IsNegation n) (htier : kind.tier = 2)
    (hclaims : kind.claimsLeft = true ∧ kind.claimsRight = right.isSome)
    (hright : ∀ y, right = some y → ¬ y.IsPending) (hnode : ¬ node.IsPending) (hbudget : 2 ≤ budget)
    (hsettle : ∀ (subject : Item) notes', Returns (subject.subject s) notes' x →
      subject.span = item.span →
      Returns (settle s span ⟨kind, token, parameters, some subject, right⟩) notes' node) :
    ∃ rest notes', on (early s budget
        (before ++ item :: ⟨token, span, .pending kind parameters⟩ :: right.toList)) notes =
      (.ok (before ++ [node], rest), notes') ∧ budget ≤ rest + 2 := by
  have hafter : Idle 1 (⟨token, span, .pending kind parameters⟩ :: right.toList) := by
    refine idle_cons.mpr ⟨?_, fun y hy => pendingAt?_of_not_isPending (hright y ?_)⟩
    · rw [pendingAt?_pending, htier]
      rfl
    · exact Option.mem_toList.mp hy
  obtain ⟨subject, rest, notes₁, hfirst, hsubject, hspan, hrest⟩ :=
    h.exists_passForward (idle_of_isNegation hbefore (by decide)) hafter (show 1 ≤ budget by omega)
  have hleft : ∀ y, some subject = some y → ¬ y.IsPending := by
    rintro _ ⟨⟩
    exact not_isPending_of_subject hsubject
  obtain ⟨notes₂, hsecond⟩ :=
    exists_passForward_turn htier (idle_of_isNegation hbefore (by decide)) .nil
    hleft hclaims (show 1 ≤ rest by omega) (hsettle subject notes₁ hsubject hspan)
  rw [List.append_nil] at hsecond
  refine ⟨rest - 1, notes₂, on_early hfirst hsecond ?_, by omega⟩
  rw [passBackward_idle (idle_append_singleton hbefore (by decide) hnode), on_pure]

/-- The first three tiers leave one item of a phrase without `NOT` that comes to a condition. -/
lemma IsPrimary.exists_early (h : IsPrimary s notes items item)
    (hbefore : ∀ n ∈ before, IsNegation n) (hbudget : items.length ≤ budget) :
    ∃ rest notes', on (early s budget (before ++ items)) notes =
      (.ok (before ++ [item], rest), notes') ∧ budget ≤ rest + items.length := by
  have hitem : ¬ item.IsPending := by
    obtain ⟨op, hop⟩ := h.exists_condition?
    exact not_isPending_of_condition? hop
  -- a call is settled at the first tier, operators with a subject at the second, and tests for
  -- existence at the third
  cases h with
  | finished condition =>
    refine ⟨budget, notes, on_early_of_passForward hbefore hitem ?_, by omega⟩
    rw [passForward_of_idle (idle_append_singleton hbefore (by decide) hitem), on_pure]
  | @comparison l r token span kind parameters x v family subject value =>
    have htier : kind.tier = 2 := by simp [Kind.tier, family]
    have hright : ∀ y, some r = some y → ¬ y.IsPending := by
      rintro _ ⟨⟩ hpending
      exact not_returns_value (.inr hpending) value
    have hclaims : kind.claimsLeft = true ∧ kind.claimsRight = (some r).isSome := by
      simp [Kind.claimsLeft, Kind.claimsRight, family]
    simp only [List.length_cons, List.length_nil] at hbudget ⊢
    obtain ⟨rest, notes', hearly, hrest⟩ := subject.exists_early token span parameters hbefore htier
      hclaims hright hitem (show 2 ≤ budget by omega) fun y notes' hy hspan => by
        refine returns_settle.mpr ⟨_, ?_, by rw [← hspan]; rfl⟩
        unfold Claim.produce
        dsimp only
        rw [family]
        exact returns_comparison.mpr ⟨y, r, x, v, rfl, rfl, hy, returns_value value, rfl⟩
    exact ⟨rest, notes', hearly, by omega⟩
  | @membership l token span kind parameters x values family subject arity list =>
    have htier : kind.tier = 2 := by simp [Kind.tier, family]
    have hclaims : kind.claimsLeft = true ∧ kind.claimsRight = (none : Option Item).isSome := by
      simp [Kind.claimsLeft, Kind.claimsRight, family]
    simp only [List.length_cons, List.length_nil] at hbudget ⊢
    obtain ⟨rest, notes', hearly, hrest⟩ :=
      subject.exists_early token span (some parameters) hbefore
      htier hclaims (by simp) hitem (show 2 ≤ budget by omega) fun y notes' hy hspan => by
        refine returns_settle.mpr ⟨_, ?_, by rw [← hspan]; rfl⟩
        unfold Claim.produce
        dsimp only
        rw [family]
        exact returns_membership.mpr
          ⟨parameters, y, x, values, rfl, rfl, hy, arity, list.of_notes, rfl⟩
    exact ⟨rest, notes', hearly, by omega⟩
  | @existence r token span kind parameters p family property =>
    have hr : ¬ r.IsPending := fun hpending => not_returns_property (.inr hpending) property
    have htier : kind.tier = 3 := by simp [Kind.tier, family]
    -- nothing waits at the tiers before, so these passes change nothing
    have hpass : ∀ {tier}, tier ≠ 3 → tier ≠ 4 → on (passForward s tier budget []
        (before ++ [⟨token, span, .pending kind parameters⟩, r])) notes =
          (.ok (before ++ [⟨token, span, .pending kind parameters⟩, r], budget), notes) := by
      intro tier h₃ h₄
      rw [passForward_of_idle, on_pure]
      refine idle_append.mpr ⟨idle_of_isNegation hbefore h₄, idle_cons.mpr ⟨?_, idle_cons.mpr
        ⟨pendingAt?_of_not_isPending hr, .nil⟩⟩⟩
      rw [pendingAt?_pending, htier, if_neg (Ne.symm h₃)]
    simp only [List.length_cons, List.length_nil] at hbudget ⊢
    have hlast : on (passBackward s 3 budget [r]) notes = (.ok ([r], budget), notes) := by
      rw [passBackward_idle (idle_cons.mpr ⟨pendingAt?_of_not_isPending hr, .nil⟩), on_pure]
    have hsettle : Returns (settle s span ⟨kind, token, parameters, none, some r⟩) notes
        (ofOperator token (span.cover r.span) { kind, property := some p }) := by
      refine returns_settle.mpr ⟨_, ?_, rfl⟩
      unfold Claim.produce
      dsimp only
      rw [family]
      exact returns_existence.mpr ⟨r, p, rfl, property, rfl⟩
    obtain ⟨notes', hthird⟩ := exists_passBackward_cons htier (by simp [Kind.claimsRight, family])
      (by omega) hlast hsettle
    refine ⟨budget - 1, notes', on_early (hpass (by decide) (by decide))
      (hpass (by decide) (by decide)) ?_, by omega⟩
    rw [passBackward_append (idle_of_isNegation hbefore (by decide)), on_bind, hthird, goOn_ok,
      on_pure]
  | regexp call kind =>
    simp only [List.length_singleton] at hbudget ⊢
    obtain ⟨notes', hfirst⟩ :=
      call.exists_passForward (idle_of_isNegation hbefore (by decide)) .nil hbudget
    exact ⟨budget - 1, notes', on_early_of_passForward hbefore hitem hfirst, by omega⟩

/-- The fourth tier wraps a condition in the negations before it. -/
lemma exists_passBackward (notes : Notes) (hitem : item.condition? = some op) :
    ∀ {before : List Item}, (∀ n ∈ before, IsNegation n) → before.length ≤ budget →
      ∃ rest notes', on (passBackward s 4 budget (before ++ [item])) notes =
        (.ok ([before.foldr negate item], rest), notes') ∧ budget ≤ rest + before.length := by
  intro before
  induction before with
  | nil =>
    intro _ _
    have hidle : Idle 4 [item] :=
      idle_cons.mpr ⟨pendingAt?_of_not_isPending (not_isPending_of_condition? hitem), .nil⟩
    refine ⟨budget, notes, ?_, by omega⟩
    rw [List.nil_append, passBackward_idle hidle, on_pure]
    rfl
  | cons first before ih =>
    intro hnegations hbudget
    obtain ⟨⟨parameters, hterm⟩, hbefore⟩ := List.forall_mem_cons.mp hnegations
    rw [List.length_cons] at hbudget ⊢
    obtain ⟨rest, notes', hitems, hrest⟩ := ih hbefore (by omega)
    obtain ⟨token, span, term⟩ := first
    obtain rfl : term = .pending .not parameters := hterm
    have hinner : ∃ c, (before.foldr negate item).condition? = some c := by
      cases before with
      | nil => exact ⟨op, hitem⟩
      | cons _ _ => exact ⟨_, rfl⟩
    obtain ⟨c, hc⟩ := hinner
    have hsettle : Returns (settle s span ⟨.not, token, parameters, none,
        some (before.foldr negate item)⟩) notes'
        (negate ⟨token, span, .pending .not parameters⟩ (before.foldr negate item)) := by
      refine returns_settle.mpr ⟨_, returns_logical.mpr ⟨rfl, _, c, rfl, hc, rfl⟩, ?_⟩
      rw [negate, hc]
      rfl
    obtain ⟨notes'', hall⟩ := exists_passBackward_cons rfl rfl (by omega) hitems hsettle
    exact ⟨rest - 1, notes'', hall, by omega⟩

/-- A phrase that comes to a condition is reduced to it, if there are steps enough. -/
lemma IsCondition.returns_reduce (h : IsCondition s notes items item)
    (hsteps : items.length ≤ s.ceilings.steps) : Returns (reduce s items) notes item := by
  obtain ⟨op, hop⟩ := h.exists_condition?
  obtain ⟨negations, rest, inner, rfl, hnegations, hrest, rfl⟩ := h
  obtain ⟨c, hc⟩ := hrest.exists_condition?
  rw [List.length_append] at hsteps
  obtain ⟨budget, notes₁, hearly, hbudget⟩ :=
    hrest.exists_early hnegations (show rest.length ≤ s.ceilings.steps by omega)
  obtain ⟨budget', notes₂, hfourth, -⟩ := exists_passBackward notes₁ hc hnegations
    (show negations.length ≤ budget by omega)
  have hidle : ∀ tier, pendingAt? tier (negations.foldr negate inner) = none := fun _ =>
    pendingAt?_of_not_isPending (not_isPending_of_condition? hop)
  have hfifth : passForward s 5 budget' [] [negations.foldr negate inner] =
      pure ([negations.foldr negate inner], budget') :=
    passForward_of_idle (idle_cons.mpr ⟨hidle 5, .nil⟩)
  have hpasses : on (passes s (negations ++ rest)) notes =
      (.ok [negations.foldr negate inner], notes₂) := by
    rw [passes_eq, on_bind, hearly, goOn_ok, on_bind, hfourth, goOn_ok]
    dsimp only
    rw [hfifth, pure_bind, on_pure]
  unfold reduce
  refine returns_bind.mpr ⟨_, notes₂, hpasses, ?_⟩
  simp only [List.find?_cons, hidle 0, Option.isSome_none, List.find?_nil]
  exact returns_pure.mpr rfl

/-- The phrases that are reduced to a condition are those of the grammar: some `NOT`s before a
finished condition, a comparison, a membership test, an existence test or a call of `REGEXP_MATCH`.
They are reduced to the condition that the grammar reads, wrapped in its negations. -/
theorem returns_reduce_condition_iff (hsteps : items.length ≤ s.ceilings.steps) :
    Returns (reduce s items >>= Item.condition s) notes op ↔
      ∃ negations rest inner, items = negations ++ rest ∧ (∀ n ∈ negations, IsNegation n) ∧
        IsPrimary s notes rest inner ∧ (negations.foldr negate inner).condition? = some op := by
  constructor
  · intro h
    obtain ⟨item, notes', hreduce, hcondition⟩ := returns_bind.mp h
    rw [returns_condition] at hcondition
    obtain ⟨negations, rest, inner, hitems, hnegations, hrest, rfl⟩ :=
      isCondition_of_reduce hreduce hcondition
    exact ⟨negations, rest, inner, hitems, hnegations, hrest, hcondition⟩
  · rintro ⟨negations, rest, inner, hitems, hnegations, hrest, hcondition⟩
    have hphrase : IsCondition s notes items (negations.foldr negate inner) :=
      ⟨negations, rest, inner, hitems, hnegations, hrest, rfl⟩
    obtain ⟨notes', hreduce⟩ := returns_iff.mp (hphrase.returns_reduce hsteps)
    exact returns_bind.mpr ⟨_, notes', hreduce, returns_condition.mpr hcondition⟩

/-- `NOT COUNT(x) > 3` is the negation of a comparison about a call. -/
theorem returns_reduce_condition_iff_count :
    let s : Setting := ⟨"NOT COUNT(x) > 3".toList, {}, {}⟩
    let negation : Item :=
      ⟨⟨0, "NOT", .word, ⟨0, 3⟩, none, some .not, none⟩, ⟨0, 3⟩, .pending .not none⟩
    let x : Item := ⟨⟨2, "x", .word, ⟨10, 11⟩, none, none, none⟩, ⟨10, 11⟩, .raw⟩
    let call : Item :=
      ⟨⟨1, "COUNT", .word, ⟨4, 9⟩, some 12, some .count, none⟩, ⟨4, 12⟩, .pending .count (some [x])⟩
    let greater : Item :=
      ⟨⟨3, ">", .symbol, ⟨13, 14⟩, none, some .greaterThan, none⟩, ⟨13, 14⟩,
        .pending .greaterThan none⟩
    let three : Item := ⟨⟨4, "3", .word, ⟨15, 16⟩, none, none, none⟩, ⟨15, 16⟩, .raw⟩
    ∃ op, Returns (reduce s [negation, call, greater, three] >>= Item.condition s) {} op ∧
      op.kind = .not ∧ op.span = some ⟨0, 16⟩ := by
  intro s negation x call greater three
  have hproperty : Returns (x.property s) {} (.ofText "x" {}) := by
    dsimp only [Returns, x]
    rfl
  obtain ⟨v, hv⟩ : ∃ v, Returns (three.value s Kind.greaterThan.comparable) {} v := by
    dsimp only [Returns, three]
    exact ⟨_, rfl⟩
  have hcall : IsCall s {} call ⟨.count, some (.ofText "x" {}), [], none⟩ :=
    .intro rfl rfl hproperty .nil
  have hsubject := IsSubject.call hcall (by decide)
  have hphrase : IsPrimary s {} [call, greater, three] _ := .comparison rfl hsubject hv
  refine ⟨_, (returns_reduce_condition_iff (by decide)).mpr
    ⟨[negation], _, _, rfl, ?_, hphrase, rfl⟩, rfl, rfl⟩
  rintro _ ⟨⟩
  · exact ⟨none, rfl⟩
  · contradiction

end

end Phrase

end RecordQuery
