import RecordQuery.Proofs.Comparison

/-!
# Phrases side by side

Every comparison is kept by all steps from tokens to items. The order is that of reading: an
operator is produced from its neighbours, a tier of operators is settled in one pass, phrases are
drawn and folded, and what stands in parentheses becomes an item.

Two things are known of readings on the way that hold of any text. Some item is left of a phrase
that had one, and no clause is made inside a phrase, so none of the faults that stand for a mistake
in the reader itself is met. And a loop has no more rounds than there are elements or operators
left, so it does not give up if they are no more than the ceiling.
-/

namespace RecordQuery

open Reader

variable {s s' : Setting} {C : Comparison s s'}

/-! ## Productions -/

/-- Two claims that are made alike. -/
structure Likeness.Claims (K : Likeness) (c d : Claim) : Prop where
  kind : d.kind = c.kind
  token : K.Tokens c.token d.token
  parameters : Option.Rel K.AllItems c.parameters d.parameters
  left : Option.Rel K.Items c.left d.left
  right : Option.Rel K.Items c.right d.right

/-- Claims of items that stand at the same places cover the same span. -/
lemma Likeness.Claims.span_eq {K : Likeness} {c d : Claim} (h : K.Claims c d) {own own' : Span}
    (hown : K.exact → own = own') (hexact : K.exact) : c.span own = d.span own' := by
  have hitems {i j : Option Item} (hij : Option.Rel K.Items i j) :
      K.AllItems i.toList j.toList := by
    cases hij with
    | none => exact .nil
    | some hij => exact .cons hij .nil
  rw [hown hexact]
  exact (Items.cover_eq (List.rel_append (hitems h.left) (hitems h.right)) hexact _).symm

namespace Comparison

variable {c d : Claim} {is js : List Item} {i j : Item}

/-- What two productions of a kind come to. -/
def Produced (C : Comparison s s') (kind : Kind) (a b : Operator) : Prop :=
  C.Operators a b ∧ a.kind = kind

/-- Comparable items are asked for alike. -/
lemma holds_require (h : C.Claims c d) {fault : PhraseFault} (hfault : fault.kind ≠ .internal)
    {i j : Option Item} (hij : Option.Rel C.Items i j) :
    C.Holds C.Items (c.require s fault i) (d.require s' fault j) := by
  cases hij with
  | some hij => exact C.pure hij
  | none => exact C.failAt (.refl hfault) h.token

/-- Comparable parameters are asked for alike. -/
lemma holds_requireParameters (h : C.Claims c d) :
    C.Holds C.AllItems (c.requireParameters s) (d.requireParameters s') := by
  have hparameters := h.parameters
  unfold Claim.requireParameters
  rw [h.kind]
  generalize c.parameters = p at hparameters ⊢
  generalize d.parameters = q at hparameters ⊢
  cases hparameters with
  | some hitems => exact C.pure hitems
  | none => exact C.failAt (.refl nofun) h.token

/-- Comparable parameters are counted alike. -/
lemma holds_exactParameters (h : C.Claims c d) (count : Nat) :
    C.Holds (fun is js => C.AllItems is js ∧ is.length = count) (c.exactParameters s count)
      (d.exactParameters s' count) := by
  unfold Claim.exactParameters
  refine C.bind (holds_requireParameters h) fun is js hitems => ?_
  rw [← hitems.length_eq, h.kind]
  split
  · rename_i hlength
    exact C.pure ⟨hitems, hlength⟩
  · exact C.failAt (.refl nofun) h.token

/-- What scalars of some types come to, so many of them. -/
def Scalars (C : Comparison s s') (allowed : List ScalarType) (count : Nat) (xs : List Operand) :
    Prop :=
  ∃ vs : List ScalarValue, xs = vs.map .value ∧ vs.length = count ∧
    ∀ v ∈ vs, C.vocabulary.scalar v ∧ ScalarValue.allows allowed v.type = true

/-- Comparable items are read alike as values. -/
lemma holds_values (allowed : List ScalarType) (h : C.AllItems is js) :
    C.Holds (Same (C.Scalars allowed is.length)) (Claim.values s allowed is)
      (Claim.values s' allowed js) := by
  induction h with
  | nil => exact C.pure ⟨rfl, [], rfl, rfl, by simp⟩
  | @cons i j is js hij _ ih =>
    unfold Claim.values
    refine C.bind (holds_value hij allowed) ?_
    rintro v _ ⟨rfl, hv⟩
    refine C.bind ih ?_
    rintro _ _ ⟨rfl, vs, rfl, hlength, hvs⟩
    exact C.pure ⟨rfl, v :: vs, rfl, by simp [hlength], by simpa using ⟨hv, hvs⟩⟩

/-- Comparisons are made alike of comparable neighbours. -/
lemma holds_comparison (h : C.Claims c d) (family : c.kind.family = .comparison) :
    C.Holds (C.Produced c.kind) (c.comparison s) (d.comparison s') := by
  unfold Claim.comparison
  rw [h.kind]
  refine C.bind (holds_require h (by nofun) h.left) fun i i' hleft => ?_
  refine C.bind (holds_require h (by nofun) h.right) fun j j' hright => ?_
  refine C.bind (holds_subject hleft) fun a b hab => ?_
  refine C.bind (holds_value hright _) ?_
  rintro v _ ⟨rfl, hv, allowed⟩
  rw [Operator.about_withOperands, Operator.about_withOperands]
  refine C.pure ⟨⟨⟨Operator.core_stated_eq hab.alike.core rfl, ?_⟩, fun hexact => ?_⟩, by simp⟩
  · refine Operator.everywhere_iff.mpr
      ⟨.comparison family hab.alike.holds hv allowed, fun child hchild => ?_⟩
    obtain hsubject | hvalue := Operator.mem_operands_stated hchild
    · exact hab.alike.shaped child hsubject.symm
    · simp at hvalue
  · rw [hab.same hexact]

/-- Memberships are made alike of comparable neighbours and parameters. -/
lemma holds_membership (h : C.Claims c d) (family : c.kind.family = .membership) :
    C.Holds (C.Produced c.kind) (c.membership s) (d.membership s') := by
  unfold Claim.membership
  rw [h.kind]
  refine C.bind (holds_requireParameters h) fun is js hitems => ?_
  refine C.bind (holds_require h (by nofun) h.left) fun i i' hleft => ?_
  refine C.bind (holds_subject hleft) fun a b hab => ?_
  -- once the number of values is right, what is left reads them
  have values : (c.kind = .between → is.length = 2) → is ≠ [] →
      C.Holds (C.Produced c.kind)
        (do
          let operands ← Claim.values s (if c.kind = .between then [.number] else []) is
          return (Operator.about c.kind a).withOperands operands)
        (do
          let operands ← Claim.values s' (if c.kind = .between then [.number] else []) js
          return (Operator.about c.kind b).withOperands operands) := by
    intro hbounds hne
    refine C.bind (holds_values _ hitems) ?_
    rintro _ _ ⟨rfl, vs, rfl, hlength, hvs⟩
    rw [Operator.about_withOperands, Operator.about_withOperands]
    refine C.pure ⟨⟨⟨Operator.core_stated_eq hab.alike.core rfl, ?_⟩, fun hexact => ?_⟩, by simp⟩
    · refine Operator.everywhere_iff.mpr ⟨.membership family hab.alike.holds
        (fun v hv => (hvs v hv).1)
          (fun hbetween => ⟨by rw [hlength, hbounds hbetween], fun v hv => ?_⟩)
        ?_, fun child hchild => ?_⟩
      · have hallowed := (hvs v hv).2
        rw [if_pos hbetween] at hallowed
        simpa [ScalarValue.allows] using hallowed
      · rw [← List.length_pos_iff, hlength]
        exact List.length_pos_iff.mpr hne
      · obtain hsubject | hvalue := Operator.mem_operands_stated hchild
        · exact hab.alike.shaped child hsubject.symm
        · simp at hvalue
    · rw [hab.same hexact]
  have hlength : js.length = is.length := hitems.length_eq.symm
  have hempty : js.isEmpty = is.isEmpty := by cases hitems <;> rfl
  rw [hlength, hempty]
  dsimp only
  split
  · split
    · exact C.stopAt (.refl nofun) h.token
    · rename_i hbetween htwo
      have htwo : is.length = 2 := by simpa using htwo
      have hvalues := values (fun _ => htwo) (by rintro rfl; simp at htwo)
      rwa [if_pos hbetween] at hvalues
  · split
    · exact C.stopAt (.refl nofun) h.token
    · rename_i hbetween hne
      have hvalues := values (fun hb => absurd hb hbetween) (by simpa using hne)
      rwa [if_neg hbetween] at hvalues

/-- Tests for existence are made alike of comparable neighbours. -/
lemma holds_existence (h : C.Claims c d) (family : c.kind.family = .existence) :
    C.Holds (C.Produced c.kind) (c.existence s) (d.existence s') := by
  unfold Claim.existence
  rw [h.kind]
  refine C.bind (holds_require h (by nofun) h.right) fun i j hright => ?_
  refine C.bind (holds_property hright) ?_
  rintro p _ ⟨rfl, hp⟩
  exact C.pure ⟨⟨⟨rfl, Operator.everywhere_iff.mpr ⟨.existence family hp, by simp⟩⟩, fun _ => rfl⟩,
    rfl⟩

/-- Negations are made alike of comparable conditions. -/
lemma holds_logical (h : C.Claims c d) :
    C.Holds (C.Produced c.kind) (c.logical s) (d.logical s') := by
  unfold Claim.logical
  rw [h.kind]
  dsimp only
  split
  · exact C.stopAt (.refl nofun) h.token
  · rename_i hnot
    have hnot : c.kind = .not := by simpa using hnot
    refine C.bind (holds_require h (by nofun) h.right) fun i j hright => ?_
    refine C.bind (holds_condition hright) ?_
    rintro a b ⟨hab, hcondition⟩
    rw [hnot]
    refine C.pure ⟨⟨⟨?_, ?_⟩, fun hexact => by rw [hab.same hexact]⟩, rfl⟩
    · simp [Operator.core_eq_iff, Operand.core, hab.alike.core]
    · refine Operator.everywhere_iff.mpr ⟨.negation hcondition, ?_⟩
      rintro child hchild
      obtain rfl : child = a := by simpa using hchild
      exact hab.alike.shaped

/-- Namings are made alike of comparable neighbours. -/
lemma holds_naming (h : C.Claims c d) :
    C.Holds (C.Produced .asName) (c.naming s) (d.naming s') := by
  unfold Claim.naming
  refine C.bind (holds_require h (by nofun) h.left) fun i i' hleft => ?_
  refine C.bind (holds_require h (by nofun) h.right) fun j j' hright => ?_
  refine C.bind (holds_subject hleft) fun a b hab => ?_
  refine C.bind (holds_name hright) ?_
  rintro name _ ⟨rfl, hname⟩
  refine C.bind (C.bindAlias (hab.mono fun _ => trivial)) fun _ _ _ => ?_
  refine C.pure ⟨⟨⟨?_, ?_⟩, fun hexact => by rw [hab.same hexact]⟩, rfl⟩
  · simp [Operator.core_eq_iff, hab.alike.core]
  · refine Operator.everywhere_iff.mpr ⟨.naming hab.alike.holds hname, ?_⟩
    rintro child hchild
    obtain hchild | hchild : Operand.operator child = a ∨ _ := List.mem_cons.mp hchild
    · exact hab.alike.shaped child hchild.symm
    · simp at hchild

/-- Functions are made alike of comparable parameters that were counted. -/
lemma holds_arguments (h : C.Claims c d) (family : c.kind.family = .projection)
    (notNaming : c.kind ≠ .asName) (hitems : C.AllItems is js)
    (hlength : is.length = if c.kind.argumentType?.isSome then 2 else 1) :
    C.Holds (C.Produced c.kind) (c.arguments s is) (d.arguments s' js) := by
  cases hitems with
  | nil => split at hlength <;> cases hlength
  | @cons i j is js hij hrest =>
    unfold Claim.arguments
    rw [h.kind]
    refine C.bind (holds_property hij) ?_
    rintro p _ ⟨rfl, hp⟩
    refine C.bind (holds_values _ hrest) ?_
    rintro _ _ ⟨rfl, vs, rfl, hcount, hvs⟩
    have types : vs.map ScalarValue.type = c.kind.argumentType?.toList := by
      cases hargument : c.kind.argumentType? with
      | none =>
        have hnone : vs = [] := by simpa [hargument, ← hcount] using hlength
        simp [hnone]
      | some type =>
        obtain ⟨v, rfl⟩ : ∃ v, vs = [v] := by
          rw [← List.length_eq_one_iff]
          simpa [hargument, ← hcount] using hlength
        have hallowed := (hvs v (by simp)).2
        simpa [hargument, ScalarValue.allows] using hallowed
    refine C.pure ⟨⟨⟨rfl, Operator.everywhere_iff.mpr ⟨?_, by simp⟩⟩, fun _ => rfl⟩, rfl⟩
    exact .function family notNaming hp (fun v hv => (hvs v hv).1) types

/-- Operators that are made alike have one default name, or none. -/
lemma defaultAlias?_eq {a b : Operator} (h : a.core = b.core) :
    a.defaultAlias? = b.defaultAlias? := by
  obtain ⟨hkind, hproperty, _⟩ := Operator.core_eq_iff.mp h
  rw [Operator.defaultAlias?, Operator.defaultAlias?, hkind, hproperty]

/-- Functions are made alike of comparable parameters. -/
lemma holds_function (h : C.Claims c d) (family : c.kind.family = .projection)
    (notNaming : c.kind ≠ .asName) :
    C.Holds (C.Produced c.kind) (c.function s) (d.function s') := by
  unfold Claim.function
  rw [h.kind]
  refine C.bind (holds_exactParameters h _) fun is js hitems => ?_
  refine C.bind (holds_arguments h family notNaming hitems.1 hitems.2) fun a b hab => ?_
  rw [defaultAlias?_eq hab.1.alike.core]
  cases b.defaultAlias? with
  | none => exact C.pure hab
  | some name => exact C.bind (C.bindAlias (hab.1.operand trivial)) fun _ _ _ => C.pure hab

/-- What is produced inside a phrase is no clause. -/
lemma holds_produce (h : C.Claims c d) (hfamily : c.kind.family ≠ .clause) :
    C.Holds (fun a b => C.Operators a b ∧ a.kind.isClause = false)
      (c.produce s c.kind.family) (d.produce s' d.kind.family) := by
  have notClause {p q : Parse Operator} (hpq : C.Holds (C.Produced c.kind) p q) :
      C.Holds (fun a b => C.Operators a b ∧ a.kind.isClause = false) p q := by
    refine C.mono hpq fun a b hab => ⟨hab.1, ?_⟩
    rw [hab.2, Kind.isClause]
    simpa using hfamily
  unfold Claim.produce
  rw [h.kind]
  cases family : c.kind.family with
  | comparison => exact notClause (holds_comparison h family)
  | membership => exact notClause (holds_membership h family)
  | existence => exact notClause (holds_existence h family)
  | logical => exact notClause (holds_logical h)
  | projection =>
    dsimp only
    split
    · rename_i hnaming
      have hproduced := holds_naming h
      rw [← hnaming] at hproduced
      exact notClause hproduced
    · rename_i notNaming
      exact notClause (holds_function h family notNaming)
  | clause => exact absurd family hfamily

end Comparison

/-! ## Reducing -/

namespace Phrase

/-- Whether an item is an operator that has not claimed its neighbours. -/
def isPending (item : Item) : Bool :=
  match item.term with
  | .pending .. => true
  | _ => false

/-- What waits at a tier waits, and is of that tier. -/
lemma isPending_of_pendingAt? {tier : Nat} {item : Item} {kind : Kind}
    {parameters : Option (List Item)} (h : pendingAt? tier item = some (kind, parameters)) :
    isPending item = true ∧ kind.tier = tier := by
  unfold pendingAt? at h
  split at h
  · rename_i hterm
    split at h
    · cases h
      refine ⟨?_, ‹_›⟩
      rw [isPending, hterm]
    · cases h
  · cases h

/-- No clause is reduced inside a phrase. -/
lemma family_ne_clause {kind : Kind} (h : kind.tier ≠ 0) : kind.family ≠ .clause := by
  intro hfamily
  refine h ?_
  rw [Kind.tier, hfamily]

/-- Claiming a neighbour leaves no more operators than there were. -/
lemma countP_claimed_le (claims : Bool) (items : List Item) :
    (if claims then items.tail else items).countP isPending ≤ items.countP isPending := by
  cases claims with
  | false => exact Nat.le_refl _
  | true => exact (List.tail_sublist items).countP_le

end Phrase

namespace Comparison

open Phrase

variable {c d : Claim} {is js : List Item} {i j : Item} {own own' : Span}

/-- Settling an operator makes a finished operand of it. -/
lemma holds_settle (h : C.Claims c d) (htier : c.kind.tier ≠ 0) (hown : C.exact → own = own') :
    C.Holds (fun i j => C.Items i j ∧ isPending i = false) (settle s own c) (settle s' own' d) := by
  unfold settle
  refine C.bind (holds_produce h (family_ne_clause htier)) ?_
  rintro a b ⟨hab, notClause⟩
  have hspan := h.span_eq hown
  refine C.bind (C.recordPhrase h.token hspan hab) fun _ _ _ => C.pure ⟨?_, rfl⟩
  exact .node h.token hspan (hab.withSpan hspan) notClause

/-- The first of comparable items are comparable, where they are taken. -/
lemma head?_items (h : C.AllItems is js) (taken : Bool) :
    Option.Rel C.Items (if taken then is.head? else none) (if taken then js.head? else none) := by
  cases taken with
  | false => exact .none
  | true =>
    cases h with
    | nil => exact .none
    | cons h _ => exact .some h

/-- What is left of comparable items is comparable. -/
lemma tail_items (h : C.AllItems is js) (taken : Bool) :
    C.AllItems (if taken then is.tail else is) (if taken then js.tail else js) := by
  cases taken with
  | false => exact h
  | true =>
    cases h with
    | nil => exact .nil
    | cons _ h => exact h

/-- What two passes come to: items that are read alike, and rounds that are left. Rounds are due to
operators that the pass has not come to, and there are as many for those that are left. -/
structure Passed (C : Comparison s s') (due : Nat) (a b : List Item × Nat) : Prop where
  items : C.AllItems a.1 b.1
  budgets : C.Budgets a.2 b.2
  affords : C.fits → a.1.countP isPending + due ≤ a.2

/-- A pass from the front settles comparable items alike. -/
lemma holds_passForward {tier : Nat} (htier : tier ≠ 0) :
    (budget budget' : Nat) → C.Budgets budget budget' → (before before' after after' : List Item) →
      C.AllItems before before' → C.AllItems after after' →
      (C.fits → (before ++ after).countP isPending ≤ budget) →
      C.Holds (fun a b => C.Passed 0 a b ∧ (before ++ after ≠ [] → a.1 ≠ []))
        (passForward s tier budget before after) (passForward s' tier budget' before' after')
  | budget, budget', hbudget, before, before', [], _, hbefore, .nil, hfits => by
    unfold passForward
    refine C.pure ⟨⟨List.rel_reverse hbefore, hbudget, fun h => ?_⟩, fun h => ?_⟩
    · simpa using hfits h
    · simpa using h
  | budget, budget', hbudget, before, before', i :: after, j :: after', hbefore,
      .cons hij hafter, hfits => by
    rw [passForward_cons, passForward_cons]
    obtain ⟨hi, hj⟩ | ⟨kind, p, q, hi, hj, hpq⟩ := hij.pendingAt? tier
    · rw [hi, hj]
      have hpassed := holds_passForward htier budget budget' hbudget _ _ after after'
        (.cons hij hbefore) hafter fun h => by
          have hcount := hfits h
          rw [List.countP_append, List.countP_cons] at hcount ⊢
          omega
      exact C.mono hpassed fun a b hab => ⟨hab.1, fun _ => hab.2 (by simp)⟩
    · obtain ⟨hpending, hkind⟩ := isPending_of_pendingAt? hi
      have hcount (h : C.fits) : before.countP isPending + after.countP isPending + 1 ≤ budget := by
        have hcount := hfits h
        rw [List.countP_append, List.countP_cons, if_pos hpending] at hcount
        omega
      rw [hi, hj]
      dsimp only
      refine C.counted hbudget (fun h => by have := hcount h; omega) rfl rfl fun _ => ?_
      -- both operators take what stands beside them, which is alike
      have hclaim : C.Claims
          ⟨kind, i.token, p, if kind.claimsLeft then before.head? else none,
            if kind.claimsRight then after.head? else none⟩
          ⟨kind, j.token, q, if kind.claimsLeft then before'.head? else none,
            if kind.claimsRight then after'.head? else none⟩ :=
        ⟨rfl, hij.token, hpq, head?_items hbefore _, head?_items hafter _⟩
      refine C.bind (holds_settle hclaim (hkind ▸ htier) hij.span) ?_
      rintro node node' ⟨hnode, hsettled⟩
      -- a round was paid for the settled operator, and it waits no more
      have hpassed := holds_passForward htier _ _ (C.pred hbudget) _ _ _ _
        (.cons hnode (tail_items hbefore kind.claimsLeft)) (tail_items hafter kind.claimsRight)
        fun h => by
          have hcount := hcount h
          have hleft := countP_claimed_le kind.claimsLeft before
          have hright := countP_claimed_le kind.claimsRight after
          rw [List.countP_append, List.countP_cons, hsettled]
          simp only [Bool.false_eq_true, if_false]
          omega
      exact C.mono hpassed fun a b hab => ⟨hab.1, fun _ => hab.2 (by simp)⟩
termination_by _ _ _ _ _ after => after.length
decreasing_by
  · simp
  · simp only [List.length_cons]
    split
    · rw [List.length_tail]
      omega
    · omega

/-- Going from right to left, the operators to the left are still to be paid for. -/
lemma holds_passBackward {tier : Nat} (htier : tier ≠ 0) {budget budget' due : Nat}
    (hbudget : C.Budgets budget budget') (h : C.AllItems is js)
    (hfits : C.fits → is.countP isPending + due ≤ budget) :
    C.Holds (fun a b => C.Passed due a b ∧ (is ≠ [] → a.1 ≠ [])) (passBackward s tier budget is)
      (passBackward s' tier budget' js) := by
  induction h generalizing due with
  | nil => exact C.pure ⟨⟨.nil, hbudget, hfits⟩, id⟩
  | @cons i j is js hij _ ih =>
    have hdue (h : C.fits) :
        is.countP isPending + (due + if isPending i then 1 else 0) ≤ budget := by
      have hcount := hfits h
      rw [List.countP_cons] at hcount
      omega
    rw [passBackward_cons, passBackward_cons]
    refine C.bind (ih hdue) ?_
    rintro ⟨after, left⟩ ⟨after', left'⟩ ⟨⟨hafter, hleft, haffords⟩, -⟩
    dsimp only at hafter hleft haffords ⊢
    obtain ⟨hi, hj⟩ | ⟨kind, p, q, hi, hj, hpq⟩ := hij.pendingAt? tier
    · rw [hi, hj]
      refine C.pure ⟨⟨.cons hij hafter, hleft, fun h => ?_⟩, fun _ => List.cons_ne_nil _ _⟩
      have hcount := haffords h
      rw [List.countP_cons]
      omega
    · obtain ⟨hpending, hkind⟩ := isPending_of_pendingAt? hi
      rw [if_pos hpending] at haffords
      rw [hi, hj]
      dsimp only
      refine C.counted hleft (fun h => by have := haffords h; omega) rfl rfl fun _ => ?_
      have hclaim : C.Claims
          ⟨kind, i.token, p, none, if kind.claimsRight then after.head? else none⟩
          ⟨kind, j.token, q, none, if kind.claimsRight then after'.head? else none⟩ :=
        ⟨rfl, hij.token, hpq, .none, head?_items hafter _⟩
      refine C.bind (holds_settle hclaim (hkind ▸ htier) hij.span) ?_
      rintro node node' ⟨hnode, hsettled⟩
      refine C.pure ⟨⟨.cons hnode (tail_items hafter _), C.pred hleft, fun h => ?_⟩,
        fun _ => List.cons_ne_nil _ _⟩
      have hcount := haffords h
      have hright := countP_claimed_le kind.claimsRight after
      rw [List.countP_cons, hsettled]
      simp only [Bool.false_eq_true, if_false]
      omega

/-- What two phrases are settled to. -/
lemma holds_passes (h : C.AllItems is js) (hfits : C.fits → is.length ≤ s.ceilings.steps) :
    C.Holds (fun is' js' => C.AllItems is' js' ∧ (is ≠ [] → is' ≠ [])) (passes s is)
      (passes s' js) := by
  have hcount (h : C.fits) : ([] ++ is).countP isPending ≤ s.ceilings.steps :=
    Nat.le_trans List.countP_le_length (hfits h)
  unfold passes
  refine C.bind (holds_passForward (by decide) _ _ C.steps [] [] _ _ .nil h hcount) ?_
  rintro ⟨is₁, budget⟩ ⟨js₁, budget'⟩ ⟨⟨h₁, hbudget, hcount⟩, hne₁⟩
  refine C.bind (holds_passForward (by decide) _ _ hbudget [] [] _ _ .nil h₁ hcount) ?_
  rintro ⟨is₂, budget⟩ ⟨js₂, budget'⟩ ⟨⟨h₂, hbudget, hcount⟩, hne₂⟩
  refine C.bind (holds_passBackward (by decide) hbudget h₂ hcount) ?_
  rintro ⟨is₃, budget⟩ ⟨js₃, budget'⟩ ⟨⟨h₃, hbudget, hcount⟩, hne₃⟩
  refine C.bind (holds_passBackward (by decide) hbudget h₃ hcount) ?_
  rintro ⟨is₄, budget⟩ ⟨js₄, budget'⟩ ⟨⟨h₄, hbudget, hcount⟩, hne₄⟩
  refine C.bind (holds_passForward (by decide) _ _ hbudget [] [] _ _ .nil h₄ hcount) ?_
  rintro ⟨is₅, budget⟩ ⟨js₅, budget'⟩ ⟨⟨h₅, -, -⟩, hne₅⟩
  exact C.pure ⟨h₅, fun hne => hne₅ (hne₄ (hne₃ (hne₂ (hne₁ hne))))⟩

/-- Of two lists of items that are read alike, both have an item that waits for what never comes,
and at the same place, or none has. -/
lemma find?_items (h : C.AllItems is js) :
    Option.Rel C.Items (is.find? fun item => (pendingAt? 0 item).isSome)
      (js.find? fun item => (pendingAt? 0 item).isSome) := by
  induction h with
  | nil => exact .none
  | @cons i j is js hij _ ih =>
    rw [List.find?_cons, List.find?_cons]
    obtain ⟨hi, hj⟩ | ⟨kind, p, q, hi, hj, _⟩ := hij.pendingAt? 0
    · rw [hi, hj]
      exact ih
    · rw [hi, hj]
      exact .some hij

/-- Items that stand at the same places cover the same span. -/
lemma coverAll_eq (h : C.AllItems is js) (hexact : C.exact) : coverAll is = coverAll js := by
  cases h with
  | nil => rfl
  | cons hij hrest =>
    rw [coverAll, coverAll, hij.span hexact]
    exact (Likeness.Items.cover_eq hrest hexact _).symm

/-- Comparable items are reduced alike to one. -/
lemma holds_reduce (h : C.AllItems is js) (hne : is ≠ [])
    (hfits : C.fits → is.length ≤ s.ceilings.steps) :
    C.Holds C.Items (reduce s is) (reduce s' js) := by
  unfold reduce
  refine C.bind (holds_passes h hfits) ?_
  rintro is' js' ⟨hitems, hne'⟩
  have hpending := find?_items hitems
  generalize (is'.find? fun item => (pendingAt? 0 item).isSome) = found at hpending ⊢
  generalize (js'.find? fun item => (pendingAt? 0 item).isSome) = found' at hpending ⊢
  cases hpending with
  | some hij =>
    exact C.stopAt (faults_word _ hij.token nofun fun _ => rfl) hij.token
  | none =>
    dsimp only
    cases hitems with
    | nil => exact absurd rfl (hne' hne)
    | cons hij hrest =>
      cases hrest with
      | nil => exact C.pure hij
      | cons hkl hrest =>
        exact C.failAt (faults_slice _ (coverAll_eq (.cons hij (.cons hkl hrest)))
          nofun fun _ => rfl) hkl.token

end Comparison

end RecordQuery
