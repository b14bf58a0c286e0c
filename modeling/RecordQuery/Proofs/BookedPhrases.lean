import RecordQuery.Proofs.Ledger

/-!
# Books on phrases

An operator that is settled takes in what it claims, and nothing else: its parameters if it is a
function, and the items beside it that its kind asks for. What it does not claim stays in the
phrase. So reducing a phrase to one item keeps the books, whatever these are on.
-/

namespace RecordQuery

open Reader Phrase

namespace Ledger

variable {L : Ledger} {s : Setting}

/-! ## Operators -/

/-- How much there is in what a claim is about to make an operator of. -/
def ofClaim (L : Ledger) (claim : Claim) : Nat :=
  (if claim.kind.isFunction then claim.parameters.elim 0 L.ofItems else 0) +
    ((if claim.kind.claimsLeft then L.ofOption claim.left else 0) +
      if claim.kind.claimsRight then L.ofOption claim.right else 0)

section

variable {claim : Claim}

/-- An item that is asked for holds what it holds. -/
lemma passes_require (fault : PhraseFault) (one : Option Item) :
    L.Passes (L.ofOption one) L.ofItem (claim.require s fault one) := by
  cases one with
  | none => exact .throw
  | some item => exact .pure rfl

/-- Parameters that are asked for hold what they hold. -/
lemma passes_requireParameters (claim : Claim) :
    L.Passes (claim.parameters.elim 0 L.ofItems) L.ofItems (claim.requireParameters s) := by
  unfold Claim.requireParameters
  split
  · rename_i items hitems
    rw [hitems]
    exact .pure rfl
  · exact .throw

/-- Parameters that are counted hold what they hold. -/
lemma passes_exactParameters (claim : Claim) (count : Nat) :
    L.Passes (claim.parameters.elim 0 L.ofItems) L.ofItems (claim.exactParameters s count) := by
  unfold Claim.exactParameters
  refine (passes_requireParameters claim).bind_all fun items => ?_
  split
  · exact .pure rfl
  · exact .throw

/-- Reading items as values settles them. -/
lemma passes_values (allowed : List ScalarType) (items : List Item) :
    L.Passes (L.ofItems items) L.ofOperands (Claim.values s allowed items) := by
  induction items with
  | nil => exact .pure (ofItems_nil.trans ofOperands_nil.symm)
  | cons item rest ih =>
    refine (uses_value item allowed).bind (fun v => ?_) (ofItems_cons _ _)
    exact ih.bind_all fun operands => .pure (by simp)

/-- A comparison holds what its neighbours held. -/
lemma passes_comparison (h : claim.kind.family = .comparison) :
    L.Passes (L.ofClaim claim) L.ofOperator (claim.comparison s) := by
  have hsides : L.ofClaim claim = L.ofOption claim.left + L.ofOption claim.right := by
    simp [ofClaim, Kind.isFunction, Kind.claimsLeft, Kind.claimsRight, h]
  unfold Claim.comparison
  refine (passes_require _ claim.left).bind (fun left => ?_) hsides
  refine (passes_require _ claim.right).bind (fun right => ?_) (Nat.add_comm _ _)
  refine (passes_subject left).bind (fun subject => ?_) (Nat.add_comm _ _)
  refine (uses_value right _).bind (fun v => .pure ?_) (Nat.add_comm _ _)
  rw [ofOperator_about (by rw [h]; decide)]
  simp

/-- A membership holds what its subject and its parameters held. -/
lemma passes_membership (h : claim.kind.family = .membership) :
    L.Passes (L.ofClaim claim) L.ofOperator (claim.membership s) := by
  have hparts : L.ofClaim claim =
      claim.parameters.elim 0 L.ofItems + L.ofOption claim.left := by
    simp [ofClaim, Kind.isFunction, Kind.claimsLeft, Kind.claimsRight, h]
  unfold Claim.membership
  refine (passes_requireParameters claim).bind (fun items => ?_) hparts
  refine (passes_require _ claim.left).bind (fun left => ?_) (Nat.add_comm _ _)
  refine (passes_subject left).bind (fun subject => ?_) rfl
  have hlist : ∀ allowed, L.Passes (L.ofOperand subject + L.ofItems items) L.ofOperator (do
      return (Operator.about claim.kind subject).withOperands
        (← Claim.values s allowed items)) := by
    intro allowed
    refine (passes_values allowed items).bind (fun operands => .pure ?_) (Nat.add_comm _ _)
    rw [ofOperator_about (by rw [h]; decide), Nat.add_comm]
  split
  · split
    · exact .stop
    · exact hlist _
  · split
    · exact .stop
    · exact hlist _

/-- A test for existence holds nothing, and what was behind it is settled. -/
lemma passes_existence (h : claim.kind.family = .existence) :
    L.Passes (L.ofClaim claim) L.ofOperator (claim.existence s) := by
  have hright : L.ofClaim claim = L.ofOption claim.right := by
    simp [ofClaim, Kind.isFunction, Kind.claimsLeft, Kind.claimsRight, h]
  unfold Claim.existence
  rw [hright]
  refine (passes_require _ claim.right).bind_all fun right => ?_
  refine (uses_property right).bind_all fun p => .pure ?_
  rw [ofOperator_of_family (by rw [h]; decide), ofOperands_nil]

/-- A negation holds what its condition does. -/
lemma passes_logical (h : claim.kind.family = .logical) :
    L.Passes (L.ofClaim claim) L.ofOperator (claim.logical s) := by
  unfold Claim.logical
  split
  · exact .stop
  · rename_i hnot
    have hright : L.ofClaim claim = L.ofOption claim.right := by
      simp [ofClaim, Kind.isFunction, Kind.claimsLeft, Kind.claimsRight, not_not.mp hnot,
        Kind.family]
    rw [hright]
    refine (passes_require _ claim.right).bind_all fun right => ?_
    refine (passes_condition right).bind_all fun c => .pure ?_
    have hfamily : (⟨claim.kind, none, [.operator c], none⟩ : Operator).kind.family ≠
        .projection := by
      show claim.kind.family ≠ .projection
      rw [h]
      decide
    rw [ofOperator_of_family hfamily]
    simp

/-- A naming holds its name and what it names. -/
lemma passes_naming (h : claim.kind = .asName) :
    L.Passes (L.ofClaim claim) L.ofOperator (claim.naming s) := by
  have hsides : L.ofClaim claim = L.ofOption claim.left + L.ofOption claim.right := by
    simp [ofClaim, Kind.isFunction, Kind.claimsLeft, Kind.claimsRight, h, Kind.family]
  unfold Claim.naming
  refine (passes_require _ claim.left).bind (fun left => ?_) hsides
  refine (passes_require _ claim.right).bind (fun right => ?_) (Nat.add_comm _ _)
  refine ((passes_subject left).ensures (ensures_subject left)).bind ?_ (Nat.add_comm _ _)
  rintro target _ ⟨rfl, htarget⟩
  refine (uses_word right _).bind (fun name => ?_) (Nat.add_comm _ _)
  refine (passes_bindAlias name target).bind (fun _ => .pure ?_) (Nat.zero_add _).symm
  have hname : (⟨.asName, none, [target, .value (.ofString name)], none⟩ : Operator).introduces? =
      some name := by
    rw [Operator.introduces?, if_pos rfl, Operator.values, List.filterMap_cons_none htarget]
    rfl
  rw [ofOperator_eq, hname]
  simp

/-- Arguments of a function hold what its parameters held. -/
lemma passes_arguments (items : List Item) :
    L.Passes (L.ofItems items) (fun op => L.ofOperands op.operands) (claim.arguments s items) := by
  cases items with
  | nil => exact .throw
  | cons first rest =>
    refine (uses_property first).bind (fun property => ?_) (ofItems_cons _ _)
    exact (passes_values _ rest).bind_all fun operands => .pure rfl

/-- A function is made with its own kind. -/
lemma ensures_arguments (items : List Item) :
    Ensures (fun op => op.kind = claim.kind) (claim.arguments s items) := by
  cases items with
  | nil => exact .throw
  | cons first rest =>
    exact Ensures.trivial.bind fun _ _ => Ensures.trivial.bind fun _ _ => .pure rfl

/-- A function holds what its parameters held. -/
lemma passes_function (h : claim.kind.family = .projection) (hname : claim.kind ≠ .asName) :
    L.Passes (L.ofClaim claim) L.ofOperator (claim.function s) := by
  have hparameters : L.ofClaim claim = claim.parameters.elim 0 L.ofItems := by
    simp [ofClaim, Kind.isFunction, Kind.claimsLeft, Kind.claimsRight, h, hname]
  unfold Claim.function
  rw [hparameters]
  refine (passes_exactParameters claim _).bind_all fun items => ?_
  refine ((passes_arguments items).ensures (ensures_arguments items)).bind_all ?_
  rintro op _ ⟨rfl, hkind⟩
  have hop : op.introduces? = op.defaultAlias? := by
    rw [Operator.introduces?, if_neg (by rw [hkind]; exact hname)]
  cases hdefault : op.defaultAlias? with
  | some name =>
    refine (passes_bindAlias name _).bind (fun _ => .pure ?_) (Nat.zero_add _).symm
    rw [ofOperator_eq, hop, hdefault, Option.elim_some]
  | none =>
    refine .pure ?_
    rw [ofOperator_eq, hop, hdefault, Option.elim_none, Nat.zero_add]

/-- An operator takes in all it claims, once. -/
lemma passes_produce :
    L.Passes (L.ofClaim claim) L.ofOperator (claim.produce s claim.kind.family) := by
  unfold Claim.produce
  split
  · rename_i h
    exact passes_comparison h
  · rename_i h
    exact passes_membership h
  · rename_i h
    exact passes_existence h
  · rename_i h
    exact passes_logical h
  · rename_i h
    split
    · rename_i hname
      exact passes_naming hname
    · rename_i hname
      exact passes_function h hname
  · exact .throw

end

/-! ## Phrases -/

/-- A settled operator holds what its neighbours and parameters held. -/
lemma passes_settle (own : Span) (claim : Claim) :
    L.Passes (L.ofClaim claim) L.ofItem (settle s own claim) := by
  unfold settle
  refine passes_produce.bind_all fun op => ?_
  exact (uses_recordPhrase _ _ _).bind_after fun _ => .pure (by simp)

/-- What there is in an operator that waits is in its parameters. -/
lemma ofItem_of_pendingAt? {tier : Nat} {item : Item} {kind : Kind}
    {parameters : Option (List Item)} (h : pendingAt? tier item = some (kind, parameters)) :
    L.ofItem item = if kind.isFunction then parameters.elim 0 L.ofItems else 0 := by
  obtain ⟨token, span, term⟩ := item
  obtain ⟨rfl, -⟩ := term_of_pendingAt? h
  exact ofItem_pending _ _ _ _

/-- An item beside an operator is claimed by it, or stays. -/
lemma ofItems_claimed (claims : Bool) (items : List Item) :
    L.ofItems items = (if claims then L.ofOption (if claims then items.head? else none) else 0) +
      L.ofItems (if claims then items.tail else items) := by
  cases claims <;> cases items <;> simp

/-- What there is in an operator, in the items before it and in those after it is claimed by it, or
stays. -/
lemma ofItems_claim_add_stays {tier : Nat} {item : Item} {kind : Kind}
    {parameters : Option (List Item)} (h : pendingAt? tier item = some (kind, parameters))
    (before after : List Item) :
    L.ofItems before + L.ofItems (item :: after) =
      L.ofClaim ⟨kind, item.token, parameters, if kind.claimsLeft then before.head? else none,
          if kind.claimsRight then after.head? else none⟩ +
        (L.ofItems (if kind.claimsLeft then before.tail else before) +
          L.ofItems (if kind.claimsRight then after.tail else after)) := by
  rw [ofItems_cons, ofItem_of_pendingAt? h, ofClaim]
  have hleft := ofItems_claimed (L := L) kind.claimsLeft before
  have hright := ofItems_claimed (L := L) kind.claimsRight after
  dsimp only
  omega

/-- A pass from the front loses nothing of what the items hold. -/
lemma passes_passForward (tier : Nat) :
    (budget : Nat) → (before after : List Item) →
      L.Passes (L.ofItems before + L.ofItems after) (fun made => L.ofItems made.1)
        (passForward s tier budget before after)
  | budget, before, [] => by
    unfold passForward
    exact .pure (by simp)
  | budget, before, item :: after => by
    rw [passForward_cons]
    cases hpending : pendingAt? tier item with
    | none =>
      refine (passes_passForward tier budget (item :: before) after).of_eq ?_
      rw [ofItems_cons, ofItems_cons]
      omega
    | some waiting =>
      obtain ⟨kind, parameters⟩ := waiting
      dsimp only
      split
      · exact .stop
      · refine (passes_settle _ _).bind (fun node => ?_)
          (ofItems_claim_add_stays hpending before after)
        refine (passes_passForward tier (budget - 1) _ _).of_eq ?_
        rw [ofItems_cons, Nat.add_assoc]
termination_by _ _ after => after.length
decreasing_by
  · simp
  · simp only [List.length_cons]
    split
    · rw [List.length_tail]
      omega
    · omega

/-- A pass from the back loses nothing of what the items hold. -/
lemma passes_passBackward (tier budget : Nat) (items : List Item) :
    L.Passes (L.ofItems items) (fun made => L.ofItems made.1)
      (passBackward s tier budget items) := by
  induction items with
  | nil => exact .pure rfl
  | cons item rest ih =>
    rw [passBackward_cons]
    refine ih.bind (fun passed => ?_) (by rw [ofItems_cons, Nat.add_comm])
    obtain ⟨after, budget⟩ := passed
    dsimp only
    cases hpending : pendingAt? tier item with
    | none => exact .pure (by rw [ofItems_cons, Nat.add_comm])
    | some waiting =>
      obtain ⟨kind, parameters⟩ := waiting
      dsimp only
      split
      · exact .stop
      · have hclaims := ofItems_claim_add_stays (L := L) hpending [] after
        simp only [List.head?_nil, List.tail_nil, ite_self, ofItems_nil, Nat.zero_add,
          ofItems_cons] at hclaims
        refine (passes_settle _ _).bind (fun node => .pure (ofItems_cons _ _).symm) ?_
        rw [Nat.add_comm]
        exact hclaims

/-- All passes together lose nothing of what the items hold. -/
lemma passes_passes (items : List Item) :
    L.Passes (L.ofItems items) L.ofItems (passes s items) := by
  have hforward : ∀ (tier budget : Nat) (items : List Item), L.Passes (L.ofItems items)
      (fun made => L.ofItems made.1) (passForward s tier budget [] items) :=
      fun tier budget items =>
    (passes_passForward tier budget [] items).of_eq (by rw [ofItems_nil, Nat.zero_add])
  unfold passes
  refine (hforward 1 _ _).bind_all fun made => ?_
  obtain ⟨items, budget⟩ := made
  refine (hforward 2 _ _).bind_all fun made => ?_
  obtain ⟨items, budget⟩ := made
  refine (passes_passBackward 3 _ _).bind_all fun made => ?_
  obtain ⟨items, budget⟩ := made
  refine (passes_passBackward 4 _ _).bind_all fun made => ?_
  obtain ⟨items, budget⟩ := made
  exact (hforward 5 _ _).bind_all fun made => .pure rfl

/-- Reducing a phrase to one item keeps the books. -/
lemma passes_reduce (items : List Item) : L.Passes (L.ofItems items) L.ofItem (reduce s items) := by
  unfold reduce
  refine (passes_passes items).bind_all fun settled => ?_
  cases settled.find? fun item => (pendingAt? 0 item).isSome with
  | some item => exact .stop
  | none =>
    dsimp only
    split
    · exact .pure (by simp)
    · exact .throw
    · exact .throw

end Ledger

end RecordQuery
