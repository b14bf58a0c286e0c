import RecordQuery.Proofs.Making

/-!
# Settling phrases

A phrase is settled tier by tier, and a pass over a tier changes little: most items are idle, and an
operator of the tier takes its neighbours and becomes one finished item. `Turns` says what a pass
makes of some items wherever they stand, so that what it makes of a phrase follows from what it
makes of its parts.

The operators of the first three tiers are finished before negations and `AS` look at them.
`Condenses` says that these tiers make one item of some items, and `reduce` makes one item of what
they leave, which is a single item, one behind `NOT`, or one before some `AS` with their names.
-/

namespace RecordQuery

open Reader Item

namespace Phrase

variable {s : Setting} {tier rounds : Nat} {names names' names'' : List String}

/-! ## Idle items -/

/-- Whether a pass over a tier passes some items by. -/
def Idle (tier : Nat) (items : List Item) : Prop := ∀ item ∈ items, pendingAt? tier item = none

/-- Without items nothing waits. -/
lemma Idle.nil : Idle tier [] := by simp [Idle]

/-- Items in two parts are idle if both parts are. -/
lemma idle_append {xs ys : List Item} : Idle tier (xs ++ ys) ↔ Idle tier xs ∧ Idle tier ys := by
  simp only [Idle, List.mem_append, or_imp, forall_and]

/-- Items are idle if the first one does not wait and the others are idle. -/
lemma idle_cons {item : Item} {items : List Item} :
    Idle tier (item :: items) ↔ pendingAt? tier item = none ∧ Idle tier items := by
  simp only [Idle, List.forall_mem_cons]

/-- An item that shows an operand waits for nothing. -/
lemma pendingAt?_of_shows {registry : Registry} {x : Operand} {item : Item}
    (h : Shows registry x item) : pendingAt? tier item = none := by
  cases h <;> rfl

/-- An item waits at the tier of its kind, and at no other. -/
lemma pendingAt?_pending {kind : Kind} {token : Token} {span : Span}
    {parameters : Option (List Item)} :
    pendingAt? tier ⟨token, span, .pending kind parameters⟩ =
      if kind.tier = tier then some (kind, parameters) else none := rfl

/-! ## Passes from left to right -/

/-- A pass from the front goes over idle items. -/
lemma passForward_idle {items : List Item} (h : Idle tier items) (budget : Nat)
    (before after : List Item) :
    passForward s tier budget before (items ++ after) =
      passForward s tier budget (items.reverse ++ before) after := by
  induction items generalizing before with
  | nil => rfl
  | cons item items ih =>
    obtain ⟨hitem, hitems⟩ := idle_cons.mp h
    rw [List.cons_append, passForward_cons, hitem]
    dsimp only
    rw [ih hitems, List.reverse_cons, List.append_assoc, List.singleton_append]

/-- A pass from the front ends with all items behind it. -/
lemma passForward_nil (budget : Nat) (before : List Item) :
    passForward s tier budget before [] = pure (before.reverse, budget) := by
  rw [passForward]

/-- Whether a pass over a tier makes of some items, whatever stands around them, other items that
have a property. -/
def Turns (s : Setting) (tier rounds : Nat) (names names' : List String) (items : List Item)
    (P : List Item → Prop) : Prop :=
  ∀ (before after : List Item) (budget : Nat), rounds ≤ budget →
    ∀ (names'' : List String) (Q : List Item × Nat → Prop),
      (∀ made, P made → Yields names' names'' Q
        (passForward s tier (budget - rounds) (made.reverse ++ before) after)) →
      Yields names names'' Q (passForward s tier budget before (items ++ after))

/-- A tier leaves idle items as they are. -/
lemma Turns.idle {items : List Item} (h : Idle tier items) :
    Turns s tier 0 names names items (· = items) := by
  intro before after budget _ names'' Q hrest
  rw [passForward_idle h]
  exact hrest items rfl

/-- A tier turns items in two parts one part after the other. -/
lemma Turns.append {m n : Nat} {xs ys : List Item} {P Q : List Item → Prop}
    (h : Turns s tier m names names' xs P) (h' : Turns s tier n names' names'' ys Q) :
    Turns s tier (m + n) names names'' (xs ++ ys)
      (fun made => ∃ a b, P a ∧ Q b ∧ made = a ++ b) := by
  intro before after budget hbudget last R hrest
  rw [List.append_assoc]
  refine h before (ys ++ after) budget (by omega) _ _ fun a ha => ?_
  refine h' _ after (budget - m) (by omega) _ _ fun b hb => ?_
  have hmade := hrest (a ++ b) ⟨a, b, ha, hb, rfl⟩
  rwa [List.reverse_append, List.append_assoc, ← Nat.sub_sub] at hmade

/-- What a tier makes of items may be said in a weaker way. -/
lemma Turns.mono {items : List Item} {P Q : List Item → Prop}
    (h : Turns s tier rounds names names' items P) (hPQ : ∀ made, P made → Q made) :
    Turns s tier rounds names names' items Q := by
  intro before after budget hbudget last R hrest
  exact h before after budget hbudget _ _ fun made hmade => hrest made (hPQ made hmade)

/-- What a pass makes of all the items there are. -/
lemma Turns.yields {items : List Item} {P : List Item → Prop}
    (h : Turns s tier rounds names names' items P) {budget : Nat} (hbudget : rounds ≤ budget) :
    Yields names names' (fun made => P made.1 ∧ made.2 = budget - rounds)
      (passForward s tier budget [] items) := by
  have hall := h [] [] budget hbudget names' (fun made => P made.1 ∧ made.2 = budget - rounds)
    fun made hmade => by
      rw [passForward_nil, List.append_nil, List.reverse_reverse]
      exact .pure ⟨hmade, rfl⟩
  rwa [List.append_nil] at hall

section

variable {kind : Kind} {token : Token} {span : Span} {parameters : Option (List Item)}
variable {x : Operand}

/-- Whether items are one item that shows an operand. -/
def IsOne (registry : Registry) (x : Operand) (made : List Item) : Prop :=
  ∃ item, made = [item] ∧ Shows registry x item

/-- A pass settles an operator with the neighbours that it claims. -/
lemma passForward_pending (htier : kind.tier = tier) {budget : Nat} (hbudget : 1 ≤ budget)
    (before after : List Item) :
    passForward s tier budget before (⟨token, span, .pending kind parameters⟩ :: after) = (do
      let node ← settle s span ⟨kind, token, parameters,
        if kind.claimsLeft then before.head? else none,
        if kind.claimsRight then after.head? else none⟩
      passForward s tier (budget - 1)
        (node :: if kind.claimsLeft then before.tail else before)
        (if kind.claimsRight then after.tail else after)) := by
  have hpositive : ¬ budget = 0 := by omega
  rw [passForward_cons, pendingAt?_pending, if_pos htier]
  simp only [if_neg hpositive]

/-- An operator that claims no neighbours. -/
lemma Turns.alone (htier : kind.tier = tier) (hleft : kind.claimsLeft = false)
    (hright : kind.claimsRight = false)
    (h : Yields names names' (Shows s.registry x)
      (settle s span ⟨kind, token, parameters, none, none⟩)) :
    Turns s tier 1 names names' [⟨token, span, .pending kind parameters⟩]
      (IsOne s.registry x) := by
  intro before after budget hbudget last Q hrest
  rw [List.singleton_append, passForward_pending htier hbudget, hleft, hright]
  simp only [Bool.false_eq_true, if_false]
  exact h.bind fun item hitem => hrest [item] ⟨item, rfl, hitem⟩

/-- An operator that claims the item before it. -/
lemma Turns.behind {left : Item} (hidle : pendingAt? tier left = none) (htier : kind.tier = tier)
    (hleft : kind.claimsLeft = true) (hright : kind.claimsRight = false)
    (h : Yields names names' (Shows s.registry x)
      (settle s span ⟨kind, token, parameters, some left, none⟩)) :
    Turns s tier 1 names names' [left, ⟨token, span, .pending kind parameters⟩]
      (IsOne s.registry x) := by
  intro before after budget hbudget last Q hrest
  have hskip := passForward_idle (s := s) (idle_cons.mpr ⟨hidle, .nil⟩) budget before
    (⟨token, span, .pending kind parameters⟩ :: after)
  rw [List.cons_append, List.singleton_append, ← List.singleton_append, hskip,
    passForward_pending htier hbudget, hleft, hright]
  simp only [Bool.false_eq_true, if_false, if_true, List.reverse_singleton, List.singleton_append,
    List.head?_cons, List.tail_cons]
  exact h.bind fun item hitem => hrest [item] ⟨item, rfl, hitem⟩

/-- An operator that claims the items on both sides. -/
lemma Turns.amid {left right : Item} (hidle : pendingAt? tier left = none)
    (htier : kind.tier = tier) (hleft : kind.claimsLeft = true) (hright : kind.claimsRight = true)
    (h : Yields names names' (Shows s.registry x)
      (settle s span ⟨kind, token, parameters, some left, some right⟩)) :
    Turns s tier 1 names names' [left, ⟨token, span, .pending kind parameters⟩, right]
      (IsOne s.registry x) := by
  intro before after budget hbudget last Q hrest
  have hskip := passForward_idle (s := s) (idle_cons.mpr ⟨hidle, .nil⟩) budget before
    (⟨token, span, .pending kind parameters⟩ :: right :: after)
  rw [List.cons_append, List.cons_append, List.singleton_append, ← List.singleton_append, hskip,
    passForward_pending htier hbudget, hleft, hright]
  simp only [if_true, List.reverse_singleton, List.singleton_append, List.head?_cons,
    List.tail_cons]
  exact h.bind fun item hitem => hrest [item] ⟨item, rfl, hitem⟩

/-! ## Passes from right to left -/

/-- A pass from the back leaves idle items as they are. -/
lemma passBackward_idle {items : List Item} (h : Idle tier items) (budget : Nat) :
    passBackward s tier budget items = pure (items, budget) := by
  induction items with
  | nil => rfl
  | cons item items ih =>
    obtain ⟨hitem, hitems⟩ := idle_cons.mp h
    rw [passBackward_cons, ih hitems, pure_bind]
    dsimp only
    rw [hitem]

/-- What a pass makes of the only operator that it settles, which claims the item after it. -/
lemma yields_passBackward {before after : List Item} {right : Item} (hbefore : Idle tier before)
    (hafter : Idle tier (right :: after)) (htier : kind.tier = tier)
    (hright : kind.claimsRight = true) {budget : Nat} (hbudget : 1 ≤ budget)
    (h : Yields names names' (Shows s.registry x)
      (settle s span ⟨kind, token, parameters, none, some right⟩)) :
    Yields names names'
      (fun made => (∃ item, made.1 = before ++ item :: after ∧ Shows s.registry x item) ∧
        made.2 = budget - 1)
      (passBackward s tier budget
        (before ++ ⟨token, span, .pending kind parameters⟩ :: right :: after)) := by
  induction before with
  | nil =>
    have hpositive : ¬ budget = 0 := by omega
    rw [List.nil_append, passBackward_cons, passBackward_idle hafter, pure_bind]
    dsimp only
    rw [pendingAt?_pending, if_pos htier]
    simp only [if_neg hpositive, hright, if_true, List.head?_cons, List.tail_cons]
    exact h.bind fun item hitem => .pure ⟨⟨item, rfl, hitem⟩, rfl⟩
  | cons first before ih =>
    obtain ⟨hfirst, hrest⟩ := idle_cons.mp hbefore
    rw [List.cons_append, passBackward_cons]
    refine (ih hrest).bind ?_
    rintro ⟨made, left⟩ ⟨⟨item, hmade, hitem⟩, hleft⟩
    dsimp only at hmade hleft ⊢
    rw [hfirst]
    refine .pure ⟨⟨item, ?_, hitem⟩, hleft⟩
    rw [hmade, List.cons_append]

end

/-! ## The first three tiers -/

/-- The passes over the first three tiers. -/
def early (s : Setting) (budget : Nat) (items : List Item) : Parse (List Item × Nat) := do
  let (items, budget) ← passForward s 1 budget [] items
  let (items, budget) ← passForward s 2 budget [] items
  passBackward s 3 budget items

/-- The passes are the first three tiers, the one of negations from the back, and the last one. -/
lemma passes_eq (s : Setting) (items : List Item) :
    passes s items = (do
      let (items, budget) ← early s s.ceilings.steps items
      let (items, budget) ← passBackward s 4 budget items
      let (items, _) ← passForward s 5 budget [] items
      return items) := by
  simp only [passes, early, bind_assoc]

/-- Whether the first three tiers pass some items by. -/
def Late (items : List Item) : Prop := Idle 1 items ∧ Idle 2 items ∧ Idle 3 items

/-- Without items nothing waits that should have been settled early. -/
lemma Late.nil : Late [] := ⟨.nil, .nil, .nil⟩

/-- Items in two parts are late if both parts are. -/
lemma late_append {xs ys : List Item} : Late (xs ++ ys) ↔ Late xs ∧ Late ys := by
  simp only [Late, idle_append]
  tauto

/-- Whether the first three tiers make one item of some items, whatever stands around them. -/
def Condenses (s : Setting) (rounds : Nat) (names names' : List String) (items : List Item)
    (x : Operand) : Prop :=
  ∀ before after, Late before → Late after → ∀ budget, rounds ≤ budget →
    Yields names names'
      (fun made => (∃ item, made.1 = before ++ item :: after ∧ Shows s.registry x item) ∧
        made.2 = budget - rounds)
      (early s budget (before ++ items ++ after))

section

variable {x : Operand} {items : List Item}

/-- What two passes to the right make one item of is condensed. -/
lemma Condenses.of_turns {m n : Nat} (first : List Item → Prop)
    (h : Turns s 1 m names names' items first)
    (h' : ∀ made, first made → Turns s 2 n names' names'' made (IsOne s.registry x)) :
    Condenses s (m + n) names names'' items x := by
  intro before after hbefore hafter budget hbudget
  have around : ∀ {tier rounds : Nat} {names names' : List String} {items : List Item}
      {P : List Item → Prop}, Idle tier before → Idle tier after →
      Turns s tier rounds names names' items P →
      Turns s tier rounds names names' (before ++ items ++ after)
        (fun made => ∃ inner, P inner ∧ made = before ++ inner ++ after) := by
    intro tier rounds names names' items P hb ha hitems
    have hbefore : Turns s tier 0 names names before (· = before) := .idle hb
    have hwhole := (hbefore.append hitems).append (.idle ha)
    rw [Nat.zero_add, Nat.add_zero] at hwhole
    refine hwhole.mono ?_
    rintro _ ⟨_, _, ⟨_, inner, rfl, hinner, rfl⟩, rfl, rfl⟩
    exact ⟨inner, hinner, rfl⟩
  refine ((around hbefore.1 hafter.1 h).yields (by omega)).bind ?_
  rintro ⟨_, left⟩ ⟨⟨made, hmade, rfl⟩, rfl⟩
  dsimp only
  refine ((around hbefore.2.1 hafter.2.1 (h' made hmade)).yields (by omega)).bind ?_
  rintro ⟨_, left⟩ ⟨⟨_, ⟨item, rfl, hitem⟩, rfl⟩, rfl⟩
  have hidle : Idle 3 (before ++ [item] ++ after) := by
    rw [idle_append, idle_append, idle_cons]
    exact ⟨⟨hbefore.2.2, pendingAt?_of_shows hitem, .nil⟩, hafter.2.2⟩
  dsimp only
  rw [passBackward_idle hidle]
  exact .pure ⟨⟨item, by simp, hitem⟩, Nat.sub_sub _ _ _⟩

/-- An item that shows an operand is condensed already. -/
lemma Condenses.of_shows {item : Item} (h : Shows s.registry x item) :
    Condenses s 0 names names [item] x := by
  have hidle : ∀ tier, Idle tier [item] := fun tier =>
    idle_cons.mpr ⟨pendingAt?_of_shows h, .nil⟩
  refine Condenses.of_turns (m := 0) (n := 0) (· = [item]) (.idle (hidle 1)) fun made hmade => ?_
  subst hmade
  exact (Turns.idle (hidle 2)).mono fun made hmade => ⟨item, hmade, h⟩

/-- An existence test is condensed in the third tier. -/
lemma Condenses.of_prefix {kind : Kind} {token : Token} {span : Span}
    {parameters : Option (List Item)} {right : Item} (htier : kind.tier = 3)
    (hright : kind.claimsRight = true) (hidle : ∀ tier, pendingAt? tier right = none)
    (h : Yields names names' (Shows s.registry x)
      (settle s span ⟨kind, token, parameters, none, some right⟩)) :
    Condenses s 1 names names' [⟨token, span, .pending kind parameters⟩, right] x := by
  intro before after hbefore hafter budget hbudget
  have hpass : ∀ tier, tier ≠ 3 → Idle tier before → Idle tier after →
      Idle tier (before ++ [⟨token, span, .pending kind parameters⟩, right] ++ after) := by
    intro tier htier' hb ha
    rw [idle_append, idle_append, idle_cons, idle_cons, pendingAt?_pending, htier]
    exact ⟨⟨hb, if_neg (Ne.symm htier'), hidle tier, .nil⟩, ha⟩
  refine ((Turns.idle (hpass 1 (by decide) hbefore.1 hafter.1)).yields (Nat.zero_le _)).bind ?_
  rintro ⟨_, _⟩ ⟨rfl, rfl⟩
  refine ((Turns.idle (hpass 2 (by decide) hbefore.2.1 hafter.2.1)).yields (Nat.zero_le _)).bind ?_
  rintro ⟨_, _⟩ ⟨rfl, rfl⟩
  have hthird := yields_passBackward hbefore.2.2 (idle_cons.mpr ⟨hidle 3, hafter.2.2⟩) htier hright
    hbudget h
  simpa using hthird

end

/-! ## Whole phrases -/

section

variable {x : Operand}

/-- Reducing ends where the passes have left one finished item. -/
lemma yields_reduce {items : List Item}
    (h : Yields names names' (IsOne s.registry x) (passes s items)) :
    Yields names names' (Shows s.registry x) (reduce s items) := by
  refine h.bind ?_
  rintro _ ⟨item, rfl, hitem⟩
  have hsettled : ([item].find? fun item => (pendingAt? 0 item).isSome) = none := by
    simp [pendingAt?_of_shows hitem]
  simp only [hsettled]
  exact .pure hitem

/-- Items that become one item once `AS` is settled: the first of them are condensed, and the names
stand behind them. -/
def Chains (s : Setting) (rounds : Nat) (names names' : List String) (items : List Item)
    (x : Operand) : Prop :=
  ∃ (base suffix : List Item) (y : Operand) (m n : Nat) (middle : List String),
    items = base ++ suffix ∧ rounds = m + n ∧ Condenses s m names middle base y ∧ Late suffix ∧
      Idle 4 suffix ∧ ∀ item, Shows s.registry y item →
        Turns s 5 n middle names' (item :: suffix) (IsOne s.registry x)

/-- Items that come to one operand are a chain of one. -/
lemma Chains.of_condenses {items : List Item} (h : Condenses s rounds names names' items x) :
    Chains s rounds names names' items x := by
  refine ⟨items, [], x, rounds, 0, names', by simp, by simp, h, .nil, .nil, fun item hitem => ?_⟩
  exact (Turns.idle (idle_cons.mpr ⟨pendingAt?_of_shows hitem, .nil⟩)).mono
    fun made hmade => ⟨item, hmade, hitem⟩

/-- A name makes a longer chain. -/
lemma Chains.naming {y : Operand} {items : List Item} {token : Token} {span : Span}
    {parameters : Option (List Item)} {name : Token}
    (h : Chains s rounds names names' items y)
    (hsettle : ∀ left, Shows s.registry y left → Yields names' names'' (Shows s.registry x)
      (settle s span ⟨.asName, token, parameters, some left, some (ofToken name)⟩)) :
    Chains s (rounds + 1) names names''
      (items ++ [⟨token, span, .pending .asName parameters⟩, ofToken name]) x := by
  obtain ⟨base, suffix, z, m, n, middle, rfl, rfl, hbase, hlate, hidle, hturns⟩ := h
  have hidle' : ∀ tier, tier ≠ 5 →
      Idle tier [⟨token, span, .pending .asName parameters⟩, ofToken name] := by
    intro tier htier
    rw [idle_cons, idle_cons, pendingAt?_pending]
    exact ⟨if_neg (Ne.symm htier), rfl, .nil⟩
  refine ⟨base, suffix ++ [_, _], z, m, n + 1, middle, List.append_assoc _ _ _, by omega, hbase,
    late_append.mpr ⟨hlate, hidle' 1 (by decide), hidle' 2 (by decide), hidle' 3 (by decide)⟩,
    idle_append.mpr ⟨hidle, hidle' 4 (by decide)⟩, fun item hitem => ?_⟩
  intro before after budget hbudget last Q hrest
  rw [← List.cons_append, List.append_assoc]
  refine hturns item hitem before _ budget (by omega) _ _ ?_
  rintro _ ⟨left, rfl, hleft⟩
  have htier : Kind.asName.tier = 5 := rfl
  have hnext := Turns.amid (x := x) (pendingAt?_of_shows hleft) htier rfl rfl (hsettle left hleft)
  have hleftIdle : Idle 5 [left] := idle_cons.mpr ⟨pendingAt?_of_shows hleft, .nil⟩
  have hskip := passForward_idle (s := s) hleftIdle (budget - n) before
    ([⟨token, span, .pending .asName parameters⟩, ofToken name] ++ after)
  rw [← hskip]
  refine hnext before after (budget - n) (by omega) last Q fun made hmade => ?_
  rw [Nat.sub_sub]
  exact hrest made hmade

/-- A chain is reduced to one item. -/
lemma Chains.reduce {items : List Item} (h : Chains s rounds names names' items x)
    (hrounds : rounds ≤ s.ceilings.steps) :
    Yields names names' (Shows s.registry x) (reduce s items) := by
  obtain ⟨base, suffix, y, m, n, middle, rfl, rfl, hbase, hlate, hidle, hturns⟩ := h
  refine yields_reduce ?_
  rw [passes_eq]
  have hearly := hbase [] suffix .nil hlate s.ceilings.steps (by omega)
  rw [List.nil_append] at hearly
  refine hearly.bind ?_
  rintro ⟨_, _⟩ ⟨⟨item, rfl, hitem⟩, rfl⟩
  have hfourth : Idle 4 ([] ++ item :: suffix) := idle_cons.mpr ⟨pendingAt?_of_shows hitem, hidle⟩
  dsimp only
  rw [passBackward_idle hfourth, pure_bind]
  refine ((hturns item hitem).yields (by omega)).bind ?_
  rintro ⟨_, _⟩ ⟨hone, -⟩
  exact .pure hone

/-- What is condensed behind `NOT` is reduced to its negation. -/
lemma Condenses.reduce_not {items : List Item} {y : Operand} {token : Token} {span : Span}
    {parameters : Option (List Item)} (h : Condenses s rounds names names' items y)
    (hrounds : rounds + 1 ≤ s.ceilings.steps)
    (hsettle : ∀ right, Shows s.registry y right → Yields names' names'' (Shows s.registry x)
      (settle s span ⟨.not, token, parameters, none, some right⟩)) :
    Yields names names'' (Shows s.registry x)
      (reduce s (⟨token, span, .pending .not parameters⟩ :: items)) := by
  refine yields_reduce ?_
  rw [passes_eq]
  have hlate : Late [⟨token, span, .pending .not parameters⟩] := by
    refine ⟨?_, ?_, ?_⟩ <;> rw [idle_cons, pendingAt?_pending] <;> exact ⟨rfl, .nil⟩
  have hearly := h _ [] hlate .nil s.ceilings.steps (by omega)
  rw [List.append_nil, List.singleton_append] at hearly
  refine hearly.bind ?_
  rintro ⟨_, _⟩ ⟨⟨right, rfl, hright⟩, rfl⟩
  dsimp only
  have hbefore : Idle 4 [] := .nil
  have hfourth := yields_passBackward hbefore
    (idle_cons.mpr ⟨pendingAt?_of_shows hright, .nil⟩) rfl rfl
    (show 1 ≤ s.ceilings.steps - rounds by omega) (hsettle right hright)
  refine hfourth.bind ?_
  rintro ⟨_, _⟩ ⟨⟨item, rfl, hitem⟩, rfl⟩
  dsimp only
  have hfifth : Idle 5 ([] ++ [item]) := idle_cons.mpr ⟨pendingAt?_of_shows hitem, .nil⟩
  refine ((Turns.idle hfifth).yields (Nat.zero_le _)).bind ?_
  rintro ⟨_, _⟩ ⟨rfl, -⟩
  exact .pure ⟨item, rfl, hitem⟩

end

end Phrase

end RecordQuery
