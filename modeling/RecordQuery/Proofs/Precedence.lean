import Mathlib.Data.List.SplitBy
import RecordQuery.Proofs.ConditionValue
import RecordQuery.Proofs.Joining

/-!
# `AND` binds tighter than `OR`

Phrases with connectives between them are drawn one after the other and fold into one condition.
What it comes to is a `Formula` whose leaves are the places of the phrases: the connectives alone
decide it. The places are cut into the longest runs that `AND` goes through, a run of several
becomes a group, and so do several runs. Every place stands in the formula once, in order, and
whatever the phrases are worth, the formula is worth what the chain is when it is read as an infix
expression.

The phrases are drawn on the notes that the phrases before them leave, so a chain is told together
with the notes at its ends.
-/

namespace RecordQuery

/-! ## Runs -/

section

variable {α β : Type} {r : α → α → Bool} {a b : α} {l : List α}

/-- A list is split between two members that are not related. -/
lemma splitBy_cons_cons_of_false (h : r a b = false) :
    (a :: b :: l).splitBy r = [a] :: (b :: l).splitBy r :=
  List.splitBy_append_cons (l := [a]) (r := r) (a := b) l (by simpa using h)

/-- A list is not split between two members that are related. -/
lemma splitBy_cons_cons_of_true {run : List α} {runs : List (List α)} (h : r a b = true)
    (hrest : (b :: l).splitBy r = run :: runs) : (a :: b :: l).splitBy r = (a :: run) :: runs := by
  obtain ⟨hflatten, hne, hinner, houter⟩ := List.splitBy_eq_iff.mp hrest
  obtain ⟨c, run, rfl⟩ := List.exists_cons_of_ne_nil (l := run) (by rintro rfl; simp at hne)
  obtain ⟨rfl, -⟩ := List.cons.inj hflatten
  obtain ⟨hrun, hruns⟩ := List.forall_mem_cons.mp hinner
  refine List.splitBy_eq_iff.mpr ⟨by simp [hflatten], by simpa using hne, ?_, ?_⟩
  · exact List.forall_mem_cons.mpr ⟨List.isChain_cons_cons.mpr ⟨h, hrun⟩, hruns⟩
  · cases runs with
    | nil => exact .singleton _
    | cons next more =>
      obtain ⟨⟨_, hnext, hlast⟩, hmore⟩ := List.isChain_cons_cons.mp houter
      exact List.isChain_cons_cons.mpr ⟨⟨List.cons_ne_nil _ _, hnext, hlast⟩, hmore⟩

/-- Splitting a list and changing its members can be done in any order. -/
lemma splitBy_map (f : α → β) (r : β → β → Bool) (l : List α) :
    (l.map f).splitBy r = (l.splitBy fun a b => r (f a) (f b)).map (List.map f) := by
  obtain ⟨hflatten, -, hinner, houter⟩ :=
    List.splitBy_eq_iff.mp (rfl : (l.splitBy fun a b => r (f a) (f b)) = _)
  refine List.splitBy_eq_iff.mpr ⟨?_, by simp, ?_, ?_⟩
  · rw [← List.map_flatten, ← hflatten]
  · rintro _ hmem
    obtain ⟨run, hrun, rfl⟩ := List.mem_map.mp hmem
    exact (List.isChain_map f).mpr (hinner run hrun)
  · refine (List.isChain_map _).mpr (houter.imp ?_)
    rintro run next ⟨hrun, hnext, hlast⟩
    refine ⟨by simpa using hrun, by simpa using hnext, ?_⟩
    rwa [List.getLast_map, List.head_map]

end

/-! ## Formulas -/

/-- The connectives between phrases, as a formula over the places of the phrases. -/
inductive Formula where
  | phrase (place : Nat)
  | group (connective : Connective) (parts : List Formula)

namespace Formula

mutual

/-- The places in a formula, in order. -/
def places : Formula → List Nat
  | phrase place => [place]
  | group _ parts => placesAll parts

/-- The places in some formulas, in order. -/
def placesAll : List Formula → List Nat
  | [] => []
  | formula :: rest => places formula ++ placesAll rest

end

mutual

/-- What a formula is worth, given what the phrases are worth. -/
def value (truth : Nat → Bool) : Formula → Bool
  | phrase place => truth place
  | group .and parts => allHold truth parts
  | group .or parts => someHolds truth parts

/-- Whether all of some formulas hold. -/
def allHold (truth : Nat → Bool) : List Formula → Bool
  | [] => true
  | formula :: rest => value truth formula && allHold truth rest

/-- Whether one of some formulas holds. -/
def someHolds (truth : Nat → Bool) : List Formula → Bool
  | [] => false
  | formula :: rest => value truth formula || someHolds truth rest

end

mutual

/-- Whether an operator is what a formula comes to, given the conditions at the places. A group has
the span of what it was made of. -/
def Shows (conditions : List Operator) : Formula → Operator → Prop
  | phrase place, op => conditions[place]? = some op
  | group connective parts, op => ∃ operators span,
      ShowsAll conditions parts operators ∧ op = (Operator.group connective operators).withSpan span

/-- Whether operators are what formulas come to. -/
def ShowsAll (conditions : List Operator) : List Formula → List Operator → Prop
  | [], operators => operators = []
  | formula :: rest, operators => ∃ op more,
      Shows conditions formula op ∧ ShowsAll conditions rest more ∧ operators = op :: more

end

/-- Formulas with a connective between them. One alone stays what it is. -/
def join (connective : Connective) : List Formula → Formula
  | [formula] => formula
  | formulas => group connective formulas

/-- The longest runs of places that `AND` goes through. The connective at a place stands between the
phrase at that place and the next one. -/
def runs (connectives : List Connective) : List (List Nat) :=
  (List.range (connectives.length + 1)).splitBy fun place _ => connectives[place]? == some .and

/-- What a chain of phrases comes to: the runs, each joined by `AND`, joined by `OR`. -/
def ofChain (connectives : List Connective) : Formula :=
  join .or ((runs connectives).map fun run => join .and (run.map phrase))

/-- What an infix expression is worth whose first part is worth `acc`, when `AND` binds tighter than
`OR`. -/
def infixValue (acc : Bool) : List (Connective × Bool) → Bool
  | [] => acc
  | (.and, value) :: rest => infixValue (acc && value) rest
  | (.or, value) :: rest => acc || infixValue value rest

/-- What a chain of phrases is worth as an infix expression. -/
def chainValue (truth : Nat → Bool) (connectives : List Connective) : Bool :=
  infixValue (truth 0) (connectives.mapIdx fun place connective => (connective, truth (place + 1)))

/-! ## Runs of a chain -/

/-- The places behind the first one have the runs of the chain behind the first connective. -/
lemma splitBy_behind (connective : Connective) (connectives : List Connective) :
    ((List.range (connectives.length + 1)).map Nat.succ).splitBy
        (fun place _ => (connective :: connectives)[place]? == some .and) =
      (runs connectives).map (List.map Nat.succ) := by
  rw [splitBy_map]
  rfl

/-- The places of a chain begin with the first, and with the first two where the chain has
a link. -/
lemma range_eq (connectives : List Connective) :
    ∃ more, (List.range (connectives.length + 1)).map Nat.succ = 1 :: more ∧
      ∀ connective : Connective,
        List.range ((connective :: connectives).length + 1) = 0 :: 1 :: more := by
  refine ⟨((List.range connectives.length).map Nat.succ).map Nat.succ, ?_, fun _ => ?_⟩
  · rw [List.range_succ_eq_map]; rfl
  · rw [List.length_cons, List.range_succ_eq_map, List.range_succ_eq_map]; rfl

/-- `OR` ends the first run. -/
lemma runs_or (connectives : List Connective) :
    runs (.or :: connectives) = [0] :: (runs connectives).map (List.map Nat.succ) := by
  obtain ⟨more, hmore, hrange⟩ := range_eq connectives
  rw [← splitBy_behind .or, hmore, runs, hrange]
  exact splitBy_cons_cons_of_false rfl

/-- `AND` goes on with the first run. -/
lemma runs_and {connectives : List Connective} {run : List Nat} {rest : List (List Nat)}
    (h : runs connectives = run :: rest) :
    runs (.and :: connectives) = (0 :: run.map Nat.succ) :: rest.map (List.map Nat.succ) := by
  obtain ⟨more, hmore, hrange⟩ := range_eq connectives
  have hbehind := splitBy_behind .and connectives
  rw [hmore, h] at hbehind
  rw [runs, hrange]
  exact splitBy_cons_cons_of_true rfl hbehind

/-- There is always a run. -/
lemma runs_ne_nil (connectives : List Connective) : runs connectives ≠ [] := by
  simp [runs]

/-- The runs have all places, in order. -/
lemma flatten_runs (connectives : List Connective) :
    (runs connectives).flatten = List.range (connectives.length + 1) := List.flatten_splitBy _ _

/-! ## What a chain is worth -/

/-- The places of formulas come in the order of the formulas. -/
lemma placesAll_eq (formulas : List Formula) : placesAll formulas = formulas.flatMap places := by
  induction formulas with
  | nil => rfl
  | cons formula rest ih => rw [placesAll, ih, List.flatMap_cons]

/-- All formulas hold if each of them does. -/
lemma allHold_eq (truth : Nat → Bool) (formulas : List Formula) :
    allHold truth formulas = formulas.all (value truth) := by
  induction formulas with
  | nil => rfl
  | cons formula rest ih => rw [allHold, ih, List.all_cons]

/-- Some formula holds if one of them does. -/
lemma someHolds_eq (truth : Nat → Bool) (formulas : List Formula) :
    someHolds truth formulas = formulas.any (value truth) := by
  induction formulas with
  | nil => rfl
  | cons formula rest ih => rw [someHolds, ih, List.any_cons]

/-- Joined formulas have the places of all of them, in order. -/
lemma places_join (connective : Connective) (formulas : List Formula) :
    (join connective formulas).places = formulas.flatMap places := by
  unfold join
  split
  · simp
  · rw [places, placesAll_eq]

/-- Formulas joined by `AND` hold if all of them do. -/
lemma value_join_and (truth : Nat → Bool) (formulas : List Formula) :
    (join .and formulas).value truth = formulas.all (value truth) := by
  unfold join
  split
  · simp
  · rw [value, allHold_eq]

/-- Formulas joined by `OR` hold if one of them does. -/
lemma value_join_or (truth : Nat → Bool) (formulas : List Formula) :
    (join .or formulas).value truth = formulas.any (value truth) := by
  unfold join
  split
  · simp
  · rw [value, someHolds_eq]

/-- Every place stands in the formula of a chain once, in order. -/
lemma places_ofChain (connectives : List Connective) :
    (ofChain connectives).places = List.range (connectives.length + 1) := by
  rw [ofChain, places_join, List.flatMap_map, ← flatten_runs, List.flatten_eq_flatMap]
  refine List.flatMap_congr fun run _ => ?_
  rw [places_join, List.flatMap_map]
  simp [places]

/-- The formula of a chain holds if some run of it does with all its places. -/
lemma value_ofChain_eq (truth : Nat → Bool) (connectives : List Connective) :
    (ofChain connectives).value truth = (runs connectives).any fun run => run.all truth := by
  have hrun : ∀ run : List Nat, (join .and (run.map phrase)).value truth = run.all truth := by
    intro run
    rw [value_join_and, List.all_map]
    exact congrArg run.all (funext fun place => value.eq_1 truth place)
  rw [ofChain, value_join_or, List.any_map]
  exact congrArg (runs connectives).any (funext hrun)

/-- The infix expression is worth what its runs are worth, of which the first has `acc` in front. -/
lemma infixValue_eq (acc : Bool) (truth : Nat → Bool) {connectives : List Connective}
    {run : List Nat} {rest : List (List Nat)} (h : runs connectives = run :: rest) :
    infixValue (acc && truth 0)
        (connectives.mapIdx fun place connective => (connective, truth (place + 1))) =
      ((acc && run.all truth) || rest.any fun run => run.all truth) := by
  induction connectives generalizing acc truth run rest with
  | nil =>
    obtain ⟨rfl, rfl⟩ := List.cons.inj h
    simp [infixValue]
  | cons connective connectives ih =>
    obtain ⟨first, more, hbehind⟩ := List.exists_cons_of_ne_nil (runs_ne_nil connectives)
    have hshift : ∀ places : List Nat,
        (places.map Nat.succ).all truth = places.all fun place => truth (place + 1) := by
      intro places
      rw [List.all_map]
      rfl
    rw [List.mapIdx_cons]
    cases connective with
    | and =>
      rw [runs_and hbehind] at h
      obtain ⟨rfl, rfl⟩ := List.cons.inj h
      have hvalue := ih (acc && truth 0) (fun place => truth (place + 1)) hbehind
      rw [infixValue, hvalue]
      simp [hshift, List.any_map, Function.comp_def, Bool.and_assoc]
    | or =>
      rw [runs_or, hbehind] at h
      obtain ⟨rfl, rfl⟩ := List.cons.inj h
      have hvalue := ih true (fun place => truth (place + 1)) hbehind
      rw [Bool.true_and] at hvalue
      rw [infixValue, hvalue]
      simp [hshift, List.any_map, Function.comp_def]

/-- The formula of a chain is worth what the chain is worth as an infix expression. -/
lemma value_ofChain (truth : Nat → Bool) (connectives : List Connective) :
    (ofChain connectives).value truth = chainValue truth connectives := by
  obtain ⟨run, rest, hruns⟩ := List.exists_cons_of_ne_nil (runs_ne_nil connectives)
  have hvalue := infixValue_eq true truth hruns
  rw [Bool.true_and, Bool.true_and] at hvalue
  rw [chainValue, hvalue, value_ofChain_eq, hruns, List.any_cons]

/-! ## Values on records -/

mutual

/-- The operator that a formula comes to holds on a record where the formula does. -/
lemma holdsOf_of_shows (subject : Subject) {conditions : List Operator} :
    (formula : Formula) → (op : Operator) → formula.Shows conditions op →
      op.holdsOf subject =
        formula.value fun place => (conditions[place]?).any (Operator.holdsOf subject)
  | phrase place, op, h => by
    rw [Shows] at h
    rw [value, h, Option.any_some]
  | group connective parts, op, h => by
    rw [Shows] at h
    obtain ⟨operators, span, hparts, rfl⟩ := h
    have hvalues := holdsOf_of_showsAll subject parts operators hparts
    refine (Operator.holdsOf_group subject (some span) connective operators).trans ?_
    cases connective with
    | and =>
      rw [value, allHold_eq]
      simpa [List.all_map, Function.comp_def] using congrArg (List.all · id) hvalues
    | or =>
      rw [value, someHolds_eq]
      simpa [List.any_map, Function.comp_def] using congrArg (List.any · id) hvalues

/-- Operators that show formulas hold of a record where the formulas do. -/
lemma holdsOf_of_showsAll (subject : Subject) {conditions : List Operator} :
    (formulas : List Formula) → (operators : List Operator) →
      ShowsAll conditions formulas operators →
      operators.map (Operator.holdsOf subject) =
        formulas.map (value fun place => (conditions[place]?).any (Operator.holdsOf subject))
  | [], operators, h => by
    rw [ShowsAll] at h
    rw [h, List.map_nil, List.map_nil]
  | formula :: rest, operators, h => by
    rw [ShowsAll] at h
    obtain ⟨op, more, hop, hmore, rfl⟩ := h
    rw [List.map_cons, List.map_cons, holdsOf_of_shows subject formula op hop,
      holdsOf_of_showsAll subject rest more hmore]

end

end Formula

namespace Phrase

open Reader

/-! ## Folding -/

/-- The things in a chain. -/
def Chain.parts {α : Type} (chain : Chain α) : List α := chain.first :: chain.more.map Prod.snd

/-- The runs of a chain are those of its connectives. -/
lemma forall₂_andRuns {α : Type} {R : Nat → α → Prop} {connectives : List Connective} {first : α}
    {links : List (Token × α)}
    (hlinks : List.Forall₂ (fun connective link => link.1.rule = some connective.kind)
      connectives links)
    (h : List.Forall₂ R (List.range (connectives.length + 1)) (first :: links.map Prod.snd)) :
    List.Forall₂ (List.Forall₂ R) (Formula.runs connectives)
      ((andRuns first links).parts.map Chain.parts) := by
  induction hlinks generalizing first R with
  | nil => exact .cons h .nil
  | @cons connective link connectives links hrule _ ih =>
    obtain ⟨token, next⟩ := link
    rw [List.length_cons, List.range_succ_eq_map, List.map_cons] at h
    obtain ⟨hfirst, hrest⟩ := List.forall₂_cons.mp h
    have hbehind := ih (List.forall₂_map_left_iff.mp hrest)
    -- the places behind the first one are counted from there on
    have hshift : ∀ {runs : List (List Nat)} {parts : List (List α)},
        List.Forall₂ (List.Forall₂ fun place => R (place + 1)) runs parts →
          List.Forall₂ (List.Forall₂ R) (runs.map (List.map Nat.succ)) parts := fun hruns =>
      List.forall₂_map_left_iff.mpr (hruns.imp fun _ _ hrun => List.forall₂_map_left_iff.mpr hrun)
    cases connective with
    | and =>
      obtain ⟨run, rest, hruns⟩ := List.exists_cons_of_ne_nil (Formula.runs_ne_nil connectives)
      have hsplit : (andRuns first ((token, next) :: links)).parts.map Chain.parts =
          (first :: (andRuns next links).first.parts) ::
            ((andRuns next links).more.map Prod.snd).map Chain.parts := by
        rw [andRuns, if_pos (show token.rule = some .and from hrule)]
        rfl
      rw [hruns] at hbehind
      obtain ⟨hrun, hmore⟩ := List.forall₂_cons.mp hbehind
      rw [Formula.runs_and hruns, hsplit]
      exact .cons (.cons hfirst (List.forall₂_map_left_iff.mpr hrun)) (hshift hmore)
    | or =>
      have hor : ¬ token.rule = some .and := by
        rw [show token.rule = some .or from hrule]
        decide
      have hsplit : (andRuns first ((token, next) :: links)).parts.map Chain.parts =
          [first] :: (andRuns next links).parts.map Chain.parts := by
        rw [andRuns, if_neg hor]
        rfl
      rw [Formula.runs_or, hsplit]
      exact .cons (.cons hfirst .nil) (hshift hbehind)

/-- Whether an item is the condition that a formula comes to. -/
def ComesTo (conditions : List Operator) (formula : Formula) (item : Item) : Prop :=
  ∃ op, item.condition? = some op ∧ formula.Shows conditions op

variable {s : Setting} {conditions : List Operator}

/-- Items that come to formulas are read as operators that show them. -/
lemma on_conditions (notes : Notes) (connective : Connective) {formulas : List Formula}
    {items : List Item} (h : List.Forall₂ (ComesTo conditions) formulas items) :
    ∃ operators, on (Phrase.conditions s connective items) notes = (.ok operators, notes) ∧
      Formula.ShowsAll conditions formulas operators := by
  induction h with
  | nil => exact ⟨[], rfl, by rw [Formula.ShowsAll]⟩
  | cons hitem _ ih =>
    obtain ⟨op, hop, hshows⟩ := hitem
    obtain ⟨operators, hon, hall⟩ := ih
    refine ⟨op :: operators, ?_, ?_⟩
    · rw [Phrase.conditions, hop]
      simp [hon]
    · rw [Formula.ShowsAll]
      exact ⟨op, operators, hshows, hall, rfl⟩

/-- Joining conditions makes what joining their formulas comes to. -/
lemma on_join (notes : Notes) (connective : Connective) {formulas : List Formula}
    {chain : Chain Item} (h : List.Forall₂ (ComesTo conditions) formulas chain.parts) :
    ∃ item notes', on (join s connective chain) notes = (.ok item, notes') ∧
      ComesTo conditions (Formula.join connective formulas) item := by
  obtain ⟨first, links⟩ := chain
  cases links with
  | nil =>
    obtain ⟨formula, hfirst, rfl⟩ : ∃ formula, ComesTo conditions formula first ∧
        formulas = [formula] := by
      simpa [Chain.parts, List.forall₂_cons_right_iff] using h
    exact ⟨first, notes, rfl, hfirst⟩
  | cons link links =>
    obtain ⟨anchor, second⟩ := link
    obtain ⟨operators, hon, hshows⟩ := on_conditions (s := s) notes connective h
    have hgroup : Formula.join connective formulas = .group connective formulas := by
      have hlength := h.length_eq
      rw [Formula.join]
      rintro formula rfl
      simp [Chain.parts] at hlength
    have hcondition : ∀ span,
        ((Operator.group connective operators).withSpan span).isCondition = true := by
      intro span
      cases connective <;> rfl
    have hjoin : ∃ span notes', on (join s connective ⟨first, (anchor, second) :: links⟩) notes =
        (.ok ⟨anchor, span,
          .node (.operator ((Operator.group connective operators).withSpan span))⟩, notes') := by
      rw [Chain.parts] at hon
      unfold join
      dsimp only
      rw [on_bind, hon, goOn_ok]
      exact ⟨_, _, rfl⟩
    obtain ⟨span, notes', hjoin⟩ := hjoin
    refine ⟨_, notes', hjoin, _, if_pos (hcondition span), ?_⟩
    rw [hgroup, Formula.Shows]
    exact ⟨operators, span, hshows, rfl⟩

/-- Joining the runs of a chain, one after the other. -/
lemma on_joinRuns (notes : Notes) {runs : List (List Formula)} {links : List (Token × Chain Item)}
    (h : List.Forall₂ (fun run link => List.Forall₂ (ComesTo conditions) run (Prod.snd link).parts)
      runs links) :
    ∃ made notes', on (joinRuns s links) notes = (.ok made, notes') ∧
      List.Forall₂ (fun formula link => ComesTo conditions formula (Prod.snd link))
        (runs.map (Formula.join .and)) made := by
  induction h generalizing notes with
  | nil => exact ⟨[], notes, rfl, .nil⟩
  | @cons run link runs links hrun _ ih =>
    obtain ⟨token, chain⟩ := link
    obtain ⟨item, mid, hjoin, hitem⟩ := on_join (s := s) notes .and hrun
    obtain ⟨made, notes', hrest, hmade⟩ := ih mid
    refine ⟨(token, item) :: made, notes', ?_, .cons hitem hmade⟩
    rw [joinRuns, on_bind, show on (join s .and chain) notes = _ from hjoin, goOn_ok, on_bind,
      hrest]
    rfl

/-- The items of a chain fold into what the formula of the chain comes to. -/
lemma on_fold (notes : Notes) {connectives : List Connective} {first : Item}
    {links : List (Token × Item)}
    (hlinks : List.Forall₂ (fun connective link => link.1.rule = some connective.kind)
      connectives links)
    (h : List.Forall₂ (fun place => ComesTo conditions (.phrase place))
      (List.range (connectives.length + 1)) (first :: links.map Prod.snd)) :
    ∃ item notes', on (fold s ⟨first, links⟩) notes = (.ok item, notes') ∧
      ComesTo conditions (.ofChain connectives) item := by
  have hsplit := forall₂_andRuns hlinks h
  obtain ⟨run, rest, hruns⟩ := List.exists_cons_of_ne_nil (Formula.runs_ne_nil connectives)
  rw [hruns, Chain.parts, List.map_cons, List.map_map] at hsplit
  obtain ⟨hrun, hrest⟩ := List.forall₂_cons.mp hsplit
  have hfirst := List.forall₂_map_left_iff.mpr hrun
  have hmore : List.Forall₂
      (fun run link => List.Forall₂ (ComesTo conditions) run (Prod.snd link).parts)
      (rest.map (List.map Formula.phrase)) (andRuns first links).more :=
    List.forall₂_map_left_iff.mpr ((List.forall₂_map_right_iff.mp hrest).imp fun _ _ hrun =>
      List.forall₂_map_left_iff.mpr hrun)
  obtain ⟨item, mid, hitem, hmakes⟩ := on_join (s := s) notes .and hfirst
  obtain ⟨made, mid', hmade, hall⟩ := on_joinRuns (s := s) mid hmore
  have hparts : List.Forall₂ (ComesTo conditions)
      ((Formula.runs connectives).map fun run => Formula.join .and (run.map .phrase))
      (Chain.parts ⟨item, made⟩) := by
    rw [hruns]
    rw [List.map_map] at hall
    exact .cons hmakes (List.forall₂_map_right_iff.mpr hall)
  obtain ⟨folded, notes', hfolded, hformula⟩ := on_join (s := s) mid' .or hparts
  refine ⟨folded, notes', ?_, hformula⟩
  unfold fold
  dsimp only
  rw [on_bind, hitem, goOn_ok, on_bind, hmade, goOn_ok, hfolded]

/-! ## Drawing -/

/-- Whether elements are one phrase that is drawn as a condition, on notes that it
makes others of. -/
def Reduces (s : Setting) (phrase : List Element) (condition : Operator) (notes notes' : Notes) :
    Prop :=
  run phrase = phrase ∧
    ∃ item, on (drawOne s phrase) notes = (.ok (some item), notes') ∧
      item.condition? = some condition

/-- Elements reduce to the condition that drawing them comes to. -/
lemma exists_reduces {phrase : List Element} {notes : Notes} (hrun : run phrase = phrase)
    (h : ((on (drawOne s phrase) notes).1.toOption.join.bind Item.condition?).isSome = true) :
    ∃ condition notes', Reduces s phrase condition notes notes' ∧
      notes' = (on (drawOne s phrase) notes).2 := by
  obtain ⟨condition, h⟩ := Option.isSome_iff_exists.mp h
  obtain ⟨item, hitem, hcondition⟩ := Option.bind_eq_some_iff.mp h
  rw [Option.join_eq_some_iff] at hitem
  cases hdraw : (on (drawOne s phrase) notes).1 with
  | error problem =>
    rw [hdraw] at hitem
    cases hitem
  | ok drawn =>
    rw [hdraw] at hitem
    cases hitem
    exact ⟨condition, _, ⟨hrun, item, Prod.ext hdraw rfl, hcondition⟩, rfl⟩

/-- Whether elements are phrases that are drawn as conditions, one after the other, with connectives
between them. -/
inductive ReducesAll (s : Setting) : (elements : List Element) → List Connective →
    (conditions : List Operator) → (notes notes' : Notes) → Prop
  | one {phrase : List Element} {condition : Operator} {notes notes' : Notes}
      (reduces : Reduces s phrase condition notes notes') :
      ReducesAll s phrase [] [condition] notes notes'
  | more {phrase es : List Element} {link : Element} {connective : Connective}
      {connectives : List Connective} {condition : Operator} {conditions : List Operator}
      {notes mid notes' : Notes} (reduces : Reduces s phrase condition notes mid)
      (joins : link.token.isConnective = true) (rule : link.token.rule = some connective.kind)
      (rest : ReducesAll s es connectives conditions mid notes') :
      ReducesAll s (phrase ++ link :: es) (connective :: connectives) (condition :: conditions)
        notes notes'

variable {phrase after : List Element} {condition : Operator} {notes notes' : Notes}

/-- What a reading comes to does not depend on what it would leave if it failed. -/
lemma on_leaving {α : Type} {reading : Parse α} {a : α} {rest : List Element} :
    on (reading.leaving rest) notes = (.ok a, notes') ↔ on reading notes = (.ok a, notes') :=
  on_adapt_eq_ok

/-- What a phrase is read as does not depend on what is behind it. -/
lemma on_readAll {es : List Element} {items : List Item} {before : List Element}
    (h : on (readAll es before) notes = (.ok items, notes')) (after : List Element) :
    on (readAll es after) notes = (.ok items, notes') := by
  induction es generalizing notes notes' items with
  | nil => exact h
  | cons e es ih =>
    obtain ⟨item, mid, hitem, h⟩ := exists_of_on_bind h
    obtain ⟨more, last, hmore, h⟩ := exists_of_on_bind h
    rw [readAll, on_bind_of_ok (on_leaving.mpr (on_leaving.mp hitem)), on_bind_of_ok (ih hmore)]
    exact h

/-- A phrase that is read as a condition is drawn as this condition, and nothing behind it
is taken. -/
lemma Reduces.on_drawOne (h : Reduces s phrase condition notes notes') (hafter : Ends after) :
    phrase ≠ [] ∧ afterRun (phrase ++ after) = after ∧ ∃ item, item.condition? = some condition ∧
      on (drawOne s (phrase ++ after)) notes = (.ok (some item), notes') := by
  obtain ⟨hrun, item, hdraw, hcondition⟩ := h
  have hne : phrase ≠ [] := by
    rintro rfl
    cases hdraw
  obtain ⟨hfirst, hbehind⟩ := run_append_of_run hne hrun hafter
  refine ⟨hne, hbehind, item, hcondition, ?_⟩
  obtain ⟨e, es, rfl⟩ := List.exists_cons_of_ne_nil hne
  unfold drawOne at hdraw ⊢
  rw [hrun] at hdraw
  rw [hfirst, hbehind]
  obtain ⟨items, mid, hread, hdraw⟩ := exists_of_on_bind hdraw
  obtain ⟨made, last, hreduce, hdraw⟩ := exists_of_on_bind hdraw
  dsimp only
  rw [on_bind_of_ok (on_readAll hread after),
    on_bind_of_ok (on_leaving.mpr (on_leaving.mp hreduce))]
  exact hdraw

/-- A phrase that is read as a condition is drawn as a term, without connectives of its own. -/
lemma Reduces.on_drawTerm (h : Reduces s phrase condition notes notes') (hafter : Ends after)
    (budget : Nat) (hbudget : 0 < budget) :
    ∃ item, item.condition? = some condition ∧
      on (drawTerm s budget (phrase ++ after)) notes = (.ok (some item), notes') := by
  obtain ⟨hne, -, item, hcondition, hdraw⟩ := h.on_drawOne hafter
  obtain ⟨e, es, rfl⟩ := List.exists_cons_of_ne_nil hne
  have hconnective : ¬ e.token.isConnective = true := by
    intro hconnective
    have hrun := h.1
    rw [run, if_pos (by simp [separates, hconnective])] at hrun
    cases hrun
  refine ⟨item, hcondition, ?_⟩
  unfold drawTerm
  simp only [if_neg (Nat.pos_iff_ne_zero.mp hbudget), List.cons_append, List.head?_cons,
    if_neg hconnective]
  exact hdraw

/-- Nothing is drawn where nothing can be joined. -/
lemma on_drawLinks_stop (hafter : Stops after) (budget : Nat) :
    on (drawLinks s budget after) notes = (.ok ([], after), notes) := by
  cases after with
  | nil =>
    rw [drawLinks]
    rfl
  | cons e after =>
    rw [drawLinks]
    simp [(hafter e rfl).2]

/-- Whether links are connectives with conditions behind them. -/
def AreJoined (connectives : List Connective) (conditions : List Operator)
    (links : List (Token × Item)) : Prop :=
  List.Forall₂ (fun connective link => (Prod.fst link).rule = some connective.kind)
      connectives links ∧
    List.Forall₂ (fun condition link => (Prod.snd link).condition? = some condition)
      conditions links

/-- The phrases behind the first one are drawn one by one, each with the connective before it. -/
lemma ReducesAll.on_drawLinks {es : List Element} {connectives : List Connective}
    (h : ReducesAll s es connectives conditions notes notes') (hafter : Stops after)
    {link : Element} {connective : Connective} (joins : link.token.isConnective = true)
    (rule : link.token.rule = some connective.kind) (budget : Nat)
    (hbudget : conditions.length ≤ budget) :
    ∃ links, on (drawLinks s budget (link :: (es ++ after))) notes = (.ok (links, after), notes') ∧
      AreJoined (connective :: connectives) conditions links := by
  induction h generalizing link connective budget with
  | @one phrase condition notes notes' reduces =>
    obtain ⟨-, hbehind, -⟩ := reduces.on_drawOne hafter.ends
    obtain ⟨item, hcondition, hterm⟩ := reduces.on_drawTerm hafter.ends budget hbudget
    refine ⟨[(link.token, item)], ?_, .cons rule .nil, .cons hcondition .nil⟩
    rw [drawLinks]
    simp only [joins, Bool.not_true, Bool.false_eq_true, if_false]
    rw [on_bind_of_ok hterm]
    dsimp only
    rw [hbehind, on_bind_of_ok (on_drawLinks_stop hafter _)]
    rfl
  | @more phrase es next connective' connectives condition conditions notes mid notes' reduces
    joins'
      rule' _ ih =>
    rw [List.length_cons] at hbudget
    have hnext : Ends (next :: (es ++ after)) := by
      simp [Ends, continues, separates, joins']
    obtain ⟨-, hbehind, -⟩ := reduces.on_drawOne hnext
    obtain ⟨item, hcondition, hterm⟩ := reduces.on_drawTerm hnext budget (by omega)
    obtain ⟨links, hlinks, hrules, hconditions⟩ := ih joins' rule' (budget - 1) (by omega)
    refine ⟨(link.token, item) :: links, ?_, .cons rule hrules, .cons hcondition hconditions⟩
    rw [List.append_assoc, List.cons_append, drawLinks]
    simp only [joins, Bool.not_true, Bool.false_eq_true, if_false]
    rw [on_bind_of_ok hterm]
    dsimp only
    rw [hbehind, on_bind_of_ok hlinks]
    rfl

/-- Phrases that are drawn as conditions are drawn as the items of a chain, and then folded. -/
lemma ReducesAll.on_drawGroup_eq {es : List Element} {connectives : List Connective}
    (h : ReducesAll s es connectives conditions notes notes') (hafter : Stops after)
    (hsteps : conditions.length ≤ s.ceilings.steps) :
    ∃ first links, on (drawGroup s (es ++ after)) notes =
        on (do return (some (← (fold s ⟨first, links⟩).leaving after), after)) notes' ∧
      List.Forall₂ (fun connective link => (Prod.fst link).rule = some connective.kind)
        connectives links ∧
      List.Forall₂ (fun condition item => item.condition? = some condition)
        conditions (first :: links.map Prod.snd) := by
  cases h with
  | one reduces =>
    obtain ⟨-, hbehind, -⟩ := reduces.on_drawOne hafter.ends
    obtain ⟨item, hcondition, hterm⟩ := reduces.on_drawTerm hafter.ends _ hsteps
    refine ⟨item, [], ?_, .nil, .cons hcondition .nil⟩
    rw [drawGroup_eq]
    rw [on_bind_of_ok hterm]
    dsimp only
    rw [hbehind, on_bind_of_ok (on_drawLinks_stop hafter _)]
  | @more phrase es next connective connectives condition conditions _ mid _ reduces joins rule
    rest =>
    rw [List.length_cons] at hsteps
    have hnext : Ends (next :: (es ++ after)) := by
      simp [Ends, continues, separates, joins]
    obtain ⟨-, hbehind, -⟩ := reduces.on_drawOne hnext
    obtain ⟨item, hcondition, hterm⟩ :=
      reduces.on_drawTerm hnext s.ceilings.steps (by omega)
    obtain ⟨links, hlinks, hrules, hconditions⟩ :=
      rest.on_drawLinks hafter joins rule (s.ceilings.steps - 1) (by omega)
    refine ⟨item, links, ?_, hrules, .cons hcondition (List.forall₂_map_right_iff.mpr hconditions)⟩
    rw [drawGroup_eq]
    rw [List.append_assoc, List.cons_append, on_bind_of_ok hterm]
    dsimp only
    rw [hbehind, on_bind_of_ok hlinks]

/-- Phrases that are drawn as conditions, with connectives between them, are drawn as one condition:
that which the formula of the connectives comes to. -/
theorem on_drawGroup {es : List Element} {connectives : List Connective}
    (h : ReducesAll s es connectives conditions notes notes') (hafter : Stops after)
    (hsteps : conditions.length ≤ s.ceilings.steps) :
    ∃ item op last, on (drawGroup s (es ++ after)) notes = (.ok (some item, after), last) ∧
      item.condition? = some op ∧
      (Formula.ofChain connectives).Shows conditions op ∧
      (Formula.ofChain connectives).places = List.range conditions.length ∧
      (∀ truth, (Formula.ofChain connectives).value truth = Formula.chainValue truth connectives) ∧
      ∀ subject, op.holdsOf subject =
        Formula.chainValue (fun place => (conditions[place]?).any (Operator.holdsOf subject))
          connectives := by
  obtain ⟨first, links, hdraw, hrules, hitems⟩ := h.on_drawGroup_eq hafter hsteps
  have hlength : connectives.length + 1 = conditions.length := by
    have hconnectives := hrules.length_eq
    have hconditions := hitems.length_eq
    rw [List.length_cons, List.length_map] at hconditions
    omega
  have hplaces : List.Forall₂ (fun place => ComesTo conditions (.phrase place))
      (List.range (connectives.length + 1)) (first :: links.map Prod.snd) := by
    obtain ⟨hsame, hget⟩ := List.forall₂_iff_get.mp hitems
    refine List.forall₂_iff_get.mpr ⟨by rw [List.length_range, hlength, hsame], fun i hi hi' => ?_⟩
    refine ⟨_, hget i (by omega) hi', ?_⟩
    simp [Formula.Shows]
  obtain ⟨item, last, hfold, op, hop, hshows⟩ := on_fold (s := s) notes' hrules hplaces
  refine ⟨item, op, last, ?_, hop, hshows, ?_,
    fun truth => Formula.value_ofChain truth connectives, ?_⟩
  · rw [hdraw, on_bind_of_ok (on_leaving.mpr hfold)]
    rfl
  · rw [Formula.places_ofChain, hlength]
  · intro subject
    rw [Formula.holdsOf_of_shows subject _ op hshows, Formula.value_ofChain]

/-- A setting without a source. -/
def sampleSetting : Setting := ⟨[], .empty, {}⟩

/-- A word or a sign, as it is read. -/
def sampleElement (id : Nat) (kind : TokenKind) (text : String) : Element :=
  TokenTree.element sampleSetting ⟨.ofWord id kind text ⟨id, id + 1⟩, [], []⟩

/-- A comparison of a property with a number. -/
def samplePhrase (id : Nat) (name number : String) : List Element :=
  [sampleElement id .word name, sampleElement (id + 1) .symbol "=",
    sampleElement (id + 2) .word number]

/-- `a = 1 AND b = 2 OR c = 3` -/
def sampleChain : List Element :=
  samplePhrase 0 "a" "1" ++ sampleElement 3 .word "AND" ::
    (samplePhrase 4 "b" "2" ++ sampleElement 7 .word "OR" :: samplePhrase 8 "c" "3")

/-- Three conditions with `AND` and then `OR` between them: the first two are a group of
their own. -/
theorem on_drawGroup_sample : ∃ conditions notes' item op last,
    ReducesAll sampleSetting sampleChain [.and, .or] conditions {} notes' ∧
    on (drawGroup sampleSetting sampleChain) {} = (.ok (some item, []), last) ∧
    item.condition? = some op ∧
    (Formula.group .or [.group .and [.phrase 0, .phrase 1], .phrase 2]).Shows conditions op := by
  obtain ⟨first, mid, hfirst, hmid⟩ : ∃ condition mid,
      Reduces sampleSetting (samplePhrase 0 "a" "1") condition {} mid ∧
        mid = (on (drawOne sampleSetting (samplePhrase 0 "a" "1")) {}).2 :=
    exists_reduces rfl (by decide +kernel)
  obtain ⟨second, mid', hsecond, hmid'⟩ : ∃ condition mid',
      Reduces sampleSetting (samplePhrase 4 "b" "2") condition mid mid' ∧
        mid' = (on (drawOne sampleSetting (samplePhrase 4 "b" "2")) mid).2 :=
    exists_reduces rfl (by subst hmid; decide +kernel)
  obtain ⟨third, last, hthird, -⟩ : ∃ condition last,
      Reduces sampleSetting (samplePhrase 8 "c" "3") condition mid' last ∧
        last = (on (drawOne sampleSetting (samplePhrase 8 "c" "3")) mid').2 :=
    exists_reduces rfl (by subst hmid' hmid; decide +kernel)
  have htail : ReducesAll sampleSetting
      (samplePhrase 4 "b" "2" ++ sampleElement 7 .word "OR" :: samplePhrase 8 "c" "3") [.or]
      [second, third] mid last :=
      .more hsecond (by decide +kernel) (by decide +kernel) (.one hthird)
  have hchain : ReducesAll sampleSetting sampleChain [.and, .or] [first, second, third] {} last :=
    .more hfirst (by decide +kernel) (by decide +kernel) htail
  obtain ⟨item, op, last, hdraw, hop, hshows, -⟩ :=
    on_drawGroup hchain .nil (show 3 ≤ 10000 by decide)
  rw [List.append_nil] at hdraw
  exact ⟨_, _, item, op, last, hchain, hdraw, hop, hshows⟩

end Phrase

end RecordQuery
