import RecordQuery.Proofs.Rendition

/-!
# Conditions of conditions are read back

Negations and groups put parentheses around some of their conditions, so that each is read as it is,
whatever stands around it. With names, these are the last shapes of operators that are no clauses,
and every such operator is read from its text as it was.
-/

namespace RecordQuery

open Reader Item Sketch Phrase

namespace Operator

variable {s : Setting} {raw : Lexeme → Prop}

/-! ## Enclosed conditions -/

/-- The sketches of a condition in an operator. -/
def enclosed (kind : Kind) (condition : Operator) (sketches : List Sketch) : List Sketch :=
  if encloses kind condition then [.group sketches] else sketches

section

variable {kind : Kind} {condition : Operator} {sketches : List Sketch}

/-- A condition that is read back is written by its sketches, in parentheses where these are asked
for. -/
lemma writes_enclosed (h : IsSketchedAs s raw condition sketches) (kind : Kind) :
    Writes raw (condition.depth + if encloses kind condition then 1 else 0)
      (enclosedText kind condition (condition.render s.registry))
      (enclosed kind condition sketches) := by
  unfold enclosedText enclosed
  split
  · exact h.writes.group
  · exact h.writes

/-- A group is enclosed wherever it stands, so that a condition that is not is a phrase. -/
lemma isConnective_eq_false (hkind : kind.family = .logical)
    (hsize : condition.isConnective = true → 1 < condition.operands.length)
    (h : encloses kind condition = false) : condition.isConnective = false := by
  by_contra hconnective
  rw [Bool.not_eq_false] at hconnective
  simp [encloses, hkind, hconnective, hsize hconnective] at h

/-- A condition in an operator is a phrase. -/
lemma isPhrase_enclosed (h : IsSketchedAs s raw condition sketches)
    (hkind : kind.family = .logical) (hcondition : condition.isCondition = true)
    (hsize : condition.isConnective = true → 1 < condition.operands.length) {names : List String}
    {es : List Element} (hes : Sketch.ReadsAll s (enclosed kind condition sketches) es)
    (hnames : Mention.resolves s.registry names condition.mentions = true)
    (hpaced : condition.Everywhere (Paced s.ceilings.steps)) :
    IsPhrase s names (Mention.bound names condition.mentions) es (.operator condition) := by
  unfold enclosed at hes
  split at hes
  · obtain ⟨e, rfl, he⟩ := readsAll_single hes
    refine ⟨List.cons_ne_nil _ _, by simpa using continues_group he,
      Mention.bound names condition.mentions, ?_⟩
    refine (Gathers.group he fun inner hinner =>
      (h.reads names inner hinner hnames hpaced).group hcondition).mono ?_
    rintro _ ⟨item, rfl, hshows⟩
    exact (Chains.of_condenses (.of_shows hshows)).reduce (Nat.zero_le _)
  · rename_i hnot
    have hphrase := isConnective_eq_false hkind hsize (Bool.eq_false_of_not_eq_true hnot)
    exact (h.reads names es hes hnames hpaced).phrase hphrase

/-- A condition behind `NOT` is condensed. -/
lemma condensed_enclosed (h : IsSketchedAs s raw condition sketches)
    (hcondition : condition.isCondition = true)
    (hsize : condition.isConnective = true → 1 < condition.operands.length) {names : List String}
    {es : List Element} (hes : Sketch.ReadsAll s (enclosed .not condition sketches) es)
    (hnames : Mention.resolves s.registry names condition.mentions = true)
    (hpaced : condition.Everywhere (Paced s.ceilings.steps)) :
    ∃ middle, Gathers names middle es fun items =>
      Condenses s (roundsIn .not [.operator condition]) middle
        (Mention.bound names condition.mentions) items (.operator condition) := by
  unfold enclosed at hes
  rw [roundsIn]
  split at hes
  · rename_i hencloses
    obtain ⟨e, rfl, he⟩ := readsAll_single hes
    rw [if_pos hencloses]
    refine ⟨_, (Gathers.group he fun inner hinner =>
      (h.reads names inner hinner hnames hpaced).group hcondition).mono ?_⟩
    rintro _ ⟨item, rfl, hshows⟩
    exact .of_shows hshows
  · rename_i hencloses
    rw [if_neg hencloses]
    have hconnective : condition.isConnective = false :=
      isConnective_eq_false rfl hsize (Bool.eq_false_of_not_eq_true hencloses)
    have hnot : condition.kind ≠ .not := by
      intro hnot
      simp [encloses, Kind.family, hnot] at hencloses
    exact (h.reads names es hes hnames hpaced).condensed hcondition hconnective hnot

end

/-! ## Negations -/

/-- The negation of a condition that is read back is read back. -/
theorem isSketchedAs_negation {condition : Operator} {sketches : List Sketch} {span : Option Span}
    (h : IsSketchedAs s raw condition sketches) (hcondition : condition.isCondition = true)
    (hsize : condition.isConnective = true → 1 < condition.operands.length) :
    IsSketchedAs s raw ⟨.not, none, [.operator condition], span⟩
      (.keyword .not :: enclosed .not condition sketches) := by
  have hrounds : (Operator.mk .not none [.operator condition] span).rounds =
      roundsIn .not [.operator condition] + 1 := by
    rw [rounds, Nat.add_comm]
    rfl
  have hdepth : (Operator.mk .not none [.operator condition] span).depth =
      condition.depth + if encloses .not condition then 1 else 0 := by
    rw [depth, depthIn, depthIn]
    simp [Kind.isFunction, Kind.family]
  constructor
  · rw [render_negation h.writes.ne_empty, hdepth]
    have hkeyword : Writes raw 0 Kind.not.keyword [.keyword .not] :=
      Writes.of_token (isToken_keyword (by decide +kernel) rfl raw False)
    exact (hkeyword.mono (Nat.zero_le _)).append (writes_enclosed h .not)
  · intro names es hes hnames hpaced
    rw [mentions_negation] at hnames ⊢
    obtain ⟨e, more, he, hmore, rfl⟩ := List.forall₂_cons_left_iff.mp hes
    obtain ⟨hsteps, -⟩ := hpaced.root
    have hpaced' : condition.Everywhere (Paced s.ceilings.steps) :=
      (everywhere_iff.mp hpaced).2 condition (List.mem_singleton.mpr rfl)
    have hinner := isPhrase_enclosed h rfl hcondition hsize hmore hnames hpaced'
    obtain ⟨middle, hgathers⟩ := condensed_enclosed h hcondition hsize hmore hnames hpaced'
    have hcontinues : ∀ g ∈ e :: more, Phrase.continues g.token = true :=
      List.forall_mem_cons.mpr ⟨continues_keyword he rfl rfl, hinner.continues⟩
    have hphrase : IsPhrase s names (Mention.bound names condition.mentions) (e :: more)
        (.operator ⟨.not, none, [.operator condition], span⟩) := by
      refine ⟨List.cons_ne_nil _ _, hcontinues, middle, ?_⟩
      refine ((Gathers.keyword he).append hgathers).mono ?_
      rintro _ ⟨_, items, rfl, rfl, hitems⟩
      rw [hrounds] at hsteps
      refine hitems.reduce_not hsteps fun right hright => yields_settle ?_ _
      refine Yields.mono (Claim.yields_negation hright hcondition none none) fun op hop => ?_
      rw [hop, core_eq_iff]
      exact ⟨rfl, rfl, rfl⟩
    refine ⟨List.cons_ne_nil _ _, fun g hg => hcontinues g (List.mem_of_mem_head? hg),
      fun _ => hcontinues, fun _ => hphrase, ?_, ?_, fun _ => .of_phrase hphrase (by omega), ?_⟩
    · exact fun _ _ hnot => absurd rfl hnot
    · intro hcondition
      cases hcondition
    · intro hprojection
      cases hprojection

/-! ## Groups -/

/-- Phrases that are read as conditions, with the connective of a group between them,
are a chain. -/
lemma isChain_of_readsAll {connective : Connective} {conditions : List Operator}
    {entries : List (List Sketch)}
    (h : List.Forall₂ (fun c entry => ∀ names es, Sketch.ReadsAll s entry es →
      Mention.resolves s.registry names c.mentions = true →
      c.Everywhere (Paced s.ceilings.steps) →
      IsPhrase s names (Mention.bound names c.mentions) es (.operator c)) conditions entries)
    (hne : conditions ≠ []) {names : List String} {es : List Element}
    (hes : Sketch.ReadsAll s ([.keyword connective.kind].intercalate entries) es)
    (hnames : Mention.resolves s.registry names (conditions.flatMap mentions) = true)
    (hpaced : ∀ c ∈ conditions, c.Everywhere (Paced s.ceilings.steps)) :
    IsChain s connective names (Mention.bound names (conditions.flatMap mentions)) es
      conditions := by
  induction h generalizing names es with
  | nil => exact absurd rfl hne
  | @cons c entry conditions entries hfirst hrest ih =>
    obtain ⟨hpaced₁, hpaceds⟩ := List.forall_mem_cons.mp hpaced
    rw [List.flatMap_cons, Mention.resolves_append, Bool.and_eq_true] at hnames
    rw [List.flatMap_cons, Mention.bound_append]
    cases hrest with
    | nil =>
      rw [List.intercalate_singleton] at hes
      exact .one (hfirst names es hes hnames.1 hpaced₁)
    | @cons d next conditions entries hsecond hrest =>
      rw [List.intercalate_cons_cons, List.append_assoc] at hes
      obtain ⟨es₁, more, rfl, hes₁, hmore⟩ := readsAll_append hes
      obtain ⟨link, es₂, hlink, hes₂, rfl⟩ := List.forall₂_cons_left_iff.mp hmore
      exact .more (hfirst names es₁ hes₁ hnames.1 hpaced₁) hlink
        (ih (List.cons_ne_nil _ _) hes₂ hnames.2 hpaceds)

/-- The conditions of a group are written one by one. -/
lemma writes_entries {kind : Kind} {conditions : List Operator} {sketches : List (List Sketch)}
    (h : List.Forall₂ (IsSketchedAs s raw) conditions sketches) {n : Nat}
    (hdepths : ∀ c ∈ conditions, c.depth + (if encloses kind c then 1 else 0) ≤ n) :
    List.Forall₂ (Writes raw n)
      (conditions.map fun c => enclosedText kind c (c.render s.registry))
      (List.zipWith (enclosed kind) conditions sketches) := by
  induction h with
  | nil => exact .nil
  | cons hfirst _ ih =>
    obtain ⟨hdepth, hrest⟩ := List.forall_mem_cons.mp hdepths
    exact .cons ((writes_enclosed hfirst kind).mono hdepth) (ih hrest)

/-- A group of conditions that are read back is read back. -/
theorem isSketchedAs_group {connective : Connective} {conditions : List Operator}
    {sketches : List (List Sketch)} {span : Option Span}
    (h : List.Forall₂ (IsSketchedAs s raw) conditions sketches) (hcount : 2 ≤ conditions.length)
    (hconditions : ∀ c ∈ conditions, c.isCondition = true)
    (hsizes : ∀ c ∈ conditions, c.isConnective = true → 1 < c.operands.length) :
    IsSketchedAs s raw ⟨connective.kind, none, conditions.map .operator, span⟩
      ([.keyword connective.kind].intercalate
        (List.zipWith (enclosed connective.kind) conditions sketches)) := by
  have hkind : connective.kind.family = .logical ∧ connective.kind.isSingle = true ∧
      connective.kind.isFunction = false ∧ connective.kind.isConnective = true ∧
      connective.kind.isCondition = true := by
    cases connective <;> decide +kernel
  obtain ⟨hfamily, hsingle, hfunction, hconnective, hcondition⟩ := hkind
  have hne : conditions ≠ [] := by
    rintro rfl
    cases hcount
  have htexts : ∀ c ∈ conditions, c.render s.registry ≠ "" := by
    intro c hc
    obtain ⟨i, hi, rfl⟩ := List.mem_iff_getElem.mp hc
    exact ((List.forall₂_iff_get.mp h).2 i hi (h.length_eq ▸ hi)).writes.ne_empty
  constructor
  · rw [render_group htexts]
    refine Writes.join hsingle hfunction ?_ (by simpa using hne)
    have hdepths : ∀ c ∈ conditions,
        c.depth + (if encloses connective.kind c then 1 else 0) ≤
          (Operator.mk connective.kind none (conditions.map .operator) span).depth := by
      intro c hc
      rw [depth]
      exact (le_depthIn (List.mem_map_of_mem hc)).trans (Nat.le_max_right _ _)
    exact writes_entries h hdepths
  · intro names es hes hnames hpaced
    rw [mentions_group] at hnames ⊢
    have hpaceds : ∀ c ∈ conditions, c.Everywhere (Paced s.ceilings.steps) := fun c hc =>
      (everywhere_iff.mp hpaced).2 c (List.mem_map_of_mem hc)
    obtain ⟨-, hbreadth⟩ := hpaced.root
    have hsteps : conditions.length ≤ s.ceilings.steps := by
      simpa [breadth, hfamily] using hbreadth
    -- each condition is a phrase of its own, in parentheses where it needs them
    have hphrases : List.Forall₂ (fun c entry => ∀ names es, Sketch.ReadsAll s entry es →
        Mention.resolves s.registry names c.mentions = true →
        c.Everywhere (Paced s.ceilings.steps) →
        IsPhrase s names (Mention.bound names c.mentions) es (.operator c)) conditions
          (List.zipWith (enclosed connective.kind) conditions sketches) := by
      clear hes hnames hpaced hpaceds hbreadth hsteps hne hcount htexts
      induction h with
      | nil => exact .nil
      | @cons c ss conditions sketches hfirst _ ih =>
        obtain ⟨hcondition, hconditions⟩ := List.forall_mem_cons.mp hconditions
        obtain ⟨hsize, hsizes⟩ := List.forall_mem_cons.mp hsizes
        refine .cons (fun names es hes hnames hpaced => ?_) (ih hconditions hsizes)
        exact isPhrase_enclosed hfirst hfamily hcondition hsize hes hnames hpaced
    have hchain := isChain_of_readsAll hphrases hne hes hnames hpaceds
    exact .of_group hchain.nonempty hchain.begins hconnective
      (.of_chain hchain hcount hsteps hconditions span)

/-! ## Names -/

/-- Whether sketches write what `AS` names, and are read as it once `AS` is settled. -/
structure IsTarget (s : Setting) (raw : Lexeme → Prop) (x : Operand) (sketches : List Sketch) :
    Prop where
  writes : Writes raw (depthIn .asName [x]) (x.render s.registry) sketches
  notValue : x.value? = none
  notCondition : ∀ op, x = .operator op → op.isCondition = false
  reads : ∀ names es, Sketch.ReadsAll s sketches es →
    Mention.resolves s.registry names (mentionsIn true [x]) = true →
    (∀ op, x = .operator op → op.Everywhere (Paced s.ceilings.steps)) →
    (∀ e ∈ es, Phrase.continues e.token = true) ∧
      Resolved s.registry (Mention.bound names (mentionsIn true [x])) x ∧
      ∃ middle, Gathers names middle es fun items =>
        Chains s (roundsIn .asName [x]) middle (Mention.bound names (mentionsIn true [x])) items x

/-- A writable reference can stand before `AS`. -/
lemma isTarget_reference {p : PropertyRef} (hp : p.IsWritable s.registry) :
    IsTarget s raw (.property p) [p.sketch s.registry] := by
  refine ⟨Writes.of_token (isToken_reference hp raw False), rfl, by rintro op ⟨⟩, ?_⟩
  intro names es hes hnames _
  obtain ⟨e, rfl, he⟩ := readsAll_single hes
  refine ⟨?_, resolved_reference hp hnames, names, ?_⟩
  · simpa using (denotes_reference s p e he).1
  · refine (Gathers.leaf (denotes_reference s p) he).mono ?_
    rintro _ ⟨token, rfl, hshows⟩
    exact .of_condenses (.of_shows hshows)

/-- A function that is read back can stand before `AS`. -/
lemma isTarget_operator {op : Operator} {sketches : List Sketch}
    (h : IsSketchedAs s raw op sketches) (family : op.kind.family = .projection)
    (hpattern : op.kind ≠ .regexpMatch) : IsTarget s raw (.operator op) sketches := by
  have hkind : Kind.asName.family ≠ .logical := by decide
  have hcondition : op.isCondition = false := by
    rw [isCondition, Kind.isCondition, family]
    simpa using hpattern
  have hconnective : op.isConnective = false :=
    Kind.isConnective_eq_false (by rw [family]; decide)
  refine ⟨?_, rfl, ?_, fun names es hes hnames hpaced => ?_⟩
  · rw [depthIn_operator hkind]
    exact h.writes
  · rintro _ ⟨⟩
    exact hcondition
  · rw [mentionsIn_operator] at hnames ⊢
    have hread := h.reads names es hes hnames (hpaced op rfl)
    obtain ⟨middle, hgathers⟩ := hread.chained hcondition
    refine ⟨hread.continues hconnective, trivial, middle, ?_⟩
    have hround : roundsIn .asName [.operator op] = op.rounds := by
      simp [roundsIn, encloses_eq_false hkind]
    rw [hround]
    exact hgathers

/-- A naming is read back if its target and its alias are. -/
theorem isSketchedAs_naming {x : Operand} {name : String} {sketches : List Sketch}
    {span : Option Span} (hx : IsTarget s raw x sketches)
    (hname : (PropertyRef.byAlias name).IsWritable s.registry) :
    IsSketchedAs s raw ⟨.asName, none, [x, .value (.ofString name)], span⟩
      (sketches ++ [.keyword .asName, (PropertyRef.byAlias name).sketch s.registry]) := by
  have hrounds : (Operator.mk .asName none [x, .value (.ofString name)] span).rounds =
      roundsIn .asName [x] + 1 := by
    rw [rounds, Nat.add_comm]
    cases x <;> rfl
  have hdepth : (Operator.mk .asName none [x, .value (.ofString name)] span).depth =
      depthIn .asName [x] := by
    rw [depth]
    cases x <;> simp [depthIn, Kind.isFunction, Kind.family]
  constructor
  -- how it is written
  · rw [render_naming, hdepth]
    have hkeyword : Writes.IsToken raw False Kind.asName.keyword (.keyword .asName) :=
      isToken_keyword (by decide +kernel) rfl raw False
    have hwrites := (hx.writes.append (.mono (.of_token hkeyword) (Nat.zero_le _))).append
      (.mono (.of_token (isToken_reference hname raw False)) (Nat.zero_le _))
    rw [List.append_assoc] at hwrites
    simpa [String.append_assoc, Kind.keyword] using hwrites
  -- what is read of it: the target first, then the keyword and the name, which is a reference by
  -- itself
  · intro names es hes hnames hpaced
    rw [mentions_naming span hx.notValue] at hnames ⊢
    rw [Mention.resolves_append, Bool.and_eq_true] at hnames
    rw [Mention.bound_append]
    obtain ⟨es, more, rfl, htarget, hmore⟩ := readsAll_append hes
    obtain ⟨e, f, rfl, he, hf⟩ := readsAll_pair hmore
    have hpaced' : ∀ op, x = .operator op → op.Everywhere (Paced s.ceilings.steps) := by
      rintro op rfl
      exact (everywhere_iff.mp hpaced).2 op (List.mem_cons_self ..)
    obtain ⟨hcontinues, hresolved, middle, hgathers⟩ :=
      hx.reads names es htarget hnames.1 hpaced'
    obtain ⟨hsteps, -⟩ := hpaced.root
    refine IsRead.of_chained middle (by simp) ?_ ?_ rfl hsteps fun _ h => absurd rfl h
    · simp only [List.mem_append, List.mem_cons, List.not_mem_nil, or_false]
      rintro g (hg | rfl | rfl)
      · exact hcontinues g hg
      · exact continues_keyword he rfl rfl
      · exact (denotes_reference s _ _ hf).1
    · refine (hgathers.append ((Gathers.keyword he).append
        (Gathers.leaf (denotes_reference s _) hf))).mono ?_
      rintro _ ⟨items, _, rfl, hitems, _, _, rfl, rfl, token, rfl, htoken⟩
      rw [hrounds]
      refine hitems.naming fun left hleft => yields_settle ?_ _
      obtain ⟨_, heq, hreference⟩ := htoken.reference
      obtain rfl : token = _ := congrArg Item.token heq
      refine Yields.mono (Claim.yields_naming hleft hresolved hx.notCondition hreference.class_
        hreference.text none) fun op hop => ?_
      rw [hop, core_eq_iff]
      exact ⟨rfl, rfl, rfl⟩

/-! ## All operators that are no clauses -/

section

variable {registry : Registry} {op : Operator}

/-- A function is settled in one round. -/
lemma rounds_of_function (h : op.Shaped (.written registry)) (family : op.kind.family = .projection)
    (hname : op.kind ≠ .asName) : op.rounds = 1 := by
  cases h with
  | @function kind p values span _ _ _ _ _ =>
    have hfamily : kind.family = .projection := family
    have hkind : (kind.isConnective || kind.isClause) = false := by
      rw [Kind.isConnective_eq_false (by rw [hfamily]; decide),
        Kind.isClause_eq_false (by rw [hfamily]; decide)]
      rfl
    rw [rounds, hkind]
    cases values <;> rfl
  | naming => exact absurd rfl hname
  | comparison hfamily => rw [stated_kind, hfamily] at family; cases family
  | membership hfamily => rw [stated_kind, hfamily] at family; cases family
  | existence hfamily => rw [hfamily] at family; cases family
  | @group connective => cases connective <;> cases family
  | listing lists => obtain rfl | rfl | rfl := lists <;> cases family
  | filter filters => obtain rfl | rfl := filters <;> cases family
  | _ => cases family

/-- A group has at least two conditions. -/
lemma size_of_isConnective (h : op.Shaped (.written registry))
    (hconnective : op.isConnective = true) : 1 < op.operands.length := by
  by_cases hfamily : op.kind.family = .logical
  · cases h with
    | @group connective conditions span size =>
      rw [List.length_map]
      exact size
    | negation => cases hconnective
    | comparison family => rw [stated_kind, family] at hfamily; cases hfamily
    | membership family => rw [stated_kind, family] at hfamily; cases hfamily
    | existence family => rw [family] at hfamily; cases hfamily
    | function family => rw [family] at hfamily; cases hfamily
    | listing lists => obtain rfl | rfl | rfl := lists <;> cases hfamily
    | filter filters => obtain rfl | rfl := filters <;> cases hfamily
    | _ => cases hfamily
  · rw [isConnective, Kind.isConnective_eq_false hfamily] at hconnective
    cases hconnective

end

/-- What can stand before an operator has sketches that are read back, if its operator has. -/
lemma exists_isSubject {kind : Kind} (hkind : kind.family ≠ .logical) {x : Operand}
    (hx : (ShapeRules.written s.registry).subject x)
    (hshaped : ∀ op, x = .operator op → op.Shaped (.written s.registry))
    (ih : ∀ op, x = .operator op → ∃ sketches, IsSketchedAs s raw op sketches) :
    ∃ sketches, IsSubject s raw kind x sketches := by
  cases x with
  | property p => exact ⟨_, isSubject_reference hx kind⟩
  | value v => exact hx.elim
  | operator op =>
    obtain ⟨family, hname, hpattern⟩ := hx
    obtain ⟨sketches, hsketches⟩ := ih op rfl
    exact ⟨sketches, isSubject_function hkind hsketches family hname hpattern
      (rounds_of_function (hshaped op rfl) family hname)⟩

/-- What can stand before `AS` has sketches that are read back, if its operator has. -/
lemma exists_isTarget {x : Operand} (hx : (ShapeRules.written s.registry).target x)
    (ih : ∀ op, x = .operator op → ∃ sketches, IsSketchedAs s raw op sketches) :
    ∃ sketches, IsTarget s raw x sketches := by
  cases x with
  | property p => exact ⟨_, isTarget_reference hx⟩
  | value v => exact hx.elim
  | operator op =>
    obtain ⟨sketches, hsketches⟩ := ih op rfl
    exact ⟨sketches, isTarget_operator hsketches hx.1 hx.2⟩

/-- If each member of a list is related to something, the list is related to a list. -/
lemma exists_forall₂ {α β : Type} {R : α → β → Prop} {as : List α} (h : ∀ a ∈ as, ∃ b, R a b) :
    ∃ bs, List.Forall₂ R as bs := by
  induction as with
  | nil => exact ⟨[], .nil⟩
  | cons a as ih =>
    obtain ⟨⟨b, hb⟩, hrest⟩ := List.forall_mem_cons.mp h
    obtain ⟨bs, hbs⟩ := ih hrest
    exact ⟨b :: bs, .cons hb hbs⟩

/-- A subject that is an operator is one of the operands. -/
lemma isSubject_of_mem {kind : Kind} {x : Operand} {rest : List Operand} {span : Option Span}
    {op : Operator} (h : x = .operator op) :
    .operator op ∈ (stated kind x rest span).operands := by
  subst h
  exact List.mem_cons_self ..

/-- Every writable operator that is no clause is read from its text as it was. -/
theorem exists_isSketchedAs (s : Setting) (raw : Lexeme → Prop) (op : Operator)
    (h : op.Everywhere (IsWritable s.registry raw)) (hclause : op.kind.isClause = false) :
    ∃ sketches, IsSketchedAs s raw op sketches := by
  -- by induction on the operator: what it is about and what it joins has sketches already
  refine Operator.induction (P := fun op => op.Everywhere (IsWritable s.registry raw) →
    op.kind.isClause = false → ∃ sketches, IsSketchedAs s raw op sketches) ?_ op h hclause
  clear h hclause op
  intro op ih h hclause
  obtain ⟨hroot, hchildren⟩ := everywhere_iff.mp h
  obtain ⟨hshaped, hscalars, hpatterns⟩ := hroot
  cases hshaped with
  | @comparison kind x v span family hx _ hallowed =>
    have hkind : kind.family ≠ .logical ∧ kind.holdsScalars = true := by
      cases kind <;> revert family <;> decide
    have hmem : ∀ op, x = .operator op →
        .operator op ∈ (stated kind x [.value v] span).operands := fun _ hop => isSubject_of_mem hop
    obtain ⟨sketches, hsubject⟩ : ∃ sketches, IsSubject s raw kind x sketches :=
      exists_isSubject hkind.1 hx (fun op hop => (hchildren op (hmem op hop)).root.shaped)
        (fun op hop => by
        subst hop
        exact ih op (hmem op rfl) (hchildren op (hmem op rfl))
          (Kind.isClause_eq_false (by rw [hx.1]; decide)))
    have hv : v.IsWritable s.registry raw := by
      rw [stated_kind] at hscalars
      exact hscalars hkind.2 v (mem_values_stated (List.mem_singleton.mpr rfl))
    exact ⟨_, isSketchedAs_comparison family hsubject hv hallowed⟩
  | @membership kind x values span family hx _ hbounds hne =>
    have hkind : kind.family ≠ .logical ∧ kind.holdsScalars = true := by
      cases kind <;> revert family <;> decide
    have hmem : ∀ op, x = .operator op →
        .operator op ∈ (stated kind x (values.map .value) span).operands :=
      fun _ hop => isSubject_of_mem hop
    obtain ⟨sketches, hsubject⟩ : ∃ sketches, IsSubject s raw kind x sketches :=
      exists_isSubject hkind.1 hx (fun op hop => (hchildren op (hmem op hop)).root.shaped)
        (fun op hop => by
        subst hop
        exact ih op (hmem op rfl) (hchildren op (hmem op rfl))
          (Kind.isClause_eq_false (by rw [hx.1]; decide)))
    have hvalues : ∀ v ∈ values, v.IsWritable s.registry raw := by
      rw [stated_kind] at hscalars
      exact fun v hv => hscalars hkind.2 v (mem_values_stated (List.mem_map_of_mem hv))
    exact ⟨_, isSketchedAs_membership family hsubject hvalues hbounds hne⟩
  | existence family hp => exact ⟨_, isSketchedAs_existence family hp⟩
  | @negation condition span hcondition =>
    have hmem : Operand.operator condition ∈ [Operand.operator condition] :=
      List.mem_singleton.mpr rfl
    obtain ⟨sketches, hsketches⟩ := ih condition hmem (hchildren condition hmem)
      (Kind.isClause_of_isCondition hcondition)
    exact ⟨_, isSketchedAs_negation hsketches hcondition
      (size_of_isConnective (hchildren condition hmem).root.shaped)⟩
  | @group connective conditions span size hconditions =>
    have hmem : ∀ c ∈ conditions, Operand.operator c ∈ conditions.map Operand.operator :=
      fun c hc => List.mem_map_of_mem hc
    obtain ⟨sketches, hsketches⟩ :
        ∃ sketches, List.Forall₂ (IsSketchedAs s raw) conditions sketches :=
      exists_forall₂ fun c hc => ih c (hmem c hc) (hchildren c (hmem c hc))
        (Kind.isClause_of_isCondition (hconditions c hc))
    exact ⟨_, isSketchedAs_group hsketches size hconditions fun c hc =>
      size_of_isConnective (hchildren c (hmem c hc)).root.shaped⟩
  | @naming x name span hx hname =>
    obtain ⟨sketches, htarget⟩ : ∃ sketches, IsTarget s raw x sketches :=
      exists_isTarget hx fun op hop => by
      subst hop
      exact ih op (List.mem_cons_self ..) (hchildren op (List.mem_cons_self ..))
        (Kind.isClause_eq_false (by rw [hx.1]; decide))
    exact ⟨_, isSketchedAs_naming htarget hname⟩
  | @function kind p values span family hname hp _ htypes =>
    have hmem : ∀ v ∈ values, v ∈ (Operator.mk kind (some p) (values.map .value) span).values := by
      intro v hv
      simpa [Operator.values, List.filterMap_map, Function.comp_def, Operand.value?] using hv
    refine isSketchedAs_function family hname hp htypes (fun hregexp v hv => ?_)
      fun hregexp v hv => hpatterns hregexp v (hmem v hv)
    have hholds : kind.holdsScalars = true := by
      cases kind <;> first | rfl | exact absurd rfl hname | exact absurd rfl hregexp | cases family
    exact hscalars hholds v (hmem v hv)
  -- clauses are excluded
  | listing lists => obtain rfl | rfl | rfl := lists <;> cases hclause
  | filter filters => obtain rfl | rfl := filters <;> cases hclause
  | _ => cases hclause

end Operator

end RecordQuery
