import RecordQuery.Proofs.Joining
import RecordQuery.Proofs.Writing

/-!
# Operators are read back

The text of an operator can be sketched, and elements that are read as the sketch are read as the
operator. The proof is one induction over the operator; each shape has a lemma of its own, which
takes what its operands are read as to what the operator is read as.

An operator is read in several places, and what is known of it differs: a phrase of its own, a
condition that `NOT` may stand before, something that `AS` may stand behind, the contents of a pair
of parentheses. `Phrase.IsRead` collects these.
-/

namespace RecordQuery

open Reader Item Sketch

/-! ## What is read back -/

/-- Whether the operands of an operator of a kind are scalars that are written as such. -/
def Kind.holdsScalars : Kind → Bool
  | asName | orderBy | regexpMatch => false
  | _ => true

/-- The shapes of operators that are read back. -/
def ShapeRules.written (registry : Registry) : ShapeRules where
  ref p := p.IsWritable registry
  scalar _ := True
  name n := (PropertyRef.byAlias n).IsWritable registry
  subject
    | .property p => p.IsWritable registry
    | .operator op => op.kind.family = .projection ∧ op.kind ≠ .asName ∧ op.kind ≠ .regexpMatch
    | .value _ => False
  target
    | .property p => p.IsWritable registry
    | .operator op => op.kind.family = .projection ∧ op.kind ≠ .regexpMatch
    | .value _ => False
  listed
    | .property p => p.IsWritable registry
    | .operator op => op.kind.isClause = false ∧ op.kind.isConnective = false
    | .value _ => False
  groupSize n := 2 ≤ n
  listSize n := 1 ≤ n
  bound type := type = .string ∨ type = .number

/-- Whether an operator is read from its text as it was, if its operands are. -/
structure Operator.IsWritable (registry : Registry) (raw : Lexeme → Prop) (op : Operator) :
    Prop where
  shaped : op.Shaped (.written registry)
  scalars : op.kind.holdsScalars = true → ∀ v ∈ op.values, v.IsWritable registry raw
  patterns : op.kind = .regexpMatch → ∀ v ∈ op.values, v.IsPattern registry

/-- The scalars of an operator, where no scalar stands for anything else. -/
lemma Operator.Shaped.scalar_of_mem_values_of_ne {R : ShapeRules} {op : Operator} (h : op.Shaped R)
    (hname : op.kind ≠ .asName) (horder : op.kind ≠ .orderBy)
    (hsubject : ∀ v, ¬ R.subject (.value v)) (hlisted : ∀ v, ¬ R.listed (.value v))
    {v : ScalarValue} (hv : v ∈ op.values) : R.scalar v := by
  cases h with
  | comparison family hx hw =>
    obtain rfl | hv := Operator.mem_operands_stated (Operator.mem_values.mp hv)
    · exact absurd hx (hsubject v)
    · cases List.mem_singleton.mp hv
      exact hw
  | membership family hx hvalues =>
    obtain rfl | hv := Operator.mem_operands_stated (Operator.mem_values.mp hv)
    · exact absurd hx (hsubject v)
    · obtain ⟨w, hw, heq⟩ := List.mem_map.mp hv
      cases heq
      exact hvalues v hw
  | function family notNaming hp hvalues =>
    simp only [Operator.values, List.filterMap_map] at hv
    exact hvalues v (by simpa [Operand.value?, Function.comp_def] using hv)
  | existence | negation | filter => simp [Operator.values, Operand.value?] at hv
  | group => simp [Operator.values, Operand.value?, List.filterMap_map, Function.comp_def] at hv
  | naming => exact absurd rfl hname
  | ordering => exact absurd rfl horder
  | listing lists hoperands => exact absurd (hoperands _ (Operator.mem_values.mp hv)) (hlisted v)
  | limit hvalue =>
    obtain rfl := List.mem_singleton.mp hv
    exact hvalue
  | timeRange hfirst hlast =>
    obtain rfl | rfl : v = _ ∨ v = _ := by
      simpa [Operator.values, Operand.value?] using hv
    · exact hfirst
    · exact hlast

/-- The scalars of an operator that looks its scalars up. -/
lemma Operator.Shaped.scalar_of_mem_values {R : ShapeRules} {op : Operator} (h : op.Shaped R)
    (hscalars : op.kind.holdsScalars = true) (hsubject : ∀ v, ¬ R.subject (.value v))
    (hlisted : ∀ v, ¬ R.listed (.value v)) {v : ScalarValue} (hv : v ∈ op.values) : R.scalar v := by
  refine h.scalar_of_mem_values_of_ne ?_ ?_ hsubject hlisted hv
  · intro hname
    rw [hname] at hscalars
    cases hscalars
  · intro horder
    rw [horder] at hscalars
    cases hscalars

namespace Phrase

/-- What elements are read as that an operator is written as. -/
structure IsRead (s : Setting) (names names' : List String) (es : List Element) (op : Operator) :
    Prop where
  nonempty : es ≠ []
  begins : ∀ e ∈ es.head?, Phrase.continues e.token = true
  continues : op.isConnective = false → ∀ e ∈ es, Phrase.continues e.token = true
  phrase : op.isConnective = false → IsPhrase s names names' es (.operator op)
  condensed : op.isCondition = true → op.isConnective = false → op.kind ≠ .not →
    ∃ middle, Gathers names middle es fun items =>
      Condenses s op.rounds middle names' items (.operator op)
  chained : op.isCondition = false → ∃ middle, Gathers names middle es fun items =>
    Chains s op.rounds middle names' items (.operator op)
  group : op.isCondition = true → IsGroup s names names' es op
  function : op.kind.family = .projection → op.kind ≠ .asName →
    ∃ middle, Gathers names middle es fun items =>
      Turns s 1 1 middle names' items (IsOne s.registry (.operator op))

variable {s : Setting} {names names' : List String} {es : List Element} {op : Operator}

/-- A condition that is condensed is read. -/
lemma IsRead.of_condensed (middle : List String) (hne : es ≠ [])
    (hcontinues : ∀ e ∈ es, Phrase.continues e.token = true)
    (h : Gathers names middle es fun items =>
      Condenses s op.rounds middle names' items (.operator op))
    (hcondition : op.isCondition = true) (hrounds : op.rounds ≤ s.ceilings.steps)
    (hsteps : 1 ≤ s.ceilings.steps) (hfunction : op.kind.family = .projection → op.kind ≠ .asName →
      ∃ middle, Gathers names middle es fun items =>
        Turns s 1 1 middle names' items (IsOne s.registry (.operator op))) :
    IsRead s names names' es op := by
  have hphrase : IsPhrase s names names' es (.operator op) :=
    ⟨hne, hcontinues, middle, h.mono fun _ hitems => (Chains.of_condenses hitems).reduce hrounds⟩
  refine ⟨hne, fun e he => hcontinues e (List.mem_of_mem_head? he), fun _ => hcontinues,
    fun _ => hphrase, fun _ _ _ => ⟨middle, h⟩, fun hnot => ?_, fun _ => .of_phrase hphrase hsteps,
    hfunction⟩
  rw [hcondition] at hnot
  cases hnot

/-- What is no condition is read if it is a chain. -/
lemma IsRead.of_chained (middle : List String) (hne : es ≠ [])
    (hcontinues : ∀ e ∈ es, Phrase.continues e.token = true)
    (h : Gathers names middle es fun items =>
      Chains s op.rounds middle names' items (.operator op))
    (hcondition : op.isCondition = false) (hrounds : op.rounds ≤ s.ceilings.steps)
    (hfunction : op.kind.family = .projection → op.kind ≠ .asName →
      ∃ middle, Gathers names middle es fun items =>
        Turns s 1 1 middle names' items (IsOne s.registry (.operator op))) :
    IsRead s names names' es op := by
  have hphrase : IsPhrase s names names' es (.operator op) :=
    ⟨hne, hcontinues, middle, h.mono fun _ hitems => hitems.reduce hrounds⟩
  refine ⟨hne, fun e he => hcontinues e (List.mem_of_mem_head? he), fun _ => hcontinues,
    fun _ => hphrase, fun hyes => ?_, fun _ => ⟨middle, h⟩, fun hyes => ?_, hfunction⟩
  all_goals
    rw [hcondition] at hyes
    cases hyes

/-- A group is read in parentheses only, or as a whole. -/
lemma IsRead.of_group (hne : es ≠ []) (hbegins : ∀ e ∈ es.head?, Phrase.continues e.token = true)
    (hconnective : op.isConnective = true) (hgroup : IsGroup s names names' es op) :
    IsRead s names names' es op := by
  have hkind : op.isCondition = true ∧ op.kind.family ≠ .projection := by
    rw [Operator.isConnective] at hconnective
    rw [Operator.isCondition]
    revert hconnective
    cases op.kind <;> decide
  refine ⟨hne, hbegins, fun hnot => ?_, fun hnot => ?_, fun _ hnot => ?_, fun hnot => ?_,
    fun _ => hgroup, fun hprojection => absurd hprojection hkind.2⟩
  · rw [hconnective] at hnot
    cases hnot
  · rw [hconnective] at hnot
    cases hnot
  · rw [hconnective] at hnot
    cases hnot
  · rw [hkind.1] at hnot
    cases hnot

end Phrase

namespace Operator

open Phrase

/-- Whether sketches write an operator, and are read as it. -/
structure IsSketchedAs (s : Setting) (raw : Lexeme → Prop) (op : Operator)
    (sketches : List Sketch) : Prop where
  writes : Sketch.Writes raw op.depth (op.render s.registry) sketches
  reads : ∀ names es, Sketch.ReadsAll s sketches es →
    Mention.resolves s.registry names op.mentions = true →
    op.Everywhere (Paced s.ceilings.steps) →
    Phrase.IsRead s names (Mention.bound names op.mentions) es op

variable {s : Setting} {raw : Lexeme → Prop}

/-- Elements of sketches in two parts are in two parts. -/
lemma readsAll_append {a b : List Sketch} {es : List Element}
    (h : Sketch.ReadsAll s (a ++ b) es) :
    ∃ es₁ es₂, es = es₁ ++ es₂ ∧ Sketch.ReadsAll s a es₁ ∧ Sketch.ReadsAll s b es₂ := by
  induction a generalizing es with
  | nil => exact ⟨[], es, rfl, .nil, h⟩
  | cons sketch a ih =>
    obtain ⟨e, rest, he, hrest, rfl⟩ := List.forall₂_cons_left_iff.mp h
    obtain ⟨es₁, es₂, rfl, h₁, h₂⟩ := ih hrest
    exact ⟨e :: es₁, es₂, rfl, .cons he h₁, h₂⟩

/-- One sketch is read as one element. -/
lemma readsAll_single {sketch : Sketch} {es : List Element}
    (h : Sketch.ReadsAll s [sketch] es) : ∃ e, es = [e] ∧ sketch.Reads s e := by
  obtain ⟨e, rest, he, hrest, rfl⟩ := List.forall₂_cons_left_iff.mp h
  cases hrest
  exact ⟨e, rfl, he⟩

/-- Two sketches are read as two elements. -/
lemma readsAll_pair {a b : Sketch} {es : List Element} (h : Sketch.ReadsAll s [a, b] es) :
    ∃ e f, es = [e, f] ∧ a.Reads s e ∧ b.Reads s f := by
  obtain ⟨e, rest, he, hrest, rfl⟩ := List.forall₂_cons_left_iff.mp h
  obtain ⟨f, rfl, hf⟩ := readsAll_single hrest
  exact ⟨e, f, rfl, he, hf⟩

/-! ## Subjects -/

/-- Whether sketches write what an operator of a kind is about, and are read as it in the first
tier. -/
structure IsSubject (s : Setting) (raw : Lexeme → Prop) (kind : Kind) (x : Operand)
    (sketches : List Sketch) : Prop where
  writes : Sketch.Writes raw (depthIn kind [x]) (x.render s.registry) sketches
  notCondition : ∀ op, x = .operator op → op.isCondition = false
  reads : ∀ names es, Sketch.ReadsAll s sketches es →
    Mention.resolves s.registry names (mentionsIn true [x]) = true →
    (∀ op, x = .operator op → op.Everywhere (Paced s.ceilings.steps)) →
    (∀ e ∈ es, Phrase.continues e.token = true) ∧
      Resolved s.registry (Mention.bound names (mentionsIn true [x])) x ∧
      ∃ middle, Gathers names middle es fun items =>
        Turns s 1 (roundsIn kind [x]) middle (Mention.bound names (mentionsIn true [x])) items
          (IsOne s.registry x)

/-- A reference that resolves where it stands is resolved. -/
lemma resolved_reference {registry : Registry} {names : List String} {p : PropertyRef}
    (hp : p.IsWritable registry) (h : Mention.resolves registry names [.refer p] = true) :
    Resolved registry names (.property p) := ⟨hp, Mention.resolves_refer h⟩

/-- A writable reference can stand before an operator. -/
lemma isSubject_reference {p : PropertyRef} (hp : p.IsWritable s.registry) (kind : Kind) :
    IsSubject s raw kind (.property p) [p.sketch s.registry] := by
  refine ⟨Writes.of_token (isToken_reference hp raw False), by rintro op ⟨⟩, ?_⟩
  intro names es hes hnames _
  obtain ⟨e, rfl, he⟩ := readsAll_single hes
  refine ⟨?_, resolved_reference hp hnames, names, ?_⟩
  · simpa using (denotes_reference s p e he).1
  · refine (Gathers.leaf (denotes_reference s p) he).mono ?_
    rintro _ ⟨token, rfl, hshows⟩
    have hidle : Idle 1 [ofToken token] := idle_cons.mpr ⟨rfl, .nil⟩
    exact (Turns.idle hidle).mono fun made hmade => ⟨_, hmade, hshows⟩

/-- An operand that is no operand of a group or a negation is put into no parentheses. -/
lemma depthIn_operator {kind : Kind} (hkind : kind.family ≠ .logical) (op : Operator) :
    depthIn kind [.operator op] = op.depth := by
  simp [depthIn, encloses_eq_false hkind]

/-- An operand mentions what its operator does. -/
lemma mentionsIn_operator (all : Bool) (op : Operator) :
    mentionsIn all [.operator op] = op.mentions := by
  rw [mentionsIn, mentionsIn, List.append_nil]

/-- A function that is read back can stand before an operator. -/
lemma isSubject_function {kind : Kind} (hkind : kind.family ≠ .logical) {op : Operator}
    {sketches : List Sketch} (h : IsSketchedAs s raw op sketches)
    (family : op.kind.family = .projection) (hname : op.kind ≠ .asName)
    (hpattern : op.kind ≠ .regexpMatch) (hrounds : op.rounds = 1) :
    IsSubject s raw kind (.operator op) sketches := by
  have hcondition : op.isCondition = false := by
    rw [isCondition, Kind.isCondition, family]
    simpa using hpattern
  have hconnective : op.isConnective = false :=
    Kind.isConnective_eq_false (by rw [family]; decide)
  refine ⟨?_, ?_, fun names es hes hnames hpaced => ?_⟩
  · rw [depthIn_operator hkind]
    exact h.writes
  · rintro _ ⟨⟩
    exact hcondition
  · rw [mentionsIn_operator] at hnames ⊢
    have hread := h.reads names es hes hnames (hpaced op rfl)
    obtain ⟨middle, hgathers⟩ := hread.function family hname
    have hround : roundsIn kind [.operator op] = 1 := by
      simp [roundsIn, encloses_eq_false hkind, hrounds]
    rw [hround]
    exact ⟨hread.continues hconnective, trivial, middle, hgathers⟩

/-! ## Comparisons and membership tests -/

variable {kind : Kind} {x : Operand} {sketches : List Sketch}

/-- A keyword that is no clause and no connective goes on with a phrase. -/
lemma continues_keyword {e : Element} (h : (Sketch.keyword kind).Reads s e)
    (hclause : kind.isClause = false) (hconnective : kind.isConnective = false) :
    Phrase.continues e.token = true := by
  cases h with
  | keyword item rule class_ =>
    refine continues_of_rule rule ?_ hclause hconnective
    rw [class_]
    cases kind <;> decide

/-- A function that is no clause and no connective goes on with a phrase. -/
lemma continues_call {parameters : List Sketch} {e : Element}
    (h : (Sketch.call kind parameters).Reads s e) (hclause : kind.isClause = false)
    (hconnective : kind.isConnective = false) : Phrase.continues e.token = true := by
  cases h with
  | call reads item parameters_eq rule class_ =>
    exact continues_of_rule rule (by rw [class_]; decide) hclause hconnective

/-- The operators among the operands of a condition about a subject. -/
lemma paced_of_stated {steps : Nat} {rest : List Operand} {span : Option Span}
    (h : (stated kind x rest span).Everywhere (Paced steps)) :
    ∀ op, x = .operator op → op.Everywhere (Paced steps) := by
  rintro op rfl
  exact (everywhere_iff.mp h).2 op (by simp [stated, about, withOperands])

/-- A comparison is read back from its subject, keyword and value. -/
theorem isSketchedAs_comparison {v : ScalarValue} {span : Option Span}
    (family : kind.family = .comparison) (hx : IsSubject s raw kind x sketches)
    (hv : v.IsWritable s.registry raw)
    (hallowed : ScalarValue.allows kind.comparable v.type = true) :
    IsSketchedAs s raw (stated kind x [.value v] span)
      (sketches ++ [.keyword kind, v.sketch s.registry]) := by
  -- all comparisons are of one build: two neighbours, settled at the second tier
  have hkind : kind.isSingle = true ∧ kind.isFunction = false ∧ kind.isClause = false ∧
      kind.isConnective = false ∧ kind.isCondition = true ∧ kind.tier = 2 ∧
      kind.claimsLeft = true ∧ kind.claimsRight = true := by
    cases kind <;> revert family <;> decide +kernel
  obtain ⟨hsingle, hfunction, hclause, hconnective, hcondition, htier, hleft, hright⟩ := hkind
  have hdepth : (stated kind x [.value v] span).depth = depthIn kind [x] := by
    have := depth_stated kind x [v] span
    rwa [hfunction, if_neg Bool.false_ne_true, Nat.zero_max] at this
  have hrounds : (stated kind x [.value v] span).rounds = roundsIn kind [x] + 1 := by
    rw [Nat.add_comm]
    exact rounds_stated (.inl family) x [v] span
  have hmentions : (stated kind x [.value v] span).mentions = mentionsIn true [x] :=
    mentions_stated (.inl family) x [v] span
  constructor
  · rw [render_stated_comparison family, hdepth]
    have hwrites := ((hx.writes.append (.mono (.of_token
      (isToken_keyword hsingle hfunction raw False)) (Nat.zero_le _))).append
        (.mono (.of_token (isToken_scalar hv False)) (Nat.zero_le _)))
    rwa [List.append_assoc] at hwrites
  · intro names es hes hnames hpaced
    rw [hmentions] at hnames ⊢
    obtain ⟨es, more, rfl, hsubject, hmore⟩ := readsAll_append hes
    obtain ⟨e, f, rfl, he, hf⟩ := readsAll_pair hmore
    have hpaced' : ∀ op, x = .operator op → op.Everywhere (Paced s.ceilings.steps) :=
      paced_of_stated hpaced
    obtain ⟨hcontinues, hresolved, middle, hgathers⟩ :=
      hx.reads names es hsubject hnames hpaced'
    obtain ⟨hsteps, -⟩ := hpaced.root
    refine Phrase.IsRead.of_condensed middle (by simp) ?_ ?_ ?_ hsteps (by omega) ?_
    · simp only [List.mem_append, List.mem_cons, List.not_mem_nil, or_false]
      rintro g (hg | rfl | rfl)
      · exact hcontinues g hg
      · exact continues_keyword he hclause hconnective
      · exact (denotes_scalar hv _ hf).1
    · refine (hgathers.append
        ((Gathers.keyword he).append (Gathers.leaf (denotes_scalar hv) hf))).mono ?_
      rintro _ ⟨items, _, rfl, hitems, _, _, rfl, rfl, token, rfl, htoken⟩
      rw [hrounds]
      have hidle : Idle 1 [⟨e.token, e.token.fullSpan, .pending kind none⟩, ofToken token] := by
        rw [idle_cons, idle_cons, pendingAt?_pending, htier]
        exact ⟨rfl, rfl, .nil⟩
      -- the subject is settled at the first tier, and the comparison after it
      refine Condenses.of_turns (m := roundsIn kind [x]) (n := 1)
        (fun made => ∃ left, Shows s.registry x left ∧
          made = [left, ⟨e.token, e.token.fullSpan, .pending kind none⟩, ofToken token])
        ((hitems.append (Turns.idle hidle)).mono ?_) ?_
      · rintro _ ⟨_, _, ⟨left, rfl, hleft⟩, rfl, rfl⟩
        exact ⟨left, hleft, rfl⟩
      · rintro _ ⟨left, hshows, rfl⟩
        refine Turns.amid (pendingAt?_of_shows hshows) htier hleft hright (yields_settle ?_ _)
        simp only [Claim.produce, family]
        refine Yields.mono (Claim.yields_comparison hshows hresolved hx.notCondition htoken hallowed
          none) fun op hop => ?_
        rw [hop]
        exact core_stated_eq rfl rfl
    · rw [isCondition, stated_kind, hcondition]
    · intro hprojection
      rw [stated_kind, family] at hprojection
      cases hprojection

/-- Scalars that are writable are tokens that denote them. -/
lemma tokens_scalars {values : List ScalarValue}
    (hvalues : ∀ v ∈ values, v.IsWritable s.registry raw) (mentioned : Prop) :
    List.Forall₂ (Writes.IsToken raw mentioned) (values.map fun v => v.render s.registry)
        (values.map fun v => v.sketch s.registry) ∧
      List.Forall₂ (Sketch.Denotes s) (values.map .value)
        (values.map fun v => v.sketch s.registry) := by
  induction values with
  | nil => exact ⟨.nil, .nil⟩
  | cons v values ih =>
    obtain ⟨hv, hrest⟩ := List.forall_mem_cons.mp hvalues
    exact ⟨.cons (isToken_scalar hv mentioned) (ih hrest).1,
      .cons (denotes_scalar hv) (ih hrest).2⟩

/-- Items that show operands which are values show the values. -/
lemma showValues_of_shows {values : List ScalarValue} {items : List Item}
    (h : List.Forall₂ (Shows s.registry) (values.map .value) items) :
    Claim.ShowValues s.registry values items := List.forall₂_map_left_iff.mp h

/-- A membership is read back from its subject, keyword and values. -/
theorem isSketchedAs_membership {values : List ScalarValue} {span : Option Span}
    (family : kind.family = .membership) (hx : IsSubject s raw kind x sketches)
    (hvalues : ∀ v ∈ values, v.IsWritable s.registry raw)
    (hbounds : kind = .between → values.length = 2 ∧ ∀ v ∈ values, v.type = .number)
    (hne : values ≠ []) :
    IsSketchedAs s raw (stated kind x (values.map .value) span)
      (sketches ++ [.call kind
        ([.comma].intercalate ((values.map fun v => v.sketch s.registry).map ([·])))]) := by
  have hkind : kind.isFunction = true ∧ kind.isClause = false ∧
      kind.isConnective = false ∧ kind.isCondition = true ∧ kind.tier = 2 ∧
      kind.claimsLeft = true ∧ kind.claimsRight = false := by
    cases kind <;> revert family <;> decide
  obtain ⟨hfunction, hclause, hconnective, hcondition, htier, hleft, hright⟩ := hkind
  have hdepth : (stated kind x (values.map .value) span).depth = max 1 (depthIn kind [x]) := by
    rw [depth_stated, hfunction, if_pos rfl]
  have hrounds : (stated kind x (values.map .value) span).rounds = roundsIn kind [x] + 1 := by
    rw [Nat.add_comm]
    exact rounds_stated (.inr family) x values span
  have hmentions : (stated kind x (values.map .value) span).mentions = mentionsIn true [x] :=
    mentions_stated (.inr family) x values span
  obtain ⟨htokens, hdenotes⟩ := tokens_scalars hvalues (False ∨ kind = .regexpMatch)
  constructor
  · rw [render_stated_membership family, hdepth]
    have hwrites := (hx.writes.mono (Nat.le_max_right 1 _)).append
      (.mono (Writes.call hfunction htokens) (Nat.le_max_left 1 _))
    have hgap : kind.gap = [' '] := if_pos family
    rw [hgap] at hwrites
    simpa [String.append_assoc] using hwrites
  · intro names es hes hnames hpaced
    rw [hmentions] at hnames ⊢
    obtain ⟨es, more, rfl, hsubject, hmore⟩ := readsAll_append hes
    obtain ⟨e, rfl, he⟩ := readsAll_single hmore
    obtain ⟨hcontinues, hresolved, middle, hgathers⟩ :=
      hx.reads names es hsubject hnames (paced_of_stated hpaced)
    obtain ⟨hsteps, hbreadth⟩ := hpaced.root
    -- every value in the parentheses takes a round of the loop that draws them
    have hcount : values.length ≤ s.ceilings.steps := by
      refine Nat.le_trans ?_ hbreadth
      simp only [breadth, stated_kind, family]
      have hvaluesOf : values.length ≤
          ((values.map Operand.value).filterMap Operand.value?).length := by
        simp [List.filterMap_map, Function.comp_def, Operand.value?]
      cases x with
      | property p => exact hvaluesOf
      | value v => exact Nat.le_succ_of_le hvaluesOf
      | operator op => exact hvaluesOf
    refine Phrase.IsRead.of_condensed middle (by simp) ?_ ?_ ?_ hsteps (by omega) ?_
    · simp only [List.mem_append, List.mem_singleton]
      rintro g (hg | rfl)
      · exact hcontinues g hg
      · exact continues_call he hclause hconnective
    · have hcall : (values.map Operand.value).length ≤ s.ceilings.steps := by
        rwa [List.length_map]
      refine (hgathers.append (Gathers.call hdenotes hcall he)).mono ?_
      rintro _ ⟨items, _, rfl, hitems, parameters, hparameters, rfl⟩
      rw [hrounds]
      have hidle : Idle 1 [⟨e.token, e.token.fullSpan, .pending kind (some parameters)⟩] := by
        rw [idle_cons, pendingAt?_pending, htier]
        exact ⟨rfl, .nil⟩
      -- the subject is settled at the first tier, and the membership after it
      refine Condenses.of_turns (m := roundsIn kind [x]) (n := 1)
        (fun made => ∃ left, Shows s.registry x left ∧
          made = [left, ⟨e.token, e.token.fullSpan, .pending kind (some parameters)⟩])
        ((hitems.append (Turns.idle hidle)).mono ?_) ?_
      · rintro _ ⟨_, _, ⟨left, rfl, hleft⟩, rfl, rfl⟩
        exact ⟨left, hleft, rfl⟩
      · rintro _ ⟨left, hshows, rfl⟩
        refine Turns.behind (pendingAt?_of_shows hshows) htier hleft hright (yields_settle ?_ _)
        simp only [Claim.produce, family]
        refine Yields.mono (Claim.yields_membership hshows hresolved hx.notCondition
          (showValues_of_shows hparameters) hbounds hne none) fun op hop => ?_
        rw [hop]
        exact core_stated_eq rfl rfl
    · rw [isCondition, stated_kind, hcondition]
    · intro hprojection
      rw [stated_kind, family] at hprojection
      cases hprojection

/-! ## Existence tests and functions -/

/-- A test for existence is read back from its keyword and property. -/
theorem isSketchedAs_existence {p : PropertyRef} {span : Option Span}
    (family : kind.family = .existence) (hp : p.IsWritable s.registry) :
    IsSketchedAs s raw ⟨kind, some p, [], span⟩ [.keyword kind, p.sketch s.registry] := by
  have hkind : kind.isSingle = true ∧ kind.isFunction = false ∧ kind.isClause = false ∧
      kind.isConnective = false ∧ kind.isCondition = true ∧ kind.tier = 3 ∧
      kind.claimsRight = true := by
    cases kind <;> revert family <;> decide +kernel
  obtain ⟨hsingle, hfunction, hclause, hconnective, hcondition, htier, hright⟩ := hkind
  have hrounds : (Operator.mk kind (some p) [] span).rounds = 1 := by
    simp [rounds, hconnective, hclause, roundsIn]
  constructor
  · rw [render_existence family]
    exact ((Writes.of_token (isToken_keyword hsingle hfunction raw False)).mono
      (Nat.zero_le _)).append ((Writes.of_token (isToken_reference hp raw False)).mono
        (Nat.zero_le _))
  · intro names es hes hnames hpaced
    rw [mentions_existence family] at hnames ⊢
    obtain ⟨e, f, rfl, he, hf⟩ := readsAll_pair hes
    obtain ⟨hsteps, -⟩ := hpaced.root
    refine Phrase.IsRead.of_condensed names (by simp) ?_ ?_ hcondition hsteps (by omega) ?_
    · simp only [List.mem_cons, List.not_mem_nil, or_false]
      rintro g (rfl | rfl)
      · exact continues_keyword he hclause hconnective
      · exact (denotes_reference s p _ hf).1
    · refine ((Gathers.keyword he).append (Gathers.leaf (denotes_reference s p) hf)).mono ?_
      rintro _ ⟨_, _, rfl, rfl, token, rfl, hshows⟩
      rw [hrounds]
      refine Condenses.of_prefix htier hright (fun _ => rfl) (yields_settle ?_ _)
      simp only [Claim.produce, family]
      refine Yields.mono (Claim.yields_existence hshows (resolved_reference hp hnames) none none)
        fun op hop => ?_
      rw [hop, core_eq_iff]
      exact ⟨rfl, rfl, rfl⟩
    · intro hprojection
      rw [family] at hprojection
      cases hprojection

/-- A function is read back from its property and its argument in parentheses. -/
theorem isSketchedAs_function {p : PropertyRef} {values : List ScalarValue} {span : Option Span}
    (family : kind.family = .projection) (hname : kind ≠ .asName) (hp : p.IsWritable s.registry)
    (htypes : values.map ScalarValue.type = kind.argumentType?.toList)
    (hscalars : kind ≠ .regexpMatch → ∀ v ∈ values, v.IsWritable s.registry raw)
    (hpatterns : kind = .regexpMatch → ∀ v ∈ values, v.IsPattern s.registry) :
    ∃ sketches, IsSketchedAs s raw ⟨kind, some p, values.map .value, span⟩ sketches := by
  have hkind : kind.isFunction = true ∧ kind.isClause = false ∧ kind.isConnective = false ∧
      kind.tier = 1 ∧ kind.claimsLeft = false ∧ kind.claimsRight = false ∧ kind.gap = [] := by
    cases kind <;> revert family hname <;> decide
  obtain ⟨hfunction, hclause, hconnective, htier, hleft, hright, hgap⟩ := hkind
  have hrounds : (Operator.mk kind (some p) (values.map .value) span).rounds = 1 := by
    simp only [rounds, hconnective, hclause, Bool.or_self, Bool.false_eq_true, if_false]
    cases values <;> rfl
  have hdepth : 1 ≤ (Operator.mk kind (some p) (values.map .value) span).depth := by
    rw [depth, hfunction, if_pos rfl]
    exact Nat.le_max_left _ _
  -- A pattern is written in a form of its own.
  obtain ⟨leaves, htokens, hdenotes⟩ : ∃ leaves,
      List.Forall₂ (Writes.IsToken raw (False ∨ kind = .regexpMatch))
        (values.map (parameterText s.registry kind)) leaves ∧
      List.Forall₂ (Sketch.Denotes s) (values.map .value) leaves := by
    by_cases hregexp : kind = .regexpMatch
    · refine ⟨values.map ScalarValue.patternSketch, ?_, ?_⟩
      · rw [List.forall₂_map_left_iff, List.forall₂_map_right_iff, List.forall₂_same]
        intro v hv
        rw [parameterText, if_pos hregexp]
        exact isToken_pattern (hpatterns hregexp v hv) (.inr hregexp)
      · rw [List.forall₂_map_left_iff, List.forall₂_map_right_iff, List.forall₂_same]
        exact fun v hv => denotes_pattern (hpatterns hregexp v hv)
    · obtain ⟨htokens, hdenotes⟩ :=
        tokens_scalars (hscalars hregexp) (False ∨ kind = .regexpMatch)
      refine ⟨_, ?_, hdenotes⟩
      have htexts : parameterText s.registry kind = fun v => v.render s.registry := by
        funext v
        rw [parameterText, if_neg hregexp]
      rwa [htexts]
  refine ⟨[.call kind ([.comma].intercalate ((p.sketch s.registry :: leaves).map ([·])))], ?_, ?_⟩
  · rw [render_function family hname]
    have hwrites := Writes.call hfunction
      (.cons (isToken_reference hp raw (False ∨ kind = .regexpMatch)) htokens)
    rw [hgap] at hwrites
    refine Writes.mono ?_ hdepth
    simpa using hwrites
  · intro names es hes hnames hpaced
    rw [mentions_function family hname] at hnames ⊢
    obtain ⟨e, rfl, he⟩ := readsAll_single hes
    obtain ⟨hsteps, hbreadth⟩ := hpaced.root
    have hcount : (Operand.property p :: values.map Operand.value).length ≤ s.ceilings.steps := by
      simpa [breadth, family, hname] using hbreadth
    have hresolved : Resolved s.registry names (.property p) := by
      have hfirst : Mention.resolves s.registry names [.refer p] = true := by
        rw [← List.singleton_append, Mention.resolves_append, Bool.and_eq_true] at hnames
        exact hnames.1
      exact resolved_reference hp hfirst
    have hcontinues : ∀ g ∈ [e], Phrase.continues g.token = true := by
      simpa using continues_call he hclause hconnective
    -- a function is settled at the first tier, before any neighbour could take it
    have hturns : Gathers names names [e] fun items =>
        Turns s 1 1 names (Mention.bound names (.refer p :: (Operator.mk kind (some p)
          (values.map .value) none).defaultAlias?.toList.map .bind)) items
            (IsOne s.registry (.operator ⟨kind, some p, values.map .value, span⟩)) := by
      refine (Gathers.call (.cons (denotes_reference s p) hdenotes) hcount he).mono ?_
      rintro _ ⟨_, hparameters, rfl⟩
      cases hparameters with
      | @cons _ first _ parameters hfirst hrest =>
        refine Turns.alone htier hleft hright (yields_settle ?_ _)
        simp only [Claim.produce, family, if_neg hname]
        refine Yields.mono
          (Claim.yields_function hfirst hresolved (showValues_of_shows hrest) htypes
          none none) fun op hop => ?_
        rw [hop, core_eq_iff]
        exact ⟨rfl, rfl, rfl⟩
    have hcondenses : Gathers names names [e] fun items =>
        Condenses s 1 names (Mention.bound names (.refer p :: (Operator.mk kind (some p)
          (values.map .value) none).defaultAlias?.toList.map .bind)) items
            (.operator ⟨kind, some p, values.map .value, span⟩) := by
      refine hturns.mono fun items hitems => ?_
      refine Condenses.of_turns (m := 1) (n := 0) _ hitems ?_
      rintro _ ⟨item, rfl, hitem⟩
      exact (Turns.idle (idle_cons.mpr ⟨pendingAt?_of_shows hitem, .nil⟩)).mono
        fun made hmade => ⟨item, hmade, hitem⟩
    rw [← hrounds] at hcondenses
    by_cases hcondition :
        (Operator.mk kind (some p) (values.map .value) span).isCondition = true
    · exact .of_condensed _ (List.cons_ne_nil _ _) hcontinues hcondenses hcondition hsteps
        (by omega) fun _ _ => ⟨names, hturns⟩
    · exact .of_chained _ (List.cons_ne_nil _ _) hcontinues
        (hcondenses.mono fun _ hitems => .of_condenses hitems)
        (Bool.eq_false_of_not_eq_true hcondition)
        hsteps fun _ _ => ⟨names, hturns⟩

end Operator

end RecordQuery
