import RecordQuery.Proofs.Compiling
import RecordQuery.Proofs.Named
import RecordQuery.Proofs.ReadBack
import RecordQuery.Proofs.RenderedText

/-!
# Conditions are compiled from their texts

A condition that is rendered under a registry and compiled under the same registry is the condition
it was. What has to be known of the registry is that it finds the id of a property by the name that
it shows the property under. This is so for every registry that was ever built, since names and ids
are registered on both sides at once.

An alias is the only thing that a property could be taken for. None is introduced by a condition but
the default names of its aggregates, so no property may be written as one of these. How deep the
condition is nested and how many operands it has matters to the ceilings of the reading alone.
-/

namespace RecordQuery

open Reader Item Sketch Text

/-! ## Conditions -/

/-- The shapes of conditions that are compared, tested and joined. -/
def ShapeRules.condition (registry : Registry) : ShapeRules where
  ref p := p.IsNamed registry
  scalar v := v.IsNamed registry
  name _ := False
  subject
    | .property p => p.IsNamed registry
    | .operator op => op.kind.family = .projection ∧ op.kind ≠ .asName ∧ op.kind ≠ .regexpMatch
    | .value _ => False
  target _ := False
  listed _ := False
  groupSize n := 2 ≤ n
  listSize _ := False
  bound _ := False

namespace Mention

/-- References to properties are looked up rightly if none is written as a name that is bound. -/
lemma resolves_of_forall {registry : Registry} {mentions : List Mention} {names : List String}
    (halias : ∀ p, .refer p ∈ mentions → p.isAlias = false)
    (hbefore : ∀ p, .refer p ∈ mentions → p.writtenText registry ∉ names)
    (hbound : ∀ p name, .refer p ∈ mentions → .bind name ∈ mentions →
      p.writtenText registry ≠ name) : resolves registry names mentions = true := by
  induction mentions generalizing names with
  | nil => rfl
  | cons mention mentions ih =>
    have hrest : ∀ p name, .refer p ∈ mentions → .bind name ∈ mentions →
        p.writtenText registry ≠ name := fun p name hp hname =>
      hbound p name (List.mem_cons_of_mem _ hp) (List.mem_cons_of_mem _ hname)
    cases mention with
    | refer p =>
      have hp : p.writtenText registry ∉ names := hbefore p (List.mem_cons_self ..)
      rw [resolves, halias p (List.mem_cons_self ..), ih
        (fun p hp => halias p (List.mem_cons_of_mem _ hp))
        (fun p hp => hbefore p (List.mem_cons_of_mem _ hp)) hrest]
      simpa using hp
    | bind name =>
      rw [resolves, ih (fun p hp => halias p (List.mem_cons_of_mem _ hp)) ?_ hrest]
      intro p hp
      rw [List.mem_cons, not_or]
      exact ⟨hbound p name (List.mem_cons_of_mem _ hp) (List.mem_cons_self ..),
        hbefore p (List.mem_cons_of_mem _ hp)⟩

end Mention

namespace Operator

/-- Whether an operator holds a reference itself. -/
def Holds (p : PropertyRef) (op : Operator) : Prop :=
  op.property = some p ∨ .property p ∈ op.operands

/-- What operands refer to is among them. -/
lemma mem_references {operands : List Operand} {p : PropertyRef}
    (h : .refer p ∈ references operands) : .property p ∈ operands := by
  obtain ⟨operand, hoperand, heq⟩ := List.mem_filterMap.mp h
  cases operand with
  | property q =>
    cases heq
    exact hoperand
  | _ => cases heq

/-- The references in the operators among some operands, and those among the operands themselves. -/
lemma mem_mentionsIn {all : Bool} {operands : List Operand} {p : PropertyRef}
    (h : .refer p ∈ mentionsIn all operands) :
    .property p ∈ operands ∨ ∃ op, .operator op ∈ operands ∧ .refer p ∈ op.mentions := by
  induction operands with
  | nil => cases h
  | cons operand rest ih =>
    have hlater : .refer p ∈ mentionsIn all rest → .property p ∈ operand :: rest ∨
        ∃ op, .operator op ∈ operand :: rest ∧ .refer p ∈ op.mentions := by
      intro h
      obtain h | ⟨op, hop, h⟩ := ih h
      · exact .inl (List.mem_cons_of_mem _ h)
      · exact .inr ⟨op, List.mem_cons_of_mem _ hop, h⟩
    cases operand with
    | property q =>
      rw [mentionsIn, List.mem_append] at h
      obtain h | h := h
      · split at h
        · obtain rfl : p = q := by simpa using h
          exact .inl (List.mem_cons_self ..)
        · cases h
      · exact hlater h
    | value v => exact hlater h
    | operator op =>
      rw [mentionsIn, List.mem_append] at h
      obtain h | h := h
      · exact .inr ⟨op, List.mem_cons_self .., h⟩
      · exact hlater h

/-- Every reference that is mentioned is held somewhere in the operator. -/
lemma of_mem_mentions {Q : PropertyRef → Prop} {p : PropertyRef} (op : Operator) :
    op.Everywhere (fun op => ∀ p, op.Holds p → Q p) → .refer p ∈ op.mentions → Q p := by
  induction op using Operator.induction with
  | step op ih =>
    intro h hmem
    obtain ⟨hroot, hchildren⟩ := everywhere_iff.mp h
    obtain ⟨kind, property, operands, span⟩ := op
    simp only [mentions, List.mem_append] at hmem
    obtain hmem | (hmem | hmem) | hmem := hmem
    · obtain ⟨q, hq, heq⟩ := List.mem_map.mp hmem
      cases heq
      exact hroot p (.inl (Option.mem_toList.mp hq))
    · obtain hmem | ⟨child, hchild, hmem⟩ := mem_mentionsIn hmem
      · exact hroot p (.inr hmem)
      · exact ih child hchild (hchildren child hchild) hmem
    · split at hmem
      · exact hroot p (.inr (mem_references hmem))
      · cases hmem
    · obtain ⟨name, -, heq⟩ := List.mem_map.mp hmem
      cases heq

variable {registry : Registry} {op : Operator}

/-- A property that an operator holds and that is not among the rest is its subject. -/
lemma eq_of_holds_stated {kind : Kind} {x : Operand} {rest : List Operand} {span : Option Span}
    {p : PropertyRef} (h : (stated kind x rest span).Holds p) (hrest : .property p ∉ rest) :
    x = .property p := by
  cases x <;> simp_all [Holds, stated, about, withOperands]

/-- The references in a condition are to properties that their texts lead back to. -/
lemma Shaped.isNamed_of_holds (h : op.Shaped (.condition registry)) {p : PropertyRef}
    (hp : op.Holds p) : p.IsNamed registry := by
  cases h with
  | comparison family hx =>
    obtain rfl := eq_of_holds_stated hp (by simp)
    exact hx
  | membership family hx =>
    obtain rfl := eq_of_holds_stated hp (by simp)
    exact hx
  | existence family hq =>
    obtain hp | hp := hp
    · cases hp
      exact hq
    · cases hp
  | function family notNaming hq =>
    obtain hp | hp := hp
    · cases hp
      exact hq
    · simp at hp
  | negation | filter => simp [Holds] at hp
  | group => simp [Holds] at hp
  | naming hx => exact hx.elim
  | listing lists hlisted size => exact size.elim
  | ordering hlisted directions size => exact size.elim
  | limit => simp [Holds] at hp
  | timeRange hfirst hlast firstType => exact firstType.elim

/-- A condition is written in a way that it is read back from. -/
lemma Shaped.isWritable (hregistry : registry.IsMutual) (h : op.Shaped (.condition registry))
    (hpattern : op.kind ≠ .regexpMatch) : op.IsWritable registry (fun _ => False) where
  shaped := by
    refine @Shaped.mono (.condition registry) (.written registry) op
      (fun p hp => PropertyRef.IsNamed.isWritable hregistry hp) (fun _ _ => trivial)
      (fun _ h => h.elim) ?_ (fun _ h => h.elim) (fun _ h => h.elim) (fun _ hn => hn)
      (fun _ h => h.elim) (fun _ h => h.elim) h
    intro x hx
    cases x with
    | property p => exact PropertyRef.IsNamed.isWritable hregistry hx
    | value v => exact hx
    | operator op => exact hx
  scalars hscalars v hv :=
    (h.scalar_of_mem_values hscalars (fun _ => id) (fun _ => id) hv).isWritable hregistry
  patterns hkind := absurd hkind hpattern

end Operator

/-! ## The round trip -/

namespace Clause

/-- A condition that is read as a group is noted as the condition of the query. -/
lemma on_readCondition {s : Setting} {names : List String} {es : List Element}
    {condition : Operator} (h : Phrase.IsGroup s [] names es condition)
    (hcondition : condition.isCondition = true) :
    ∃ n' read span, on (readCondition s es) {} = (.ok (), n') ∧ read.core = condition.core ∧
      n'.draft.problems = [] ∧
        n'.draft.clauses = [(.whereClause, ⟨.whereClause, none, [.operator read], some span⟩)] := by
  have hdraw := h [] .nil
  rw [List.append_nil] at hdraw
  obtain ⟨_, n, hrun, ⟨item, rfl, hshows⟩, hknows⟩ :=
    hdraw.adapt (f := Stuck.problem) {} [] Notes.knows_empty
  obtain ⟨read, n', hrun', hcore, hknows'⟩ :=
    Item.yields_condition hshows hcondition n [] hknows
  have hclauses : n'.draft.clauses = [] := hknows'.clauses
  let clause : Operator := ⟨.whereClause, none, [.operator read], some item.span⟩
  refine ⟨{ n' with draft := n'.draft.record .whereClause clause }, read, item.span, ?_, hcore,
    hknows'.problems, ?_⟩
  · rw [readCondition, Draw.forget, on_bind, hrun, goOn_ok]
    dsimp only [List.head?_nil]
    rw [on_bind, hrun', goOn_ok]
    exact on_modify _ _
  · simp only [Draft.record, hclauses, Draft.recordIn, clause]

end Clause

namespace Query

variable {registry : Registry} {condition : Operator}

/-- A condition is compiled from its text as it was, without a warning, within all ceilings that its
text fits, and there are such ceilings however large it is. -/
theorem ofCondition_render (hregistry : registry.IsBuilt)
    (hcondition : condition.isCondition = true)
    (hshaped : condition.Everywhere fun op => op.Shaped (.condition registry) ∧
    op.kind ≠ .regexpMatch)
    (halias : ∀ p name, .refer p ∈ condition.mentions → .bind name ∈ condition.mentions →
      p.writtenText registry ≠ name)
    (hpattern : ¬ Token.Mentions (condition.render registry).toList) :
    (∃ ceilings, condition.Fits ceilings) ∧
      ∀ ceilings, condition.Fits ceilings →
        ∃ q, ofCondition (condition.render registry) registry ceilings = .ok q ∧
          q.warnings = [] ∧ q.toJson = .object [("where", condition.toJson)] ∧
            ∃ read, q.condition? = some read ∧ read.core = condition.core := by
  refine ⟨condition.exists_fits, fun ceilings hfits => ?_⟩
  have hmutual := hregistry.isMutual
  -- the tokens that the tree is written as, which are cut out of the text again
  obtain ⟨sketches, hsketches⟩ := Operator.exists_isSketchedAs
    (.of (condition.render registry) registry ceilings) (fun _ => False) condition
    (hshaped.imp (fun op hop => hop.1.isWritable hmutual hop.2) _)
    (Kind.isClause_of_isCondition hcondition)
  have hwrites : Writes (fun _ => False) condition.depth (condition.render registry) sketches :=
    hsketches.writes
  obtain ⟨r, hstart, hsetting, helements, hnotes⟩ :=
    @Reading.exists_begins_of_writes _ registry _ _ _ _ hwrites
      (fun _ hbeside => hpattern hbeside.mentions) hfits.depth
  -- no name that the tree introduces is one that a property is written as
  have hresolves : Mention.resolves registry [] condition.mentions = true := by
    have hholds : condition.Everywhere fun op => ∀ p, op.Holds p → p.IsNamed registry :=
      hshaped.imp (fun _ hop _ => hop.1.isNamed_of_holds) _
    have hnamed : ∀ p, .refer p ∈ condition.mentions → p.IsNamed registry := fun p hp =>
      condition.of_mem_mentions hholds hp
    exact Mention.resolves_of_forall (fun p hp => (hnamed p hp).notAlias)
      (fun _ _ => List.not_mem_nil) halias
  -- so these tokens are read as the tree
  obtain ⟨n, read, span, hrun, hcore, hproblems, hclauses⟩ := Clause.on_readCondition
    ((hsketches.reads [] r.elements helements hresolves hfits.steps).group hcondition) hcondition
  have hcompiled : ofCondition (condition.render registry) registry ceilings =
      .ok (.ofDraft n.draft) := by
    rw [ofCondition, hstart]
    change r.compile (Clause.readCondition r.setting r.elements) = _
    rw [Reading.compile_eq, hnotes, hsetting, hrun]
  have hdraft : (ofDraft n.draft).clauses = [⟨.whereClause, none, [.operator read], some span⟩] ∧
      (ofDraft n.draft).warnings = [] := by
    rw [ofDraft, hclauses, hproblems]
    exact ⟨rfl, rfl⟩
  refine ⟨_, hcompiled, hdraft.2, ?_, read, ?_, hcore⟩
  · rw [toJson_eq_ofEntries, hdraft.1, ← Operator.toJson_eq_of_core_eq hcore]
    rfl
  · rw [condition?, clause?, hdraft.1]
    rfl

/-- A registry that shows one property under a name. -/
def sampleRegistry : Registry := Registry.empty.registerProperty "file size" "p-12"

/-- A negated group with a property in a namespace and an aggregate. -/
def sampleCondition : Operator :=
  { kind := .not
    operands := [.operator <| .group .or
      [.stated .like (.property (.field (some "ns") "host")) [.value (.ofString "a%")] none,
        .stated .greaterThan (.operator { kind := .count, property := some (.ofId "p-12") })
          [.value (.ofString "3")] none]] }

/-- The sample has the shape that is asked for, and no pattern. -/
lemma sampleCondition_shaped : sampleCondition.Everywhere fun op =>
    op.Shaped (.condition sampleRegistry) ∧ op.kind ≠ .regexpMatch := by
  have hhost : (PropertyRef.field (some "ns") "host").IsNamed sampleRegistry :=
    ⟨rfl, by decide +kernel, by decide +kernel, by decide +kernel, by rintro _ ⟨⟩; decide +kernel⟩
  have hsize : (PropertyRef.ofId "p-12").IsNamed sampleRegistry :=
    ⟨rfl, by decide +kernel, by decide +kernel, by decide +kernel, by rintro _ ⟨⟩⟩
  have hstring : ∀ s, s = "a%" ∨ s = "3" → (ScalarValue.ofString s).IsNamed sampleRegistry := by
    rintro _ (rfl | rfl)
    all_goals exact ⟨by rintro _ ⟨⟩; decide +kernel, by rintro _ ⟨⟩; decide +kernel⟩
  let like : Operator :=
    .stated .like (.property (.field (some "ns") "host")) [.value (.ofString "a%")] none
  let greater : Operator := .stated .greaterThan
    (.operator ⟨.count, some (.ofId "p-12"), [], none⟩) [.value (.ofString "3")] none
  have hcount : Operator.Shaped (.condition sampleRegistry)
      ⟨.count, some (.ofId "p-12"), [].map .value, none⟩ :=
    .function rfl (by decide) hsize (by simp) rfl
  have hlike : like.Shaped (.condition sampleRegistry) :=
    .comparison rfl hhost (hstring _ (.inl rfl)) rfl
  have hgreater : greater.Shaped (.condition sampleRegistry) :=
    .comparison rfl ⟨rfl, by decide, by decide⟩ (hstring _ (.inr rfl)) rfl
  have hconditions : ∀ c ∈ [like, greater], c.isCondition := by
    simp only [List.mem_cons, List.not_mem_nil, or_false, forall_eq_or_imp, forall_eq]
    decide
  have hgroup : Operator.Shaped (.condition sampleRegistry) (.group .or [like, greater]) :=
    .group (Nat.le_refl 2) hconditions
  exact ⟨⟨.negation rfl, by decide⟩, ⟨⟨hgroup, by decide⟩, ⟨⟨hlike, by decide⟩, trivial⟩,
    ⟨⟨hgreater, by decide⟩, ⟨⟨hcount, by decide⟩, trivial⟩, trivial⟩, trivial⟩, trivial⟩

/-- A negated group of two comparisons: a name with a namespace, a name in brackets, a function and
a value that looks like a number. -/
theorem ofCondition_render_sample :
    sampleCondition.render sampleRegistry =
        "NOT (ns:host LIKE 'a%' OR COUNT([file size]) > '3')" ∧
      ∃ q, ofCondition (sampleCondition.render sampleRegistry) sampleRegistry {} = .ok q ∧
        q.toJson = .object [("where", sampleCondition.toJson)] := by
  refine ⟨by decide +kernel, ?_⟩
  have halias : ∀ p name, .refer p ∈ sampleCondition.mentions →
      .bind name ∈ sampleCondition.mentions → p.writtenText sampleRegistry ≠ name := by
    intro p name hp hname
    have hmentions : sampleCondition.mentions = [.refer (.field (some "ns") "host"),
        .refer (.ofId "p-12"), .bind "p-12Count"] := rfl
    rw [hmentions] at hp hname
    simp only [List.mem_cons, Mention.refer.injEq, Mention.bind.injEq, reduceCtorEq,
      List.not_mem_nil, or_false, false_or] at hp hname
    obtain rfl | rfl := hp <;> subst hname <;> decide +kernel
  obtain ⟨q, hq, -, hjson, -⟩ := (ofCondition_render (.registerProperty .empty _ _) (by decide)
    sampleCondition_shaped halias (by decide +kernel)).2 {} (by decide +kernel)
  exact ⟨q, hq, hjson⟩

end Query

end RecordQuery
