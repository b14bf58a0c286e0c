import RecordQuery.Proofs.ClauseRendition
import RecordQuery.Proofs.PlainWords

/-!
# Queries are compiled from their texts

A query that a text denotes without a registry can be rendered and compiled again. Not all of its
trees survive that. What an operator must not hold is told by `Operator.IsReadable`, and most of it
concerns what a text can only say in parentheses that rendering leaves out, or in another notation
than the one rendering chooses. Beside this, an alias has to be introduced before it is referred to,
in the order in which clauses are rendered, which need not be the order they were written in.
-/

namespace RecordQuery

open Reader Sketch Text

/-! ## What is read back -/

namespace Operator

/-- Whether an operator, its operands aside, has nothing in it that is not read back from a text
that it is part of. A quotation beside which the text mentions regular expressions is
taken as it stands. -/
structure IsReadable (text : String) (op : Operator) : Prop where
  /-- Brackets stand around a name that is no word. -/
  name : op.kind = .asName → ∀ n ∈ op.introduces?, ']' ∉ n.toList
  /-- What is compared is not enclosed. -/
  subject : op.kind.family = .comparison ∨ op.kind.family = .membership →
    ∀ child ∈ op.children, child.kind ≠ .asName
  /-- What is listed is not enclosed. -/
  listed : op.kind.looksUpLast = true ∨ op.kind = .orderBy →
    ∀ child ∈ op.children, child.isConnective = false
  /-- Escapes are not taken out of quotations that are taken as they stand. -/
  strings : op.kind.holdsScalars = true → ∀ v ∈ op.values, ∀ s ∈ v.string?,
    Token.MentionsBeside text.toList (quoteChars s.toList) → isQuotedPlainly s.toList = true
  /-- Patterns are quoted without escapes. -/
  patterns : op.kind = .regexpMatch → ∀ v ∈ op.values, isClosedPattern v.text.toList = true

instance (text : String) : DecidablePred (IsReadable text) := fun op =>
  decidable_of_iff
    ((op.kind = .asName → ∀ n ∈ op.introduces?, ']' ∉ n.toList) ∧
      (op.kind.family = .comparison ∨ op.kind.family = .membership →
        ∀ child ∈ op.children, child.kind ≠ .asName) ∧
      (op.kind.looksUpLast = true ∨ op.kind = .orderBy →
        ∀ child ∈ op.children, child.isConnective = false) ∧
      (op.kind.holdsScalars = true → ∀ v ∈ op.values, ∀ s ∈ v.string?,
        Token.MentionsBeside text.toList (quoteChars s.toList) → isQuotedPlainly s.toList = true) ∧
      (op.kind = .regexpMatch → ∀ v ∈ op.values, isClosedPattern v.text.toList = true))
    ⟨fun ⟨a, b, c, d, e⟩ => ⟨a, b, c, d, e⟩, fun h => ⟨h.1, h.2, h.3, h.4, h.5⟩⟩

variable {text : String} {op : Operator}

/-- An operand that is an operator is a child. -/
lemma mem_children {operands : List Operand} {kind : Kind} {p : Option PropertyRef}
    {span : Option Span} {child : Operator} (h : .operator child ∈ operands) :
    child ∈ (Operator.mk kind p operands span).children :=
  List.mem_filterMap.mpr ⟨_, h, rfl⟩

/-- A subject that is read back from its text. -/
lemma written_subject {x : Operand} (hx : (ShapeRules.ofText .plain).subject x)
    (hname : ∀ child, x = .operator child → child.kind ≠ .asName) :
    (ShapeRules.written .empty).subject x := by
  cases x with
  | property p => exact hx
  | value v => exact hx
  | operator child =>
    obtain ⟨hcondition, hclause⟩ := hx
    have hkind := hname child rfl
    rw [isCondition] at hcondition
    change child.kind.family = .projection ∧ child.kind ≠ .asName ∧ child.kind ≠ .regexpMatch
    revert hcondition hclause hkind
    cases child.kind <;> decide

/-- What a plain text has before `AS` can be written there. -/
lemma written_target {x : Operand} (hx : (ShapeRules.ofText .plain).target x) :
    (ShapeRules.written .empty).target x := by
  cases x with
  | property p => exact hx
  | value v => exact hx
  | operator child =>
    obtain ⟨hcondition, hclause⟩ := hx
    rw [isCondition] at hcondition
    change child.kind.family = .projection ∧ child.kind ≠ .regexpMatch
    revert hcondition hclause
    cases child.kind <;> decide

/-- What a plain text has in a list can be written there, unless it is a group. -/
lemma written_listed {x : Operand} (hx : (ShapeRules.ofText .plain).listed x)
    (hconnective : ∀ child, x = .operator child → child.isConnective = false) :
    (ShapeRules.written .empty).listed x := by
  cases x with
  | property p => exact hx
  | value v => exact hx
  | operator child => exact ⟨hx, hconnective child rfl⟩

/-- The shape of a readable operator is one that is written. -/
lemma Shaped.written (h : op.Shaped (.ofText .plain)) (hreadable : op.IsReadable text) :
    op.Shaped (.written .empty) := by
  cases h with
  | @comparison kind x v span family hx _ allowed =>
    refine .comparison family (written_subject hx fun child hchild => ?_) trivial allowed
    refine hreadable.subject (.inl (by rwa [stated_kind])) child ?_
    exact List.mem_filterMap.mpr ⟨_, isSubject_of_mem hchild, rfl⟩
  | @membership kind x values span family hx _ bounds nonempty =>
    refine .membership family (written_subject hx fun child hchild => ?_)
      (fun _ _ => trivial) bounds nonempty
    refine hreadable.subject (.inr (by rwa [stated_kind])) child ?_
    exact List.mem_filterMap.mpr ⟨_, isSubject_of_mem hchild, rfl⟩
  | existence family hp => exact .existence family hp
  | negation hcondition => exact .negation hcondition
  | group size hconditions => exact .group size hconditions
  | @naming x name span hx hname =>
    refine .naming (written_target hx) ⟨nofun, hreadable.name rfl name ?_, hname⟩
    cases x with
    | value v => exact hx.elim
    | property p => rfl
    | operator child => rfl
  | function family notNaming hp _ types =>
      exact .function family notNaming hp (fun _ _ => trivial) types
  | @listing kind operands span lists hlisted size =>
    have hlast : kind.looksUpLast = true := by
      obtain rfl | rfl | rfl := lists <;> rfl
    refine .listing lists (fun x hx => written_listed (hlisted x hx) fun child hchild => ?_) size
    exact hreadable.listed (.inl hlast) child (mem_children (hchild ▸ hx))
  | filter filters hcondition => exact .filter filters hcondition
  | ordering hlisted directions size =>
    refine .ordering
      (fun entry hentry => written_listed (hlisted entry hentry) fun child hchild => ?_)
      directions size
    refine hreadable.listed (.inr rfl) child (mem_children ?_)
    exact List.mem_flatMap.mpr ⟨entry, hentry, by simp [hchild]⟩
  | limit _ hcount => exact .limit trivial hcount
  | timeRange _ _ firstType lastType => exact .timeRange trivial trivial firstType lastType

/-- A readable operator of a text is written in a way that it is read back from. -/
lemma Shaped.isWritable_of_isReadable (h : op.Shaped (.ofText .plain))
    (hreadable : op.IsReadable text) :
    op.IsWritable .empty fun lexeme => Token.MentionsBeside text.toList lexeme.source where
  shaped := h.written hreadable
  scalars hscalars v hv := by
    have hplain := h.scalar_of_mem_values hscalars (fun _ => id) (fun _ => id) hv
    refine ⟨fun s hs => hs.symm, fun s hs => (hplain s hs).2, fun s hs hmentions => ?_⟩
    refine hreadable.strings hscalars v hv s (by rw [ScalarValue.string?, hs]; rfl) ?_
    rw [source_quotation] at hmentions
    exact hmentions
  patterns hkind v hv := by
    have hpattern : v.type = .string ∧ Vocabulary.plain.scalar v := by
      cases h with
      | @function kind p values span family hname hp hvalues types =>
        obtain rfl : kind = .regexpMatch := hkind
        have hmem : v ∈ values := by
          simpa [Operator.values, List.filterMap_map, Function.comp_def, Operand.value?] using hv
        have htype : v.type ∈ values.map ScalarValue.type := List.mem_map_of_mem hmem
        rw [types] at htype
        exact ⟨List.mem_singleton.mp htype, hvalues v hmem⟩
      | comparison family | membership family =>
        rw [stated_kind] at hkind
        rw [hkind] at family
        cases family
      | @existence kind p span family =>
        obtain rfl : kind = .regexpMatch := hkind
        cases family
      | @group connective => cases connective <;> cases hkind
      | listing lists => obtain rfl | rfl | rfl := lists <;> cases hkind
      | filter filters => obtain rfl | rfl := filters <;> cases hkind
      | _ => cases hkind
    obtain ⟨htype, hplain⟩ := hpattern
    obtain ⟨s, hs⟩ : ∃ s, v.value = .string s := by
      revert htype
      rw [ScalarValue.type]
      cases v.value with
      | string s => exact fun _ => ⟨s, rfl⟩
      | _ => rintro ⟨⟩
    obtain ⟨htext, hstraight⟩ := hplain s hs
    rw [← htext] at hs hstraight
    exact ⟨hs.symm, hstraight, hreadable.patterns hkind v hv⟩

/-! ## Clauses in a row -/

/-- Clauses in a row are read as they are sketched. -/
lemma areClauses_of_readsAll {s : Setting} {raw : Lexeme → Prop} {clauses : List Operator}
    {sketches : List (List Sketch)} (h : List.Forall₂ (IsClauseSketch s raw) clauses sketches)
    {names : List String} {es : List Element} (hes : ReadsAll s sketches.flatten es)
    (hnames : Mention.resolves s.registry names (clauses.flatMap mentions) = true)
    (hpaced : ∀ clause ∈ clauses, clause.Everywhere (Paced s.ceilings.steps)) :
    Clause.AreClauses s names (Mention.bound names (clauses.flatMap mentions)) es clauses := by
  induction h generalizing names es with
  | nil =>
    cases hes
    exact .nil
  | @cons clause sketch clauses sketches hfirst _ ih =>
    obtain ⟨hpaced₁, hpaceds⟩ := List.forall_mem_cons.mp hpaced
    rw [List.flatMap_cons, Mention.resolves_append, Bool.and_eq_true] at hnames
    rw [List.flatMap_cons, Mention.bound_append]
    rw [List.flatten_cons] at hes
    obtain ⟨es₁, es₂, rfl, hes₁, hes₂⟩ := readsAll_append hes
    obtain ⟨keyword, body, rfl, hclause⟩ := hfirst.reads names es₁ hes₁ hnames.1 hpaced₁
    exact .cons hclause (ih hes₂ hnames.2 hpaceds)

/-- The reading of clauses in a row begins with the sketches that spell them. -/
lemma exists_begins_of_clauses {registry : Registry} {ceilings : Ceilings} {raw : Lexeme → Prop}
    {clauses : List Operator} {sketches : List (List Sketch)}
    (h : List.Forall₂ (IsClauseSketch (.of text registry ceilings) raw) clauses sketches)
    (htext : text = " ".intercalate (clauses.map (Operator.render registry)))
    (hraw : ∀ lexeme : Lexeme, Token.MentionsBeside text.toList lexeme.source → raw lexeme)
    (hdepths : ∀ clause ∈ clauses, clause.depth ≤ ceilings.depth) :
    ∃ r, Reading.start text registry ceilings = .ok r ∧
      r.Begins (.of text registry ceilings) sketches.flatten := by
  have hspells : List.Forall₂ (Spells raw ceilings.depth) (clauses.map (Operator.render registry))
      sketches := by
    clear htext
    induction h with
    | nil => exact .nil
    | cons hfirst _ ih =>
      obtain ⟨hdepth, hdepths⟩ := List.forall_mem_cons.mp hdepths
      exact .cons (hfirst.spells.mono hdepth) (ih hdepths)
  cases h with
  | nil =>
    subst htext
    exact Reading.exists_begins rfl trivial trivial hraw (Nat.zero_le _)
  | cons hfirst hrest =>
    have hall := Spells.flatten hspells (List.cons_ne_nil _ _)
    rw [← htext] at hall
    exact Reading.exists_begins hall.chars_eq hall.soundAll hall.steadyAll hraw hall.depthAll_le

end Operator

namespace Query

open Operator

/-- A draft whose clauses are in order becomes a query that lists them. -/
lemma clauses_ofDraft {draft : Draft} (h : InOrder (draft.clauses.map Prod.snd)) :
    (ofDraft draft).clauses = draft.clauses.map Prod.snd := by
  have hfold : ∀ (entries : List (Kind × Operator)) (q : Query),
      InOrder (q.clauses ++ entries.map Prod.snd) →
        (entries.foldl (fun q entry => q.setClause entry.2) q).clauses =
          q.clauses ++ entries.map Prod.snd := by
    intro entries
    induction entries with
    | nil => exact fun q _ => (List.append_nil _).symm
    | cons entry entries ih =>
      intro q horder
      have hset : (q.setClause entry.2).clauses = q.clauses ++ [entry.2] :=
        setClause_eq_append fun other hother =>
          (List.pairwise_append.mp horder.increasing).2.2 other hother entry.2 (by simp)
      rw [List.foldl_cons, ih, hset, List.append_assoc, List.map_cons, List.singleton_append]
      rwa [hset, List.append_assoc, List.singleton_append]
  exact hfold draft.clauses _ h

/-- Clauses that were read as those of a query in order are in order. -/
lemma InOrder.of_sameCore {as bs : List Operator} (h : InOrder as)
    (hcores : List.Forall₂ SameCore bs as) : InOrder bs := by
  have hkinds : bs.map Operator.kind = as.map Operator.kind := by
    clear h
    induction hcores with
    | nil => rfl
    | cons hab _ ih => rw [List.map_cons, List.map_cons, hab.kind_eq, ih]
  constructor
  · intro b hb
    have hmem : b.kind ∈ as.map Operator.kind := hkinds ▸ List.mem_map_of_mem hb
    obtain ⟨a, ha, hkind⟩ := List.mem_map.mp hmem
    rw [← hkind]
    exact h.areClauses a ha
  · have hpairs :
        (as.map Operator.kind).Pairwise fun a b => a.rank < b.rank ∧ a.competes b = false :=
      List.pairwise_map.mpr h.increasing
    rw [← hkinds] at hpairs
    exact List.pairwise_map.mp hpairs

/-- Every query that a text denotes without a registry is compiled from its own text as it was,
given that no operator in it has anything that is not read back, that every alias is introduced
before it is referred to, and that the text fits the ceilings. -/
theorem ofText_render {text : String} {ceilings : Ceilings} {q : Query}
    (h : ofText text .empty ceilings = .ok q)
    (hreadable : ∀ clause ∈ q.clauses,
      clause.Everywhere (IsReadable (q.render .empty)))
    (hnames : Mention.resolves .empty [] (q.clauses.flatMap mentions) = true)
    {ceilings' : Ceilings} (hfits : ∀ clause ∈ q.clauses, clause.Fits ceilings') :
    ∃ q', ofText (q.render .empty) .empty ceilings' = .ok q' ∧ q'.warnings = [] ∧
      q'.toJson = q.toJson ∧ List.Forall₂ SameCore q'.clauses q.clauses := by
  obtain ⟨horder, hshaped⟩ := isOfText_plain h
  let s : Setting := .of (q.render .empty) .empty ceilings'
  obtain ⟨sketches, hsketches⟩ : ∃ sketches, List.Forall₂
      (IsClauseSketch s fun lexeme =>
        Token.MentionsBeside (q.render .empty).toList lexeme.source) q.clauses sketches := by
    refine exists_forall₂ fun clause hclause => ?_
    refine exists_isClauseSketch s _ ?_ (horder.areClauses clause hclause)
    refine ((hshaped clause hclause).and (hreadable clause hclause)).imp (fun op hop => ?_) _
    exact hop.1.isWritable_of_isReadable hop.2
  obtain ⟨r, hstart, hsetting, helements, hnotes⟩ := exists_begins_of_clauses hsketches rfl
    (fun _ => id) fun clause hclause => (hfits clause hclause).depth
  obtain ⟨n, made, hrun, hn, hcores⟩ := Clause.on_readAll
    (areClauses_of_readsAll hsketches helements hnames fun clause hclause =>
      (hfits clause hclause).steps)
    (horder.increasing.imp fun hab => hab.2) Notes.knows_empty (by simp)
  have hclauses : n.draft.clauses = made := hn.clauses
  have hsame : List.Forall₂ SameCore (made.map Prod.snd) q.clauses :=
    List.forall₂_map_left_iff.mpr hcores.flip
  have hmade : (ofDraft n.draft).clauses = made.map Prod.snd := by
    rw [clauses_ofDraft, hclauses]
    rw [hclauses]
    exact horder.of_sameCore hsame
  have hcompiled : ofText (q.render .empty) .empty ceilings' = .ok (.ofDraft n.draft) := by
    rw [ofText, hstart]
    change r.compile (Clause.readAll r.setting r.elements) = _
    rw [Reading.compile_eq, hnotes, hsetting, hrun]
  rw [← hmade] at hsame
  exact ⟨_, hcompiled, warnings_ofDraft ▸ hn.problems, toJson_eq hsame, hsame⟩

/-- A query with its clauses in another order, a name in brackets, and a group in a negation. -/
theorem ofText_render_sample :
    ∃ q q',
      ofText "order by b asc select max(a) as 'x y' where not (b = 'c' or d in (1))" .empty {} =
        .ok q ∧ ofText (q.render .empty) .empty {} = .ok q' ∧ q'.toJson = q.toJson := by
  have hsample : (ofText "order by b asc select max(a) as 'x y' where not (b = 'c' or d in (1))"
      .empty {}).toOption.any (fun q =>
        decide (∀ clause ∈ q.clauses,
          clause.Everywhere (IsReadable (q.render .empty))) &&
        Mention.resolves .empty [] (q.clauses.flatMap mentions) &&
        decide (∀ clause ∈ q.clauses, clause.Fits {})) = true := by
    decide +kernel
  rcases hq : ofText "order by b asc select max(a) as 'x y' where not (b = 'c' or d in (1))"
    .empty {} with e | q
  · rw [hq] at hsample
    cases hsample
  · rw [hq] at hsample
    simp only [Except.toOption, Option.any_some, Bool.and_eq_true, decide_eq_true_eq] at hsample
    obtain ⟨⟨hreadable, hnames⟩, hfits⟩ := hsample
    obtain ⟨q', hq', -, hjson, -⟩ := ofText_render hq hreadable hnames hfits
    exact ⟨q, q', rfl, hq', hjson⟩

-- Escapes are taken out of a quotation that alone mentions regular expressions.
example : (ofText "WHERE a = 'REGEXP_MATCH \\\\'" .empty {}).toOption.any (fun q =>
    decide (∀ clause ∈ q.clauses, clause.Everywhere (IsReadable (q.render .empty)))) = true := by
  decide +kernel

/-- Whether a text denotes a query, without a warning, that is not compiled from its own text as it
was. -/
def isLost (text : String) : Bool :=
  match ofText text .empty {} with
  | .error _ => false
  | .ok q =>
    q.warnings.isEmpty &&
      match ofText (q.render .empty) .empty {} with
      | .error _ => true
      | .ok q' => q'.toJson.text != q.toJson.text

/-- What `isLost` decides. -/
lemma of_isLost {text : String} (h : isLost text = true) :
    ∃ q, ofText text .empty {} = .ok q ∧ q.warnings = [] ∧
      ∀ q', ofText (q.render .empty) .empty {} = .ok q' → q'.toJson ≠ q.toJson := by
  unfold isLost at h
  split at h
  · cases h
  · rename_i q hq
    rw [Bool.and_eq_true, List.isEmpty_iff] at h
    refine ⟨q, hq, h.1, fun q' hq' hjson => ?_⟩
    rw [hq'] at h
    simp [hjson] at h

/-- A condition with negations in a row before it. -/
def negations (n : Nat) : String :=
  String.ofList ("WHERE ".toList ++ (List.replicate n "NOT ".toList).flatten ++ "a = 1".toList)

/-- In the text of a query negations are enclosed in one another, here more deeply than the ceilings
allow. -/
lemma isLost_negations : isLost (negations 66) = true := by
  -- the characters need not be packed into a string and taken out of it again
  have hchars : (negations 66).toList =
      "WHERE ".toList ++ (List.replicate 66 "NOT ".toList).flatten ++ "a = 1".toList :=
    String.toList_ofList
  rw [isLost, ofText, Reading.start, TokenForest.ofText, hchars]
  decide +kernel

/-- Texts of queries that are not compiled from their own texts as they were: negations in a row
come to be nested too deeply, an alias is introduced behind its reference and rendered before it, a
name holds a bracket, a quotation keeps its escapes beside a regular expression, a pattern ends with
one, and parentheses are left out. -/
theorem ofText_render_lost :
    List.Forall
      (fun text => ∃ q, ofText text .empty {} = .ok q ∧ q.warnings = [] ∧
        ∀ q', ofText (q.render .empty) .empty {} = .ok q' → q'.toJson ≠ q.toJson)
      [negations 66, "ORDER BY hits DESC SELECT COUNT(x) AS hits",
        "SELECT COUNT(x) WHERE [default:xCount] = 5", "SELECT a AS 'x]y'",
        "WHERE REGEXP_MATCH(b, 'x') AND a = 'c\\d'", "WHERE REGEXP_MATCH(b, <<<a\\>>>)",
        "WHERE (x AS y) = 5", "SELECT (a = 1 AND b = 2)"] := by
  refine List.forall_iff_forall_mem.mpr fun text htext => of_isLost ?_
  rw [List.mem_cons] at htext
  obtain rfl | htext := htext
  · exact isLost_negations
  · revert text
    decide +kernel

end Query

end RecordQuery
