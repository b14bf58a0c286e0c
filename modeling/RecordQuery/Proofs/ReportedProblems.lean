import RecordQuery.Proofs.Blaming
import RecordQuery.Proofs.Compiling
import RecordQuery.Proofs.Concatenation
import RecordQuery.Proofs.ReadOnce
import RecordQuery.Proofs.SourceForest

/-!
# What reported problems quote

A problem that points at something holds the source, a span of it and the text in that span. The two
parts that report problems come to their spans in different ways. The machine that builds token
trees has them from the lexeme it is at, and no lexeme reaches beyond the source. The reading of
phrases has them from tokens, `Reader.Blames`; a token reaches to the end of its list, and that of a
keyword of several words to the end of its last word, but trees are nested in the source in either
case.

So every problem that is reported quotes the source, whether it stops the reading or not. What stops
it points at something, unless it tells of the ceiling of a loop.
-/

namespace RecordQuery

open Reader

/-! ## Problems and sources -/

/-- Whether a place lies in a source and shows the text that stands there. -/
structure Location.IsIn (source : List Char) (place : Location) : Prop where
  start_le : place.span.start ≤ place.span.stop
  stop_le : place.span.stop ≤ source.length
  text : place.text = String.ofList (place.span.slice source)

namespace Problem

/-- Whether a problem holds all of a source and points at a place in it. -/
def PointsInto (source : List Char) (problem : Problem) : Prop :=
  problem.expression = String.ofList source ∧
    ∃ place, problem.location = some place ∧ place.IsIn source

/-- A problem that quotes a text already is left as it is when it is to quote this text. -/
lemma inExpression_of_eq {problem : Problem} {expression : String}
    (h : problem.expression = expression) : problem.inExpression expression = problem := by
  subst h
  unfold inExpression
  split <;> rfl

end Problem

/-- No fault of a token is one of JSON. -/
lemma TokenFault.kind_ne_json (fault : TokenFault) : fault.kind ≠ .json := by
  cases fault <;> nofun

/-- No fault among tokens is one of characters or of JSON. -/
lemma PhraseFault.kind_ne (fault : PhraseFault) : fault.kind ≠ .lexical ∧ fault.kind ≠ .json := by
  cases fault <;> exact ⟨nofun, nofun⟩

/-! ## Problems among characters -/

namespace TreeBuilder

variable {ceilings : Ceilings} {source : List Char} {b c : TreeBuilder}

/-- A problem at a span of the source points into it. -/
lemma pointsInto_problemAt (fault : TokenFault) {span : Span} (hle : span.start ≤ span.stop)
    (hstop : span.stop ≤ source.length) : (problemAt source fault span).PointsInto source :=
  ⟨rfl, _, rfl, hle, hstop, rfl⟩

/-- Reading a lexeme reports problems inside the source. -/
lemma Reads.pointsInto {lexeme : Lexeme} (h : Reads ceilings source b lexeme c)
    (hregular : lexeme.IsRegular) (hfits : b.offset + lexeme.source.length ≤ source.length)
    (hproblems : ∀ problem ∈ b.problems, problem.PointsInto source) :
    ∀ problem ∈ c.problems, problem.PointsInto source := by
  cases h with
  | blank | claim | group | close => exact hproblems
  | @token _ token made =>
    obtain ⟨-, hspan, -⟩ := Token.ofLexeme?_fits hregular made
    intro problem hproblem
    dsimp only [consume, addToken] at hproblem
    split at hproblem
    · obtain rfl | hproblem := List.mem_cons.mp hproblem
      · exact pointsInto_problemAt _ (by simp [hspan]) (by simpa [hspan] using hfits)
      · exact hproblems problem hproblem
    · exact hproblems problem hproblem

/-- What the machine has noted points into a source that holds what was read. -/
lemma pointsInto_of_foldlM {lexemes : List Lexeme}
    (hregular : ∀ lexeme ∈ lexemes, lexeme.IsRegular)
    (hfits : (lexemes.flatMap Lexeme.source).length ≤ source.length)
    (h : lexemes.foldlM (step ceilings source) {} = .ok b) :
    ∀ problem ∈ b.problems, problem.PointsInto source := by
  -- a problem is noted at the offset, which has to be known to lie in the source
  let I (before : List Lexeme) (b : TreeBuilder) : Prop :=
    b.offset = (before.flatMap Lexeme.source).length ∧
      ∀ problem ∈ b.problems, problem.PointsInto source
  suffices hend : I lexemes b from hend.2
  refine invariant (fun before lexeme after b c hall hb hreads => ?_) lexemes [] {} b rfl
    ⟨rfl, by simp⟩ h
  obtain ⟨hoffset, hproblems⟩ := hb
  refine ⟨by simp [hreads.offset_eq, hoffset], ?_⟩
  refine hreads.pointsInto (hregular lexeme (by simp [hall])) (hfits.trans' ?_) hproblems
  rw [hoffset, hall, List.flatMap_append, List.flatMap_cons, List.length_append, List.length_append]
  omega

/-- A run that fails has come to a lexeme that cannot be read. -/
lemma exists_step_of_error {lexemes : List Lexeme} {problem : Problem}
    (h : lexemes.foldlM (step ceilings source) b = .error problem) :
    ∃ before lexeme after c, lexemes = before ++ lexeme :: after ∧
      before.foldlM (step ceilings source) b = .ok c ∧
      step ceilings source c lexeme = .error problem := by
  induction lexemes generalizing b with
  | nil => cases h
  | cons lexeme rest ih =>
    rw [List.foldlM_cons] at h
    cases hstep : step ceilings source b lexeme with
    | error problem' =>
      rw [hstep] at h
      cases h
      exact ⟨[], lexeme, rest, b, rfl, rfl, hstep⟩
    | ok b' =>
      rw [hstep] at h
      obtain ⟨before, lexeme', after, c, rfl, hbefore, herror⟩ := ih h
      refine ⟨lexeme :: before, lexeme', after, c, rfl, ?_, herror⟩
      rw [List.foldlM_cons, hstep]
      exact hbefore

/-- Only a parenthesis stops the machine, and that is not a fault of characters. -/
lemma exists_fault_of_step {lexeme : Lexeme} {problem : Problem}
    (h : step ceilings source b lexeme = .error problem) :
    ∃ fault : TokenFault, fault.kind ≠ .lexical ∧
      problem = problemAt source fault ⟨b.offset, b.offset + lexeme.source.length⟩ := by
  cases lexeme with
  | blank => cases h
  | opening =>
    by_cases hdepth : b.frames.length < ceilings.depth
    · rw [step_opening_of_lt hdepth] at h
      cases h
    · rw [step_opening_of_le (Nat.le_of_not_lt hdepth)] at h
      cases h
      exact ⟨.nestedTooDeep _, nofun, rfl⟩
  | closing =>
    cases hframes : b.frames with
    | nil =>
      rw [step_closing_of_nil hframes] at h
      cases h
      exact ⟨.unexpectedParenthesis, nofun, rfl⟩
    | cons frame frames =>
      rw [step_closing_of_cons hframes] at h
      cases h
  | delimiter | quoted | block | bracketed | run =>
    unfold step at h
    dsimp only at h
    split at h <;> cases h

end TreeBuilder

namespace TokenForest

open TreeBuilder

variable {text : String} {ceilings : Ceilings} {forest : TokenForest}

/-- What is wrong with the characters of a text points into its source. -/
lemma pointsInto_problems (h : ofText text ceilings = .ok forest) :
    ∀ problem ∈ forest.problems,
      problem.PointsInto (text.toList.map Text.straightenChar) := by
  set source := text.toList.map Text.straightenChar
  have hsource := Lexeme.flatMap_source_scan source
  obtain ⟨b, hb, rfl⟩ := exists_builder h
  have hoffset : b.offset = source.length := by
    rw [offset_of_foldlM hb, hsource]
    exact Nat.zero_add _
  have hnoted := pointsInto_of_foldlM (fun _ => Lexeme.isRegular_of_mem_scan)
    (le_of_eq (congrArg List.length hsource)) hb
  intro problem hproblem
  obtain hproblem | hmissing := List.mem_append.mp hproblem
  · exact hnoted problem (List.mem_reverse.mp hproblem)
  · rw [List.eq_of_mem_replicate hmissing]
    exact pointsInto_problemAt _ le_rfl hoffset.le

/-- What stops the cutting of a text points into its source. -/
lemma pointsInto_of_error {problem : Problem} (h : ofText text ceilings = .error problem) :
    problem.PointsInto (text.toList.map Text.straightenChar) ∧
      problem.kind ≠ .lexical ∧ problem.kind ≠ .json := by
  set source := text.toList.map Text.straightenChar
  have hsource := Lexeme.flatMap_source_scan source
  have hfold : (Lexeme.scan source).foldlM (step ceilings source) {} = .error problem := by
    unfold ofText at h
    dsimp only at h
    cases hrun : (Lexeme.scan source).foldlM (step ceilings source) {} with
    | error problem' =>
      rw [hrun] at h
      cases h
      rfl
    | ok b =>
      rw [hrun] at h
      cases h
  obtain ⟨before, lexeme, after, b, hall, hb, hstep⟩ := exists_step_of_error hfold
  obtain ⟨fault, hkind, rfl⟩ := exists_fault_of_step hstep
  have hfits : b.offset + lexeme.source.length ≤ source.length := by
    rw [offset_of_foldlM hb, ← hsource, hall, List.flatMap_append, List.flatMap_cons,
      List.length_append, List.length_append]
    show 0 + _ + _ ≤ _
    omega
  exact ⟨pointsInto_problemAt _ (Nat.le_add_right _ _) hfits, hkind, fault.kind_ne_json⟩

end TokenForest

/-! ## Problems among tokens -/

/-- Whether a token ends with its list where it begins or later, and before an offset. -/
structure Token.EndsBy (stop : Nat) (token : Token) : Prop where
  start_le : token.fullSpan.start ≤ token.fullSpan.stop
  stop_le : token.fullSpan.stop ≤ stop

namespace TokenTree

mutual

/-- No token that is read of a nested tree reaches beyond the tree. -/
lemma endsBy_of_isNested : (tree : TokenTree) → tree.IsNested →
    ∀ token ∈ tree.reachable, token.EndsBy tree.token.fullSpan.stop
  | ⟨token, children, absorbed⟩, h => by
    have hstart := h.start_lt
    rw [IsNested] at h
    rw [reachable, List.forall_mem_cons]
    refine ⟨⟨?_, le_rfl⟩, endsBy_of_nestedIn children h.2.1⟩
    rw [token.start_fullSpan]
    exact hstart.le

/-- All tokens of a nested sequence end with the stretch it lies in. -/
lemma endsBy_of_nestedIn : (trees : List TokenTree) → {lo hi : Nat} → NestedIn lo hi trees →
    ∀ token ∈ reachableOf trees, token.EndsBy hi
  | [], _, _, _ => by simp [reachableOf]
  | tree :: rest, _, _, h => by
    rw [NestedIn] at h
    obtain ⟨-, htree, hrest⟩ := h
    rw [reachableOf, List.forall_mem_append]
    refine ⟨fun token htoken => ?_, endsBy_of_nestedIn rest hrest⟩
    obtain ⟨hstart, hstop⟩ := endsBy_of_isNested tree htree token htoken
    exact ⟨hstart, hstop.trans hrest.le⟩

end

end TokenTree

namespace Setting

variable {s : Setting} {tokens : List Token} {problem : Problem}

/-- A problem points into the source if the token that it points at lies in it. -/
lemma PointsAt.pointsInto (h : s.PointsAt tokens problem)
    (htokens : ∀ token ∈ tokens, token.EndsBy s.source.length) : problem.PointsInto s.source := by
  obtain ⟨fault, token, htoken, rfl⟩ := h
  obtain ⟨hstart, hstop⟩ := htokens token htoken
  exact ⟨rfl, _, rfl, hstart, hstop, rfl⟩

/-- Whether a problem may stop the reading of a source: it points into the source or tells of the
ceiling of a loop, and its class is neither that of characters nor that of JSON. -/
structure Stops (s : Setting) (problem : Problem) : Prop where
  points : problem.PointsInto s.source ∨ problem = s.exhausted
  not_lexical : problem.kind ≠ .lexical
  not_json : problem.kind ≠ .json

/-- What stops a reading has its source text already. -/
lemma Stops.inExpression_eq (h : s.Stops problem) : problem.inExpression s.text = problem := by
  refine Problem.inExpression_of_eq ?_
  obtain hpoints | rfl := h.points
  · exact hpoints.1
  · rfl

/-- A problem that is raised at a token inside the source quotes the source. -/
lemma Raises.stops {fits : Prop} (h : s.Raises tokens fits problem)
    (htokens : ∀ token ∈ tokens, token.EndsBy s.source.length) : s.Stops problem := by
  cases h with
  | exhausted => exact ⟨.inr rfl, nofun, nofun⟩
  | pointing hpoints _ =>
    have hinto := hpoints.pointsInto htokens
    obtain ⟨fault, token, -, rfl⟩ := hpoints
    exact ⟨.inl hinto, fault.kind_ne.1, fault.kind_ne.2⟩

end Setting

namespace Reading

variable {text : String} {registry : Registry} {ceilings : Ceilings} {r : Reading}

/-- A reading of a text is set to its source. -/
lemma setting_of_start (h : start text registry ceilings = .ok r) :
    r.setting = ⟨text.toList.map Text.straightenChar, registry, ceilings⟩ := by
  obtain ⟨forest, hforest, rfl⟩ := exists_forest h
  rw [TokenForest.source_eq hforest]

/-- A reading begins with what was wrong with the characters of its text. -/
lemma pointsInto_of_start (h : start text registry ceilings = .ok r) :
    ∀ problem ∈ r.notes.draft.problems, problem.PointsInto r.setting.source := by
  obtain ⟨forest, hforest, rfl⟩ := exists_forest h
  dsimp only
  rw [TokenForest.source_eq hforest]
  exact TokenForest.pointsInto_problems hforest

/-- The tokens that are read of a text lie in its source. -/
lemma endsBy_of_start (h : start text registry ceilings = .ok r) :
    ∀ token ∈ TokenTree.reachableOf r.forest.trees, token.EndsBy r.setting.source.length := by
  rw [setting_of_start h]
  exact TokenTree.endsBy_of_nestedIn _ (nestedIn_trees h)

/-- Where problems point at tokens that are read, all that is noted points into the source, and what
stops the reading is one of those that may. -/
lemma pointsInto_on (h : start text registry ceilings = .ok r) {reading : Parse Unit}
    (hblames : BlamesOnly r.setting (TokenTree.reachableOf r.forest.trees) False reading) :
    (∀ problem ∈ (on reading r.notes).2.draft.problems, problem.PointsInto r.setting.source) ∧
      ∀ problem, (on reading r.notes).1 = .error problem → r.setting.Stops problem := by
  obtain ⟨hnoted, hresult⟩ := hblames r.notes
  refine ⟨fun problem hproblem => ?_, fun problem hproblem => ?_⟩
  · obtain hbefore | hpoints := hnoted problem hproblem
    · exact pointsInto_of_start h problem hbefore
    · exact hpoints.pointsInto (endsBy_of_start h)
  · rw [hproblem] at hresult
    exact hresult.stops (endsBy_of_start h)

/-- A text that cannot be cut into tokens is not read. -/
lemma stops_of_start {problem : Problem} (h : start text registry ceilings = .error problem) :
    Setting.Stops ⟨text.toList.map Text.straightenChar, registry, ceilings⟩ problem := by
  unfold start at h
  cases hforest : TokenForest.ofText text ceilings with
  | error problem' =>
    rw [hforest] at h
    cases h
    obtain ⟨hpoints, hlexical, hjson⟩ := TokenForest.pointsInto_of_error hforest
    exact ⟨.inl hpoints, hlexical, hjson⟩
  | ok forest =>
    rw [hforest] at h
    cases h

/-- What stops a reading is what its compilation fails with. -/
lemma stops_of_compile {reading : Parse Unit} {problem : Problem}
    (hstops : ∀ e, (on reading r.notes).1 = .error e → r.setting.Stops e)
    (h : r.compile reading = .error problem) : r.setting.Stops problem := by
  rw [compile_eq] at h
  rcases hrun : on reading r.notes with ⟨e | u, notes⟩ <;> rw [hrun] at h hstops
  · have hstopped := hstops e rfl
    dsimp only at h
    rw [hstopped.inExpression_eq] at h
    cases h
    exact hstopped
  · cases h

/-- What is noted on the way is what a query warns of. -/
lemma pointsInto_of_compile {reading : Parse Unit} {q : Query}
    (hnoted : ∀ problem ∈ (on reading r.notes).2.draft.problems,
      problem.PointsInto r.setting.source)
    (h : r.compile reading = .ok q) :
    ∀ problem ∈ q.warnings, problem.PointsInto r.setting.source := by
  rw [compile_eq] at h
  rcases hrun : on reading r.notes with ⟨e | u, notes⟩ <;> rw [hrun] at h hnoted
  · cases h
  · cases h
    rw [Query.warnings_ofDraft]
    exact hnoted

/-- The problems of an evaluation are those noted and the one that has stopped it. -/
lemma mem_problems_evaluate (r : Reading) {problem : Problem}
    (h : problem ∈ r.evaluate.2.notes.draft.problems) :
    problem ∈ (on (Clause.readAll r.setting r.elements) r.notes).2.draft.problems ∨
      ∃ e, (on (Clause.readAll r.setting r.elements) r.notes).1 = .error e ∧
        problem = e.inExpression r.setting.text := by
  unfold evaluate resume at h
  rcases hread : on (Clause.readAll r.setting r.elements) r.notes with ⟨e | u, notes⟩
  · have hrun : ((Clause.readAll r.setting r.elements).run.run r.notes).run =
        (.error e, notes) := hread
    rw [hrun] at h
    obtain hnoted | hlast := List.mem_append.mp h
    · exact .inl hnoted
    · exact .inr ⟨e, rfl, List.mem_singleton.mp hlast⟩
  · have hrun : ((Clause.readAll r.setting r.elements).run.run r.notes).run = (.ok u, notes) :=
      hread
    rw [hrun] at h
    exact .inl h

end Reading

namespace Mode

/-- Reading a text, in either mode, leads to problems that point at the tokens that are read. -/
lemma blames_body (mode : Mode) (r : Reading) :
    BlamesOnly r.setting (TokenTree.reachableOf r.forest.trees) False
      (mode.body r.setting r.elements) :=
  mode.blames_trees (List.Subset.refl _) False.elim

/-- All problems that are reported of a text hold the whole source, with its quotes straight, and
point at a place in it, whose text they show; only that the ceiling of a loop was reached points
nowhere. This is so of what stops the reading in either mode, which is never a problem of characters
or of JSON, of the warnings that a query comes with, and of what is noted up to a fault. -/
theorem query_quotes (mode : Mode) (text : String) (registry : Registry) (ceilings : Ceilings) :
    let setting : Setting := ⟨text.toList.map Text.straightenChar, registry, ceilings⟩
    (∀ problem, mode.query text registry ceilings = .error problem → setting.Stops problem) ∧
    (∀ q, mode.query text registry ceilings = .ok q →
      ∀ problem ∈ q.warnings, problem.PointsInto setting.source) ∧
    ∀ r, Reading.start text registry ceilings = .ok r →
      ∀ problem ∈ r.evaluate.2.notes.draft.problems,
        problem.PointsInto setting.source ∨ problem = setting.exhausted := by
  intro setting
  have hsetting {r : Reading} (hstart : Reading.start text registry ceilings = .ok r) :
      r.setting = setting := Reading.setting_of_start hstart
  refine ⟨fun problem hproblem => ?_, fun q hq => ?_, fun r hstart problem hproblem => ?_⟩
  · rw [query_eq] at hproblem
    cases hstart : Reading.start text registry ceilings with
    | error problem' =>
      rw [hstart] at hproblem
      cases hproblem
      exact Reading.stops_of_start hstart
    | ok r =>
      rw [hstart] at hproblem
      obtain ⟨-, hstops⟩ := Reading.pointsInto_on hstart (mode.blames_body r)
      rw [← hsetting hstart]
      exact Reading.stops_of_compile hstops hproblem
  · rw [query_eq] at hq
    cases hstart : Reading.start text registry ceilings with
    | error problem =>
      rw [hstart] at hq
      cases hq
    | ok r =>
      rw [hstart] at hq
      obtain ⟨hnoted, -⟩ := Reading.pointsInto_on hstart (mode.blames_body r)
      rw [← hsetting hstart]
      exact Reading.pointsInto_of_compile hnoted hq
  · obtain ⟨hnoted, hstops⟩ := Reading.pointsInto_on hstart (clauses.blames_body r)
    rw [← hsetting hstart]
    obtain hproblem | ⟨e, he, rfl⟩ := r.mem_problems_evaluate hproblem
    · exact .inl (hnoted problem hproblem)
    · rw [(hstops e he).inExpression_eq]
      exact (hstops e he).points

/-- A word with a list that is not closed, at the end of a text with a curly quote; and a text that
is read with two warnings, of a quote that is not closed and of a keyword without a body. -/
theorem query_quotes_sample :
    (∃ problem, clauses.query "WHERE f(x, ‘y" .empty {} = .error problem ∧
      problem.location = some ⟨"f(x, 'y", ⟨6, 13⟩⟩ ∧
      Setting.Stops ⟨"WHERE f(x, 'y".toList, .empty, {}⟩ problem) ∧
    ∃ q, clauses.query "SELECT a LIMIT WHERE a = ‘b" .empty {} = .ok q ∧ q.warnings.length = 2 ∧
      ∀ problem ∈ q.warnings, problem.PointsInto "SELECT a LIMIT WHERE a = 'b".toList := by
  obtain ⟨hstops, -⟩ := query_quotes clauses "WHERE f(x, ‘y" .empty {}
  obtain ⟨-, hwarnings, -⟩ := query_quotes clauses "SELECT a LIMIT WHERE a = ‘b" .empty {}
  have hfails : (match clauses.query "WHERE f(x, ‘y" .empty {} with
      | .ok _ => none
      | .error problem => problem.location) = some ⟨"f(x, 'y", ⟨6, 13⟩⟩ := by decide +kernel
  have hwarns : (clauses.query "SELECT a LIMIT WHERE a = ‘b" .empty {}).toOption.map
      (fun q => q.warnings.length) = some 2 := by decide +kernel
  refine ⟨?_, ?_⟩
  · cases hquery : clauses.query "WHERE f(x, ‘y" .empty {} with
    | ok q =>
      rw [hquery] at hfails
      cases hfails
    | error problem =>
      rw [hquery] at hfails
      have hsource : "WHERE f(x, ‘y".toList.map Text.straightenChar =
        "WHERE f(x, 'y".toList := by decide
      exact ⟨problem, rfl, hfails, hsource ▸ hstops problem hquery⟩
  · cases hquery : clauses.query "SELECT a LIMIT WHERE a = ‘b" .empty {} with
    | error problem =>
      rw [hquery] at hwarns
      cases hwarns
    | ok q =>
      rw [hquery] at hwarns
      have hsource : "SELECT a LIMIT WHERE a = ‘b".toList.map Text.straightenChar =
        "SELECT a LIMIT WHERE a = 'b".toList := by decide
      exact ⟨q, rfl, Option.some.inj hwarns, hsource ▸ hwarnings q hquery⟩

end Mode

end RecordQuery
