import RecordQuery.Proofs.Compiling
import RecordQuery.Proofs.Moving
import RecordQuery.Proofs.Remainders
import RecordQuery.Proofs.Scanning

/-!
# Conditions without a keyword

A text that holds only a condition can be read as it stands, or behind the keyword `WHERE`. Both
readings run the same way, once the tokens are cut. They are cut alike too: the keyword and the
blank behind it only move what follows, and the machine that builds the trees looks at no more than
the distance of a parenthesis from the token before it.

The two readings do differ in how they end. The clause has to hold a condition; the bare text may
stop before it has begun one, and what is left of it is not looked at then. With texts that hold
neither clause keywords nor semicolons at the top level, this happens only where a comma comes
first.
-/

namespace RecordQuery

open Reader

/-! ## Behind a keyword -/

/-- The keyword before a condition, and the blank behind it. -/
def whereLead : List Char := "WHERE ".toList

/-- A text behind `WHERE` is cut into the keyword, a blank, and what it is cut into alone. -/
lemma scan_whereLead (source : List Char) :
    Lexeme.scan (whereLead ++ source) =
      .run .word "WHERE".toList :: .blank ' ' :: Lexeme.scan source := by
  have hblank : Lexeme.lead ' ' source = .blank := rfl
  have hword : ∀ c rest, c ∈ "WHERE".toList → Lexeme.lead c rest = .run .word := by
    intro c rest hc
    simp at hc
    obtain rfl | rfl | rfl | rfl | rfl := hc <;> rfl
  have hrun : Lexeme.runPiece .word ('H' :: 'E' :: 'R' :: 'E' :: ' ' :: source) =
      ⟨"HERE".toList, true, ' ' :: source⟩ := by
    simp only [Lexeme.runPiece, hword 'H' _ (by simp), hword 'E' _ (by simp), hword 'R' _ (by simp),
      hblank, Lexeme.Piece.cons, if_true]
    rfl
  have hsource : whereLead ++ source = 'W' :: 'H' :: 'E' :: 'R' :: 'E' :: ' ' :: source := rfl
  rw [hsource, Lexeme.scan_cons, hword 'W' _ (by simp)]
  dsimp only
  rw [hrun]
  dsimp only
  rw [Lexeme.scan_cons, hblank]
  rfl

/-- What a source mentions outside a span, with more before it. -/
lemma mentionsRegexp_append (lead source : List Char) (span : Span) :
    Token.mentionsRegexp (lead ++ source) ⟨span.start + lead.length, span.stop + lead.length⟩ =
      Text.occursIn Token.regexpWord
        (lead.map Char.toUpper ++
          (source.take span.start ++ source.drop span.stop).map Char.toUpper) := by
  unfold Token.mentionsRegexp
  rw [Nat.add_comm span.start, Nat.add_comm span.stop, List.take_length_add_append,
    List.drop_length_add_append, List.append_assoc, List.map_append]

/-- The keyword before a condition does not mention regular expressions. -/
lemma mentionsAlike_whereLead (source : List Char) :
    TreeBuilder.MentionsAlike whereLead source [] := by
  intro span _ _
  have hlead : whereLead.map Char.toUpper = ['W', 'H', 'E', 'R', 'E', ' '] := rfl
  have hword : Token.regexpWord = ['R', 'E', 'G', 'E', 'X', 'P', '_', 'M', 'A', 'T', 'C', 'H'] :=
    rfl
  rw [TreeBuilder.within, List.append_nil, mentionsRegexp_append, hlead, Token.mentionsRegexp,
    hword]
  simp [Text.occursIn, List.isPrefixOf]

/-! ## Two cut texts -/

/-- The keyword before a condition, as a tree. -/
def whereTree : TokenTree :=
  { token :=
      { id := 0, text := "WHERE", kind := .word, span := ⟨0, 5⟩, rule := some .whereClause } }

/-- The keyword `WHERE` claims no parenthesis. -/
lemma claims_whereTree (offset : Nat) : whereTree.token.claims offset = false := rfl

/-- The machine that has read the keyword and the blank behind it. -/
lemma foldlM_whereLead (ceilings : Ceilings) (source : List Char) (lexemes : List Lexeme) :
    (.run .word "WHERE".toList :: .blank ' ' :: lexemes).foldlM (TreeBuilder.step ceilings source)
        {} =
      lexemes.foldlM (TreeBuilder.step ceilings source)
        { offset := 6, nextId := 1, current := [whereTree]
          slots := .space :: List.replicate 5 (.token 0) } := by
  have hword : Token.ofWord 0 .word "WHERE" ⟨0, 5⟩ = whereTree.token := by decide +kernel
  have hstep : TreeBuilder.step ceilings source {} (.run .word "WHERE".toList) =
      .ok
        { offset := 5, nextId := 1, current := [whereTree]
          slots := List.replicate 5 (.token 0) } := by
    have htoken : Token.ofLexeme? 0 source ⟨0, 5⟩ (.run .word "WHERE".toList) =
        some whereTree.token := congrArg some hword
    unfold TreeBuilder.step
    rfl
  rw [List.foldlM_cons, hstep]
  rfl

/-- Whether the keyword and a condition behind it are cut into the keyword and the trees of the
condition, with as many problems. -/
def CutAlike (registry : Registry) (a b : TokenForest) : Prop :=
  a.problems.length = b.problems.length ∧ ∃ trees, b.merge.trees = whereTree :: trees ∧
    TokenTree.AllAlike .all registry a.merge.trees trees

/-- No keyword of several words begins with the keyword before a condition. -/
lemma mergeAll_whereTree (trees : List TokenTree) :
    TokenTree.mergeAll (whereTree :: trees) = whereTree :: TokenTree.mergeAll trees := by
  have hgroup : whereTree.token.isWord "GROUP" = false := by decide +kernel
  have horder : whereTree.token.isWord "ORDER" = false := by decide +kernel
  have hchildless : whereTree.merge = whereTree := by
    rw [whereTree, TokenTree.merge_mk, TokenTree.mergeAll_nil]
  rw [TokenTree.mergeAll_cons, TokenTree.spelled?_eq_none trees hgroup horder, hchildless]

/-- A text and the text behind `WHERE` are cut alike, the keyword aside. -/
lemma ofText_whereLead (registry : Registry) (text : String) (ceilings : Ceilings) :
    Corresponds (CutAlike registry) (TokenForest.ofText text ceilings)
      (TokenForest.ofText ("WHERE " ++ text) ceilings) := by
  have hsource : ("WHERE " ++ text).toList.map Text.straightenChar =
      TreeBuilder.within whereLead (text.toList.map Text.straightenChar) [] := by
    rw [String.toList_append, List.map_append, TreeBuilder.within, List.append_nil]
    rfl
  unfold TokenForest.ofText
  rw [hsource]
  generalize text.toList.map Text.straightenChar = source
  have hscan : Lexeme.scan (TreeBuilder.within whereLead source []) =
      .run .word "WHERE".toList :: .blank ' ' :: Lexeme.scan source := by
    rw [TreeBuilder.within, List.append_nil, scan_whereLead]
  dsimp only
  rw [hscan, foldlM_whereLead]
  have hstart : TreeBuilder.Moved registry whereLead.length [whereTree] {}
      { offset := 6, nextId := 1, current := [whereTree]
        slots := .space :: List.replicate 5 (.token 0) } := ⟨rfl, .top .nil, rfl⟩
  have hapart : TreeBuilder.Apart [whereTree] {} (Lexeme.scan source) := by
    rintro - - - _ ⟨⟩
    exact claims_whereTree
  have hwidth : 0 + ((Lexeme.scan source).flatMap Lexeme.source).length ≤ source.length := by
    rw [Lexeme.flatMap_source_scan, Nat.zero_add]
  have hfold := TreeBuilder.foldlM_rel (mentionsAlike_whereLead source) ceilings
    (Lexeme.scan source) hapart hwidth hstart
  generalize (Lexeme.scan source).foldlM (TreeBuilder.step ceilings source) {} = b,
    (Lexeme.scan source).foldlM
      (TreeBuilder.step ceilings (TreeBuilder.within whereLead source [])) _ = c at hfold
  cases b <;> cases c
  · exact hfold
  · exact hfold.elim
  · exact hfold.elim
  · rename_i b c
    obtain ⟨trees, htrees, hall⟩ := TreeBuilder.closeAll_rel b.offset c.offset hfold.sequences
    refine ⟨?_, TokenTree.mergeAll trees, ?_, TokenTree.AllAlike.mergeAll _ _ hall⟩
    · exact (TreeBuilder.length_problems_finish hfold source _).symm
    · show TokenTree.mergeAll (TreeBuilder.closeAll c.offset c.frames c.current) = _
      rw [htrees]
      exact mergeAll_whereTree trees

/-! ## How the readings end -/

namespace Phrase

variable {s : Setting} {es : List Element}

/-- A text that begins with no delimiter begins with a phrase, if it is read at all. -/
lemma ensures_drawTerm (budget : Nat) {e : Element} {rest : List Element}
    (hdelimiter : e.token.isDelimiter = false) :
    Ensures (fun item => item.isSome) (drawTerm s budget (e :: rest)) := by
  have hphrase : Ensures (fun item => item.isSome) (drawOne s (e :: rest)) ∨
      e.token.isConnective = true := by
    by_cases hconnective : e.token.isConnective = true
    · exact .inr hconnective
    · refine .inl ?_
      have hrun : run (e :: rest) = e :: rest.takeWhile fun e => continues e.token := by
        simp [run, separates, hdelimiter, hconnective]
      unfold drawOne
      rw [hrun]
      refine Ensures.bind Ensures.trivial fun items _ => ?_
      exact Ensures.bind Ensures.trivial fun item _ => Ensures.pure rfl
  unfold drawTerm
  dsimp only [List.head?_cons]
  split
  · exact Ensures.stop
  · split
    · exact Ensures.stop
    · rename_i hconnective
      exact hphrase.resolve_right hconnective

/-- A text that begins with no delimiter begins with a group, if it is read at all, and what is left
behind the group is the end of the text. -/
lemma ensures_drawGroup {e : Element} {rest : List Element}
    (hdelimiter : e.token.isDelimiter = false) :
    Ensures (fun drawn => drawn.1.isSome ∧ drawn.2 <:+ e :: rest) (drawGroup s (e :: rest)) := by
  rw [drawGroup_eq]
  refine Ensures.bind (ensures_drawTerm _ hdelimiter) fun item hitem => ?_
  obtain ⟨item, rfl⟩ := Option.isSome_iff_exists.mp hitem
  refine Ensures.bind (ensures_drawLinks_suffix _ _) fun drawn hdrawn => ?_
  refine Ensures.bind Ensures.trivial fun item _ => Ensures.pure ⟨rfl, ?_⟩
  exact hdrawn.trans (afterRun_suffix _)

end Phrase

namespace Clause

open Phrase

variable {s s' : Setting} {es fs : List Element}

/-- Whether no clause begins among some elements, nor a semicolon stands there. -/
def Bare (es : List Element) : Prop :=
  ∀ e ∈ es, e.token.isClause = false ∧ e.token.isSemicolon = false

/-- What is left of a clause among such elements is left over. -/
lemma Bare.atEnd {left : List Element} (h : Bare es) (hleft : left <:+ es) :
    atEnd left = left.isEmpty := by
  cases left with
  | nil => rfl
  | cons e rest =>
    obtain ⟨hclause, hsemicolon⟩ := h e (hleft.subset (by simp))
    simp [Clause.atEnd, hclause, hsemicolon]

/-- Reading the body behind the keyword before a condition. -/
def readBody (s : Setting) (keyword : Element) (es : List Element) : Parse Nat := do
  let (clause, left) ← condition s .whereClause keyword.token es
  if let some next := left.head? then
    if !Clause.atEnd left then
      Parse.failAt s (.leftoverInClause (s.describe next.token) .whereClause) next.token
  let used := es.length - left.length
  let span := (es.take used).foldl (fun span e => span.cover e.token.fullSpan)
    keyword.token.fullSpan
  Parse.recordPhrase keyword.token span clause
  Parse.recordClause .whereClause (clause.withSpan span)
  return used

/-- Reading all clauses behind the keyword before a condition, where no clause is known yet. -/
lemma on_readAll_where {keyword : Element} (hkeyword : keyword.token = whereTree.token)
    {notes : Notes} (hnotes : notes.draft.clauses = []) :
    on (readAll s (keyword :: es)) notes =
      if Clause.atEnd es then
        on (readAll s es)
          { notes with
            draft := notes.draft.note (s.problemAt (.emptyClause .whereClause) keyword.token) }
      else on (readBody s keyword es >>= fun used => readAll s (es.drop used)) notes := by
  have hsemicolon : keyword.token.isSemicolon = false := by rw [hkeyword]; rfl
  have hrule : keyword.token.rule = some .whereClause := by rw [hkeyword]; rfl
  have hclause : keyword.token.isClause = true := by rw [hkeyword]; rfl
  have hchildren : keyword.token.hasChildren = false := by rw [hkeyword]; rfl
  rw [readAll]
  simp only [hsemicolon, hrule, hclause, if_true, Bool.false_eq_true, if_false]
  unfold read
  simp only [on_bind, on_get, goOn_ok, hnotes, List.any_nil, hchildren, Bool.not_false,
    Bool.true_and, Bool.false_eq_true, if_false]
  split
  · rfl
  · rfl

/-- A condition alone and behind the keyword, where it begins with no delimiter. -/
lemma agree_readBody {V : Vocabulary} {hs : Setting.Alike s s'} (keyword : Element) {e f : Element}
    (h : (Comparison.agreeing V hs).Sequences [] (e :: es) (f :: fs)) (hbare : Bare (e :: es))
    (hdelimiter : e.token.isDelimiter = false) :
    Agree V (fun _ _ => True) (readCondition s (e :: es))
      (readBody s' keyword (f :: fs) >>= fun used => readAll s' ((f :: fs).drop used)) := by
  have hdraw : Agree V _ (drawGroup s (e :: es)) (drawGroup s' (f :: fs)) :=
    Comparison.holds_drawGroup h Comparison.ends_nil (fun _ => rfl) False.elim
  unfold readCondition readBody condition
  simp only [bind_assoc]
  refine Agree.bind (Comparison.forget (.agreeing V hs)
    (hdraw.ensuring (ensures_drawGroup hdelimiter))) ?_
  rintro ⟨item, left⟩ ⟨item', left'⟩ ⟨⟨hitem, hleft⟩, hsome, hsuffix⟩
  have hend : Clause.atEnd left = left.isEmpty := hbare.atEnd hsuffix
  have hend' := hleft.atEnd_eq Comparison.ends_nil
  cases hitem with
  | none => cases hsome
  | @some i j hij =>
    dsimp only
    obtain ⟨hi, hj⟩ | ⟨a, b, hi, hj, hab, isCondition⟩ := hij.condition
    · rw [hj]
      cases hleft with
      | nil =>
        unfold Item.condition
        rw [hi]
        exact Agree.stop rfl
      | cons => exact Agree.stop rfl
    · rw [hj]
      cases hleft with
      | nil =>
        unfold Item.condition
        rw [hi]
        simp only [pure_bind, bind_assoc, List.head?_nil, List.length_nil, Nat.sub_zero,
          List.drop_length]
        rw [readAll]
        refine Agree.afterPhrase ?_
        rw [bind_pure_unit]
        have hclause := Comparison.operators_filter (.inl rfl) hab isCondition
        exact agree_recordClause ⟨rfl, rfl, rfl, hclause.alike.withSpan i.span _⟩
      | cons =>
        rw [hend, List.isEmpty_cons] at hend'
        simp only [pure_bind, List.head?_cons, hend']
        exact Agree.stop rfl

/-- Nothing is drawn where a delimiter comes first, and nothing fails. -/
lemma on_drawGroup_none {notes : Notes} (hsteps : 0 < s.ceilings.steps)
    (h : ∀ e ∈ es.head?, e.token.isDelimiter = true) :
    on (drawGroup s es) notes = (.ok (none, es), notes) := by
  have hbudget : s.ceilings.steps ≠ 0 := by omega
  rw [drawGroup_eq]
  unfold drawTerm drawOne
  cases es with
  | nil => simp [hbudget, run]
  | cons e rest =>
    have hdelimiter := h e rfl
    have hconnective : e.token.isConnective = false := by
      have hkind : e.token.kind = .delimiter := by simpa [Token.isDelimiter] using hdelimiter
      simp [Token.isConnective, hkind]
    have hrun : run (e :: rest) = [] := by simp [run, separates, hdelimiter]
    simp [hbudget, hconnective, hrun]

/-- A text that begins with a delimiter, or is empty, is read as no condition at all. -/
lemma on_readCondition_none {notes : Notes} (hsteps : 0 < s.ceilings.steps)
    (h : ∀ e ∈ es.head?, e.token.isDelimiter = true) :
    on (readCondition s es) notes = (.ok (), notes) := by
  unfold readCondition Draw.forget
  simp [on_drawGroup_none hsteps h]

/-- The keyword before a condition must be followed by one. -/
lemma on_readBody_none (notes : Notes) (keyword : Element) (hsteps : 0 < s.ceilings.steps)
    (h : ∀ e ∈ es.head?, e.token.isDelimiter = true) :
    ∃ problem, on (readBody s keyword es >>= fun used => readAll s (es.drop used)) notes =
      (.error problem, notes) := by
  unfold readBody condition Draw.forget Parse.failAt
  simp [on_drawGroup_none hsteps h]

end Clause

/-! ## The two queries -/

/-- Two outcomes that a caller cannot tell apart: queries of one JSON form, or faults
of one class. -/
def SameOutcome : Except Problem Query → Except Problem Query → Prop
  | .ok p, .ok q => p.toJson = q.toJson
  | .error e, .error f => e.kind = f.kind
  | _, _ => False

/-- Whether a text has neither a clause keyword nor a semicolon at the top level. -/
def isBareCondition (text : String) (ceilings : Ceilings) : Bool :=
  match TokenForest.ofText text ceilings with
  | .ok forest =>
    forest.merge.trees.all fun tree => !tree.token.isClause && !tree.token.isSemicolon
  | .error _ => true

/-- Whether a text begins with a delimiter. -/
def beginsWithDelimiter (text : String) (ceilings : Ceilings) : Bool :=
  match TokenForest.ofText text ceilings with
  | .ok forest => forest.merge.trees.head?.any fun tree => tree.token.isDelimiter
  | .error _ => false

/-- The tokens of elements are those of their trees. -/
lemma TokenTree.map_token_elements (s : Setting) (trees : List TokenTree) :
    (TokenTree.elements s trees).map Element.token = trees.map TokenTree.token := by
  induction trees with
  | nil => rfl
  | cons tree rest ih =>
    cases tree
    rw [TokenTree.elements, List.map_cons, List.map_cons, ih, TokenTree.element]

namespace Reading

/-- Of two texts that are cut alike, the first read as a condition and the second as clauses. -/
lemma sameOutcome_iff (r r' : Reading) (trees : List TokenTree)
    (hregistry : r.setting.registry = r'.setting.registry)
    (hceilings : r.setting.ceilings = r'.setting.ceilings) (hsteps : 0 < r.setting.ceilings.steps)
    (hnotes : r.notes.draft.clauses = []) (hnotes' : r'.notes.draft.clauses = [])
    (haliases : r.notes.draft.aliases = []) (haliases' : r'.notes.draft.aliases = [])
    (hproblems : r.notes.draft.problems.length = r'.notes.draft.problems.length)
    (htrees : r'.forest.trees = whereTree :: trees)
    (hall : TokenTree.AllAlike .all r.setting.registry r.forest.trees trees)
    (hbare : r.forest.trees.all
      fun tree => !tree.token.isClause && !tree.token.isSemicolon) :
    SameOutcome (r.compile (Clause.readCondition r.setting r.elements))
        (r'.compile (Clause.readAll r'.setting r'.elements)) ↔
      r.forest.trees.head?.any (fun tree => tree.token.isDelimiter) = false := by
  have hs : Setting.Alike r.setting r'.setting := ⟨hregistry, by rw [hceilings]⟩
  have hsteps' : 0 < r'.setting.ceilings.steps := hceilings ▸ hsteps
  have halike : Notes.Alike .all r.notes r'.notes := by
    constructor
    · rw [haliases, haliases']
    · rw [hnotes, hnotes']
      exact .nil
    · exact hproblems
  have helements := TokenTree.AllAlike.elements hs _ _ hall
  have hbare' : Clause.Bare r.elements := by
    intro e he
    have htoken : e.token ∈ r.forest.trees.map TokenTree.token := by
      rw [← TokenTree.map_token_elements r.setting]
      exact List.mem_map_of_mem he
    obtain ⟨tree, htree, heq⟩ := List.mem_map.mp htoken
    rw [← heq]
    simpa using List.all_eq_true.mp hbare tree htree
  have hhead : r.forest.trees.head?.any (fun tree => tree.token.isDelimiter) =
      r.elements.head?.any fun e => e.token.isDelimiter := by
    have := congrArg List.head? (TokenTree.map_token_elements r.setting r.forest.trees)
    rw [List.head?_map, List.head?_map] at this
    have := congrArg (Option.any Token.isDelimiter) this
    rw [Option.any_map, Option.any_map] at this
    exact this.symm
  have hwhere : r'.elements = whereTree.element r'.setting ::
      TokenTree.elements r'.setting trees := by
    rw [Reading.elements, htrees, TokenTree.elements]
  rw [hhead, compile_eq, compile_eq, hwhere, Clause.on_readAll_where rfl hnotes']
  rw [← Reading.elements] at helements
  generalize r.elements = es, TokenTree.elements r'.setting trees = fs at helements hbare'
  cases helements with
  | nil =>
    -- nothing to read: no condition, and a keyword without a body
    rw [Clause.on_readCondition_none hsteps (by simp), Clause.atEnd, if_pos rfl, Clause.readAll,
      on_pure]
    simp only [List.head?_nil, Option.any_none, iff_true]
    exact Query.toJson_ofDraft_eq halike.clauses
  | @cons e f es fs hef hrest =>
    have hend : Clause.atEnd (f :: fs) = false := by
      rw [Comparison.Sequences.atEnd_eq (.cons hef hrest) Comparison.ends_nil,
        hbare'.atEnd (List.suffix_refl _)]
      rfl
    rw [if_neg (by simp [hend])]
    cases hdelimiter : e.token.isDelimiter with
    | true =>
      -- a delimiter: no condition, and the keyword has to be followed by one
      have hdelimiter' : f.token.isDelimiter = true := by
        rw [hef.token.signs.isDelimiter, hdelimiter]
      have hfirst : ∀ g ∈ (f :: fs).head?, g.token.isDelimiter = true := by simpa using hdelimiter'
      obtain ⟨problem, hproblem⟩ := Clause.on_readBody_none r'.notes
        (whereTree.element r'.setting) hsteps' hfirst
      rw [Clause.on_readCondition_none hsteps (by simpa using hdelimiter), hproblem]
      simp [SameOutcome, hdelimiter]
    | false =>
      have hagree := Clause.agree_readBody (whereTree.element r'.setting)
        (.cons hef hrest) hbare' hdelimiter r.notes r'.notes halike
      rcases hleft : on (Clause.readCondition r.setting (e :: es)) r.notes with ⟨a | a, n⟩ <;>
        rcases hright : on (Clause.readBody r'.setting (whereTree.element r'.setting) (f :: fs) >>=
          fun used => Clause.readAll r'.setting ((f :: fs).drop used)) r'.notes with ⟨b | b, m⟩ <;>
        rw [hleft, hright] at hagree <;>
        simp only [List.head?_cons, Option.any_some, hdelimiter, iff_true]
      · simp only [SameOutcome, Problem.kind_inExpression]
        exact hagree.1
      · exact hagree.1.elim
      · exact hagree.1.elim
      · exact Query.toJson_ofDraft_eq hagree.2.clauses

end Reading

/-- A condition compiles as it would behind `WHERE`, unless it begins with a delimiter. -/
theorem sameOutcome_where_iff (registry : Registry) (text : String) (ceilings : Ceilings)
    (hsteps : 0 < ceilings.steps) (hbare : isBareCondition text ceilings = true) :
    SameOutcome (Query.ofCondition text registry ceilings)
        (Query.ofText ("WHERE " ++ text) registry ceilings) ↔
      beginsWithDelimiter text ceilings = false := by
  have hcut := ofText_whereLead registry text ceilings
  unfold Query.ofCondition Query.ofText Reading.start
  unfold isBareCondition at hbare
  unfold beginsWithDelimiter
  cases ha : TokenForest.ofText text ceilings with
  | error e =>
    cases hb : TokenForest.ofText ("WHERE " ++ text) ceilings with
    | ok b => rw [ha, hb] at hcut; exact hcut.elim
    | error f =>
      rw [ha, hb] at hcut
      exact iff_of_true hcut rfl
  | ok a =>
    cases hb : TokenForest.ofText ("WHERE " ++ text) ceilings with
    | error f => rw [ha, hb] at hcut; exact hcut.elim
    | ok b =>
      rw [ha, hb] at hcut
      obtain ⟨hproblems, trees, htrees, hall⟩ := hcut
      rw [ha] at hbare
      exact Reading.sameOutcome_iff
        ⟨⟨a.source, registry, ceilings⟩, a.merge, { draft := { problems := a.problems } }⟩
        ⟨⟨b.source, registry, ceilings⟩, b.merge, { draft := { problems := b.problems } }⟩ trees
        rfl rfl hsteps rfl rfl rfl rfl hproblems htrees hall hbare

/-- Two conditions joined by `OR` compile alike, a comma does not. -/
theorem sameOutcome_where_or_comma :
    SameOutcome (Query.ofCondition "a = 1 OR b > 2" .empty {})
        (Query.ofText ("WHERE " ++ "a = 1 OR b > 2") .empty {}) ∧
      ¬ SameOutcome (Query.ofCondition "," .empty {})
        (Query.ofText ("WHERE " ++ ",") .empty {}) := by
  constructor
  · exact (sameOutcome_where_iff .empty "a = 1 OR b > 2" {} (by decide) (by decide +kernel)).mpr
      (by decide +kernel)
  · rw [sameOutcome_where_iff .empty "," {} (by decide) (by decide +kernel)]
    decide +kernel

end RecordQuery
