import RecordQuery.Proofs.ClauseOrder
import RecordQuery.Proofs.Company
import RecordQuery.Proofs.Concatenation
import RecordQuery.Proofs.NothingIgnored
import RecordQuery.Proofs.PlainWords

/-!
# Texts of one clause each

A query text can be cut at its clauses and put together again in any other order. To say so, take
texts that compile alone, each to one clause, *segments*. Put together with blanks between them,
they compile to the query that has all their clauses, each in the place that its kind has. Three
things must not happen: that two segments hold clauses that compete, that one names a property by a
name that another binds, and that one mentions regular expressions, as that changes what is verbatim
in all others.

The proof follows the text through its stages. A segment is a *part*, with all that is known of its
reading alone. Joined, parts are cut into the trees they are cut into alone, but for offsets and
numbers (`IsPiece.intercalate`). Their clauses are read as they are alone, each part in the company
of those before it (`Clause.carries_readAll`). And the clauses noted come to one query in any order
(`Query.toJson_ofDraft_of_flatMap`).
-/

namespace RecordQuery

open Reader TokenTree

/-! ## How a text begins -/

/-- A reading of clauses that succeeds begins with a clause, with a semicolon, or with nothing. -/
lemma Clause.atEnd_of_readAll {s : Setting} {es : List Element} {n n' : Notes}
    (h : on (readAll s es) n = (.ok (), n')) : atEnd es = true := by
  cases es with
  | nil => rfl
  | cons e rest =>
    rw [readAll] at h
    rw [atEnd]
    split at h
    · rename_i hsemicolon
      rw [hsemicolon, Bool.or_true]
    · split at h
      · split at h
        · rename_i hclause
          rw [hclause, Bool.true_or]
        · cases h
      · cases h

namespace TokenForest

variable {text : String} {ceilings : Ceilings} {forest : TokenForest}

/-- A token with a rule has the keyword of the rule as its text. -/
lemma text_of_rule (h : ofText text ceilings = .ok forest) :
    AllOf (fun t => ∀ kind, t.rule = some kind → t.text = kind.keyword) forest.trees := by
  have hword :
    ∀ {id kind text span} (rule : Kind), (Token.ofWord id kind text span).rule = some rule →
      (Token.ofWord id kind text span).text = rule.keyword := by
    intro id kind text span rule hrule
    unfold Token.ofWord at hrule ⊢
    split at hrule
    · rename_i found hfound
      cases hrule
      exact Token.eq_of_ofKeyword? hfound
    · cases hrule
  have hnone : ∀ {t : Token}, t.rule = none → ∀ kind, t.rule = some kind →
      t.text = kind.keyword := by
    intro t hrule kind h
    rw [hrule] at h
    cases h
  refine allOf_trees h ?_ (fun id offset => hnone rfl) fun t stop ht => ht
  intro lexeme _ id span t ht
  cases lexeme with
  | blank | opening | closing => cases ht
  | delimiter | block | bracketed =>
    cases ht
    exact hnone rfl
  | quoted quote body closed =>
    simp only [Token.ofLexeme?, Token.ofQuoted, Option.some.injEq] at ht
    subst ht
    split <;> exact hnone rfl
  | run kind chars =>
    cases kind <;> cases ht
    · exact hword
    · exact hword
    · exact hnone rfl

end TokenForest

namespace TokenTree

/-- A tree whose token is that of a clause or a semicolon begins no text with a parenthesis, and
goes on with no keyword. -/
lemma begins_of_token {token : Token} (htext : ∀ kind, token.rule = some kind →
    token.text = kind.keyword) (hbegins : (token.isClause || token.isSemicolon) = true) :
    (token.isWord "BY" = false ∧ token.isWord "PERMUTED" = false) ∧ token.kind ≠ .group := by
  have hkeyword : ∀ kind : Kind, kind.keyword ≠ "BY" ∧ kind.keyword ≠ "PERMUTED" := by
    intro kind
    cases kind <;> decide
  obtain hclause | hsemicolon := Bool.or_eq_true _ _ ▸ hbegins
  · rw [Token.isClause, Bool.and_eq_true, beq_iff_eq, Option.any_eq_true] at hclause
    obtain ⟨hword, kind, hrule, -⟩ := hclause
    obtain ⟨hby, hpermuted⟩ := hkeyword kind
    simp [Token.isWord, hword, htext kind hrule, hby, hpermuted]
  · have hkind : token.kind = .delimiter := by
      rw [Token.isSemicolon, Bool.and_eq_true] at hsemicolon
      simpa [Token.isDelimiter] using hsemicolon.1
    simp [Token.isWord, hkind]

/-- A word that a keyword of several words begins with. -/
lemma begins_of_spelled? {tree : TokenTree} {rest : List TokenTree} {kind : Kind} {more : Nat}
    (h : spelled? (tree :: rest) = some (kind, more)) :
    (tree.token.isWord "BY" = false ∧ tree.token.isWord "PERMUTED" = false) ∧
      tree.token.kind ≠ .group := by
  have hfirst : tree.token.isWord "GROUP" = true ∨ tree.token.isWord "ORDER" = true := by
    by_contra hnone
    simp only [not_or, Bool.not_eq_true] at hnone
    rw [spelled?_eq_none rest hnone.1 hnone.2] at h
    cases h
  have hword : ∀ {word : String}, tree.token.isWord word = true → tree.token.kind ≠ .group := by
    intro word hword hgroup
    simp [Token.isWord, hgroup] at hword
  obtain hfirst | hfirst := hfirst
  · exact ⟨⟨Token.isWord_eq_false hfirst (by decide), Token.isWord_eq_false hfirst (by decide)⟩,
      hword hfirst⟩
  · exact ⟨⟨Token.isWord_eq_false hfirst (by decide), Token.isWord_eq_false hfirst (by decide)⟩,
      hword hfirst⟩

/-- The element of a tree is about its token. -/
lemma token_element (s : Setting) (tree : TokenTree) : (tree.element s).token = tree.token := by
  obtain ⟨token, children, absorbed⟩ := tree
  rw [element]

/-- Sequences in two parts have elements in two parts. -/
lemma elements_append (s : Setting) (as bs : List TokenTree) :
    elements s (as ++ bs) = elements s as ++ elements s bs := by
  induction as with
  | nil => rfl
  | cons tree rest ih => rw [List.cons_append, elements, ih, elements, List.cons_append]

/-- Sequences in parts have elements in parts. -/
lemma elements_flatMap (s : Setting) {α : Type} (parts : List α) (trees : α → List TokenTree) :
    elements s (parts.flatMap trees) = parts.flatMap fun part => elements s (trees part) := by
  induction parts with
  | nil => rfl
  | cons part rest ih => rw [List.flatMap_cons, elements_append, ih, List.flatMap_cons]

/-- Trees that are read as clauses begin anew, and with no parenthesis. -/
lemma begins_of_atEnd {s : Setting} {trees : List TokenTree}
    (htext : AllOf (fun t => ∀ kind, t.rule = some kind → t.text = kind.keyword) trees)
    (h : Clause.atEnd (elements s (mergeAll trees)) = true) :
    StartsAnew trees ∧ ∀ tree ∈ trees.head?, tree.token.kind ≠ .group := by
  have hboth : ∀ tree ∈ trees.head?,
      (tree.token.isWord "BY" = false ∧ tree.token.isWord "PERMUTED" = false) ∧
        tree.token.kind ≠ .group := by
    cases trees with
    | nil => simp
    | cons first rest =>
      rintro _ ⟨⟩
      obtain ⟨token, children, absorbed⟩ := first
      cases hspelled : spelled? (⟨token, children, absorbed⟩ :: rest) with
      | some found => exact begins_of_spelled? hspelled
      | none =>
        rw [mergeAll_cons, hspelled] at h
        dsimp only at h
        rw [merge, elements, Clause.atEnd, token_element] at h
        exact begins_of_token htext.1.1 h
  exact ⟨fun tree htree => (hboth tree htree).1, fun tree htree => (hboth tree htree).2⟩

end TokenTree

/-! ## Parts -/

/-- A text with all that is known of its reading alone: it is a piece that can stand between others,
and its clauses were read without a problem. -/
structure Part (registry : Registry) (ceilings : Ceilings) where
  source : List Char
  trees : List TokenTree
  notes : Notes
  piece : IsPiece ceilings source trees
  anew : StartsAnew trees
  read : on (Clause.readAll ⟨source, registry, ceilings⟩
    (elements ⟨source, registry, ceilings⟩ (mergeAll trees))) {} = (.ok (), notes)
  quiet : notes.draft.problems = []

namespace Part

variable {registry : Registry} {ceilings : Ceilings}

/-- What a part was read with. -/
def setting (part : Part registry ceilings) : Setting := ⟨part.source, registry, ceilings⟩

/-- The clauses noted while a part was read. -/
def clauses (part : Part registry ceilings) : List (Kind × Operator) := part.notes.draft.clauses

/-- Whether a part can be read behind what has left a draft. -/
def Follows (part : Part registry ceilings) (before : Draft) : Prop :=
  Company.Suits ⟨reachableOf (mergeAll part.trees), before⟩ part.notes

/-- A part can be read behind nothing. -/
lemma follows_empty (part : Part registry ceilings) : part.Follows {} :=
  ⟨fun _ _ _ => rfl, part.quiet, fun _ _ _ h => by cases h⟩

/-- A part that can be read behind a company, and behind a part that has joined it, can be read
behind both. -/
lemma Follows.joins {part : Part registry ceilings} {G : Company} {n m : Notes}
    (h : part.Follows G.before) (h' : part.Follows n.draft) (hjoins : G.Joins n m) :
    part.Follows m.draft := by
  refine ⟨fun token htoken hrole => ?_, part.quiet, fun kind hkind entry hentry => ?_⟩
  · rw [hjoins.names, h'.names token htoken hrole, h.names token htoken hrole, Bool.or_false]
  · dsimp only at hentry
    rw [hjoins.clauses, List.mem_append] at hentry
    obtain hentry | hentry := hentry
    · exact h.clauses kind hkind entry hentry
    · exact h'.clauses kind hkind entry hentry

/-- What comes before a part ends where the part begins. -/
lemma atEnd (part : Part registry ceilings) (s : Setting) :
    Clause.atEnd (elements s (mergeAll part.trees)) = true := by
  have halone := Clause.atEnd_of_readAll part.read
  generalize mergeAll part.trees = trees at halone
  cases trees with
  | nil => rw [elements, Clause.atEnd]
  | cons tree rest =>
    rw [elements, Clause.atEnd, token_element] at halone ⊢
    exact halone

/-- A clause is at its end where further parts begin. -/
lemma atEnd_flatMap (parts : List (Part registry ceilings)) (s : Setting) :
    Clause.atEnd (parts.flatMap fun part => elements s (mergeAll part.trees)) = true := by
  induction parts with
  | nil => rfl
  | cons part rest ih =>
    have hpart := part.atEnd s
    rw [List.flatMap_cons]
    generalize elements s (mergeAll part.trees) = es at hpart
    cases es with
    | nil => exact ih
    | cons e es => exact hpart

/-- Parts are read one behind the other as they are read alone. -/
theorem exists_readAll (s : Setting) (hregistry : s.registry = registry)
    (hceilings : s.ceilings = ceilings) (parts : List (Part registry ceilings)) (m : Notes)
    (hquiet : m.draft.problems = []) (hfollow : ∀ part ∈ parts, part.Follows m.draft)
    (hpairwise : parts.Pairwise fun p q => q.Follows p.notes.draft) :
    ∃ m', on (Clause.readAll s (parts.flatMap fun part => elements s (mergeAll part.trees))) m =
        (.ok (), m') ∧ m'.draft.problems = [] ∧
      m'.draft.clauses = m.draft.clauses ++ parts.flatMap clauses := by
  induction parts generalizing m with
  | nil =>
    refine ⟨m, ?_, hquiet, (List.append_nil _).symm⟩
    rw [List.flatMap_nil, Clause.readAll]
    rfl
  | cons part rest ih =>
    obtain ⟨hfirst, hrest⟩ := List.forall_mem_cons.mp hfollow
    obtain ⟨hbehind, hpairs⟩ := List.pairwise_cons.mp hpairwise
    let G : Company := ⟨reachableOf (mergeAll part.trees), m.draft⟩
    have hs : Setting.Alike part.setting s := ⟨hregistry.symm, by rw [hceilings]; rfl⟩
    obtain ⟨-, hcarried⟩ := Clause.carries_readAll hs (atEnd_flatMap rest s) _ _
      (carries_elements (G := G) hs (mergeAll part.trees) (List.Subset.refl _)).append _ _ part.read
    obtain ⟨m₁, hm₁, hjoins⟩ := hcarried hfirst m (.of_before hquiet rfl)
    obtain ⟨m', hm', hquiet', hclauses⟩ := ih m₁ hjoins.problems
      (fun other hother => (hrest other hother).joins (hbehind other hother) hjoins) hpairs
    refine ⟨m', by rw [List.flatMap_cons, hm₁, hm'], hquiet', ?_⟩
    rw [hclauses, hjoins.clauses, List.flatMap_cons, List.append_assoc]
    rfl

/-- The clauses noted while a part was read are clauses, each noted under its kind. -/
lemma kind_of_mem {part : Part registry ceilings} {entry : Kind × Operator}
    (h : entry ∈ part.clauses) : entry.2.kind = entry.1 ∧ entry.2.kind.isClause = true := by
  have hs : Setting.Alike part.setting part.setting := ⟨rfl, rfl⟩
  have hagree := Clause.agree_readAll (AllAlike.elements hs _ _
    (allAlike_refl registry (mergeAll part.trees))) {} {} ⟨rfl, .nil, rfl⟩
  have hread : on (Clause.readAll part.setting (elements part.setting (mergeAll part.trees))) {} =
      (.ok (), part.notes) := part.read
  rw [hread] at hagree
  have hentry := List.forall₂_same.mp hagree.2.clauses entry h
  exact ⟨hentry.kind, hentry.kind ▸ hentry.isClause⟩

/-- Parts that follow one another, put together with blanks between them, compile to what their
clauses come to. -/
theorem exists_ofText {parts : List (Part registry ceilings)}
    (hpairwise : parts.Pairwise fun p q => q.Follows p.notes.draft) {text : String}
    (htext : text.toList.map Text.straightenChar = [' '].intercalate (parts.map source)) :
    ∃ q draft, Query.ofText text registry ceilings = .ok q ∧ q.warnings = [] ∧
      draft.clauses = parts.flatMap clauses ∧ q.toJson = (Query.ofDraft draft).toJson := by
  have hpieces : List.Forall₂ (IsPiece ceilings) (parts.map source) (parts.map trees) := by
    rw [List.forall₂_map_left_iff, List.forall₂_map_right_iff, List.forall₂_same]
    exact fun part _ => part.piece
  obtain ⟨copies, hcut, halike⟩ := IsPiece.intercalate registry hpieces
  rw [← htext] at hcut
  obtain ⟨forest, hforest, hproblems, rfl⟩ := hcut.exists_forest
  have hmerged : AllAlike .all registry (parts.flatMap fun part => mergeAll part.trees)
      (mergeAll forest.trees) := by
    have h := AllAlike.mergeAll _ _ halike
    rwa [mergeAll_flatten (by simpa using fun part _ => part.anew), List.map_map] at h
  -- the parts are read one behind the other, and the trees of the joined text say the same
  let s : Setting := ⟨forest.source, registry, ceilings⟩
  obtain ⟨n, hn, hquiet, hclauses⟩ := exists_readAll s rfl rfl parts {} rfl
    (fun part _ => part.follows_empty) hpairwise
  have hs : Setting.Alike s s := ⟨rfl, rfl⟩
  have hagree := Clause.agree_readAll (AllAlike.elements hs _ _ hmerged) {} {}
    ⟨rfl, .nil, rfl⟩
  rw [elements_flatMap, hn] at hagree
  rcases hm : on (Clause.readAll s (elements s (mergeAll forest.trees))) {} with
    ⟨problem | _, m⟩ <;>
    rw [hm] at hagree
  · exact hagree.1.elim
  · obtain ⟨-, hnotes⟩ := hagree
    have hcompile : Query.ofText text registry ceilings = .ok (.ofDraft m.draft) := by
      unfold Query.ofText Reading.start
      rw [hforest]
      refine Reading.compile_of_on
        ⟨s, forest.merge, { draft := { problems := forest.problems } }⟩ ?_
      rw [hproblems]
      exact hm
    refine ⟨.ofDraft m.draft, n.draft, hcompile, ?_, by simpa using hclauses, ?_⟩
    · rw [Query.warnings_ofDraft, ← List.length_eq_zero_iff, ← hnotes.problems, hquiet]
      rfl
    · exact (Query.toJson_ofDraft_eq hnotes.clauses).symm

end Part

/-! ## Segments -/

/-- Making quotes straight does not bring up a mention of regular expressions. -/
lemma Token.mentions_of_straighten {text : List Char}
    (h : Mentions (text.map Text.straightenChar)) : Mentions text := by
  have hquotes : '\'' ∉ regexpWord ∧ '"' ∉ regexpWord := by decide
  rw [Mentions, List.map_map, List.infix_map_iff] at h
  obtain ⟨piece, hpiece, hword⟩ := h
  have hsame : ∀ c ∈ piece, (Char.toUpper ∘ Text.straightenChar) c = Char.toUpper c := by
    intro c hc
    have hmem : (Char.toUpper ∘ Text.straightenChar) c ∈ regexpWord :=
      hword ▸ List.mem_map_of_mem hc
    rw [Function.comp_apply, Text.straightenChar] at hmem ⊢
    split at hmem
    · exact absurd hmem hquotes.1
    · split at hmem
      · exact absurd hmem hquotes.2
      · simp [*]
  rw [Mentions, List.infix_map_iff]
  exact ⟨piece, hpiece, hword.trans (List.map_congr_left hsame)⟩

/-- The names that the tokens of a text are read as properties by. -/
def Query.propertyNames (text : String) (registry : Registry) (ceilings : Ceilings) : List String :=
  match Reading.start text registry ceilings with
  | .ok r =>
    (r.tokens.filter fun token => r.evaluate.2.notes.roles.contains (token.id, .property)).map
      Token.text
  | .error _ => []

/-- A text that compiles alone, without a warning, to a query of one clause, and does not mention
regular expressions. -/
structure Segment (registry : Registry) (ceilings : Ceilings) where
  text : String
  query : Query
  clause : Operator
  compiles : Query.ofText text registry ceilings = .ok query
  quiet : query.warnings = []
  single : query.clauses = [clause]
  plain : ¬ Token.Mentions text.toList

namespace Segment

variable {registry : Registry} {ceilings : Ceilings}

/-- The names that a segment reads as properties. -/
def propertyNames (segment : Segment registry ceilings) : List String :=
  Query.propertyNames segment.text registry ceilings

/-- The segment that a text is, if it is one. -/
def ofText? (text : String) (registry : Registry) (ceilings : Ceilings) :
    Option (Segment registry ceilings) :=
  match compiles : Query.ofText text registry ceilings with
  | .error _ => none
  | .ok query =>
    match single : query.clauses with
    | [clause] =>
      if h : query.warnings.isEmpty = true ∧ ¬ Token.Mentions text.toList then
        some ⟨text, query, clause, compiles, List.isEmpty_iff.mp h.1, single, h.2⟩
      else none
    | _ => none

/-- Whether two segments have nothing to do with one another: their clauses do not compete, and
neither names a property by a name that the other binds. -/
structure Independent (a b : Segment registry ceilings) : Prop where
  kinds : a.clause.kind.competes b.clause.kind = false
  names : ∀ name ∈ a.propertyNames, Table.contains b.query.aliases name = false
  names' : ∀ name ∈ b.propertyNames, Table.contains a.query.aliases name = false

instance (a b : Segment registry ceilings) : Decidable (Independent a b) :=
  decidable_of_iff (a.clause.kind.competes b.clause.kind = false ∧
      (∀ name ∈ a.propertyNames, Table.contains b.query.aliases name = false) ∧
      ∀ name ∈ b.propertyNames, Table.contains a.query.aliases name = false)
    ⟨fun ⟨kinds, names, names'⟩ => ⟨kinds, names, names'⟩,
      fun ⟨kinds, names, names'⟩ => ⟨kinds, names, names'⟩⟩

/-- What a text has that compiles: a forest, and the notes that its reading leaves. -/
lemma exists_notes (segment : Segment registry ceilings) : ∃ forest notes,
    TokenForest.ofText segment.text ceilings = .ok forest ∧
      on (Clause.readAll ⟨forest.source, registry, ceilings⟩
        (elements ⟨forest.source, registry, ceilings⟩ (mergeAll forest.trees)))
        { draft := { problems := forest.problems } } = (.ok (), notes) ∧
      segment.query = .ofDraft notes.draft ∧
      ∀ token ∈ tokensOf (mergeAll forest.trees), (token.id, .property) ∈ notes.roles →
        token.text ∈ segment.propertyNames := by
  have hcompiles := segment.compiles
  have hnames : segment.propertyNames = Query.propertyNames segment.text registry ceilings := rfl
  unfold Query.propertyNames at hnames
  unfold Query.ofText at hcompiles
  cases hforest : TokenForest.ofText segment.text ceilings with
  | error problem =>
    rw [Reading.start, hforest] at hcompiles
    cases hcompiles
  | ok forest =>
    let r : Reading := ⟨⟨forest.source, registry, ceilings⟩, forest.merge,
      { draft := { problems := forest.problems } }⟩
    have hstart : Reading.start segment.text registry ceilings = .ok r := by
      rw [Reading.start, hforest]
      rfl
    rw [hstart] at hcompiles hnames
    change r.compile (Clause.readAll r.setting r.elements) = .ok segment.query at hcompiles
    rw [Reading.compile_eq] at hcompiles
    rcases hread : on (Clause.readAll r.setting r.elements) r.notes with ⟨problem | ⟨⟩, notes⟩ <;>
      rw [hread] at hcompiles
    · cases hcompiles
    · refine ⟨forest, notes, rfl, hread, (Except.ok.inj hcompiles).symm, fun token htoken hrole =>
        ?_⟩
      have hevaluate : r.evaluate.2.notes = notes := by
        have hrun : ((Clause.readAll r.setting r.elements).run.run r.notes).run = (.ok (), notes) :=
          hread
        unfold Reading.evaluate Reading.resume
        rw [hrun]
      rw [hnames]
      refine List.mem_map_of_mem (List.mem_filter.mpr ⟨htoken, ?_⟩)
      rw [hevaluate]
      simpa using hrole

/-- What a segment has to do with the part that it is. -/
structure Is (segment : Segment registry ceilings) (part : Part registry ceilings) : Prop where
  source : part.source = segment.text.toList.map Text.straightenChar
  query : segment.query = .ofDraft part.notes.draft
  names : ∀ token ∈ reachableOf (mergeAll part.trees), (token.id, .property) ∈ part.notes.roles →
    token.text ∈ segment.propertyNames

/-- Each segment is a part. -/
lemma exists_part (segment : Segment registry ceilings) :
    ∃ part : Part registry ceilings, segment.Is part := by
  obtain ⟨forest, notes, hforest, hread, hquery, hnames⟩ := segment.exists_notes
  have hquiet : notes.draft.problems = [] := by
    rw [← Query.warnings_ofDraft, ← hquery, segment.quiet]
  have hproblems : forest.problems = [] := by
    let s : Setting := ⟨forest.source, registry, ceilings⟩
    have hs : Setting.Alike s s := ⟨rfl, rfl⟩
    have hend : Clause.atEnd [] = true := rfl
    obtain ⟨hgrows, -⟩ := Clause.carries_readAll (G := ⟨reachableOf (mergeAll forest.trees), {}⟩) hs
      hend _ _ (carries_elements hs _ (List.Subset.refl _)) _ _ hread
    exact List.prefix_nil.mp (hquiet ▸ hgrows.problems)
  rw [hproblems] at hread
  have hsource := TokenForest.source_eq hforest
  obtain ⟨hanew, hgroup⟩ := begins_of_atEnd (TokenForest.text_of_rule hforest)
    (Clause.atEnd_of_readAll hread)
  have hpiece := IsPiece.of_ofText hforest hproblems hgroup fun hmentions =>
    segment.plain (Token.mentions_of_straighten hmentions)
  rw [← hsource] at hpiece
  exact ⟨⟨forest.source, forest.trees, notes, hpiece, hanew, hread, hquiet⟩, hsource, hquery,
    fun token htoken => hnames token (reachableOf_subset _ htoken)⟩

namespace Is

variable {a b segment : Segment registry ceilings} {p q part : Part registry ceilings}

/-- The clause of a segment is the one that remains of those noted. -/
lemma remaining (h : segment.Is part) : Query.remaining part.clauses = [segment.clause] := by
  rw [← segment.single, h.query, Query.clauses_ofDraft_eq_remaining]
  rfl

/-- The clause of a segment is one. -/
lemma isClause (h : segment.Is part) : segment.clause.kind.isClause = true := by
  have hmem : segment.clause ∈ Query.remaining part.clauses := by
    rw [h.remaining]
    exact List.mem_singleton_self _
  obtain ⟨entry, hentry, heq⟩ := Query.mem_of_mem_remaining hmem
  exact heq ▸ (Part.kind_of_mem hentry).2

/-- Segments that have nothing to do with one another can be read one behind the other. -/
lemma follows (ha : a.Is p) (hb : b.Is q) (h : Independent a b) : q.Follows p.notes.draft := by
  refine ⟨fun token htoken hrole => ?_, q.quiet, fun kind hkind entry hentry => ?_⟩
  · have hfree := h.names' token.text (hb.names token htoken hrole)
    rwa [ha.query, Query.aliases_ofDraft] at hfree
  · obtain ⟨other, hother, rfl⟩ := List.mem_map.mp hkind
    have hcompatible := Query.compatible_of_remaining ha.remaining hb.remaining h.kinds entry
      hentry other hother
    rwa [Operator.Compatible, (Part.kind_of_mem hentry).1, (Part.kind_of_mem hother).1]
      at hcompatible

end Is

/-- If a segment is independent of another one, so is the other of it. -/
lemma Independent.symm {a b : Segment registry ceilings} (h : Independent a b) : Independent b a :=
  ⟨(Kind.competes_comm _ _).trans h.kinds, h.names', h.names⟩

/-- The members that the JSON forms of some segments have, in the order of their kinds. -/
def members (segments : List (Segment registry ceilings)) : Table Json :=
  Kind.clauseOrder.flatMap fun kind =>
    (segments.filter fun segment => segment.clause.kind == kind).flatMap fun segment =>
      segment.query.toJson.members?.getD []

/-- Each segment has one member. -/
lemma members_eq (segments : List (Segment registry ceilings)) :
    members segments = (Query.arranged (segments.map clause)).map Operator.entry := by
  have hmember : ∀ segment : Segment registry ceilings,
      segment.query.toJson.members?.getD [] = [segment.clause.entry] := by
    intro segment
    rw [Query.toJson_eq_ofEntries, segment.single]
    rfl
  simp only [members, Query.arranged, List.map_flatMap, List.filter_map, List.map_map, hmember,
    ← List.map_eq_flatMap]
  rfl

/-- Straightening a text with blanks straightens what is between them. -/
lemma map_straighten_intercalate (texts : List (List Char)) :
    ([' '].intercalate texts).map Text.straightenChar =
      [' '].intercalate (texts.map (List.map Text.straightenChar)) := by
  induction texts with
  | nil => rfl
  | cons text rest ih =>
    cases rest with
    | nil => rw [List.map_singleton, List.intercalate_singleton, List.intercalate_singleton]
    | cons =>
      have hblank : [' '].map Text.straightenChar = [' '] := rfl
      rw [List.intercalate_cons_cons, List.map_append, List.map_append, ih, hblank]
      simp only [List.map_cons, List.intercalate_cons_cons]

/-- Segments that have nothing to do with one another, joined by blanks in any order, compile
without a warning to a query that has the members of all of them, in the order of their kinds. -/
theorem ofText_intercalate {segments permuted : List (Segment registry ceilings)}
    (hindependent : segments.Pairwise Independent) (hperm : permuted.Perm segments) :
    ∃ q, Query.ofText (" ".intercalate (permuted.map text)) registry ceilings = .ok q ∧
      q.warnings = [] ∧ q.toJson = .object (members segments) := by
  choose part hpart using fun segment : Segment registry ceilings => segment.exists_part
  have hpairs : permuted.Pairwise Independent :=
    (hperm.pairwise_iff fun h => Independent.symm h).mpr hindependent
  have hsources : (" ".intercalate (permuted.map text)).toList.map Text.straightenChar =
      [' '].intercalate ((permuted.map part).map Part.source) := by
    have hblank : " ".toList = [' '] := rfl
    rw [String.toList_intercalate, hblank, map_straighten_intercalate, List.map_map, List.map_map,
      List.map_map]
    exact congrArg _ (List.map_congr_left fun segment _ => (hpart segment).source.symm)
  obtain ⟨q, draft, hq, hquiet, hclauses, hjson⟩ := Part.exists_ofText
    (List.pairwise_map.mpr (hpairs.imp fun {a b} hab => (hpart a).follows (hpart b) hab)) hsources
  rw [List.flatMap_map] at hclauses
  refine ⟨q, hq, hquiet, ?_⟩
  rw [hjson, Query.toJson_ofDraft_of_flatMap hclauses (fun segment _ => (hpart segment).remaining)
    (fun segment _ entry hentry => (Part.kind_of_mem hentry).2) (hpairs.imp fun hab => hab.kinds),
    members_eq]
  refine congrArg (fun clauses : List Operator => Json.object (clauses.map Operator.entry)) ?_
  have harranged : ∀ {segments : List (Segment registry ceilings)}, segments.Pairwise Independent →
      Query.InOrder (Query.arranged (segments.map clause)) ∧
        ∀ one, one ∈ Query.arranged (segments.map clause) ↔ one ∈ segments.map clause := by
    intro segments hsegments
    have hclauses : ∀ one ∈ segments.map clause, one.kind.isClause = true :=
      List.forall_mem_map.mpr fun segment _ => (hpart segment).isClause
    exact ⟨Query.inOrder_arranged hclauses
      (List.pairwise_map.mpr (hsegments.imp fun hab => hab.kinds)), Query.mem_arranged hclauses⟩
  refine (harranged hpairs).1.ext (harranged hindependent).1 fun one => ?_
  rw [(harranged hpairs).2, (harranged hindependent).2]
  exact (hperm.map clause).mem_iff

/-- A condition, a limit, and columns of which one has a name of its own. -/
theorem ofText_intercalate_sample : ∃ segments : List (Segment .empty {}),
    segments.map text = ["LIMIT 10", "WHERE size > 5", "SELECT name, COUNT(id) AS total"] ∧
      segments.Pairwise Independent ∧
      ∃ q, Query.ofText "SELECT name, COUNT(id) AS total WHERE size > 5 LIMIT 10" .empty {} =
        .ok q ∧ q.warnings = [] ∧ q.toJson = .object (members segments) := by
  have hsample : (["LIMIT 10", "WHERE size > 5", "SELECT name, COUNT(id) AS total"].mapM
      fun text => ofText? text .empty {}).any (fun segments =>
        segments.map text == ["LIMIT 10", "WHERE size > 5", "SELECT name, COUNT(id) AS total"] &&
          decide (segments.Pairwise Independent)) = true := by
    decide +kernel
  rw [Option.any_eq_true] at hsample
  obtain ⟨segments, -, hsegments⟩ := hsample
  rw [Bool.and_eq_true, beq_iff_eq, decide_eq_true_iff] at hsegments
  obtain ⟨htexts, hindependent⟩ := hsegments
  have hjoined : " ".intercalate (segments.reverse.map text) =
      "SELECT name, COUNT(id) AS total WHERE size > 5 LIMIT 10" := by
    rw [List.map_reverse, htexts]
    decide
  have hquery := ofText_intercalate hindependent segments.reverse_perm
  rw [hjoined] at hquery
  exact ⟨segments, htexts, hindependent, hquery⟩

end Segment

end RecordQuery
