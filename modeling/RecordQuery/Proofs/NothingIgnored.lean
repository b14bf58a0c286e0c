import RecordQuery.Proofs.KeywordWalk
import RecordQuery.Proofs.Reaching
import RecordQuery.Proofs.Tiling

/-!
# What a query that is read leaves unread

When all clauses of a text have been read, every token that stands for itself has been read as
something. The one exception are parentheses that touch the first word of a keyword of several
words: in `GROUP(x) BY a` the word `GROUP` is plain and takes the list, and only then it becomes a
keyword, which has no use for one. What is in such a list is never looked at.
-/

namespace RecordQuery

/-- Whether a token is a keyword of several words. -/
def Token.isMerged (token : Token) : Bool :=
  mergedKeywords.any fun entry => token.rule == some entry.2

namespace TokenTree

mutual

/-- The tokens of a tree that no keyword of several words has absorbed, nor has in its
parentheses. -/
def readable : TokenTree → List Token
  | ⟨token, children, _⟩ => token :: if token.isMerged then [] else readableOf children

/-- The tokens of some trees that no keyword of several words has absorbed, nor has in its
parentheses. -/
def readableOf : List TokenTree → List Token
  | [] => []
  | tree :: rest => readable tree ++ readableOf rest

end

mutual

/-- What can be reached in a tree are the tokens of its subtrees. -/
lemma reachable_eq_map : (tree : TokenTree) → tree.reachable = tree.subtrees.map TokenTree.token
  | ⟨token, children, absorbed⟩ => by
    rw [reachable, subtrees, List.map_cons, reachableOf_eq_map children]

/-- The tokens that are read are those of all subtrees. -/
lemma reachableOf_eq_map : (trees : List TokenTree) →
    reachableOf trees = (subtreesOf trees).map TokenTree.token
  | [] => by rw [reachableOf, subtreesOf, List.map_nil]
  | tree :: rest => by
    rw [reachableOf, subtreesOf, List.map_append, reachable_eq_map tree, reachableOf_eq_map rest]

end

/-- What can be read of a sequence can be read of one of its trees. -/
lemma mem_readableOf {t : Token} {trees : List TokenTree} :
    t ∈ readableOf trees ↔ ∃ tree ∈ trees, t ∈ tree.readable := by
  induction trees with
  | nil => simp [readableOf]
  | cons tree rest ih => simp [readableOf, ih]

/-- Whether a tree has trees in its parentheses only where these are read. -/
def ReadsChildren (tree : TokenTree) : Prop :=
  tree.children ≠ [] → tree.token.ReadsList ∧ tree.token.hasChildren = true

/-- Whether a tree asks for all its readable tokens that stand for themselves. -/
def AsksForReadable (tree : TokenTree) : Prop := ∀ t ∈ tree.readable, t.IsBare → tree.Asks t

/-- A keyword of several words has no readable token that stands for itself. -/
lemma asksForReadable_becomeKeyword {tree : TokenTree} {trees words : List TokenTree} {kind : Kind}
    {more : Nat} (h : spelled? trees = some (kind, more)) :
    AsksForReadable (tree.becomeKeyword kind words) := by
  obtain ⟨entry, hentry, hkind⟩ : ∃ entry ∈ mergedKeywords, entry.2 = kind := by
    rw [spelled?, Option.map_eq_some_iff] at h
    obtain ⟨entry, hfind, hentry⟩ := h
    exact ⟨entry, List.mem_of_find?_eq_some hfind, congrArg Prod.fst hentry⟩
  have hmerged : (tree.becomeKeyword kind words).token.isMerged = true := by
    rw [Token.isMerged, List.any_eq_true]
    exact ⟨entry, hentry, by simp [becomeKeyword, hkind]⟩
  intro t ht hbare
  rw [becomeKeyword] at hmerged ht
  rw [readable, hmerged, if_pos rfl, List.mem_singleton] at ht
  subst ht
  obtain ⟨hrule, -⟩ := hbare
  cases hrule

mutual

/-- A merged tree asks for all tokens of it that can be read. -/
lemma asksForReadable_merge : (tree : TokenTree) → (∀ x ∈ tree.subtrees, x.ReadsChildren) →
    AsksForReadable tree.merge
  | ⟨token, children, absorbed⟩, h => by
    rw [subtrees, List.forall_mem_cons] at h
    obtain ⟨hreads, hchildren⟩ := h
    intro t ht hbare
    rw [merge_mk, readable, List.mem_cons] at ht
    rw [merge_mk]
    obtain rfl | ht := ht
    · exact .root hbare
    · split at ht
      · cases ht
      · obtain ⟨child, hchild, ht⟩ := mem_readableOf.mp ht
        have hne : children ≠ [] := by
          rintro rfl
          rw [mergeAll_nil] at hchild
          cases hchild
        obtain ⟨hlist, hhas⟩ := hreads hne
        exact .beneath hlist hhas hchild
          (asksForReadable_mergeAll children hchildren child hchild t ht hbare)

/-- With their keywords merged, trees ask for all their readable tokens. -/
lemma asksForReadable_mergeAll : (trees : List TokenTree) →
    (∀ x ∈ subtreesOf trees, x.ReadsChildren) → ∀ tree ∈ mergeAll trees, AsksForReadable tree
  | [], _ => by simp
  | tree :: rest, h => by
    rw [subtreesOf, List.forall_mem_append] at h
    have hfirst := asksForReadable_merge tree h.1
    have hrest := asksForReadable_mergeAll rest h.2
    rw [mergeAll_cons]
    split
    · rename_i hspelled
      rw [List.forall_mem_cons]
      exact ⟨asksForReadable_becomeKeyword hspelled,
        fun tree htree => hrest tree (List.mem_of_mem_drop htree)⟩
    · exact List.forall_mem_cons.mpr ⟨hfirst, hrest⟩

end

end TokenTree

open TokenTree Reader

namespace TokenForest

variable {text : String} {ceilings : Ceilings} {forest : TokenForest}

/-- A delimiter is no keyword. -/
lemma rule_of_isDelimiter (h : ofText text ceilings = .ok forest) :
    AllOf (fun t => t.isDelimiter = true → t.rule = none) forest.trees := by
  have hword : ∀ {id kind text span}, kind ≠ .delimiter →
      (Token.ofWord id kind text span).isDelimiter = true →
      (Token.ofWord id kind text span).rule = none := by
    intro id kind text span hkind hdelimiter
    unfold Token.ofWord at hdelimiter ⊢
    split at hdelimiter <;> simp [Token.isDelimiter, hkind] at hdelimiter
  refine allOf_trees h ?_ (fun id offset _ => rfl) fun t stop ht => ht
  intro lexeme _ id span t ht
  cases lexeme with
  | blank | opening | closing => cases ht
  | delimiter | block | bracketed =>
    cases ht
    exact fun _ => rfl
  | quoted quote body closed =>
    simp only [Token.ofLexeme?, Token.ofQuoted, Option.some.injEq] at ht
    subst ht
    split <;> exact fun _ => rfl
  | run kind chars =>
    cases kind <;> cases ht
    · exact hword (by simp)
    · exact hword (by simp)
    · exact fun _ => rfl

/-- Lists stand in the parentheses of tokens that read them. -/
lemma readsChildren (h : ofText text ceilings = .ok forest) :
    ∀ tree ∈ subtreesOf forest.trees, tree.ReadsChildren := by
  obtain ⟨next, htiles⟩ := exists_tiles h
  intro tree htree hne
  have hlaid := htiles.isLaid tree htree
  have hlist : tree.token.hasChildren = true := by
    by_contra hnone
    exact hne (hlaid.childless (by simpa using hnone))
  have hdelimiter : tree.token.isDelimiter = true → tree.token.rule = none := by
    refine allOf_iff_reachable _ |>.mp (rule_of_isDelimiter h) _ ?_
    rw [reachableOf_eq_map]
    exact List.mem_map_of_mem htree
  refine ⟨?_, hlist⟩
  obtain hgroup | ⟨hrule, hword⟩ | ⟨kind, hrule, hfunction⟩ := hlaid.owner hlist
  · exact .inl hgroup
  · refine .inr ⟨by simp [Token.isDelimiter, hword], fun kind hkind => ?_⟩
    rw [hrule] at hkind
    cases hkind
  · refine .inr ⟨?_, fun kind' hkind' => ?_⟩
    · by_contra hnot
      rw [hdelimiter (by simpa using hnot)] at hrule
      cases hrule
    · rw [hrule, Option.some.injEq] at hkind'
      rwa [← hkind']

end TokenForest

namespace Reading

variable {text : String} {registry : Registry} {ceilings : Ceilings}

/-- A reading begins with the trees of its text, their keywords merged. -/
lemma trees_of_start {r : Reading} (h : start text registry ceilings = .ok r) :
    ∃ forest, TokenForest.ofText text ceilings = .ok forest ∧
      r.forest.trees = mergeAll forest.trees := by
  unfold start at h
  cases hforest : TokenForest.ofText text ceilings with
  | error e =>
    rw [hforest] at h
    cases h
  | ok forest =>
    rw [hforest] at h
    cases h
    exact ⟨forest, rfl, rfl⟩

/-- The trees of a text ask for all tokens that can be read. -/
lemma asksForReadable_of_start {r : Reading} (h : start text registry ceilings = .ok r) :
    ∀ tree ∈ r.forest.trees, AsksForReadable tree := by
  obtain ⟨forest, hforest, htrees⟩ := trees_of_start h
  rw [htrees]
  exact asksForReadable_mergeAll _ (TokenForest.readsChildren hforest)

/-- Where all clauses are read, the reading of the clauses has succeeded. -/
lemma on_readAll_of_evaluate {r done : Reading} (h : r.evaluate = (true, done)) :
    ∃ u, on (Clause.readAll r.setting r.elements) r.notes = (.ok u, done.notes) := by
  unfold evaluate resume at h
  rcases hread : on (Clause.readAll r.setting r.elements) r.notes with ⟨problem | u, notes⟩
  · have hrun : ((Clause.readAll r.setting r.elements).run.run r.notes).run =
        (.error problem, notes) := hread
    rw [hrun] at h
    cases h
  · have hrun : ((Clause.readAll r.setting r.elements).run.run r.notes).run = (.ok u, notes) :=
      hread
    rw [hrun] at h
    cases h
    exact ⟨u, rfl⟩

/-- When all clauses of a text have been read, every readable token that is no keyword, no delimiter
and no group has been read as a property, a value, a name or a direction. -/
theorem role?_isSome_of_evaluate {r done : Reading}
    (hstart : start text registry ceilings = .ok r) (h : r.evaluate = (true, done)) :
    ∀ t ∈ readableOf r.forest.trees, t.rule = none → t.isDelimiter = false → t.kind ≠ .group →
      (done.notes.role? t).isSome := by
  intro t ht hrule hdelimiter hgroup
  obtain ⟨tree, htree, ht⟩ := mem_readableOf.mp ht
  have hasks := asksForReadable_of_start hstart tree htree t ht ⟨hrule, hdelimiter, hgroup⟩
  obtain ⟨u, hread⟩ := on_readAll_of_evaluate h
  refine Notes.role?_isSome_of_timesRead ?_
  rw [Clause.timesRead_of_readAll hread]
  exact Nat.add_pos_left (askedOf_pos htree hasks.pos) _

/-- A column, a function with a property in its parentheses, and a condition. -/
theorem role?_isSome_of_evaluate_sample : ∃ r done : Reading,
    start "SELECT a, COUNT(b) WHERE c = 'd'" .empty {} = .ok r ∧ r.evaluate = (true, done) ∧
      ∃ t ∈ readableOf r.forest.trees, t.text = "b" ∧ (done.notes.role? t).isSome := by
  have hsample : (start "SELECT a, COUNT(b) WHERE c = 'd'" .empty {}).toOption.any (fun r =>
      r.evaluate.1 && (readableOf r.forest.trees).any fun t =>
        t.text == "b" && t.rule == none && !t.isDelimiter && t.kind != .group) = true := by
    decide +kernel
  cases hstart : start "SELECT a, COUNT(b) WHERE c = 'd'" .empty {} with
  | error problem =>
    rw [hstart] at hsample
    cases hsample
  | ok r =>
    rw [hstart] at hsample
    simp only [Except.toOption, Option.any_some, Bool.and_eq_true, List.any_eq_true, beq_iff_eq,
      Bool.not_eq_true', bne_iff_ne] at hsample
    obtain ⟨hread, t, ht, ⟨⟨htext, hrule⟩, hdelimiter⟩, hgroup⟩ := hsample
    have heval : r.evaluate = (true, r.evaluate.2) := Prod.ext hread rfl
    exact ⟨r, r.evaluate.2, rfl, heval, t, ht, htext,
      role?_isSome_of_evaluate hstart heval t ht hrule hdelimiter hgroup⟩

/-- The word in the parentheses of the first word of `GROUP BY` is not read. -/
example : (start "SELECT a GROUP(x) BY a" .empty {}).toOption.any (fun r =>
    r.evaluate.1 && (reachableOf r.forest.trees).any fun t =>
      t.text == "x" && t.rule == none && (r.evaluate.2.notes.role? t).isNone) = true := by
  decide +kernel

end Reading

end RecordQuery
