import RecordQuery.Proofs.KeywordWalk
import RecordQuery.Proofs.Tiling

/-!
# Trees inside trees

A sequence of trees takes up a stretch of the source: each tree, with the list in its parentheses,
begins where the one before it has ended or later, and what is in its parentheses takes up a part of
its own stretch, behind its first character. `TokenTree.NestedIn` says so for a sequence and for all
sequences beneath it.

Tilings are nested in this way, and stay so when keywords of several words are merged. A merged
keyword reaches to the end of its last word, so it takes up no more than its words did; that the
trees left of a sequence begin behind them is what the induction has to carry, for any number of
trees that are dropped.
-/

namespace RecordQuery

/-- A token with its list ends where the later of the two ends. -/
lemma Token.stop_fullSpan_eq (token : Token) :
    token.fullSpan.stop = max (token.childrenEnd.getD 0) token.span.stop := by
  unfold fullSpan
  cases token.childrenEnd <;> simp

/-- A token starts where it starts without its list. -/
lemma Token.start_fullSpan (token : Token) : token.fullSpan.start = token.span.start := by
  unfold fullSpan
  cases token.childrenEnd <;> rfl

namespace TokenTree

mutual

/-- Whether what is in the parentheses of a tree lies behind its first character and before the end
of its list, and so on beneath. The words it has absorbed need only hold a character each. -/
def IsNested : TokenTree → Prop
  | ⟨token, children, absorbed⟩ =>
    token.span.start < token.span.stop ∧
      NestedIn (token.span.start + 1) token.fullSpan.stop children ∧
        ∀ t ∈ tokensOf absorbed, t.span.start < t.span.stop

/-- Whether the trees of a sequence lie one behind the other from an offset on and before another,
and are nested themselves. -/
def NestedIn (lo hi : Nat) : List TokenTree → Prop
  | [] => lo ≤ hi
  | tree :: rest =>
    lo ≤ tree.token.span.start ∧ IsNested tree ∧ NestedIn tree.token.fullSpan.stop hi rest

end

/-- A nested tree has a token that is not empty. -/
lemma IsNested.nonempty {tree : TokenTree} (h : tree.IsNested) :
    tree.token.span.start < tree.token.span.stop := by
  obtain ⟨token, children, absorbed⟩ := tree
  rw [IsNested] at h
  exact h.1

/-- A nested tree ends behind its start. -/
lemma IsNested.start_lt {tree : TokenTree} (h : tree.IsNested) :
    tree.token.span.start < tree.token.fullSpan.stop :=
  h.nonempty.trans_le tree.token.stop_span_le_fullSpan

/-- A nested sequence is so in a longer stretch. -/
lemma NestedIn.mono {lo lo' hi hi' : Nat} {trees : List TokenTree} (h : NestedIn lo hi trees)
    (hlo : lo' ≤ lo) (hhi : hi ≤ hi') : NestedIn lo' hi' trees := by
  induction trees generalizing lo lo' with
  | nil =>
    rw [NestedIn] at h ⊢
    omega
  | cons tree rest ih =>
    rw [NestedIn] at h ⊢
    exact ⟨hlo.trans h.1, h.2.1, ih h.2.2 le_rfl⟩

/-- A stretch with a nested sequence does not end before it starts. -/
lemma NestedIn.le {lo hi : Nat} {trees : List TokenTree} (h : NestedIn lo hi trees) : lo ≤ hi := by
  induction trees generalizing lo with
  | nil =>
    rw [NestedIn] at h
    exact h
  | cons tree rest ih =>
    rw [NestedIn] at h
    have := ih h.2.2
    have := h.2.1.start_lt
    omega

/-- Sequences are nested one behind the other if there is a place between them. -/
lemma nestedIn_append {as bs : List TokenTree} {lo hi : Nat} :
    NestedIn lo hi (as ++ bs) ↔ ∃ mid, NestedIn lo mid as ∧ NestedIn mid hi bs := by
  induction as generalizing lo with
  | nil =>
    constructor
    · exact fun h => ⟨lo, by rw [NestedIn], h⟩
    · rintro ⟨mid, hmid, h⟩
      rw [NestedIn] at hmid
      exact h.mono hmid le_rfl
  | cons tree rest ih =>
    simp only [List.cons_append, NestedIn, ih]
    constructor
    · rintro ⟨hlo, htree, mid, hrest, hbs⟩
      exact ⟨mid, ⟨hlo, htree, hrest⟩, hbs⟩
    · rintro ⟨mid, ⟨hlo, htree, hrest⟩, hbs⟩
      exact ⟨hlo, htree, mid, hrest, hbs⟩

/-- A sequence of one tree is nested if the tree is, and lies in the stretch. -/
lemma nestedIn_singleton {tree : TokenTree} {lo hi : Nat} :
    NestedIn lo hi [tree] ↔
      lo ≤ tree.token.span.start ∧ tree.IsNested ∧ tree.token.fullSpan.stop ≤ hi := by
  rw [NestedIn, NestedIn]

/-- The leaf of a token that holds a character. -/
lemma isNested_leaf {token : Token} (h : token.span.start < token.span.stop) :
    IsNested ⟨token, [], []⟩ := by
  rw [IsNested, NestedIn]
  exact ⟨h, h.trans_le token.stop_span_le_fullSpan, by simp [tokensOf]⟩

/-- A token with the list that opens behind its first character. -/
lemma isNested_list {token : Token} {children : List TokenTree} {lo hi stop : Nat}
    (h : token.span.start < token.span.stop) (hlo : token.span.start < lo) (hhi : hi ≤ stop)
    (hchildren : NestedIn lo hi children) : IsNested ⟨token.withList stop, children, []⟩ := by
  rw [IsNested]
  refine ⟨h, hchildren.mono hlo ?_, by simp [tokensOf]⟩
  rw [Token.stop_fullSpan_withList]
  omega

/-- What a tiling comes to is nested. -/
lemma nestedIn_of_tiles {source : List Char} {start stop first next : Nat} {trees : List TokenTree}
    {slots : List Slot} (h : Tiles source start stop first next trees slots) :
    NestedIn start stop trees := by
  induction h with
  | nil => rw [NestedIn]
  | blank _ _ _ ih => exact ih.mono le_rfl (Nat.le_succ _)
  | @token _ stop _ _ _ _ token _ _ starts nonempty _ _ childless ih =>
    refine nestedIn_append.mpr
      ⟨stop, ih, nestedIn_singleton.mpr ⟨starts.ge, isNested_leaf nonempty, ?_⟩⟩
    rw [Token.fullSpan_of_childless childless]
  | @claimed start stop _ _ stop' _ trees _ _ _ owner closed before _ _ inner _ ih ih' =>
    obtain ⟨mid, htrees, howner⟩ := nestedIn_append.mp ih
    obtain ⟨hmid, hleaf, hstop⟩ := nestedIn_singleton.mp howner
    have hspan := owner.stop_span_le_fullSpan
    have hnonempty : owner.span.start < owner.span.stop := hleaf.nonempty
    have hle := inner.le
    have hstop' : owner.fullSpan.stop ≤ stop := hstop
    refine nestedIn_append.mpr ⟨mid, htrees, nestedIn_singleton.mpr ⟨hmid, ?_, ?_⟩⟩
    · exact isNested_list hnonempty (by omega) (Nat.le_add_right _ _) ih'
    · rw [Token.stop_fullSpan_withList]
      omega
  | @group start stop _ next stop' _ _ _ _ _ closed before _ inner _ ih ih' =>
    have hle := inner.le
    refine nestedIn_append.mpr ⟨stop, ih, nestedIn_singleton.mpr ⟨le_rfl, ?_, ?_⟩⟩
    · exact isNested_list (Nat.lt_succ_self stop) (Nat.lt_succ_self stop) (Nat.le_add_right _ _) ih'
    · rw [Token.stop_fullSpan_withList]
      show max _ (stop + 1) ≤ _
      omega

mutual

/-- Every token of a nested tree holds a character, those included that a keyword has absorbed. -/
lemma nonempty_of_isNested : (tree : TokenTree) → tree.IsNested →
    ∀ t ∈ tree.tokens, t.span.start < t.span.stop
  | ⟨token, children, absorbed⟩, h => by
    rw [IsNested] at h
    rw [tokens, List.forall_mem_cons, List.forall_mem_append]
    exact ⟨h.1, nonempty_of_nestedIn children h.2.1, h.2.2⟩

/-- No token of a nested sequence is empty. -/
lemma nonempty_of_nestedIn : (trees : List TokenTree) → {lo hi : Nat} → NestedIn lo hi trees →
    ∀ t ∈ tokensOf trees, t.span.start < t.span.stop
  | [], _, _, _ => by simp [tokensOf]
  | tree :: rest, _, _, h => by
    rw [NestedIn] at h
    rw [tokensOf, List.forall_mem_append]
    exact ⟨nonempty_of_isNested tree h.2.1, nonempty_of_nestedIn rest h.2.2⟩

end

/-! ## Merging -/

/-- Where a sequence that begins at an offset or later has ended. -/
def stopOf (lo : Nat) : List TokenTree → Nat
  | [] => lo
  | tree :: rest => stopOf tree.token.fullSpan.stop rest

/-- The end of a sequence in two parts is the end of the second, from where the first ends. -/
lemma stopOf_append (lo : Nat) (as bs : List TokenTree) :
    stopOf lo (as ++ bs) = stopOf (stopOf lo as) bs := by
  induction as generalizing lo with
  | nil => rfl
  | cons tree rest ih => exact ih tree.token.fullSpan.stop

/-- The first part of a sequence ends before the others begin. -/
lemma NestedIn.stopOf {lo hi : Nat} {as bs : List TokenTree} (h : NestedIn lo hi (as ++ bs)) :
    NestedIn lo (stopOf lo as) as ∧ NestedIn (TokenTree.stopOf lo as) hi bs := by
  induction as generalizing lo with
  | nil =>
    refine ⟨?_, h⟩
    rw [NestedIn]
    rfl
  | cons tree rest ih =>
    rw [List.cons_append, NestedIn] at h
    obtain ⟨hrest, hbs⟩ := ih h.2.2
    rw [NestedIn]
    exact ⟨⟨h.1, h.2.1, hrest⟩, hbs⟩

/-- Further trees of a nested sequence end no earlier. -/
lemma stopOf_take_le {lo hi : Nat} {trees : List TokenTree} (h : NestedIn lo hi trees) (a b : Nat) :
    stopOf lo (trees.take a) ≤ stopOf lo (trees.take (a + b)) := by
  rw [List.take_add, stopOf_append]
  have hsplit := h
  rw [← List.take_append_drop a trees] at hsplit
  have hrest := hsplit.stopOf.2
  rw [← List.take_append_drop b (trees.drop a)] at hrest
  exact hrest.stopOf.1.le

/-- Where the text of a keyword ends that has absorbed some words. -/
lemma stop_span_becomeKeyword (tree : TokenTree) (kind : Kind) (words : List TokenTree) {hi : Nat}
    (h : NestedIn tree.token.fullSpan.stop hi words) :
    tree.token.span.stop ≤ (tree.becomeKeyword kind words).token.span.stop ∧
      (tree.becomeKeyword kind words).token.span.stop ≤ stopOf tree.token.fullSpan.stop words := by
  have hspan := tree.token.stop_span_le_fullSpan
  obtain rfl | ⟨init, last, rfl⟩ := List.eq_nil_or_concat words
  · exact ⟨le_rfl, hspan⟩
  · rw [List.concat_eq_append] at h ⊢
    obtain ⟨mid, hinit, hlast⟩ := nestedIn_append.mp h
    obtain ⟨hmid, hlast, -⟩ := nestedIn_singleton.mp hlast
    have hle := hinit.le
    have hnonempty := hlast.nonempty
    have hstop :
        (tree.becomeKeyword kind (init ++ [last])).token.span.stop = last.token.span.stop := by
      simp [becomeKeyword]
    rw [hstop, stopOf_append]
    exact ⟨by omega, last.token.stop_span_le_fullSpan⟩

/-- A keyword takes up no more than its words and the list of its first word. -/
lemma isNested_becomeKeyword {tree : TokenTree} {words : List TokenTree} {hi : Nat} (kind : Kind)
    (htree : tree.IsNested) (h : NestedIn tree.token.fullSpan.stop hi words) :
    (tree.becomeKeyword kind words).IsNested ∧
      (tree.becomeKeyword kind words).token.fullSpan.stop ≤
        stopOf tree.token.fullSpan.stop words := by
  obtain ⟨hmore, hless⟩ := stop_span_becomeKeyword tree kind words h
  have hnonempty := htree.nonempty
  have hwords := nonempty_of_nestedIn words h
  have hle : tree.token.fullSpan.stop ≤ stopOf tree.token.fullSpan.stop words := by
    rw [← List.append_nil words] at h
    exact h.stopOf.1.le
  have hfull := (tree.becomeKeyword kind words).token.stop_fullSpan_eq
  have hlist : (tree.becomeKeyword kind words).token.childrenEnd = tree.token.childrenEnd := rfl
  have hbefore := tree.token.stop_fullSpan_eq
  rw [hlist] at hfull
  refine ⟨?_, by omega⟩
  obtain ⟨token, children, absorbed⟩ := tree
  rw [IsNested] at htree
  rw [becomeKeyword, IsNested]
  refine ⟨hnonempty.trans_le hmore, htree.2.1.mono le_rfl ?_, hwords⟩
  refine hbefore.trans_le (le_trans ?_ hfull.ge)
  exact Nat.max_le.mpr ⟨Nat.le_max_left _ _, hmore.trans (Nat.le_max_right _ _)⟩

@[simp] lemma token_merge (tree : TokenTree) : tree.merge.token = tree.token := by
  obtain ⟨token, children, absorbed⟩ := tree
  rw [merge]

mutual

/-- Merging keeps a tree nested. -/
lemma isNested_merge : (tree : TokenTree) → tree.IsNested → tree.merge.IsNested
  | ⟨token, children, absorbed⟩, h => by
    rw [IsNested] at h
    rw [merge_mk, IsNested]
    exact ⟨h.1, nestedIn_mergeAll children 0 h.2.1, h.2.2⟩

/-- What is left of a merged sequence when so many of its trees are dropped is nested behind as many
trees of the sequence itself. -/
lemma nestedIn_mergeAll : (trees : List TokenTree) → (dropped : Nat) → {lo hi : Nat} →
    NestedIn lo hi trees →
      NestedIn (stopOf lo (trees.take dropped)) hi ((mergeAll trees).drop dropped)
  | [], dropped, lo, hi, h => by
    simpa [stopOf] using h
  | tree :: rest, 0, lo, hi, h => by
    rw [NestedIn] at h
    obtain ⟨hlo, htree, hrest⟩ := h
    rw [List.take_zero, stopOf, List.drop_zero, mergeAll_cons]
    have hmerged := isNested_merge tree htree
    have htoken : tree.merge.token = tree.token := token_merge tree
    split
    · rename_i kind more _
      have hwords :
        NestedIn tree.token.fullSpan.stop (stopOf tree.token.fullSpan.stop (rest.take more))
          (rest.take more) := by
        rw [← List.take_append_drop more rest] at hrest
        exact hrest.stopOf.1
      rw [← htoken] at hwords
      obtain ⟨hnested, hstop⟩ := isNested_becomeKeyword kind hmerged hwords
      rw [NestedIn]
      refine ⟨?_, hnested, (nestedIn_mergeAll rest more hrest).mono ?_ le_rfl⟩
      · exact hlo.trans_eq (congrArg (fun t => t.span.start) htoken).symm
      · exact hstop.trans_eq (by rw [htoken])
    · rw [NestedIn, htoken]
      exact ⟨hlo, hmerged, nestedIn_mergeAll rest 0 hrest⟩
  | tree :: rest, dropped + 1, lo, hi, h => by
    rw [NestedIn] at h
    obtain ⟨hlo, htree, hrest⟩ := h
    rw [List.take_succ_cons, stopOf, mergeAll_cons]
    split
    · rename_i kind more _
      rw [List.drop_succ_cons, List.drop_drop, Nat.add_comm]
      exact (nestedIn_mergeAll rest (dropped + more) hrest).mono
        (stopOf_take_le hrest dropped more) le_rfl
    · exact nestedIn_mergeAll rest dropped hrest

end

end TokenTree

end RecordQuery
