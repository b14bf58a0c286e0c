import RecordQuery.Proofs.Concatenation
import RecordQuery.Proofs.ReadOnce

/-!
# The owners of characters in a merged forest

Merging keywords loses no token, and gives none a new number: a word that a keyword absorbs stays in
the tree of the keyword. It is not read any more, though, and its characters go to the keyword,
which is. So every character that is no space still belongs to a token, after merging as before.
-/

namespace RecordQuery

/-- What no keyword changes in its first word: the number of the token and where it begins. -/
def Token.place (token : Token) : Nat × Nat := (token.id, token.span.start)

namespace TokenTree

/-! ## Numbers of tokens -/

/-- Behind a keyword, merging goes on as if nothing stood before. -/
lemma drop_mergeAll_of_spells {words : List String} (hwords : AreLater words)
    {trees : List TokenTree} (h : spells words trees = true) :
    (mergeAll trees).drop words.length = mergeAll (trees.drop words.length) := by
  induction words generalizing trees with
  | nil => rfl
  | cons word words ih =>
    obtain ⟨hword, hrest⟩ := List.forall_mem_cons.mp hwords
    cases trees with
    | nil => cases h
    | cons tree trees =>
      rw [spells, Bool.and_eq_true] at h
      have hnone : spelled? (tree :: trees) = none := by
        obtain rfl | rfl := hword <;>
          exact spelled?_eq_none trees (Token.isWord_eq_false h.1 (by decide))
            (Token.isWord_eq_false h.1 (by decide))
      rw [mergeAll_cons, hnone, List.length_cons, List.drop_succ_cons, List.drop_succ_cons]
      exact ih hrest h.2

/-- Behind a keyword that is spelled, merging comes to the same with the words of the keyword or
without them. -/
lemma drop_mergeAll_of_spelled? {tree : TokenTree} {rest : List TokenTree} {kind : Kind}
    {more : Nat} (h : spelled? (tree :: rest) = some (kind, more)) :
    (mergeAll rest).drop more = mergeAll (rest.drop more) := by
  obtain ⟨words, hwords, hspells, rfl⟩ := words_of_spelled? h
  exact drop_mergeAll_of_spells hwords hspells

/-- Whether merging the keywords of a tree keeps all tokens, and their order. -/
def KeepsPlaces (tree : TokenTree) : Prop :=
  tree.absorbed = [] ∧ tree.merge.tokens.map Token.place = tree.tokens.map Token.place

/-- Merging a sequence keeps the places of all tokens, if each tree does so inside. -/
lemma places_mergeAll_of_keepsPlaces (trees : List TokenTree)
    (h : ∀ tree ∈ trees, KeepsPlaces tree) :
    (tokensOf (mergeAll trees)).map Token.place = (tokensOf trees).map Token.place := by
  induction hlength : trees.length using Nat.strong_induction_on generalizing trees with
  | _ length ih =>
    subst hlength
    cases trees with
    | nil => rw [mergeAll_nil]
    | cons tree rest =>
      obtain ⟨⟨habsorbed, hplaces⟩, hrest⟩ := List.forall_mem_cons.mp h
      rw [mergeAll_cons]
      cases hspelled : spelled? (tree :: rest) with
      | none =>
        rw [tokensOf, tokensOf, List.map_append, List.map_append, hplaces,
          ih rest.length (by simp) rest hrest rfl]
      | some found =>
        obtain ⟨kind, more⟩ := found
        have hbehind := ih (rest.drop more).length
          (by rw [List.length_drop, List.length_cons]; omega) (rest.drop more)
          (fun t ht => hrest t (List.mem_of_mem_drop ht)) rfl
        have hfirst : (tree.merge.becomeKeyword kind (rest.take more)).tokens.map Token.place =
            tree.tokens.map Token.place ++ (tokensOf (rest.take more)).map Token.place := by
          rw [← hplaces]
          obtain ⟨token, children, absorbed⟩ := tree
          obtain rfl : absorbed = [] := habsorbed
          simp [merge, becomeKeyword, tokens, tokensOf, Token.place]
        calc (tokensOf (tree.merge.becomeKeyword kind (rest.take more) ::
                (mergeAll rest).drop more)).map Token.place
            = tree.tokens.map Token.place ++ ((tokensOf (rest.take more)).map Token.place ++
                (tokensOf (rest.drop more)).map Token.place) := by
              rw [tokensOf, List.map_append, hfirst, drop_mergeAll_of_spelled? hspelled, hbehind,
                List.append_assoc]
          _ = (tokensOf (tree :: rest)).map Token.place := by
              rw [← List.map_append, ← tokensOf_append, List.take_append_drop, tokensOf,
                List.map_append]

mutual

/-- Where nothing is absorbed yet, merging keeps the tokens of a tree. -/
lemma keepsPlaces : (tree : TokenTree) → (∀ t ∈ tree.subtrees, t.absorbed = []) → KeepsPlaces tree
  | ⟨token, children, absorbed⟩, h => by
    rw [subtrees, List.forall_mem_cons] at h
    obtain ⟨rfl, hchildren⟩ := h
    refine ⟨rfl, ?_⟩
    rw [merge_mk, tokens, tokens, List.map_cons, List.map_cons, List.map_append, List.map_append,
      places_mergeAll_of_keepsPlaces children (keepsPlaces_of_mem children hchildren)]

/-- Merging inside the trees of a sequence keeps the places of their tokens. -/
lemma keepsPlaces_of_mem : (trees : List TokenTree) → (∀ t ∈ subtreesOf trees, t.absorbed = []) →
    ∀ tree ∈ trees, KeepsPlaces tree
  | [], _ => by simp
  | tree :: rest, h => by
    rw [subtreesOf, List.forall_mem_append] at h
    exact List.forall_mem_cons.mpr ⟨keepsPlaces tree h.1, keepsPlaces_of_mem rest h.2⟩

end

/-! ## Words that are absorbed -/

mutual

/-- What a word is absorbed by is a token of the tree that is read. -/
lemma absorbers_subset : (tree : TokenTree) →
    (absorptions tree).map Prod.snd ⊆ tree.reachable.map Token.id
  | ⟨token, children, absorbed⟩ => by
    have hchildren := absorbersOf_subset children
    intro id hid
    rw [absorptions, List.map_append, List.map_map, List.mem_append] at hid
    rw [reachable, List.map_cons, List.mem_cons]
    obtain hid | hid := hid
    · obtain ⟨word, -, rfl⟩ := List.mem_map.mp hid
      exact .inl rfl
    · exact .inr (hchildren hid)

/-- Only tokens that can be reached have absorbed words. -/
lemma absorbersOf_subset : (trees : List TokenTree) →
    (absorptionsOf trees).map Prod.snd ⊆ (reachableOf trees).map Token.id
  | [] => List.Subset.refl _
  | tree :: rest => by
    rw [absorptionsOf, reachableOf, List.map_append, List.map_append]
    exact List.append_subset.mpr
      ⟨List.subset_append_of_subset_left _ (absorbers_subset tree),
        List.subset_append_of_subset_right _ (absorbersOf_subset rest)⟩

end

/-- The token that has absorbed a word can be reached. -/
lemma mem_reachable_of_lookup {trees : List TokenTree} {id owner : Nat}
    (h : List.lookup id (absorptionsOf trees) = some owner) :
    owner ∈ (reachableOf trees).map Token.id := by
  obtain ⟨before, behind, habsorbed, -⟩ := List.lookup_eq_some_iff.mp h
  have hmem : (id, owner) ∈ absorptionsOf trees := by simp [habsorbed]
  exact absorbersOf_subset trees (List.mem_map_of_mem hmem)

mutual

/-- What a tree has absorbed are tokens of it. -/
lemma absorptions_subset : (tree : TokenTree) →
    (absorptions tree).map Prod.fst ⊆ tree.tokens.map Token.id
  | ⟨token, children, absorbed⟩ => by
    have hchildren := absorptionsOf_subset children
    intro id hid
    rw [absorptions, List.map_append, List.map_map, List.mem_append] at hid
    rw [tokens, List.map_cons, List.map_append]
    refine List.mem_cons_of_mem _ (List.mem_append.mpr ?_)
    rcases hid with hid | hid
    · obtain ⟨word, hword, rfl⟩ := List.mem_map.mp hid
      exact .inr (List.mem_map_of_mem (mem_tokensOf hword))
    · exact .inl (hchildren hid)

/-- Absorbed words are tokens of the sequence. -/
lemma absorptionsOf_subset : (trees : List TokenTree) →
    (absorptionsOf trees).map Prod.fst ⊆ (tokensOf trees).map Token.id
  | [] => List.Subset.refl _
  | tree :: rest => by
    rw [absorptionsOf, tokensOf, List.map_append, List.map_append]
    exact List.append_subset.mpr
      ⟨List.subset_append_of_subset_left _ (absorptions_subset tree),
        List.subset_append_of_subset_right _ (absorptionsOf_subset rest)⟩

end

mutual

/-- No token that is read has been absorbed. -/
lemma not_absorbed : (tree : TokenTree) → (tree.tokens.map Token.id).Nodup →
    ∀ t ∈ tree.reachable, t.id ∉ (absorptions tree).map Prod.fst
  | ⟨token, children, absorbed⟩, hnodup => by
    rw [tokens, List.map_cons, List.map_append, List.nodup_cons] at hnodup
    obtain ⟨htoken, hrest⟩ := hnodup
    obtain ⟨hchildren, -, hapart⟩ := List.nodup_append.mp hrest
    have hwords : (absorbed.map fun word => (word.token.id, token.id)).map Prod.fst ⊆
        (tokensOf absorbed).map Token.id := by
      intro id hid
      rw [List.map_map] at hid
      obtain ⟨word, hword, rfl⟩ := List.mem_map.mp hid
      exact List.mem_map_of_mem (mem_tokensOf hword)
    have hlists := absorptionsOf_subset children
    rw [reachable, absorptions, List.map_append]
    intro t ht hid
    rcases List.mem_cons.mp ht with rfl | ht
    · refine htoken (List.mem_append.mpr ?_)
      exact (List.mem_append.mp hid).elim (fun hid => .inr (hwords hid)) fun hid =>
        .inl (hlists hid)
    · rcases List.mem_append.mp hid with hid | hid
      · exact hapart _ (List.mem_map_of_mem (reachableOf_subset children ht)) _ (hwords hid) rfl
      · exact not_absorbedOf children hchildren t ht hid

/-- No token that can be reached has been absorbed. -/
lemma not_absorbedOf : (trees : List TokenTree) → ((tokensOf trees).map Token.id).Nodup →
    ∀ t ∈ reachableOf trees, t.id ∉ (absorptionsOf trees).map Prod.fst
  | [], _ => by simp [reachableOf]
  | tree :: rest, hnodup => by
    rw [tokensOf, List.map_append] at hnodup
    obtain ⟨htree, hrest, hapart⟩ := List.nodup_append.mp hnodup
    rw [reachableOf, absorptionsOf, List.map_append]
    intro t ht hid
    rcases List.mem_append.mp ht with ht | ht <;> rcases List.mem_append.mp hid with hid | hid
    · exact not_absorbed tree htree t ht hid
    · exact hapart _ (List.mem_map_of_mem (reachable_subset tree ht)) _
        (absorptionsOf_subset rest hid) rfl
    · exact hapart _ (absorptions_subset tree hid) _
        (List.mem_map_of_mem (reachableOf_subset rest ht)) rfl
    · exact not_absorbedOf rest hrest t ht hid

end

/-- What owns the characters of a token once keywords have absorbed words. -/
def newOwner (trees : List TokenTree) (id : Nat) : Nat :=
  (List.lookup id (absorptionsOf trees)).getD id

/-- What was not absorbed keeps its number. -/
lemma newOwner_of_notMem {trees : List TokenTree} {id : Nat}
    (h : id ∉ (absorptionsOf trees).map Prod.fst) : newOwner trees id = id := by
  have hnone : List.lookup id (absorptionsOf trees) = none := by
    rw [List.lookup_eq_none_iff]
    intro entry hentry
    rw [bne_iff_ne]
    rintro rfl
    exact h (List.mem_map_of_mem hentry)
  rw [newOwner, hnone]
  rfl

/-- No word that has been absorbed owns a character. -/
lemma newOwner_notMem {trees : List TokenTree} (hnodup : ((tokensOf trees).map Token.id).Nodup)
    (id : Nat) : newOwner trees id ∉ (absorptionsOf trees).map Prod.fst := by
  by_cases hmem : id ∈ (absorptionsOf trees).map Prod.fst
  · cases hlookup : List.lookup id (absorptionsOf trees) with
    | none =>
      rw [List.lookup_eq_none_iff] at hlookup
      obtain ⟨entry, hentry, rfl⟩ := List.mem_map.mp hmem
      simpa using hlookup entry hentry
    | some owner =>
      obtain ⟨t, ht, rfl⟩ := List.mem_map.mp (mem_reachable_of_lookup hlookup)
      rw [newOwner, hlookup]
      exact not_absorbedOf trees hnodup t ht
  · rwa [newOwner_of_notMem hmem]

/-- The token that has absorbed a word has not been absorbed itself. -/
lemma newOwner_newOwner {trees : List TokenTree} (hnodup : ((tokensOf trees).map Token.id).Nodup)
    (id : Nat) : newOwner trees (newOwner trees id) = newOwner trees id :=
  newOwner_of_notMem (newOwner_notMem hnodup id)

end TokenTree

/-! ## Owners -/

namespace TokenForest

variable {text : String} {ceilings : Ceilings} {forest : TokenForest}

/-- Merging keeps all tokens, their order and where they begin. -/
lemma places_merge (h : ofText text ceilings = .ok forest) :
    forest.merge.tokens.map Token.place = forest.tokens.map Token.place := by
  obtain ⟨next, htiles⟩ := exists_tiles h
  refine TokenTree.places_mergeAll_of_keepsPlaces forest.trees (TokenTree.keepsPlaces_of_mem _ ?_)
  exact fun tree htree => (htiles.isLaid tree htree).absorbed

/-- Merging keeps the numbers of all tokens. -/
lemma ids_merge (h : ofText text ceilings = .ok forest) :
    forest.merge.tokens.map Token.id = forest.tokens.map Token.id := by
  have hids := congrArg (List.map Prod.fst) (places_merge h)
  rwa [List.map_map, List.map_map] at hids

/-- The characters of a token that is read go to no other one. -/
lemma owner_of_reachable (h : ofText text ceilings = .ok forest) {t : Token}
    (ht : t ∈ TokenTree.reachableOf (TokenTree.mergeAll forest.trees)) :
    (List.lookup t.id (TokenTree.absorptionsOf (TokenTree.mergeAll forest.trees))).getD t.id =
    t.id :=
  TokenTree.newOwner_of_notMem (TokenTree.not_absorbedOf _ (nodup_ids_merge h) t ht)

/-- Renaming owners renames the owner of a slot. -/
lemma owner?_mapOwner (f : Nat → Nat) (slot : Slot) :
    (slot.mapOwner f).owner? = slot.owner?.map f := by
  cases slot <;> rfl

/-- The owner of a slot is the token that owns it. -/
lemma owner?_eq_some_of_owns {source : List Char} {tree : TokenTree} {offset : Nat} {slot : Slot}
    (h : tree.Owns source offset slot) : slot.owner? = some tree.token.id := by
  obtain ⟨rfl, -⟩ | ⟨rfl, -⟩ | ⟨rfl, -⟩ := h <;> rfl

/-- Before keywords are merged, a character that is no space belongs to a token. -/
lemma exists_owner_of_ofText (h : ofText text ceilings = .ok forest) {offset : Nat} {slot : Slot}
    (hslot : forest.slots[offset]? = some slot) (hspace : slot ≠ .space) :
    ∃ token ∈ forest.tokens, slot.owner? = some token.id := by
  obtain ⟨next, htiles⟩ := exists_tiles h
  obtain ⟨tree, htree, howns⟩ := (htiles.owner_iff offset hspace).mp hslot
  refine ⟨tree.token, ?_, owner?_eq_some_of_owns howns⟩
  rw [tokens, htiles.tokensOf_eq]
  exact List.mem_map_of_mem htree

/-- And so it does after they are merged. -/
lemma exists_owner (h : ofText text ceilings = .ok forest) {offset : Nat} {slot : Slot}
    (hslot : forest.merge.slots[offset]? = some slot) (hspace : slot ≠ .space) :
    ∃ token ∈ forest.merge.tokens, slot.owner? = some token.id := by
  rw [merge, List.getElem?_map, Option.map_eq_some_iff] at hslot
  obtain ⟨before, hbefore, rfl⟩ := hslot
  obtain ⟨token, htoken, howner⟩ :=
    exists_owner_of_ofText h hbefore (by rintro rfl; exact hspace rfl)
  set absorbed := TokenTree.absorptionsOf (TokenTree.mergeAll forest.trees)
  have hid : (List.lookup token.id absorbed).getD token.id ∈ forest.merge.tokens.map Token.id := by
    cases hlookup : List.lookup token.id absorbed with
    | none =>
      rw [ids_merge h]
      exact List.mem_map_of_mem htoken
    | some head =>
      exact List.map_subset _ (TokenTree.reachableOf_subset _)
        (TokenTree.mem_reachable_of_lookup hlookup)
  obtain ⟨owner, howned, hsame⟩ := List.mem_map.mp hid
  refine ⟨owner, howned, ?_⟩
  rw [owner?_mapOwner, howner, hsame]
  rfl

end TokenForest

end RecordQuery
