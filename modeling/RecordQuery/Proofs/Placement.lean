import Mathlib.Data.List.Pairwise
import Mathlib.Logic.Relation
import RecordQuery.Proofs.Absorption
import RecordQuery.Token.Links

/-!
# Where tokens stand

The links of a token tell its place: the token whose list it stands in, its index in that list or in
the top sequence, its ancestor at the top, and its block. For the tokens that are read they agree
with the trees, and with each other. At the top, blocks cut the source where clauses begin.

The links are listed for all tokens, those included that a keyword has absorbed; these stand
nowhere. To tell that the parent of a token is the only one whose list holds it, the trees of all of
them are needed: each of them is at the top, in one list, or absorbed by one keyword.
-/

namespace RecordQuery

open scoped List

namespace TokenTree

/-! ## All trees -/

/-- The numbers of the trees in a sequence. -/
def numbers (trees : List TokenTree) : List Nat := trees.map fun tree => tree.token.id

mutual

/-- A tree and all trees in it, those that are absorbed included, in the order of their numbers. -/
def nodes : TokenTree → List TokenTree
  | ⟨token, children, absorbed⟩ =>
    ⟨token, children, absorbed⟩ :: (nodesOf children ++ nodesOf absorbed)

/-- Some trees and all trees in them, those that are absorbed included. -/
def nodesOf : List TokenTree → List TokenTree
  | [] => []
  | tree :: rest => nodes tree ++ nodesOf rest

end

mutual

/-- The tokens of a tree are those of its nodes, absorbed ones included. -/
lemma tokens_eq_nodes : (tree : TokenTree) → tree.tokens = tree.nodes.map TokenTree.token
  | ⟨token, children, absorbed⟩ => by
    rw [tokens, nodes, List.map_cons, List.map_append, tokensOf_eq_nodes children,
      tokensOf_eq_nodes absorbed]

/-- The tokens of a sequence are those of its nodes. -/
lemma tokensOf_eq_nodes : (trees : List TokenTree) →
    tokensOf trees = (nodesOf trees).map TokenTree.token
  | [] => by rw [tokensOf, nodesOf, List.map_nil]
  | tree :: rest => by
    rw [tokensOf, nodesOf, List.map_append, tokens_eq_nodes tree, tokensOf_eq_nodes rest]

end

mutual

/-- Subtrees are nodes: those that are reached through lists only. -/
lemma subtrees_subset_nodes : (tree : TokenTree) → tree.subtrees ⊆ tree.nodes
  | ⟨token, children, absorbed⟩ => by
    rw [subtrees, nodes]
    refine List.cons_subset_cons _ (List.Subset.trans (subtreesOf_subset_nodesOf children) ?_)
    exact List.subset_append_left _ _

/-- The subtrees of a sequence are nodes of it. -/
lemma subtreesOf_subset_nodesOf : (trees : List TokenTree) → subtreesOf trees ⊆ nodesOf trees
  | [] => List.Subset.refl _
  | tree :: rest => by
    rw [subtreesOf, nodesOf]
    exact List.append_subset.mpr
      ⟨List.subset_append_of_subset_left _ (subtrees_subset_nodes tree),
        List.subset_append_of_subset_right _ (subtreesOf_subset_nodesOf rest)⟩

end

mutual

/-- Every tree but the first stands in one list or is absorbed by one token. -/
lemma nodes_perm : (tree : TokenTree) →
    tree.nodes ~ tree :: tree.nodes.flatMap fun node => node.children ++ node.absorbed
  | ⟨token, children, absorbed⟩ => by
    rw [nodes, List.flatMap_cons, List.flatMap_append]
    refine List.Perm.cons _ ?_
    exact ((nodesOf_perm children).append (nodesOf_perm absorbed)).trans
      (append_append_perm _ _ _ _)

/-- Every tree stands at the top, in one list, or is absorbed by one token. -/
lemma nodesOf_perm : (trees : List TokenTree) →
    nodesOf trees ~ trees ++ (nodesOf trees).flatMap fun node => node.children ++ node.absorbed
  | [] => by simp [nodesOf]
  | tree :: rest => by
    rw [nodesOf, List.flatMap_append]
    exact ((nodes_perm tree).append (nodesOf_perm rest)).trans (append_append_perm [tree] _ _ _)

end

/-- No token stands in two places. -/
lemma nodup_places {trees : List TokenTree} (h : ((tokensOf trees).map Token.id).Nodup) :
    (numbers trees ++
      (nodesOf trees).flatMap fun node => numbers (node.children ++ node.absorbed)).Nodup := by
  rw [tokensOf_eq_nodes, List.map_map] at h
  have hperm := (nodesOf_perm trees).map (Token.id ∘ TokenTree.token)
  rw [List.map_append, List.map_flatMap] at hperm
  exact hperm.nodup_iff.mp h

/-- A token that stands in a list does not stand at the top. -/
lemma notMem_numbers_of_child {trees : List TokenTree} (h : ((tokensOf trees).map Token.id).Nodup)
    {node : TokenTree} (hnode : node ∈ nodesOf trees) {id : Nat}
    (hid : id ∈ numbers node.children) : id ∉ numbers trees := by
  intro htop
  obtain ⟨-, -, happart⟩ := List.nodup_append.mp (nodup_places h)
  refine happart id htop id (List.mem_flatMap.mpr ⟨node, hnode, ?_⟩) rfl
  rw [numbers, List.map_append]
  exact List.mem_append_left _ hid

/-- A token stands in the list of one token at most. -/
lemma eq_of_child {trees : List TokenTree} (h : ((tokensOf trees).map Token.id).Nodup)
    {a b : TokenTree} (ha : a ∈ nodesOf trees) (hb : b ∈ nodesOf trees) {id : Nat}
    (hida : id ∈ numbers a.children) (hidb : id ∈ numbers b.children) : a = b := by
  obtain ⟨-, hlists, -⟩ := List.nodup_append.mp (nodup_places h)
  obtain ⟨-, hdisjoint⟩ := List.nodup_flatMap.mp hlists
  by_contra hne
  have : Std.Symm (Function.onFun List.Disjoint fun node : TokenTree =>
      numbers (node.children ++ node.absorbed)) := ⟨fun _ _ => List.Disjoint.symm⟩
  have hapart := hdisjoint.forall ha hb hne
  have hlist : ∀ node : TokenTree,
      numbers node.children ⊆ numbers (node.children ++ node.absorbed) := by
    intro node
    rw [numbers, numbers, List.map_append]
    exact List.subset_append_left _ _
  exact hapart (hlist a hida) (hlist b hidb)

mutual

/-- The words that were absorbed in a tree were absorbed by its subtrees. -/
lemma absorptions_eq_flatMap : (tree : TokenTree) → (absorptions tree).map Prod.fst =
    tree.subtrees.flatMap fun t => numbers t.absorbed
  | ⟨token, children, absorbed⟩ => by
    rw [absorptions, subtrees, List.map_append, List.flatMap_cons,
      absorptionsOf_eq_flatMap children, List.map_map]
    rfl

/-- The words that keywords have absorbed are those whose characters go to another token. -/
lemma absorptionsOf_eq_flatMap : (trees : List TokenTree) → (absorptionsOf trees).map Prod.fst =
    (subtreesOf trees).flatMap fun t => numbers t.absorbed
  | [] => by simp [absorptionsOf, subtreesOf]
  | tree :: rest => by
    rw [absorptionsOf, subtreesOf, List.map_append, List.flatMap_append,
      absorptions_eq_flatMap tree, absorptionsOf_eq_flatMap rest]

end

/-- The tokens of a sequence are in the order of all tokens. -/
lemma map_token_sublist (trees : List TokenTree) :
    (trees.map TokenTree.token).Sublist (tokensOf trees) := by
  induction trees with
  | nil => exact List.Sublist.refl _
  | cons tree rest ih =>
    obtain ⟨token, children, absorbed⟩ := tree
    rw [tokensOf, tokens, List.map_cons]
    exact (ih.trans (List.sublist_append_right _ _)).cons_cons token

/-! ## Links of trees -/

/-- What the links of trees say of tokens and their lists. -/
def family (tree : TokenTree) : Token × List Nat := (tree.token, numbers tree.children)

end TokenTree

/-- What a link says of a token and its list. -/
def Link.family (link : Link) : Token × List Nat := (link.token, link.children)

namespace TokenTree

mutual

/-- An absorbed tree has a link for each of its nodes. -/
lemma families_looseLinks (top : Nat) : (tree : TokenTree) →
    (looseLinks top tree).map Link.family = tree.nodes.map family
  | ⟨token, children, absorbed⟩ => by
    rw [looseLinks, nodes, List.map_cons, List.map_cons, List.map_append, List.map_append,
      families_looseLinksOf top children, families_looseLinksOf top absorbed]
    rfl

/-- Absorbed trees have a link for each of their nodes. -/
lemma families_looseLinksOf (top : Nat) : (trees : List TokenTree) →
    (looseLinksOf top trees).map Link.family = (nodesOf trees).map family
  | [] => by rw [looseLinksOf, nodesOf, List.map_nil, List.map_nil]
  | tree :: rest => by
    rw [looseLinksOf, nodesOf, List.map_append, List.map_append, families_looseLinks top tree,
      families_looseLinksOf top rest]

end

mutual

/-- There is one link for each tree. -/
lemma families_links (top : Nat) (parent : Option Nat) (root siblings index : Nat) (block : Span) :
    (tree : TokenTree) →
      (links top parent root siblings index block tree).map Link.family = tree.nodes.map family
  | ⟨token, children, absorbed⟩ => by
    rw [links, nodes, List.map_cons, List.map_cons, List.map_append, List.map_append,
      families_linksOf top (some token.id) root children.length 0 block children,
      families_looseLinksOf top absorbed]
    rfl

/-- A sequence of trees has a link for each of its nodes, in one order. -/
lemma families_linksOf (top : Nat) (parent : Option Nat) (root siblings index : Nat)
    (block : Span) : (trees : List TokenTree) →
      (linksOf top parent root siblings index block trees).map Link.family =
        (nodesOf trees).map family
  | [] => by rw [linksOf, nodesOf, List.map_nil, List.map_nil]
  | tree :: rest => by
    rw [linksOf, nodesOf, List.map_append, List.map_append,
      families_links top parent root siblings index block tree,
      families_linksOf top parent root siblings (index + 1) block rest]

end

/-- The top sequence has a link for each of its nodes. -/
lemma families_topLinks (top index : Nat) {trees : List TokenTree} {blocks : List Span}
    (h : blocks.length = trees.length) :
    (topLinks top index trees blocks).map Link.family = (nodesOf trees).map family := by
  induction trees generalizing index blocks with
  | nil => rw [topLinks, nodesOf, List.map_nil, List.map_nil]; simp
  | cons tree rest ih =>
    cases blocks with
    | nil => cases h
    | cons block blocks =>
      rw [topLinks, nodesOf, List.map_append, List.map_append, families_links,
        ih (index + 1) (Nat.succ_injective h)]

@[simp] lemma length_blocks (length start : Nat) (trees : List TokenTree) :
    (blocks length start trees).length = trees.length := by
  induction trees generalizing start with
  | nil => rfl
  | cons tree rest ih => simp [blocks, ih]

/-- The links of a sequence hold those of its trees. -/
lemma links_subset_linksOf {top : Nat} {parent : Option Nat} {root siblings : Nat} {block : Span}
    {trees : List TokenTree} {tree : TokenTree} (first i : Nat) (h : trees[i]? = some tree) :
    links top parent root siblings (first + i) block tree ⊆
      linksOf top parent root siblings first block trees := by
  induction trees generalizing first i with
  | nil => cases h
  | cons head rest ih =>
    rw [linksOf]
    cases i with
    | zero =>
      obtain rfl : head = tree := by simpa using h
      exact List.subset_append_left _ _
    | succ i =>
      rw [← Nat.succ_add_eq_add_succ]
      exact List.subset_append_of_subset_right _ (ih (first + 1) i h)

/-- The links of a tree at the top are among those of the sequence. -/
lemma links_subset_topLinks {top : Nat} {trees : List TokenTree} {blocks : List Span}
    {tree : TokenTree} {block : Span} (first i : Nat) (h : trees[i]? = some tree)
    (hblock : blocks[i]? = some block) :
    links top none tree.token.id top (first + i) block tree ⊆ topLinks top first trees blocks := by
  induction trees generalizing first i blocks with
  | nil => cases h
  | cons head rest ih =>
    cases blocks with
    | nil => cases hblock
    | cons span blocks =>
      rw [topLinks]
      cases i with
      | zero =>
        obtain rfl : head = tree := by simpa using h
        obtain rfl : span = block := by simpa using hblock
        exact List.subset_append_left _ _
      | succ i =>
        rw [← Nat.succ_add_eq_add_succ]
        exact List.subset_append_of_subset_right _ (ih (first + 1) i h hblock)

/-- The link of a tree at its place. -/
def linkAt (parent : Option Nat) (root siblings index : Nat) (block : Span) (tree : TokenTree) :
    Link :=
  ⟨tree.token, parent, index, numbers tree.children, root, siblings, block⟩

/-- A tree has a link of its own among those made for it. -/
lemma linkAt_mem_links (top : Nat) (parent : Option Nat) (root siblings index : Nat) (block : Span)
    (tree : TokenTree) :
    tree.linkAt parent root siblings index block ∈
      links top parent root siblings index block tree := by
  obtain ⟨token, children, absorbed⟩ := tree
  rw [links]
  exact List.mem_cons_self

mutual

/-- The links of a tree hold those of the trees in the lists of it. -/
lemma child_mem_links {top root : Nat} {block : Span} {owner child : TokenTree} {i : Nat}
    (hchild : owner.children[i]? = some child) :
    (tree : TokenTree) → {parent : Option Nat} → {siblings index : Nat} → owner ∈ tree.subtrees →
      child.linkAt (some owner.token.id) root owner.children.length i block ∈
        links top parent root siblings index block tree
  | ⟨token, children, absorbed⟩, parent, siblings, index, howner => by
    rw [subtrees, List.mem_cons] at howner
    rw [links]
    refine List.mem_cons_of_mem _ (List.mem_append_left _ ?_)
    obtain rfl | howner := howner
    · have hsubset : links top (some token.id) root children.length (0 + i) block child ⊆
          linksOf top (some token.id) root children.length 0 block children :=
        links_subset_linksOf 0 i hchild
      rw [Nat.zero_add] at hsubset
      exact hsubset (linkAt_mem_links _ _ _ _ _ _ _)
    · exact child_mem_linksOf hchild children howner

/-- What stands in the list of a subtree has a link that names its owner and its place there. -/
lemma child_mem_linksOf {top root : Nat} {block : Span} {owner child : TokenTree} {i : Nat}
    (hchild : owner.children[i]? = some child) :
    (trees : List TokenTree) → {parent : Option Nat} → {siblings index : Nat} →
      owner ∈ subtreesOf trees →
      child.linkAt (some owner.token.id) root owner.children.length i block ∈
        linksOf top parent root siblings index block trees
  | [], _, _, _, howner => by cases howner
  | tree :: rest, parent, siblings, index, howner => by
    rw [subtreesOf, List.mem_append] at howner
    rw [linksOf, List.mem_append]
    exact howner.imp (child_mem_links hchild tree) (child_mem_linksOf hchild rest)

end

mutual

/-- From the trees in a tree, steps from lists to their owners lead to the tree. -/
lemma reflTransGen_subtrees (step : Nat → Nat → Prop) : (tree : TokenTree) →
    (∀ owner ∈ tree.subtrees, ∀ id ∈ numbers owner.children, step id owner.token.id) →
      ∀ x ∈ tree.subtrees, Relation.ReflTransGen step x.token.id tree.token.id
  | ⟨token, children, absorbed⟩, hstep => by
    rw [subtrees, List.forall_mem_cons] at hstep
    obtain ⟨hroot, hlists⟩ := hstep
    rw [subtrees, List.forall_mem_cons]
    refine ⟨.refl, fun x hx => ?_⟩
    obtain ⟨child, hchild, hreaches⟩ := reflTransGen_subtreesOf step children hlists x hx
    exact hreaches.tail (hroot _ (List.mem_map_of_mem hchild))

/-- From each subtree of a sequence, steps from lists to their owners lead to a tree of the
sequence. -/
lemma reflTransGen_subtreesOf (step : Nat → Nat → Prop) : (trees : List TokenTree) →
    (∀ owner ∈ subtreesOf trees, ∀ id ∈ numbers owner.children, step id owner.token.id) →
      ∀ x ∈ subtreesOf trees, ∃ tree ∈ trees, Relation.ReflTransGen step x.token.id tree.token.id
  | [], _ => by simp [subtreesOf]
  | tree :: rest, hstep => by
    rw [subtreesOf, List.forall_mem_append] at hstep
    rw [subtreesOf, List.forall_mem_append]
    refine ⟨fun x hx =>
      ⟨tree, List.mem_cons_self, reflTransGen_subtrees step tree hstep.1 x hx⟩, ?_⟩
    intro x hx
    obtain ⟨other, hother, hreaches⟩ := reflTransGen_subtreesOf step rest hstep.2 x hx
    exact ⟨other, List.mem_cons_of_mem _ hother, hreaches⟩

end

mutual

/-- A tree in a tree is that tree itself or stands in the list of one in it. -/
lemma eq_or_exists_owner : (tree : TokenTree) → ∀ x ∈ tree.subtrees,
    x = tree ∨ ∃ owner ∈ tree.subtrees, x ∈ owner.children
  | ⟨token, children, absorbed⟩ => by
    rw [subtrees, List.forall_mem_cons]
    refine ⟨.inl rfl, fun x hx => .inr ?_⟩
    obtain hchild | ⟨owner, howner, hx⟩ := mem_or_exists_owner children x hx
    · exact ⟨_, List.mem_cons_self, hchild⟩
    · exact ⟨owner, List.mem_cons_of_mem _ howner, hx⟩

/-- Each subtree of a sequence stands in it, or in the list of a subtree. -/
lemma mem_or_exists_owner : (trees : List TokenTree) → ∀ x ∈ subtreesOf trees,
    x ∈ trees ∨ ∃ owner ∈ subtreesOf trees, x ∈ owner.children
  | [] => by simp [subtreesOf]
  | tree :: rest => by
    rw [subtreesOf, List.forall_mem_append]
    refine ⟨fun x hx => ?_, fun x hx => ?_⟩
    · obtain rfl | ⟨owner, howner, hx⟩ := eq_or_exists_owner tree x hx
      · exact .inl List.mem_cons_self
      · exact .inr ⟨owner, List.mem_append_left _ howner, hx⟩
    · obtain hmem | ⟨owner, howner, hx⟩ := mem_or_exists_owner rest x hx
      · exact .inl (List.mem_cons_of_mem _ hmem)
      · exact .inr ⟨owner, List.mem_append_right _ howner, hx⟩

end

end TokenTree

namespace TokenForest

open TokenTree

/-! ## Links of forests -/

/-- The numbers of the tokens in the top sequence. -/
def top (forest : TokenForest) : List Nat := numbers forest.trees

/-- The sequence that a token stands in. -/
def siblings (forest : TokenForest) (link : Link) : List Nat :=
  match link.parent with
  | none => forest.top
  | some owner => (forest.links[owner]?).elim [] Link.children

/-- The token whose list a token stands in. -/
def parent? (forest : TokenForest) (id : Nat) : Option Nat := (forest.links[id]?).bind Link.parent

/-- The links of the top tokens. -/
def topLinks (forest : TokenForest) : List Link := forest.top.filterMap fun id => forest.links[id]?

/-- What a link tells of the place of its token. -/
structure IsLinked (forest : TokenForest) (link : Link) : Prop where
  /-- The token has its index in its sequence. -/
  index : (forest.siblings link)[link.index]? = some link.token.id
  /-- The length of the sequence. -/
  count : link.siblings = (forest.siblings link).length
  /-- The parent is the token whose list the token stands in. -/
  parent : ∀ id, link.parent = some id ↔
    ∃ owner ∈ forest.links, owner.token.id = id ∧ link.token.id ∈ owner.children
  /-- The tokens at the top have none. -/
  top : link.parent = none ↔ link.token.id ∈ forest.top
  /-- From parent to parent the root is reached, which is at the top and in the same block. -/
  root : Relation.ReflTransGen (fun id parent => forest.parent? id = some parent)
      link.token.id link.root ∧
    link.root ∈ forest.top ∧
    ∃ other, forest.links[link.root]? = some other ∧ other.block = link.block

variable {forest : TokenForest}

/-- The links of tokens at the top and in lists. -/
inductive Stands (forest : TokenForest) : Link → Prop
  | top {tree : TokenTree} {i : Nat} {block : Span} (place : forest.trees[i]? = some tree)
      (cut : (blocks forest.source.length 0 forest.trees)[i]? = some block) :
      Stands forest (tree.linkAt none tree.token.id forest.trees.length i block)
  | listed {tree owner child : TokenTree} {i j : Nat} {block : Span}
      (place : forest.trees[i]? = some tree)
      (cut : (blocks forest.source.length 0 forest.trees)[i]? = some block)
      (owned : owner ∈ tree.subtrees) (listed : owner.children[j]? = some child) :
      Stands forest
        (child.linkAt (some owner.token.id) tree.token.id owner.children.length j block)

/-- Where a token stands is what its link says. -/
lemma Stands.mem_links {link : Link} (h : forest.Stands link) : link ∈ forest.links := by
  cases h with
  | @top tree i block place cut =>
    have hsubset :
      TokenTree.links forest.trees.length none tree.token.id forest.trees.length (0 + i)
        block tree ⊆ forest.links := links_subset_topLinks 0 i place cut
    rw [Nat.zero_add] at hsubset
    exact hsubset (linkAt_mem_links _ _ _ _ _ _ _)
  | @listed tree owner child i j block place cut owned listed =>
    exact links_subset_topLinks 0 i place cut (child_mem_links listed tree owned)

/-- A tree at the top or in a list stands in one of the top trees, which has its block. -/
lemma exists_place {x : TokenTree} (hx : x ∈ subtreesOf forest.trees) :
    ∃ (i : Nat) (tree : TokenTree) (block : Span), forest.trees[i]? = some tree ∧
      (blocks forest.source.length 0 forest.trees)[i]? = some block ∧ x ∈ tree.subtrees := by
  obtain ⟨tree, htree, hx⟩ := mem_subtreesOf.mp hx
  obtain ⟨i, place⟩ := List.mem_iff_getElem?.mp htree
  obtain ⟨hlt, -⟩ := List.getElem?_eq_some_iff.mp place
  rw [← length_blocks forest.source.length 0 forest.trees] at hlt
  refine ⟨i, tree, _, place, List.getElem?_eq_getElem hlt, ?_⟩
  rwa [subtrees_eq, List.mem_cons]

/-- A subtree of a tree at the top is a subtree of the sequence. -/
lemma mem_subtreesOf_of_place {tree owner : TokenTree} {i : Nat}
    (place : forest.trees[i]? = some tree) (owned : owner ∈ tree.subtrees) :
    owner ∈ subtreesOf forest.trees := by
  rw [subtrees_eq, List.mem_cons] at owned
  exact mem_subtreesOf.mpr ⟨tree, List.mem_of_getElem? place, owned⟩

/-- Each tree at the top or in a list has a link there. -/
lemma exists_stands {x : TokenTree} (hx : x ∈ subtreesOf forest.trees) :
    ∃ link, forest.Stands link ∧ link.family = x.family := by
  obtain ⟨i, tree, block, place, cut, hx⟩ := exists_place hx
  obtain rfl | ⟨owner, owned, hchild⟩ := eq_or_exists_owner tree x hx
  · exact ⟨_, .top place cut, rfl⟩
  · obtain ⟨j, listed⟩ := List.mem_iff_getElem?.mp hchild
    exact ⟨_, .listed place cut owned listed, rfl⟩

/-- A forest has a link for each node in it. -/
lemma families_links (forest : TokenForest) :
    forest.links.map Link.family = (nodesOf forest.trees).map TokenTree.family :=
  families_topLinks _ _ (length_blocks _ _ _)

/-- There is one link for each token. -/
lemma tokens_links (forest : TokenForest) : forest.links.map Link.token = forest.tokens := by
  have htokens := congrArg (List.map Prod.fst) (families_links forest)
  rw [List.map_map, List.map_map] at htokens
  rw [tokens, tokensOf_eq_nodes]
  exact htokens

/-- Links are those of trees. -/
lemma exists_node {link : Link} (h : link ∈ forest.links) :
    ∃ node ∈ nodesOf forest.trees,
      node.token = link.token ∧ numbers node.children = link.children := by
  obtain ⟨node, hnode, hfamily⟩ := List.mem_map.mp
    (families_links forest ▸ List.mem_map_of_mem (f := Link.family) h)
  obtain ⟨htoken, hchildren⟩ := Prod.ext_iff.mp hfamily
  exact ⟨node, hnode, htoken, hchildren⟩

/-- Where each top tree has a link with its block, these links are found by the numbers of the
trees. -/
lemma map_filterMap_numbers {f : Nat → Option Link} {trees : List TokenTree} {blocks : List Span}
    (hlength : blocks.length = trees.length)
    (h : ∀ (i : Nat) (tree : TokenTree) (block : Span), trees[i]? = some tree →
      blocks[i]? = some block → ∃ link, f tree.token.id = some link ∧ link.token = tree.token ∧
        link.block = block) :
    ((numbers trees).filterMap f).map Link.token = trees.map TokenTree.token ∧
      ((numbers trees).filterMap f).map Link.block = blocks := by
  induction trees generalizing blocks with
  | nil =>
    obtain rfl := List.length_eq_zero_iff.mp hlength
    exact ⟨rfl, rfl⟩
  | cons tree rest ih =>
    cases blocks with
    | nil => cases hlength
    | cons block blocks =>
      obtain ⟨link, hlink, htoken, hblock⟩ := h 0 tree block rfl rfl
      obtain ⟨htokens, hblocks⟩ := ih (Nat.succ_injective hlength) fun i => h (i + 1)
      have hcons : (numbers (tree :: rest)).filterMap f = link :: (numbers rest).filterMap f :=
        List.filterMap_cons_some hlink
      rw [hcons, List.map_cons, List.map_cons, List.map_cons, htoken, hblock, htokens, hblocks]
      exact ⟨rfl, rfl⟩

section Numbered

variable (hids : forest.tokens.map Token.id = List.range forest.tokens.length)

include hids

/-- A link is found at the number of its token. -/
lemma getElem?_links {link : Link} (h : link ∈ forest.links) :
    forest.links[link.token.id]? = some link := by
  obtain ⟨i, hi⟩ := List.mem_iff_getElem?.mp h
  have hid : (forest.tokens.map Token.id)[i]? = some link.token.id := by
    rw [← tokens_links, List.map_map, List.getElem?_map, hi]
    rfl
  rw [hids] at hid
  obtain ⟨_, hid⟩ := List.getElem?_eq_some_iff.mp hid
  rw [List.getElem_range] at hid
  rw [← hid, hi]

/-- No two tokens of a forest have one number. -/
lemma nodup_numbers : ((tokensOf forest.trees).map Token.id).Nodup := by
  rw [← tokens, hids]
  exact List.nodup_range

/-- What stands in a list of a tree has that tree as its only owner, and does not stand
at the top. -/
lemma owner_of_child {owner : TokenTree} (howner : owner ∈ subtreesOf forest.trees) {id : Nat}
    (hid : id ∈ numbers owner.children) :
    id ∉ forest.top ∧
      ∀ other ∈ forest.links, id ∈ other.children → other.token.id = owner.token.id := by
  have hnodup := nodup_numbers hids
  have hnode := subtreesOf_subset_nodesOf _ howner
  refine ⟨notMem_numbers_of_child hnodup hnode hid, fun other hother hchild => ?_⟩
  obtain ⟨node, hmem, htoken, hchildren⟩ := exists_node hother
  rw [← hchildren] at hchild
  rw [← htoken, eq_of_child hnodup hmem hnode hchild hid]

/-- The parent of a token in a list is the token whose list it is. -/
lemma parent?_of_child {owner : TokenTree} (howner : owner ∈ subtreesOf forest.trees) :
    ∀ id ∈ numbers owner.children, forest.parent? id = some owner.token.id := by
  intro id hid
  obtain ⟨child, hchild, rfl⟩ := List.mem_map.mp hid
  obtain ⟨i, tree, block, place, cut, owned⟩ := exists_place howner
  obtain ⟨j, listed⟩ := List.mem_iff_getElem?.mp hchild
  have hlink := getElem?_links hids (Stands.listed place cut owned listed).mem_links
  rw [parent?]
  exact hlink ▸ rfl

/-- Links to where tokens stand lead from each to its owner and to the top. -/
lemma Stands.isLinked {link : Link} (h : forest.Stands link) : forest.IsLinked link := by
  cases h with
  | @top tree i block place cut =>
    have htop : tree.token.id ∈ forest.top := List.mem_map_of_mem (List.mem_of_getElem? place)
    exact {
      index := by
        show (numbers forest.trees)[i]? = _
        rw [numbers, List.getElem?_map, place]
        rfl
      count := (List.length_map _).symm
      parent := fun id => by
        -- a top token that stood in a list as well would have its number twice
        refine ⟨nofun, fun ⟨owner, howner, _, hchild⟩ => ?_⟩
        obtain ⟨node, hnode, -, hchildren⟩ := exists_node howner
        rw [← hchildren] at hchild
        exact absurd htop (notMem_numbers_of_child (nodup_numbers hids) hnode hchild)
      top := ⟨fun _ => htop, fun _ => rfl⟩
      root := ⟨.refl, htop, _, getElem?_links hids (Stands.top place cut).mem_links, rfl⟩ }
  | @listed tree owner child i j block place cut owned listed =>
    have htop : tree.token.id ∈ forest.top := List.mem_map_of_mem (List.mem_of_getElem? place)
    have howner := mem_subtreesOf_of_place place owned
    have hchild : child.token.id ∈ numbers owner.children :=
      List.mem_map_of_mem (List.mem_of_getElem? listed)
    obtain ⟨hnot, honly⟩ := owner_of_child hids howner hchild
    obtain ⟨link, hstands, hfamily⟩ := exists_stands howner
    have htoken : link.token = owner.token := congrArg Prod.fst hfamily
    have hchildren : link.children = numbers owner.children := congrArg Prod.snd hfamily
    have hsiblings : forest.siblings
        (child.linkAt (some owner.token.id) tree.token.id owner.children.length j block) =
          numbers owner.children := by
      have hlink := getElem?_links hids hstands.mem_links
      rw [htoken] at hlink
      show (forest.links[owner.token.id]?).elim [] Link.children = _
      rw [hlink, ← hchildren]
      rfl
    exact {
      index := by
        rw [hsiblings, numbers, List.getElem?_map]
        exact listed ▸ rfl
      count := by
        rw [hsiblings]
        exact (List.length_map _).symm
      parent := fun id => by
        constructor
        · rintro ⟨⟩
          rw [← hchildren] at hchild
          exact ⟨link, hstands.mem_links, congrArg Token.id htoken, hchild⟩
        · rintro ⟨other, hother, rfl, hlisted⟩
          exact congrArg some (honly other hother hlisted).symm
      top := ⟨nofun, fun hmem => absurd hmem hnot⟩
      root := by
        -- from owner to owner up to the top
        have hsteps := reflTransGen_subtrees (fun id parent => forest.parent? id = some parent)
          tree fun _ howner => parent?_of_child hids (mem_subtreesOf_of_place place howner)
        exact ⟨.head (parent?_of_child hids howner _ hchild) (hsteps owner owned), htop, _,
          getElem?_links hids (Stands.top place cut).mem_links, rfl⟩ }

/-- The links of the top tokens have their tokens and the blocks that the source is cut into. -/
lemma topLinks_eq :
    forest.topLinks.map Link.token = forest.trees.map TokenTree.token ∧
      forest.topLinks.map Link.block = blocks forest.source.length 0 forest.trees := by
  refine map_filterMap_numbers (length_blocks _ _ _) fun i tree block place cut => ?_
  exact ⟨_, getElem?_links hids (Stands.top place cut).mem_links, rfl, rfl⟩

end Numbered

/-! ## Blocks -/

/-- Whether the blocks of the top tokens cut a source of a length into consecutive ranges, a new one
wherever a clause begins behind the first token. -/
structure CutsSource (length start : Nat) (links : List Link) : Prop where
  first : ∀ link ∈ links.head?, link.block.start = start
  last : ∀ link ∈ links.getLast?, link.block.stop = length
  nonempty : ∀ link ∈ links, link.block.start < link.block.stop
  next : links.IsChain fun a b =>
    if b.token.isClause then a.block.stop = b.token.span.start ∧ b.block.start = b.token.span.start
    else b.block = a.block

/-- A block that begins where the others are to begin and ends where they begin is cut off before
them. -/
lemma CutsSource.cons {length start next : Nat} {a b : Link} {links : List Link}
    (h : CutsSource length next (b :: links)) (hstart : a.block.start = start)
    (hnonempty : a.block.start < a.block.stop)
    (hnext : if b.token.isClause then
      a.block.stop = b.token.span.start ∧ b.block.start = b.token.span.start
      else b.block = a.block) : CutsSource length start (a :: b :: links) where
  first := by simpa using hstart
  last := by simpa using h.last
  nonempty := List.forall_mem_cons.mpr ⟨hnonempty, h.nonempty⟩
  next := List.isChain_cons_cons.mpr ⟨hnext, h.next⟩

/-- A clause begins a block. -/
lemma blocks_cons_of_isClause (length start : Nat) (tree : TokenTree) {other : TokenTree}
    (rest : List TokenTree) (h : other.token.isClause = true) :
    blocks length start (tree :: other :: rest) =
      ⟨start, other.token.span.start⟩ :: blocks length other.token.span.start (other :: rest) := by
  conv_lhs => unfold blocks
  simp [h]

/-- Other tokens stay in the block of the token before. -/
lemma blocks_cons_of_not_isClause (length start : Nat) (tree : TokenTree) {other : TokenTree}
    (rest : List TokenTree) (h : other.token.isClause = false) :
    ∃ block more, blocks length start (other :: rest) = block :: more ∧
      blocks length start (tree :: other :: rest) = block :: block :: more := by
  refine ⟨_, _, rfl, ?_⟩
  conv_lhs => unfold blocks
  simp [h, blocks]

/-- Blocks cut the source behind the first token, where the tokens follow each other. -/
lemma cutsSource_blocks {length start : Nat} {tree : TokenTree} {trees : List TokenTree}
    {link : Link} {links : List Link}
    (htokens : (link :: links).map Link.token = (tree :: trees).map TokenTree.token)
    (hblocks : (link :: links).map Link.block = blocks length start (tree :: trees))
    (hstart : start ≤ tree.token.span.start)
    (horder : (tree :: trees).Pairwise fun a b => a.token.span.start < b.token.span.start)
    (hlength : ∀ t ∈ tree :: trees, t.token.span.start < length) :
    CutsSource length start (link :: links) := by
  induction trees generalizing start tree link links with
  | nil =>
    obtain rfl := List.map_eq_nil_iff.mp (List.cons.inj htokens).2
    have hblock : link.block = ⟨start, length⟩ := List.head_eq_of_cons_eq hblocks
    have hshort := hlength tree List.mem_cons_self
    refine ⟨by simp [hblock], by simp [hblock], List.forall_mem_singleton.mpr ?_, .singleton _⟩
    rw [hblock]
    exact hstart.trans_lt hshort
  | cons other rest ih =>
    obtain ⟨hbefore, horder⟩ := List.pairwise_cons.mp horder
    have hlt := hbefore other List.mem_cons_self
    have hlength := (List.forall_mem_cons.mp hlength).2
    cases links with
    | nil => simp at htokens
    | cons next more =>
      have htail := (List.cons.inj htokens).2
      have hnext : next.token = other.token := List.head_eq_of_cons_eq htail
      -- a clause begins a block of its own, anything else belongs to the block before it
      by_cases hclause : other.token.isClause = true
      · rw [blocks_cons_of_isClause length start tree rest hclause] at hblocks
        obtain ⟨hblock, hbehind⟩ := List.cons.inj hblocks
        have hcut := ih htail hbehind le_rfl horder hlength
        refine hcut.cons (by rw [hblock]) (by rw [hblock]; exact hstart.trans_lt hlt) ?_
        rw [hnext, if_pos hclause, hblock]
        exact ⟨rfl, hcut.first next rfl⟩
      · obtain ⟨block, behind, hrest, hall⟩ :=
          blocks_cons_of_not_isClause length start tree rest (by simpa using hclause)
        rw [hall] at hblocks
        obtain ⟨hblock, hbehind⟩ := List.cons.inj hblocks
        have hcut := ih htail (hbehind.trans hrest.symm) (hstart.trans hlt.le) horder hlength
        have hsame : next.block = link.block := (List.head_eq_of_cons_eq hbehind).trans hblock.symm
        refine hcut.cons ?_ ?_ ?_
        · rw [← hsame, hcut.first next rfl]
        · rw [← hsame]
          exact hcut.nonempty next List.mem_cons_self
        · rwa [hnext, if_neg hclause]

/-! ## Merged forests -/

/-- What merging comes to, and the links after it. -/
structure IsSettled (before after : TokenForest) : Prop where
  /-- Merging a second time changes nothing. -/
  again : after.merge = after
  /-- The top sequence has become the longest match of what it was. -/
  longest : LongestMatch before.trees after.trees
  /-- So has every list. -/
  longest_list : ∀ tree ∈ after.subtrees, ∃ origin ∈ before.subtrees,
    origin.token.id = tree.token.id ∧ LongestMatch origin.children tree.children
  /-- No keyword of several words is left in the top sequence. -/
  spelled : ∀ suffix, suffix <:+ after.trees →
    ∀ entry ∈ mergedKeywords, spells entry.1 suffix = false
  /-- None is left in a list. -/
  spelled_list : ∀ tree ∈ after.subtrees, ∀ suffix, suffix <:+ tree.children →
    ∀ entry ∈ mergedKeywords, spells entry.1 suffix = false
  /-- What keywords have absorbed stands in no sequence any more, and is as it was. -/
  absorbed : ∀ tree ∈ after.subtrees, tree.absorbed ⊆ before.subtrees
  /-- The links of tokens that are read tell their places. -/
  linked : ∀ token ∈ reachableOf after.trees,
    ∃ link, after.links[token.id]? = some link ∧ link.token = token ∧ after.IsLinked link
  /-- The links of the top tokens are those that their numbers lead to. -/
  top : after.topLinks.map Link.token = after.trees.map TokenTree.token
  /-- Their blocks cut the source. -/
  blocks : CutsSource after.source.length 0 after.topLinks
  /-- No character belongs to a word that was absorbed. -/
  slots : ∀ slot ∈ after.slots, ∀ id ∈ slot.owner?, id ∉ after.absorbedWords.map Token.id

variable {text : String} {ceilings : Ceilings}

/-- No character is owned by a word that a keyword has absorbed. -/
lemma notMem_absorbedWords (h : ofText text ceilings = .ok forest) :
    ∀ slot ∈ forest.merge.slots, ∀ id ∈ slot.owner?,
      id ∉ forest.merge.absorbedWords.map Token.id := by
  intro slot hslot id hid
  obtain ⟨old, -, rfl⟩ := List.mem_map.mp hslot
  rw [owner?_mapOwner, Option.mem_def, Option.map_eq_some_iff] at hid
  obtain ⟨owner, -, rfl⟩ := hid
  have hwords : forest.merge.absorbedWords.map Token.id =
      (absorptionsOf forest.merge.trees).map Prod.fst := by
    rw [absorbedWords, List.map_flatMap, absorptionsOf_eq_flatMap]
    simp only [List.map_map]
    rfl
  rw [hwords]
  exact newOwner_notMem (nodup_ids_merge h) owner

/-- Every token that can be reached is found under its number, linked to its owner and its block. -/
lemma linked_merge (h : ofText text ceilings = .ok forest) :
    ∀ token ∈ reachableOf forest.merge.trees, ∃ link, forest.merge.links[token.id]? = some link ∧
    link.token = token ∧
      forest.merge.IsLinked link := by
  have hids := ids_tokens_merge h
  intro token htoken
  rw [reachableOf_eq_map] at htoken
  obtain ⟨tree, htree, rfl⟩ := List.mem_map.mp htoken
  obtain ⟨link, hstands, hfamily⟩ := exists_stands htree
  have hsame : link.token = tree.token := congrArg Prod.fst hfamily
  refine ⟨link, ?_, hsame, hstands.isLinked hids⟩
  rw [← hsame]
  exact getElem?_links hids hstands.mem_links

/-- The blocks of the top sequence cut the source at the keywords of clauses, without a gap. -/
lemma cutsSource_merge (h : ofText text ceilings = .ok forest) :
    CutsSource forest.merge.source.length 0 forest.merge.topLinks := by
  obtain ⟨htokens, hblocks⟩ := topLinks_eq (ids_tokens_merge h)
  obtain ⟨-, htiled⟩ := isTiled_of_ofText h
  have hstarts : ∀ tree ∈ forest.merge.trees, tree.token.span.start < forest.source.length := by
    intro tree htree
    have hplace := List.mem_map_of_mem (f := Token.place) (mem_tokensOf htree)
    rw [← tokens, places_merge h] at hplace
    obtain ⟨token, htoken, hsame⟩ := List.mem_map.mp hplace
    have hspan := htiled.spans token htoken
    rw [← show token.span.start = tree.token.span.start from congrArg Prod.snd hsame]
    exact hspan.1.trans_le hspan.2
  have horder : forest.merge.trees.Pairwise fun a b => a.token.span.start < b.token.span.start := by
    have hsublist := (pairwise_tokens_merge h).sublist (map_token_sublist forest.merge.trees)
    exact (List.pairwise_map.mp hsublist).imp fun hab => hab.2
  cases htrees : forest.merge.trees with
  | nil =>
    rw [htrees] at htokens
    rw [List.map_eq_nil_iff.mp htokens]
    exact ⟨by simp, by simp, by simp, .nil⟩
  | cons tree rest =>
    rw [htrees] at htokens hblocks hstarts horder
    cases hlinks : forest.merge.topLinks with
    | nil => simp [hlinks] at htokens
    | cons link links =>
      rw [hlinks] at htokens hblocks
      exact cutsSource_blocks htokens hblocks (Nat.zero_le _) horder hstarts

/-- Merging once is enough, and the links after it agree with the trees and with each other. -/
theorem isSettled_merge (h : ofText text ceilings = .ok forest) :
    IsSettled forest forest.merge where
  again := merge_merge h
  longest := longestMatch_mergeAll _
  longest_list tree htree := by
    obtain ⟨origin, rest, hsubset, hmade⟩ := made forest.trees tree htree
    refine ⟨origin, hsubset List.mem_cons_self, hmade.id.symm, ?_⟩
    rw [hmade.children]
    exact longestMatch_mergeAll _
  spelled suffix hsuffix entry := spells_eq_false_of_isSuffix forest.trees hsuffix
  spelled_list tree htree suffix hsuffix entry := by
    obtain ⟨origin, rest, -, hmade⟩ := made forest.trees tree htree
    rw [hmade.children] at hsuffix
    exact spells_eq_false_of_isSuffix origin.children hsuffix
  absorbed tree htree := by
    by_cases hnone : tree.absorbed = []
    · simp [hnone]
    · exact (absorbed_merge h tree htree hnone).1
  linked := linked_merge h
  top := (topLinks_eq (ids_tokens_merge h)).1
  blocks := cutsSource_merge h
  slots := notMem_absorbedWords h

/-- Of the two words `GROUP` in the list the second becomes a keyword, and its list goes on behind
it; blocks begin with the keywords at the top. -/
theorem isSettled_merge_sample : ∃ forest,
    ofText "SELECT (GROUP GROUP BY a) ORDER BY b" {} = .ok forest ∧
      IsSettled forest forest.merge ∧
      (reachableOf forest.merge.trees).map Token.text =
        ["SELECT", "(", "GROUP", "GROUP BY", "a", "ORDER BY", "b"] ∧
      forest.merge.topLinks.map Link.block = [⟨0, 26⟩, ⟨0, 26⟩, ⟨26, 36⟩, ⟨26, 36⟩] := by
  have hsample : (ofText "SELECT (GROUP GROUP BY a) ORDER BY b" {}).toOption.any (fun forest =>
      (reachableOf forest.merge.trees).map Token.text =
          ["SELECT", "(", "GROUP", "GROUP BY", "a", "ORDER BY", "b"] ∧
        forest.merge.topLinks.map Link.block = [⟨0, 26⟩, ⟨0, 26⟩, ⟨26, 36⟩, ⟨26, 36⟩]) = true := by
    decide +kernel
  obtain ⟨forest, hread, hplaces⟩ := exists_ofText_of_any hsample
  exact ⟨forest, hread, isSettled_merge hread, of_decide_eq_true hplaces⟩

end TokenForest

end RecordQuery
