import RecordQuery.Token.Merge

/-!
# Links between tokens

The tree of tokens, told from the side of a single token: the token whose parentheses it stands in,
its place in its sequence, its ancestor at the top level, and the block of the source it lies in.

A block reaches from one clause keyword at the top level to the next; the first block begins with
the source, whatever stands there, and the last one ends with it.
-/

namespace RecordQuery

/-- Where a token stands. -/
structure Link where
  token : Token
  /-- The token whose parentheses it stands in. -/
  parent : Option Nat
  /-- Its place in its sequence. -/
  index : Nat
  /-- The tokens in its own parentheses. -/
  children : List Nat
  /-- Its ancestor at the top level. -/
  root : Nat
  /-- The number of tokens in its sequence. -/
  siblings : Nat
  /-- The block of the source it lies in. -/
  block : Span
deriving DecidableEq

namespace TokenTree

/-- The blocks that the trees of a top-level sequence lie in, given where the first block begins. -/
def blocks (length : Nat) : (start : Nat) → List TokenTree → List Span
  | _, [] => []
  | start, _ :: rest =>
    let stop := match rest.find? fun tree => tree.token.isClause with
      | some next => next.token.span.start
      | none => length
    let next := match rest with
      | tree :: _ => if tree.token.isClause then tree.token.span.start else start
      | [] => start
    ⟨start, stop⟩ :: blocks length next rest

mutual

/-- The links of tokens that stand at no place in the tree. -/
def looseLinks (top : Nat) : TokenTree → List Link
  | ⟨token, children, absorbed⟩ =>
    ⟨token, none, 0, children.map fun child => child.token.id, token.id, top, ⟨0, 0⟩⟩ ::
      (looseLinksOf top children ++ looseLinksOf top absorbed)

/-- The links of tokens in trees that stand at no place in the tree. -/
def looseLinksOf (top : Nat) : List TokenTree → List Link
  | [] => []
  | tree :: rest => looseLinks top tree ++ looseLinksOf top rest

end

mutual

/-- The links of the tokens of a tree, given the place of its root. -/
def links (top : Nat) (parent : Option Nat) (root siblings index : Nat) (block : Span) :
    TokenTree → List Link
  | ⟨token, children, absorbed⟩ =>
    ⟨token, parent, index, children.map fun child => child.token.id, root, siblings, block⟩ ::
      (linksOf top (some token.id) root children.length 0 block children ++
        looseLinksOf top absorbed)

/-- The links of the tokens of a sequence inside parentheses, from an index on. -/
def linksOf (top : Nat) (parent : Option Nat) (root siblings index : Nat) (block : Span) :
    List TokenTree → List Link
  | [] => []
  | tree :: rest =>
    links top parent root siblings index block tree ++
      linksOf top parent root siblings (index + 1) block rest

end

/-- The links of the tokens of a top-level sequence, from an index on. -/
def topLinks (top : Nat) : (index : Nat) → List TokenTree → List Span → List Link
  | index, tree :: trees, block :: blocks =>
    links top none tree.token.id top index block tree ++ topLinks top (index + 1) trees blocks
  | _, _, _ => []

end TokenTree

namespace TokenForest

/-- The links of all tokens, in the order of their numbers. -/
def links (forest : TokenForest) : List Link :=
  TokenTree.topLinks forest.trees.length 0 forest.trees
    (TokenTree.blocks forest.source.length 0 forest.trees)

/-- The links of all tokens as they are before anything is linked. -/
def unlinked (forest : TokenForest) : List Link :=
  TokenTree.looseLinksOf forest.trees.length forest.trees

end TokenForest

end RecordQuery
