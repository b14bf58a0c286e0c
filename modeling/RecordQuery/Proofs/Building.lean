import RecordQuery.Proofs.KeywordWalk
import RecordQuery.Proofs.Lexemes
import RecordQuery.Token.Merge

/-!
# What the machine that builds token trees does

`TreeBuilder.Reads` lists what reading a lexeme can do to the machine: pass over a blank, add a
token, open a list of a token or of a group, and close the innermost list. What each of these
preserves holds of the machine after any text, `TreeBuilder.invariant`.

As a first case: what is true of all tokens that lexemes come to, and of groups, and does not depend
on where lists end, is true of all tokens of a text.
-/

namespace RecordQuery

namespace TreeBuilder

variable {ceilings : Ceilings} {source : List Char} {b c : TreeBuilder}

/-- What reading a lexeme can do to the machine. -/
inductive Reads (ceilings : Ceilings) (source : List Char) (b : TreeBuilder) :
    Lexeme → TreeBuilder → Prop
  | blank (c : Char) : Reads ceilings source b (.blank c) (b.consume 1 .space)
  | token {lexeme : Lexeme} {token : Token}
      (made : Token.ofLexeme? b.nextId source ⟨b.offset, b.offset + lexeme.source.length⟩ lexeme =
        some token) :
      Reads ceilings source b lexeme
        ((b.addToken source token).consume lexeme.source.length (.token token.id))
  | claim {tree : TokenTree} {before : List TokenTree} (depth : b.frames.length < ceilings.depth)
      (current : b.current = tree :: before) (claims : tree.token.claims b.offset = true) :
      Reads ceilings source b .opening
        { b.consume 1 (.opening tree.token.id) with
          current := [], frames := ⟨tree.token, before⟩ :: b.frames }
  | group (depth : b.frames.length < ceilings.depth)
      (unclaimed : ∀ tree ∈ b.current.head?, tree.token.claims b.offset = false) :
      Reads ceilings source b .opening (openList.openGroup b)
  | close {frame : Frame} {frames : List Frame} (frames_eq : b.frames = frame :: frames) :
      Reads ceilings source b .closing
        { b.consume 1 (.closing frame.owner.id) with
          current := closeFrame frame b.current (b.offset + 1), frames }

/-- Reading a lexeme takes its text. -/
lemma Reads.offset_eq {lexeme : Lexeme} (h : Reads ceilings source b lexeme c) :
    c.offset = b.offset + lexeme.source.length := by
  cases h <;> rfl

/-- A lexeme that is no parenthesis comes to a token, unless it is a blank. -/
lemma reads_of_token {lexeme : Lexeme}
    (hblank : ∀ c, lexeme ≠ .blank c) (hopening : lexeme ≠ .opening) (hclosing : lexeme ≠ .closing)
    (h : (match
        Token.ofLexeme? b.nextId source ⟨b.offset, b.offset + lexeme.source.length⟩ lexeme with
      | some token => .ok ((b.addToken source token).consume lexeme.source.length (.token token.id))
      | none => .ok b : Except Problem TreeBuilder) = .ok c) :
    Reads ceilings source b lexeme c := by
  split at h
  · rename_i token htoken
    cases h
    exact .token htoken
  · rename_i hnone
    cases lexeme with
    | blank c => exact absurd rfl (hblank c)
    | opening => exact absurd rfl hopening
    | closing => exact absurd rfl hclosing
    | run kind => cases kind <;> cases hnone
    | _ => cases hnone

/-- Every step of the machine that succeeds reads its lexeme in one of the known ways. -/
lemma reads_of_step {lexeme : Lexeme} (h : step ceilings source b lexeme = .ok c) :
    Reads ceilings source b lexeme c := by
  cases lexeme with
  | blank =>
    cases h
    exact .blank _
  | opening =>
    unfold step at h
    dsimp only at h
    split at h
    · cases h
    · rename_i hdepth
      have hdepth : b.frames.length < ceilings.depth := by omega
      cases h
      unfold openList
      split
      · rename_i tree before hcurrent
        split
        · rename_i hclaims
          exact .claim hdepth hcurrent hclaims
        · rename_i hclaims
          exact .group hdepth (by simpa [hcurrent] using hclaims)
      · rename_i hcurrent
        exact .group hdepth (by simp [hcurrent])
  | closing =>
    unfold step at h
    dsimp only at h
    split at h
    · cases h
    · rename_i hframes
      cases h
      exact .close hframes
  | run kind => cases kind <;> exact reads_of_token nofun nofun nofun h
  | _ => exact reads_of_token nofun nofun nofun h

/-- A lexeme that comes to a token adds the token. -/
lemma step_of_ofLexeme? {lexeme : Lexeme} {token : Token}
    (h : Token.ofLexeme? b.nextId source ⟨b.offset, b.offset + lexeme.source.length⟩ lexeme =
      some token) :
    step ceilings source b lexeme =
      .ok ((b.addToken source token).consume lexeme.source.length (.token token.id)) := by
  cases lexeme with
  | blank | opening | closing => cases h
  | _ =>
    unfold step
    dsimp only
    rw [h]

/-- A parenthesis is opened where it is not too deep. -/
lemma step_opening_of_lt (h : b.frames.length < ceilings.depth) :
    step ceilings source b .opening = .ok b.openList := by
  unfold step
  exact if_neg (by omega)

/-- A parenthesis at the greatest depth is refused. -/
lemma step_opening_of_le (h : ceilings.depth ≤ b.frames.length) :
    step ceilings source b .opening = .error
      (problemAt source (.nestedTooDeep ceilings.depth) ⟨b.offset, b.offset + 1⟩) := by
  unfold step
  exact if_pos (by omega)

/-- A closing parenthesis is refused where none is open. -/
lemma step_closing_of_nil (h : b.frames = []) :
    step ceilings source b .closing =
      .error (problemAt source .unexpectedParenthesis ⟨b.offset, b.offset + 1⟩) := by
  unfold step
  dsimp only
  rw [h]
  rfl

/-- A closing parenthesis closes the innermost open one. -/
lemma step_closing_of_cons {frame : Frame} {frames : List Frame} (h : b.frames = frame :: frames) :
    step ceilings source b .closing = .ok { b.consume 1 (.closing frame.owner.id) with
      current := closeFrame frame b.current (b.offset + 1), frames } := by
  unfold step
  dsimp only
  rw [h]
  rfl

/-- What holds at first and is preserved by every lexeme, whatever comes before and after it, holds
after any number of lexemes. -/
lemma invariant {I : List Lexeme → TreeBuilder → Prop} {all : List Lexeme}
    (step : ∀ before lexeme after b c, all = before ++ lexeme :: after → I before b →
      Reads ceilings source b lexeme c → I (before ++ [lexeme]) c) :
    ∀ lexemes before b c, all = before ++ lexemes → I before b →
      lexemes.foldlM (TreeBuilder.step ceilings source) b = .ok c → I all c := by
  intro lexemes
  induction lexemes with
  | nil =>
    rintro before b _ hall hb ⟨⟩
    rwa [hall, List.append_nil]
  | cons lexeme rest ih =>
    intro before b c hall hb h
    rw [List.foldlM_cons] at h
    cases hstep : TreeBuilder.step ceilings source b lexeme with
    | error e =>
      rw [hstep] at h
      cases h
    | ok b' =>
      rw [hstep] at h
      exact ih (before ++ [lexeme]) b' c (by simp [hall])
        (step before lexeme rest b b' hall hb (reads_of_step hstep)) h

end TreeBuilder

namespace TokenForest

open TreeBuilder

variable {text : String} {ceilings : Ceilings} {forest : TokenForest}

/-- A forest is what the machine leaves after all lexemes of the text. -/
lemma exists_builder (h : ofText text ceilings = .ok forest) :
    ∃ b, (Lexeme.scan (text.toList.map Text.straightenChar)).foldlM
        (step ceilings (text.toList.map Text.straightenChar)) {} = .ok b ∧
      forest = b.finish (text.toList.map Text.straightenChar) := by
  unfold ofText at h
  dsimp only at h
  cases hb : (Lexeme.scan (text.toList.map Text.straightenChar)).foldlM
      (step ceilings (text.toList.map Text.straightenChar)) {} with
  | error e =>
    rw [hb] at h
    cases h
  | ok b =>
    rw [hb] at h
    cases h
    exact ⟨b, rfl, rfl⟩

/-- What the machine has made of all lexemes is the forest. -/
lemma ofText_of_builder {b : TreeBuilder}
    (hb : (Lexeme.scan (text.toList.map Text.straightenChar)).foldlM
      (step ceilings (text.toList.map Text.straightenChar)) {} = .ok b) :
    ofText text ceilings = .ok (b.finish (text.toList.map Text.straightenChar)) := by
  rw [ofText, hb]
  rfl

/-- What a run of the cutting shows of a text. -/
lemma exists_ofText_of_any {p : TokenForest → Bool}
    (h : (ofText text ceilings).toOption.any p = true) :
    ∃ forest, ofText text ceilings = .ok forest ∧ p forest = true := by
  cases hread : ofText text ceilings with
  | error problem =>
    rw [hread] at h
    cases h
  | ok forest =>
    rw [hread] at h
    exact ⟨forest, rfl, h⟩

/-- What holds of the machine before it reads a text, and is preserved by every lexeme of it, holds
of the machine that the forest was left by. -/
lemma exists_builder_of_invariant {I : List Lexeme → TreeBuilder → Prop} (init : I [] {})
    (step : ∀ before lexeme after b c,
      Lexeme.scan (text.toList.map Text.straightenChar) = before ++ lexeme :: after → I before b →
        Reads ceilings (text.toList.map Text.straightenChar) b lexeme c → I (before ++ [lexeme]) c)
    (h : ofText text ceilings = .ok forest) :
    ∃ b, I (Lexeme.scan (text.toList.map Text.straightenChar)) b ∧
      forest = b.finish (text.toList.map Text.straightenChar) := by
  obtain ⟨b, hb, rfl⟩ := exists_builder h
  refine ⟨b, ?_, rfl⟩
  exact invariant step _ [] {} b rfl init hb

end TokenForest

/-! ## All tokens of a text -/

namespace TokenTree

mutual

/-- Whether all tokens of a tree that are read have a property. -/
def All (P : Token → Prop) : TokenTree → Prop
  | ⟨token, children, _⟩ => P token ∧ AllOf P children

/-- Whether all tokens of some trees that are read have a property. -/
def AllOf (P : Token → Prop) : List TokenTree → Prop
  | [] => True
  | tree :: rest => All P tree ∧ AllOf P rest

end

variable {P : Token → Prop}

/-- A property holds in a sequence if it holds in each of its trees. -/
lemma allOf_iff {trees : List TokenTree} : AllOf P trees ↔ ∀ tree ∈ trees, All P tree := by
  induction trees with
  | nil => simp [AllOf]
  | cons tree rest ih => simp [AllOf, ih]

mutual

/-- A property holds in a tree if all tokens have it that can be reached. -/
lemma all_iff_reachable : (tree : TokenTree) → (All P tree ↔ ∀ t ∈ tree.reachable, P t)
  | ⟨token, children, _⟩ => by
    rw [All, reachable, List.forall_mem_cons, allOf_iff_reachable children]

/-- A property holds in a sequence if all tokens have it that can be reached. -/
lemma allOf_iff_reachable : (trees : List TokenTree) →
    (AllOf P trees ↔ ∀ t ∈ reachableOf trees, P t)
  | [] => by simp [AllOf, reachableOf]
  | tree :: rest => by
    rw [AllOf, reachableOf, List.forall_mem_append, all_iff_reachable tree,
      allOf_iff_reachable rest]

end

mutual

/-- The tokens of a tree that are read are tokens of it, in the same order. -/
lemma reachable_sublist : (tree : TokenTree) → tree.reachable.Sublist tree.tokens
  | ⟨token, children, absorbed⟩ => by
    rw [reachable, tokens]
    exact ((reachableOf_sublist children).trans (List.sublist_append_left _ _)).cons_cons token

/-- The tokens of some trees that are read are tokens of them, in the same order. -/
lemma reachableOf_sublist : (trees : List TokenTree) → (reachableOf trees).Sublist (tokensOf trees)
  | [] => List.Sublist.refl _
  | tree :: rest => by
    rw [reachableOf, tokensOf]
    exact (reachable_sublist tree).append (reachableOf_sublist rest)

end

/-- What can be reached in a tree are tokens of it. -/
lemma reachable_subset (tree : TokenTree) : tree.reachable ⊆ tree.tokens :=
  (reachable_sublist tree).subset

/-- What can be reached in a sequence are tokens of it. -/
lemma reachableOf_subset (trees : List TokenTree) : reachableOf trees ⊆ tokensOf trees :=
  (reachableOf_sublist trees).subset

mutual

/-- Merging keywords changes the texts, rules and spans of their first words alone. -/
lemma All.merge (hkeyword : ∀ t kind span, P t →
    P { t with text := kind.keyword, rule := some kind, span }) :
    (tree : TokenTree) → All P tree → All P tree.merge
  | ⟨_, children, _⟩, h => by
    rw [TokenTree.merge, All]
    exact ⟨h.1, AllOf.mergeAll hkeyword children h.2⟩

/-- Merging keeps a property that keywords of several words have as well. -/
lemma AllOf.mergeAll (hkeyword : ∀ t kind span, P t →
    P { t with text := kind.keyword, rule := some kind, span }) :
    (trees : List TokenTree) → AllOf P trees → AllOf P (TokenTree.mergeAll trees)
  | [], _ => by
    rw [TokenTree.mergeAll_nil]
    trivial
  | tree :: rest, h => by
    have hfirst := All.merge hkeyword tree h.1
    have hrest := AllOf.mergeAll hkeyword rest h.2
    rw [TokenTree.mergeAll_cons]
    split
    · refine ⟨?_, allOf_iff.mpr fun tree htree => ?_⟩
      · obtain ⟨token, children, absorbed⟩ := tree
        rw [TokenTree.merge] at hfirst ⊢
        exact ⟨hkeyword _ _ _ hfirst.1, hfirst.2⟩
      · exact allOf_iff.mp hrest tree (List.mem_of_mem_drop htree)
    · exact ⟨hfirst, hrest⟩

end

end TokenTree

namespace TreeBuilder

/-- Whether all tokens that the machine holds have a property. -/
structure All (P : Token → Prop) (b : TreeBuilder) : Prop where
  current : TokenTree.AllOf P b.current
  owners : ∀ frame ∈ b.frames, P frame.owner
  before : ∀ frame ∈ b.frames, TokenTree.AllOf P frame.before

variable {P : Token → Prop} {ceilings : Ceilings} {source : List Char}

/-- Closing a parenthesis keeps a property that does not depend on where lists end. -/
lemma allOf_closeFrame (hclose : ∀ t stop, P t → P { t with childrenEnd := some stop })
    {frame : Frame} {children : List TokenTree} (howner : P frame.owner)
    (hbefore : TokenTree.AllOf P frame.before) (hchildren : TokenTree.AllOf P children)
    (stop : Nat) : TokenTree.AllOf P (closeFrame frame children stop) := by
  refine ⟨⟨hclose _ _ howner, TokenTree.allOf_iff.mpr fun tree htree => ?_⟩, hbefore⟩
  exact TokenTree.allOf_iff.mp hchildren tree (List.mem_reverse.mp htree)

/-- Reading a lexeme keeps a property that its token has. -/
lemma All.reads (hgroup : ∀ id offset, P (Token.group id offset))
    (hclose : ∀ t stop, P t → P { t with childrenEnd := some stop }) {b c : TreeBuilder}
    {lexeme : Lexeme}
    (hlexeme : ∀ id span t, Token.ofLexeme? id source span lexeme = some t → P t)
    (h : b.All P) (hreads : Reads ceilings source b lexeme c) : c.All P := by
  obtain ⟨hcurrent, howners, hbefore⟩ := h
  cases hreads with
  | blank => exact ⟨hcurrent, howners, hbefore⟩
  | token made => exact ⟨⟨⟨hlexeme _ _ _ made, trivial⟩, hcurrent⟩, howners, hbefore⟩
  | @claim tree before depth current claims =>
    rw [current] at hcurrent
    have htree : P tree.token := by
      obtain ⟨token, children, absorbed⟩ := tree
      exact hcurrent.1.1
    exact ⟨trivial, List.forall_mem_cons.mpr ⟨htree, howners⟩,
      List.forall_mem_cons.mpr ⟨hcurrent.2, hbefore⟩⟩
  | group =>
    exact ⟨trivial, List.forall_mem_cons.mpr ⟨hgroup _ _, howners⟩,
      List.forall_mem_cons.mpr ⟨hcurrent, hbefore⟩⟩
  | @close frame frames frames_eq =>
    rw [frames_eq] at howners hbefore
    obtain ⟨howner, howners⟩ := List.forall_mem_cons.mp howners
    obtain ⟨hfirst, hbefore⟩ := List.forall_mem_cons.mp hbefore
    exact ⟨allOf_closeFrame hclose howner hfirst hcurrent _, howners, hbefore⟩

/-- Closing all that is open keeps a property that does not depend on where lists end. -/
lemma allOf_closeAll (hclose : ∀ t stop, P t → P { t with childrenEnd := some stop })
    {frames : List Frame} {current : List TokenTree} (hcurrent : TokenTree.AllOf P current)
    (howners : ∀ frame ∈ frames, P frame.owner)
    (hbefore : ∀ frame ∈ frames, TokenTree.AllOf P frame.before) (stop : Nat) :
    TokenTree.AllOf P (closeAll stop frames current) := by
  induction frames generalizing current with
  | nil =>
    exact TokenTree.allOf_iff.mpr fun tree htree =>
      TokenTree.allOf_iff.mp hcurrent tree (List.mem_reverse.mp htree)
  | cons frame frames ih =>
    obtain ⟨howner, howners⟩ := List.forall_mem_cons.mp howners
    obtain ⟨hfirst, hbefore⟩ := List.forall_mem_cons.mp hbefore
    exact ih (allOf_closeFrame hclose howner hfirst hcurrent _) howners hbefore

end TreeBuilder

/-- What is true of the tokens that the lexemes of a text come to, and of groups, is true of all
tokens of the text. -/
theorem TokenForest.allOf_trees {P : Token → Prop} {text : String} {ceilings : Ceilings}
    {forest : TokenForest} (h : ofText text ceilings = .ok forest)
    (hlexeme : ∀ lexeme ∈ Lexeme.scan (text.toList.map Text.straightenChar), ∀ id span t,
      Token.ofLexeme? id (text.toList.map Text.straightenChar) span lexeme = some t → P t)
    (hgroup : ∀ id offset, P (Token.group id offset))
    (hclose : ∀ t stop, P t → P { t with childrenEnd := some stop }) :
    TokenTree.AllOf P forest.trees := by
  obtain ⟨b, hb, rfl⟩ := exists_builder_of_invariant (I := fun _ b => b.All P)
    ⟨trivial, by simp, by simp⟩
    (fun before lexeme after b c hall hb hreads =>
      hb.reads hgroup hclose (hlexeme lexeme (by simp [hall])) hreads) h
  exact TreeBuilder.allOf_closeAll hclose hb.current hb.owners hb.before _

end RecordQuery
