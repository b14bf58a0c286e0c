import RecordQuery.Proofs.KeywordWalk
import RecordQuery.Proofs.Building
import RecordQuery.Proofs.Agreement

/-!
# Texts moved into longer ones

A text that stands in a longer one is cut as it is alone: its tokens only stand some characters
further on. For the machine that builds the trees looks at the distance of a parenthesis from the
token before it, and neither at offsets nor at numbers. Two machines are run side by side, one on
the text alone and one inside the longer text, where it has read other trees, the *base*, before.

Two things could tell them apart. A parenthesis that the text begins with would belong to the last
tree of the base, if that one claims it. And a quoted text is verbatim where regular expressions are
mentioned around it, so the longer text may mention them only where the text alone does.
-/

namespace RecordQuery

open Reader

/-- Every token can be read with the whole vocabulary. -/
lemma Vocabulary.covers_all (registry : Registry) (token : Token) :
    Vocabulary.all.Covers registry token :=
  ⟨fun _ => ⟨trivial, trivial⟩, fun _ => trivial, fun _ => trivial⟩

section

variable (registry : Registry) (distance : Nat)

/-- Two tokens that say the same, the second of which stands some characters further on. -/
structure Token.Moved (t u : Token) : Prop where
  alike : Token.Alike .all registry t u
  stop : u.span.stop = t.span.stop + distance
  fault : u.fault = t.fault

/-- Two trees that say the same, the second of which stands some characters further on. -/
structure TokenTree.Moved (a b : TokenTree) : Prop where
  alike : TokenTree.Alike .all registry a b
  stop : b.token.span.stop = a.token.span.stop + distance
  fault : b.token.fault = a.token.fault

/-- Two stacks of open sequences that say the same, but for the trees that the second has before all
others, the last one first. -/
inductive MovedStacks (base : List TokenTree) :
    List Frame → List TokenTree → List Frame → List TokenTree → Prop
  | top {as bs : List TokenTree}
    (current : List.Forall₂ (TokenTree.Moved registry distance) as bs) :
      MovedStacks base [] as [] (bs ++ base)
  | nested {f g : Frame} {fs gs : List Frame} {as bs : List TokenTree}
      (current : List.Forall₂ (TokenTree.Moved registry distance) as bs)
      (owner : Token.Moved registry distance f.owner g.owner)
      (outer : MovedStacks base fs f.before gs g.before) :
      MovedStacks base (f :: fs) as (g :: gs) bs

/-- Two machines that have read the same, but for what the second has read before. -/
structure TreeBuilder.Moved (base : List TokenTree) (b c : TreeBuilder) : Prop where
  offset : c.offset = b.offset + distance
  sequences : MovedStacks registry distance base b.frames b.current c.frames c.current
  problems : c.problems.length = b.problems.length

end

variable {registry : Registry} {distance : Nat} {base : List TokenTree}

namespace MovedStacks

variable {fs gs : List Frame} {as bs : List TokenTree}

/-- Both machines have as many parentheses open. -/
lemma length_eq (h : MovedStacks registry distance base fs as gs bs) : fs.length = gs.length := by
  induction h with
  | top => rfl
  | nested _ _ _ ih => rw [List.length_cons, List.length_cons, ih]

/-- A tree that is put on top of both stacks. -/
lemma push (h : MovedStacks registry distance base fs as gs bs) {a b : TokenTree}
    (hab : TokenTree.Moved registry distance a b) :
    MovedStacks registry distance base fs (a :: as) gs (b :: bs) := by
  cases h with
  | top current => exact .top (.cons hab current)
  | nested current owner outer => exact .nested (.cons hab current) owner outer

end MovedStacks

/-- A token with another place and the same content is a moved one. -/
lemma Token.Moved.of_eq {t u : Token} (hkind : t.kind = u.kind) (htext : t.text = u.text)
    (hrule : t.rule = u.rule) (hchildren : t.hasChildren = u.hasChildren)
    (hstop : u.span.stop = t.span.stop + distance) (hfault : u.fault = t.fault) :
    Token.Moved registry distance t u :=
  ⟨⟨hkind, htext, hrule, hchildren, Vocabulary.covers_all _ _⟩, hstop, hfault⟩

/-- Whether a parenthesis belongs to a token depends on their distance only. -/
lemma Token.Moved.claims_eq {t u : Token} (h : Token.Moved registry distance t u) (offset : Nat) :
    u.claims (offset + distance) = t.claims offset := by
  have hstop : (u.span.stop == offset + distance) = (t.span.stop == offset) := by
    rw [h.stop, Bool.eq_iff_iff]
    simp
  rw [Token.claims, Token.claims, h.alike.hasChildren, h.alike.rule, h.alike.kind, hstop]

/-- A moved tree has a moved token. -/
lemma TokenTree.Moved.root {a b : TokenTree} (h : TokenTree.Moved registry distance a b) :
    Token.Moved registry distance a.token b.token := ⟨h.alike.root, h.stop, h.fault⟩

/-- Moved trees are alike. -/
lemma TokenTree.allAlike_of_moved {as bs : List TokenTree}
    (h : List.Forall₂ (TokenTree.Moved registry distance) as bs) :
    TokenTree.AllAlike .all registry as bs := by
  induction h with
  | nil => exact .nil
  | cons hab _ ih => exact .cons hab.alike ih

namespace TreeBuilder

variable {b c : TreeBuilder}

/-- Closing a frame, in both machines. -/
lemma closeFrame_rel {f g : Frame} {fs gs : List Frame} {as bs : List TokenTree} (stop stop' : Nat)
    (current : List.Forall₂ (TokenTree.Moved registry distance) as bs)
    (owner : Token.Moved registry distance f.owner g.owner)
    (outer : MovedStacks registry distance base fs f.before gs g.before) :
    MovedStacks registry distance base fs (closeFrame f as stop) gs (closeFrame g bs stop') := by
  refine outer.push
    ⟨.intro ?_ (TokenTree.allAlike_of_moved (List.rel_reverse current)), owner.stop, owner.fault⟩
  exact ⟨owner.alike.kind, owner.alike.text, owner.alike.rule, rfl, Vocabulary.covers_all _ _⟩

/-- Whether the last tree of a base claims no parenthesis, wherever it stands. -/
def Unclaiming (base : List TokenTree) : Prop :=
  ∀ tree ∈ base.head?, ∀ offset, tree.token.claims offset = false

/-- Opening a parenthesis, in both machines. Where the first one has read nothing yet, the base must
not claim it. -/
lemma openList_rel (hbase : b.frames = [] → b.current = [] → Unclaiming base)
    (h : Moved registry distance base b c) :
    Moved registry distance base b.openList c.openList := by
  have group : Token.Moved registry distance (Token.group b.nextId b.offset)
      (Token.group c.nextId c.offset) := by
    refine .of_eq rfl rfl rfl rfl ?_ rfl
    simp only [Token.group, h.offset]
    omega
  have openGroup : Moved registry distance base (openList.openGroup b) (openList.openGroup c) :=
    ⟨by simp only [openList.openGroup, consume, h.offset]; omega, .nested .nil group h.sequences,
      h.problems⟩
  -- the head of the innermost sequence decides, and it is there in both machines or missing in the
  -- first one only
  have claimed : ∀ {a b' : TokenTree} {as bs : List TokenTree}, b.current = a :: as →
      c.current = b' :: bs → TokenTree.Moved registry distance a b' →
      MovedStacks registry distance base b.frames as c.frames bs →
      Moved registry distance base b.openList c.openList := by
    intro a b' as bs hb hc hab hrest
    unfold openList
    rw [hb, hc]
    dsimp only
    rw [h.offset, hab.root.claims_eq]
    split
    · exact ⟨by simp only [consume, h.offset]; omega, .nested .nil hab.root hrest, h.problems⟩
    · exact openGroup
  have unclaimed : b.current = [] → Unclaiming c.current →
      Moved registry distance base b.openList c.openList := by
    intro hb hc
    unfold openList
    rw [hb]
    cases hcurrent : c.current with
    | nil => exact openGroup
    | cons tree before =>
      dsimp only
      rw [hc tree (by rw [hcurrent]; rfl)]
      exact openGroup
  have hstacks := h.sequences
  cases hb : b.current with
  | nil =>
    refine unclaimed hb ?_
    rw [hb] at hstacks
    generalize hfs : b.frames = fs, c.frames = gs, c.current = bs at hstacks
    cases hstacks with
    | top current =>
      cases current
      exact hbase hfs hb
    | nested current =>
      cases current
      exact nofun
  | cons a as =>
    rw [hb] at hstacks
    generalize hfs : b.frames = fs, hgs : c.frames = gs, hbs : c.current = bs at hstacks
    cases hstacks with
    | top current =>
      cases current with
      | cons hab hrest => exact claimed hb hbs hab (by rw [hfs, hgs]; exact .top hrest)
    | nested current owner outer =>
      cases current with
      | cons hab hrest =>
          exact claimed hb hbs hab (by rw [hfs, hgs]; exact .nested hrest owner outer)

/-! ## One lexeme -/

variable {source lead tail : List Char}

/-- A source that stands between two others. -/
abbrev within (lead source tail : List Char) : List Char := lead ++ (source ++ tail)

/-- Whether a source that stands between two others mentions regular expressions around each span
where it does so alone. -/
def MentionsAlike (lead source tail : List Char) : Prop :=
  ∀ span : Span, span.start ≤ span.stop → span.stop ≤ source.length →
    Token.mentionsRegexp (within lead source tail)
        ⟨span.start + lead.length, span.stop + lead.length⟩ =
      Token.mentionsRegexp source span

/-- A token that is read, in both machines. -/
lemma ofLexeme?_rel (registry : Registry) (hmentions : MentionsAlike lead source tail)
    (id id' : Nat) {offset width : Nat} (hwidth : offset + width ≤ source.length)
    (lexeme : Lexeme) :
    Option.Rel (Token.Moved registry lead.length)
      (Token.ofLexeme? id source ⟨offset, offset + width⟩ lexeme)
      (Token.ofLexeme? id' (within lead source tail)
        ⟨offset + lead.length, offset + lead.length + width⟩ lexeme) := by
  have hspan : (⟨offset + lead.length, offset + lead.length + width⟩ : Span) =
      ⟨offset + lead.length, offset + width + lead.length⟩ := by
    rw [Nat.add_right_comm]
  have word : ∀ (kind : TokenKind) (text : String), Token.Moved registry lead.length
      (Token.ofWord id kind text ⟨offset, offset + width⟩)
      (Token.ofWord id' kind text ⟨offset + lead.length, offset + width + lead.length⟩) := by
    intro kind text
    unfold Token.ofWord
    split <;> exact .of_eq rfl rfl rfl rfl rfl rfl
  rw [hspan]
  cases lexeme with
  | blank | opening | closing => exact .none
  | delimiter | block | bracketed => exact .some (.of_eq rfl rfl rfl rfl rfl rfl)
  | quoted quote body closed =>
    refine .some ?_
    have hsame := hmentions ⟨offset, offset + width⟩ (Nat.le_add_right _ _) hwidth
    unfold Token.ofQuoted
    rw [hsame]
    split <;> exact .of_eq rfl rfl rfl rfl rfl rfl
  | run kind chars =>
    cases kind with
    | symbol => exact .some (word .symbol _)
    | word => exact .some (word .word _)
    | other => exact .some (.of_eq rfl rfl rfl rfl rfl rfl)

/-- Whether a text opens a parenthesis before it has any token. -/
def opensFirst : List Lexeme → Bool
  | [] => false
  | .blank _ :: rest => opensFirst rest
  | .opening :: _ => true
  | _ :: _ => false

/-- Whether the base claims nothing of what is still to be read. -/
def Apart (base : List TokenTree) (b : TreeBuilder) (lexemes : List Lexeme) : Prop :=
  b.frames = [] → b.current = [] → opensFirst lexemes = true → Unclaiming base

/-- The base claims nothing later on either. -/
lemma Apart.reads {ceilings : Ceilings} {b' : TreeBuilder} {lexeme : Lexeme} {rest : List Lexeme}
    (h : Apart base b (lexeme :: rest)) (hreads : Reads ceilings source b lexeme b') :
    Apart base b' rest := by
  intro hframes hcurrent hopens
  cases hreads with
  | blank => exact h hframes hcurrent hopens
  | token | close => cases hcurrent
  | claim | group => cases hframes

/-- Reading one lexeme, in both machines. -/
lemma step_rel (hmentions : MentionsAlike lead source tail) (ceilings : Ceilings) {lexeme : Lexeme}
    {rest : List Lexeme} (hapart : Apart base b (lexeme :: rest))
    (hwidth : b.offset + lexeme.source.length ≤ source.length)
    (h : Moved registry lead.length base b c) :
    Corresponds (Moved registry lead.length base) (step ceilings source b lexeme)
      (step ceilings (within lead source tail) c lexeme) := by
  -- a token is added in both machines, at places as far from each other as before
  have token : ∀ t u, Token.Moved registry lead.length t u →
      Moved registry lead.length base
        ((b.addToken source t).consume lexeme.source.length (.token t.id))
        ((c.addToken (within lead source tail) u).consume lexeme.source.length (.token u.id)) := by
    intro t u htu
    refine ⟨by simp only [consume, addToken, h.offset]; omega, ?_, ?_⟩
    · exact h.sequences.push ⟨.intro htu.alike .nil, htu.stop, htu.fault⟩
    · simp only [consume, addToken, htu.fault]
      split
      · rw [List.length_cons, List.length_cons, h.problems]
      · exact h.problems
  -- and so whatever a lexeme comes to
  have read : Corresponds (Moved registry lead.length base)
      ((Token.ofLexeme? b.nextId source ⟨b.offset, b.offset + lexeme.source.length⟩ lexeme).elim
        (.ok b : Except Problem TreeBuilder) fun token =>
          .ok ((b.addToken source token).consume lexeme.source.length (.token token.id)))
      ((Token.ofLexeme? c.nextId (within lead source tail)
          ⟨c.offset, c.offset + lexeme.source.length⟩ lexeme).elim
        (.ok c : Except Problem TreeBuilder) fun token =>
          .ok ((c.addToken (within lead source tail) token).consume lexeme.source.length
            (.token token.id))) := by
    have hrel := ofLexeme?_rel registry hmentions b.nextId c.nextId hwidth lexeme
    rw [← h.offset] at hrel
    generalize Token.ofLexeme? b.nextId source _ lexeme = t?,
      Token.ofLexeme? c.nextId (within lead source tail) _ lexeme = u? at hrel
    cases hrel with
    | none => exact h
    | some htu => exact token _ _ htu
  cases lexeme with
  | delimiter => exact read
  | quoted => exact read
  | block => exact read
  | bracketed => exact read
  | run kind => cases kind <;> exact read
  | blank =>
    refine ⟨?_, h.sequences, h.problems⟩
    simp only [consume, h.offset]
    omega
  | opening =>
    unfold step
    dsimp only
    rw [h.sequences.length_eq]
    split
    · exact rfl
    · exact openList_rel (fun hframes hcurrent => hapart hframes hcurrent rfl) h
  | closing =>
    have hstacks := h.sequences
    unfold step
    dsimp only
    generalize b.frames = fs, b.current = as, c.frames = gs, c.current = bs at hstacks
    cases hstacks with
    | top => exact rfl
    | nested current owner outer =>
      refine ⟨?_, closeFrame_rel _ _ current owner outer, h.problems⟩
      simp only [consume, h.offset]
      omega

/-- Reading all lexemes, in both machines. -/
lemma foldlM_rel (hmentions : MentionsAlike lead source tail) (ceilings : Ceilings)
    (lexemes : List Lexeme) {b c : TreeBuilder} (hapart : Apart base b lexemes)
    (hwidth : b.offset + (lexemes.flatMap Lexeme.source).length ≤ source.length)
    (h : Moved registry lead.length base b c) :
    Corresponds (Moved registry lead.length base) (lexemes.foldlM (step ceilings source) b)
      (lexemes.foldlM (step ceilings (within lead source tail)) c) := by
  induction lexemes generalizing b c with
  | nil => exact h
  | cons lexeme rest ih =>
    rw [List.flatMap_cons, List.length_append] at hwidth
    rw [List.foldlM_cons, List.foldlM_cons]
    have hstep := step_rel hmentions ceilings hapart (by omega) h
    cases hb : step ceilings source b lexeme <;>
      cases hc : step ceilings (within lead source tail) c lexeme <;> rw [hb, hc] at hstep
    · exact hstep
    · exact hstep.elim
    · exact hstep.elim
    · have hreads := reads_of_step hb
      exact ih (hapart.reads hreads) (by rw [hreads.offset_eq]; omega) hstep

/-- The trees at the top level, in both machines. -/
lemma closeAll_rel (stop stop' : Nat) {fs gs : List Frame} {as bs : List TokenTree}
    (h : MovedStacks registry distance base fs as gs bs) :
    ∃ trees, closeAll stop' gs bs = base.reverse ++ trees ∧
      TokenTree.AllAlike .all registry (closeAll stop fs as) trees := by
  induction fs generalizing gs as bs with
  | nil =>
    cases h with
    | top current =>
      refine ⟨_, by rw [closeAll, List.reverse_append], ?_⟩
      exact TokenTree.allAlike_of_moved (List.rel_reverse current)
  | cons f fs ih =>
    cases h with
    | nested current owner outer =>
      rw [closeAll, closeAll]
      exact ih (closeFrame_rel stop stop' current owner outer)

/-- Both machines have met as many problems in the end. -/
lemma length_problems_finish (h : Moved registry distance base b c) (source source' : List Char) :
    (c.finish source').problems.length = (b.finish source).problems.length := by
  simp [finish, h.problems, h.sequences.length_eq]

end TreeBuilder

/-! ## Keywords of several words -/

namespace TokenTree

mutual

/-- Trees that say the same still do so once the keywords in their parentheses are merged. -/
lemma Alike.merge : (a b : TokenTree) → TokenTree.Alike .all registry a b →
    TokenTree.Alike .all registry (merge a) (merge b)
  | ⟨_, ts, _⟩, ⟨_, us, _⟩, .intro token children => by
    rw [TokenTree.merge, TokenTree.merge]
    exact .intro token (AllAlike.mergeAll ts us children)

/-- Sequences that say the same still do so once their keywords are merged. -/
lemma AllAlike.mergeAll : (as bs : List TokenTree) → TokenTree.AllAlike .all registry as bs →
    TokenTree.AllAlike .all registry (mergeAll as) (mergeAll bs)
  | [], [], .nil => by
    rw [TokenTree.mergeAll_nil]
    exact .nil
  | a :: as, b :: bs, .cons hab hrest => by
    have hmerged := Alike.merge a b hab
    have hmergedRest := AllAlike.mergeAll as bs hrest
    rw [TokenTree.mergeAll_cons, TokenTree.mergeAll_cons, spelled?_eq (.cons hab hrest)]
    split
    · rename_i kind more _
      refine .cons ?_ (List.forall₂_drop more hmergedRest)
      revert hmerged
      generalize TokenTree.merge a = a', TokenTree.merge b = b'
      rintro ⟨token, children⟩
      refine .intro ?_ children
      exact ⟨token.kind, rfl, rfl, token.hasChildren, Vocabulary.covers_all _ _⟩
    · exact .cons hmerged hmergedRest

end

end TokenTree

end RecordQuery
