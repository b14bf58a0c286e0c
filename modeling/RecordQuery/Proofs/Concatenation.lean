import RecordQuery.Proofs.Compiling
import RecordQuery.Proofs.Merging
import RecordQuery.Proofs.Moving
import RecordQuery.Proofs.Quoting

/-!
# Texts put one behind the other

A text that is followed by a blank and another text is cut into what both are cut into alone, if the
first one is *complete*: nothing in it is left open at its end. The blank ends a word or a sign, and
whatever runs to a terminator has met it.

Where a text begins matters as well. It must not open a parenthesis before it has any token, nor
begin with a word that could go on with a keyword of the text before it.
-/

namespace RecordQuery

/-! ## Lexemes -/

namespace Lexeme

/-- Whether a lexeme has the terminator it asks for. -/
def isComplete : Lexeme → Bool
  | quoted _ _ closed | block _ closed | bracketed _ closed => closed
  | _ => true

/-- What has no blank is what a text begins with or not, whatever comes behind a blank. -/
lemma isPrefixOf_append_blank {pattern : List Char} (h : ' ' ∉ pattern) (text more : List Char) :
    pattern.isPrefixOf (text ++ ' ' :: more) = pattern.isPrefixOf text := by
  induction pattern generalizing text with
  | nil => rw [List.isPrefixOf_nil_left, List.isPrefixOf_nil_left]
  | cons c pattern ih =>
    rw [List.mem_cons, not_or] at h
    cases text with
    | nil =>
      have hne : (c == ' ') = false := beq_eq_false_iff_ne.mpr (Ne.symm h.1)
      rw [List.nil_append, List.isPrefixOf_cons_cons, hne]
      rfl
    | cons d text =>
        rw [List.cons_append, List.isPrefixOf_cons_cons, List.isPrefixOf_cons_cons, ih h.2]

/-- What a character begins does not depend on what comes behind the next blank. -/
lemma lead_append_blank (c : Char) (rest more : List Char) :
    lead c (rest ++ ' ' :: more) = lead c rest := by
  rw [lead, lead, isPrefixOf_append_blank (by decide)]

/-- A piece in brackets that is closed is not changed by what follows. -/
lemma bracketedPiece_append_of_closed (text more : List Char)
    (h : (bracketedPiece text).closed = true) :
    bracketedPiece (text ++ more) =
      { bracketedPiece text with rest := (bracketedPiece text).rest ++ more } := by
  fun_induction bracketedPiece text with
  | case1 => cases h
  | case2 rest => rw [List.cons_append, bracketedPiece, if_pos rfl]
  | case3 c rest hc ih =>
    rw [List.cons_append, bracketedPiece, if_neg hc, ih h]
    rfl

/-- A run ends at a blank, if not before. -/
lemma runPiece_append_blank (kind : RunKind) (text more : List Char) :
    (runPiece kind (text ++ ' ' :: more)).body = (runPiece kind text).body ∧
      (runPiece kind (text ++ ' ' :: more)).rest = (runPiece kind text).rest ++ ' ' :: more := by
  induction text with
  | nil => exact runPiece_of_breaks (.blank more)
  | cons c text ih =>
    rw [List.cons_append, runPiece, runPiece, lead_append_blank]
    split
    · exact ⟨congrArg (c :: ·) ih.1, ih.2⟩
    · exact ⟨rfl, rfl⟩

/-- A complete text is cut as it is alone where a blank follows. -/
theorem scan_append_blank (text more : List Char)
    (h : ∀ lexeme ∈ scan text, lexeme.isComplete = true) :
    scan (text ++ ' ' :: more) = scan text ++ blank ' ' :: scan more := by
  -- by the recursion of the cut: no piece that is complete takes the blank behind the text
  fun_induction scan text with
  | case1 => exact scan_blank more
  | case2 c rest hlead ih =>
    obtain ⟨-, hrest⟩ := List.forall_mem_cons.mp h
    rw [List.cons_append, scan_cons, lead_append_blank, hlead]
    exact congrArg (blank c :: ·) (ih hrest)
  | case3 c rest hlead ih =>
    obtain ⟨-, hrest⟩ := List.forall_mem_cons.mp h
    rw [List.cons_append, scan_cons, lead_append_blank, hlead]
    exact congrArg (opening :: ·) (ih hrest)
  | case4 c rest hlead ih =>
    obtain ⟨-, hrest⟩ := List.forall_mem_cons.mp h
    rw [List.cons_append, scan_cons, lead_append_blank, hlead]
    exact congrArg (closing :: ·) (ih hrest)
  | case5 c rest hlead ih =>
    obtain ⟨-, hrest⟩ := List.forall_mem_cons.mp h
    rw [List.cons_append, scan_cons, lead_append_blank, hlead]
    exact congrArg (delimiter c :: ·) (ih hrest)
  | case6 c rest hlead piece ih =>
    obtain ⟨hclosed, hrest⟩ := List.forall_mem_cons.mp h
    have hquote : c ≠ '\\' := by
      obtain rfl | rfl : c = '"' ∨ c = '\'' := leads_of_lead hlead <;> decide
    rw [List.cons_append, scan_cons, lead_append_blank, hlead]
    dsimp only
    rw [quotedPiece_append hquote rest _ hclosed]
    exact congrArg (quoted c piece.body piece.closed :: ·) (ih hrest)
  | case7 c rest hlead piece ih =>
    obtain ⟨hclosed, hrest⟩ := List.forall_mem_cons.mp h
    rw [List.cons_append, scan_cons, lead_append_blank, hlead]
    dsimp only
    rw [bracketedPiece_append_of_closed rest _ hclosed]
    exact congrArg (bracketed piece.body piece.closed :: ·) (ih hrest)
  | case8 c rest hlead piece ih =>
    obtain ⟨hclosed, hrest⟩ := List.forall_mem_cons.mp h
    obtain ⟨rfl, body, rfl⟩ := leads_of_lead hlead
    rw [List.cons_append, scan_cons, lead_append_blank, hlead]
    dsimp only [List.cons_append, List.drop]
    rw [blockPiece_append body _ hclosed]
    exact congrArg (block piece.body piece.closed :: ·) (ih hrest)
  | case9 c rest kind hlead piece ih =>
    obtain ⟨-, hrest⟩ := List.forall_mem_cons.mp h
    -- a run ends at the blank, if not before
    obtain ⟨hbody, hleft⟩ := runPiece_append_blank kind rest more
    rw [List.cons_append, scan_cons, lead_append_blank, hlead]
    dsimp only
    rw [hbody, hleft]
    exact congrArg (run kind (c :: piece.body) :: ·) (ih hrest)

end Lexeme

/-! ## Texts without problems -/

/-- A lexeme whose token has no fault is complete. -/
lemma Token.isComplete_of_ofLexeme? {id : Nat} {source : List Char} {span : Span} {lexeme : Lexeme}
    {token : Token} (h : ofLexeme? id source span lexeme = some token)
    (hfault : token.fault = none) : lexeme.isComplete = true := by
  cases lexeme with
  | quoted quote body closed =>
    cases h
    cases closed with
    | true => rfl
    | false =>
      unfold ofQuoted at hfault
      split at hfault <;> cases hfault
  | block body closed | bracketed body closed =>
    cases h
    cases closed with
    | true => rfl
    | false => cases hfault
  | _ => rfl

namespace TreeBuilder

variable {ceilings : Ceilings} {source : List Char} {b c : TreeBuilder} {lexeme : Lexeme}

/-- Where no problem is met in the end, none was met with a lexeme. -/
lemma Reads.isComplete (h : Reads ceilings source b lexeme c) (hproblems : c.problems = []) :
    b.problems = [] ∧ lexeme.isComplete = true := by
  cases h with
  | blank | claim | group | close => exact ⟨hproblems, rfl⟩
  | token made =>
    simp only [consume, addToken] at hproblems
    split at hproblems
    · cases hproblems
    · exact ⟨hproblems, Token.isComplete_of_ofLexeme? made (by assumption)⟩

/-- The classes of the tokens at the top level, the last one first. A token whose parentheses are
open counts among them. -/
def topKinds : List Frame → List TokenTree → List TokenKind
  | [], current => current.map fun tree => tree.token.kind
  | frame :: frames, _ => topKinds frames ({ token := frame.owner } :: frame.before)

/-- Another tree adds its kind to those at the top. -/
lemma topKinds_push (frames : List Frame) (tree : TokenTree) (current : List TokenTree) :
    topKinds frames current <:+ topKinds frames (tree :: current) := by
  cases frames with
  | nil => exact List.suffix_cons _ _
  | cons => exact List.suffix_refl _

/-- Reading a lexeme keeps the tokens at the top level. -/
lemma Reads.topKinds_suffix (h : Reads ceilings source b lexeme c) :
    topKinds b.frames b.current <:+ topKinds c.frames c.current := by
  cases h with
  | blank => exact List.suffix_refl _
  | token => exact topKinds_push _ _ _
  | claim _ current =>
    dsimp only [topKinds, consume]
    rw [current]
    cases b.frames with
    | nil => exact List.suffix_refl _
    | cons => exact List.suffix_refl _
  | group => exact topKinds_push _ _ _
  | close frames_eq =>
    rw [frames_eq]
    dsimp only [topKinds, closeFrame]
    rename_i frames
    cases frames with
    | nil => exact List.suffix_refl _
    | cons => exact List.suffix_refl _

/-- Reading on only adds to the kinds at the top. -/
lemma topKinds_suffix_of_foldlM {lexemes : List Lexeme}
    (h : lexemes.foldlM (step ceilings source) b = .ok c) :
    topKinds b.frames b.current <:+ topKinds c.frames c.current :=
  invariant (I := fun _ c => topKinds b.frames b.current <:+ topKinds c.frames c.current)
    (fun _ _ _ _ _ _ ih hreads => ih.trans hreads.topKinds_suffix) lexemes [] b c rfl
    (List.suffix_refl _) h

/-- Reading lexemes passes their characters. -/
lemma offset_of_foldlM {lexemes : List Lexeme}
    (h : lexemes.foldlM (step ceilings source) b = .ok c) :
    c.offset = b.offset + (lexemes.flatMap Lexeme.source).length :=
  invariant (I := fun before c => c.offset = b.offset + (before.flatMap Lexeme.source).length)
    (fun before lexeme _ _ _ _ ih hreads => by
      rw [hreads.offset_eq, ih, List.flatMap_append, List.length_append, List.flatMap_singleton]
      exact Nat.add_assoc _ _ _)
    lexemes [] b c rfl rfl h

/-- A text that opens a parenthesis before it has any token begins with a group. -/
lemma topKinds_of_opensFirst {lexemes : List Lexeme} (hopens : opensFirst lexemes = true)
    (hframes : b.frames = []) (hcurrent : b.current = [])
    (h : lexemes.foldlM (step ceilings source) b = .ok c) :
    [.group] <:+ topKinds c.frames c.current := by
  induction lexemes generalizing b with
  | nil => cases hopens
  | cons lexeme rest ih =>
    rw [List.foldlM_cons] at h
    cases hstep : step ceilings source b lexeme with
    | error e =>
      rw [hstep] at h
      cases h
    | ok b' =>
      rw [hstep] at h
      have hreads := reads_of_step hstep
      cases lexeme with
      | blank =>
        cases hreads with
        | blank => exact ih (b := b.consume 1 .space) hopens hframes hcurrent h
        | token made => cases made
      | opening =>
        refine List.IsSuffix.trans ?_ (topKinds_suffix_of_foldlM h)
        cases hreads with
        | claim _ current =>
          rw [hcurrent] at current
          cases current
        | group =>
          simp [openList.openGroup, topKinds, hframes, hcurrent, consume, Token.group]
        | token made => cases made
      | _ => cases hopens

end TreeBuilder

/-! ## Mentions of regular expressions -/

namespace Token

/-- What has no blank occurs in two texts with a blank between them only if it occurs in one. -/
lemma infix_append_blank {pattern a b : List Char} (hblank : ' ' ∉ pattern)
    (h : pattern <:+: a ++ ' ' :: b) : pattern <:+: a ∨ pattern <:+: b := by
  induction a with
  | nil =>
    rw [List.nil_append, List.infix_cons_iff] at h
    obtain h | h := h
    · rw [← List.isPrefixOf_iff_prefix, ← List.nil_append (' ' :: b),
        Lexeme.isPrefixOf_append_blank hblank, List.isPrefixOf_iff_prefix] at h
      exact .inl h.isInfix
    · exact .inr h
  | cons c a ih =>
    rw [List.cons_append, List.infix_cons_iff] at h
    obtain h | h := h
    · rw [← List.isPrefixOf_iff_prefix, ← List.cons_append,
        Lexeme.isPrefixOf_append_blank hblank, List.isPrefixOf_iff_prefix] at h
      exact .inl h.isInfix
    · exact (ih h).imp_left List.infix_cons

/-- What two texts with a blank between them mention is mentioned by one of them. -/
lemma mentions_append_blank {a b : List Char} :
    Mentions (a ++ ' ' :: b) ↔ Mentions a ∨ Mentions b := by
  refine ⟨fun h => ?_, fun h => ?_⟩
  · rw [Mentions, List.map_append, List.map_cons] at h
    exact infix_append_blank (by decide) h
  · obtain h | h := h
    · exact h.append_left _
    · rw [← List.singleton_append, ← List.append_assoc]
      exact h.append_right _

/-- A text mentions regular expressions outside a span if what is left without the span does. -/
lemma mentionsRegexp_iff {source : List Char} {span : Span} :
    mentionsRegexp source span = true ↔
      Mentions (source.take span.start ++ source.drop span.stop) := Text.occursIn_iff

/-- A source that stands behind a blank mentions what it mentions alone, if the one before it
mentions nothing. -/
lemma mentionsAlike_behind {before : List Char} (h : ¬ Mentions before) (source : List Char) :
    TreeBuilder.MentionsAlike (before ++ [' ']) source [] := by
  intro span _ _
  rw [Bool.eq_iff_iff, mentionsRegexp_iff, mentionsRegexp_iff, TreeBuilder.within, List.append_nil,
    Nat.add_comm span.start, Nat.add_comm span.stop, List.take_length_add_append,
    List.drop_length_add_append, List.append_assoc, List.append_assoc, List.singleton_append,
    mentions_append_blank, or_iff_right h]

/-- A source that stands before a blank mentions what it mentions alone, if the one behind it
mentions nothing. -/
lemma mentionsAlike_before {behind : List Char} (h : ¬ Mentions behind) (source : List Char) :
    TreeBuilder.MentionsAlike [] source (' ' :: behind) := by
  intro span hspan hstop
  rw [Bool.eq_iff_iff, mentionsRegexp_iff, mentionsRegexp_iff, TreeBuilder.within, List.nil_append,
    List.length_nil, Nat.add_zero, Nat.add_zero, List.take_append_of_le_length (hspan.trans hstop),
    List.drop_append_of_le_length hstop, ← List.append_assoc, mentions_append_blank,
    or_iff_left h]

end Token

/-! ## Trees that say the same -/

namespace TokenTree

variable {registry : Registry}

/-- Trees are alike with themselves. -/
lemma allAlike_refl (registry : Registry) (trees : List TokenTree) :
    AllAlike .all registry trees trees :=
  allAlike_self trees ((allOf_iff_reachable trees).mpr fun token _ =>
    Vocabulary.covers_all registry token)

mutual

/-- Trees that are alike with one tree are alike. -/
lemma Alike.trans : (a b c : TokenTree) → Alike .all registry a b → Alike .all registry b c →
    Alike .all registry a c
  | ⟨_, as, _⟩, ⟨_, bs, _⟩, ⟨_, cs, _⟩, .intro t hab, .intro u hbc =>
    .intro ⟨t.kind.trans u.kind, t.text.trans u.text, t.rule.trans u.rule,
      t.hasChildren.trans u.hasChildren, t.covered⟩ (AllAlike.trans as bs cs hab hbc)

/-- Sequences that are alike with one sequence are alike. -/
lemma AllAlike.trans : (as bs cs : List TokenTree) → AllAlike .all registry as bs →
    AllAlike .all registry bs cs → AllAlike .all registry as cs
  | [], [], [], .nil, .nil => .nil
  | a :: as, b :: bs, c :: cs, .cons hab habs, .cons hbc hbcs =>
    .cons (Alike.trans a b c hab hbc) (AllAlike.trans as bs cs habs hbcs)

end

end TokenTree

/-! ## Pieces -/

open TreeBuilder

/-- Whether a source is cut into trees in such a way that it can stand between others: nothing is
left open in it, nothing is wrong with it, it does not begin with a parenthesis, and it does not
mention regular expressions. -/
structure IsPiece (ceilings : Ceilings) (source : List Char) (trees : List TokenTree) : Prop where
  built : ∃ b, (Lexeme.scan source).foldlM (step ceilings source) {} = .ok b ∧ b.frames = [] ∧
    b.problems = [] ∧ trees = b.current.reverse
  complete : ∀ lexeme ∈ Lexeme.scan source, lexeme.isComplete = true
  opens : opensFirst (Lexeme.scan source) = false
  plain : ¬ Token.Mentions source

namespace IsPiece

variable {ceilings : Ceilings} {source a b : List Char} {trees as bs : List TokenTree}

/-- A text with whose forest nothing is wrong, and which begins with no parenthesis. -/
lemma of_ofText {text : String} {forest : TokenForest}
    (h : TokenForest.ofText text ceilings = .ok forest) (hproblems : forest.problems = [])
    (hgroup : ∀ tree ∈ forest.trees.head?, tree.token.kind ≠ .group)
    (hplain : ¬ Token.Mentions (text.toList.map Text.straightenChar)) :
    IsPiece ceilings (text.toList.map Text.straightenChar) forest.trees := by
  obtain ⟨b, hb, rfl⟩ := TokenForest.exists_builder h
  obtain ⟨hmet, hopen⟩ : b.problems = [] ∧ b.frames = [] := by
    simpa [finish] using hproblems
  have htrees : (b.finish (text.toList.map Text.straightenChar)).trees = b.current.reverse := by
    rw [finish, hopen, closeAll]
  rw [htrees] at hgroup ⊢
  refine ⟨⟨b, hb, hopen, hmet, rfl⟩, ?_, ?_, hplain⟩
  · exact invariant (I := fun before c => c.problems = [] →
      ∀ lexeme ∈ before, lexeme.isComplete = true) (fun before lexeme _ _ _ _ ih hreads hnone => by
        obtain ⟨hbefore, hcomplete⟩ := hreads.isComplete hnone
        exact List.forall_mem_append.mpr ⟨ih hbefore, by simpa using hcomplete⟩)
      _ [] {} b rfl (by simp) hb hmet
  · refine Bool.eq_false_iff.mpr fun hopens => ?_
    have hfirst := topKinds_of_opensFirst hopens rfl rfl hb
    rw [hopen, topKinds] at hfirst
    obtain ⟨before, hbefore⟩ := hfirst
    obtain ⟨init, last, hcurrent, -, hlast⟩ := List.map_eq_append_iff.mp hbefore.symm
    obtain ⟨tree, rfl, hkind⟩ := List.map_eq_singleton_iff.mp hlast
    exact hgroup tree (by simp [hcurrent]) hkind

/-- The forest of a text whose source is a piece. -/
lemma exists_forest {text : String}
    (h : IsPiece ceilings (text.toList.map Text.straightenChar) trees) :
    ∃ forest, TokenForest.ofText text ceilings = .ok forest ∧ forest.problems = [] ∧
      forest.trees = trees := by
  obtain ⟨b, hb, hframes, hproblems, rfl⟩ := h.built
  refine ⟨b.finish (text.toList.map Text.straightenChar), ?_, ?_, ?_⟩
  · exact TokenForest.ofText_of_builder hb
  · simp [finish, hframes, hproblems]
  · rw [finish, hframes, closeAll]

/-- The empty source. -/
lemma nil : IsPiece ceilings [] [] :=
  ⟨⟨{}, by rw [Lexeme.scan_nil, List.foldlM_nil]; rfl, rfl, rfl, rfl⟩,
    by simp [Lexeme.scan_nil], by rw [Lexeme.scan_nil]; rfl, by decide⟩

/-- Lexemes in two parts of which none opens a parenthesis first do not either. -/
lemma opensFirst_append {lexemes more : List Lexeme} (h : opensFirst lexemes = false)
    (hmore : opensFirst more = false) : opensFirst (lexemes ++ more) = false := by
  induction lexemes with
  | nil => exact hmore
  | cons lexeme rest ih =>
    cases lexeme with
    | blank => exact ih h
    | opening => cases h
    | _ => rfl

/-- A machine that has nothing open reads a piece as it is read alone. -/
lemma exists_within (registry : Registry) (h : IsPiece ceilings source trees)
    {lead tail : List Char}
    (hmentions : MentionsAlike lead source tail) {c : TreeBuilder} (hframes : c.frames = [])
    (hproblems : c.problems = []) (hoffset : c.offset = lead.length) :
    ∃ d, (Lexeme.scan source).foldlM (step ceilings (within lead source tail)) c = .ok d ∧
      d.frames = [] ∧ d.problems = [] ∧ d.offset = lead.length + source.length ∧
      ∃ copies, d.current.reverse = c.current.reverse ++ copies ∧
        TokenTree.AllAlike .all registry trees copies := by
  obtain ⟨b, hb, hclosed, hnone, rfl⟩ := h.built
  have hstart : Moved registry lead.length c.current {} c :=
    ⟨by rw [hoffset]; exact (Nat.zero_add _).symm, by rw [hframes]; exact .top .nil,
      by rw [hproblems]⟩
  have hapart : Apart c.current {} (Lexeme.scan source) := by
    intro _ _ hopens
    rw [h.opens] at hopens
    cases hopens
  have hread := foldlM_rel hmentions ceilings (Lexeme.scan source) hapart
    (by rw [Lexeme.flatMap_source_scan]; exact (Nat.zero_add _).le) hstart
  rw [hb] at hread
  cases hd : (Lexeme.scan source).foldlM (step ceilings (within lead source tail)) c with
  | error e =>
    rw [hd] at hread
    exact hread.elim
  | ok d =>
    rw [hd] at hread
    have hlength := hread.problems
    have hstacks := hread.sequences
    rw [hnone] at hlength
    rw [hclosed] at hstacks
    generalize hgs : d.frames = gs, hbs : d.current = bs at hstacks
    cases hstacks with
    | @top _ bs current =>
      refine ⟨d, rfl, hgs, List.length_eq_zero_iff.mp hlength, ?_, bs.reverse, ?_, ?_⟩
      · rw [offset_of_foldlM hd, Lexeme.flatMap_source_scan, hoffset]
      · rw [hbs, List.reverse_append]
      · exact TokenTree.allAlike_of_moved (List.rel_reverse current)

/-- Two pieces with a blank between them are cut into what both are cut into alone. -/
lemma append_blank (registry : Registry) (ha : IsPiece ceilings a as) (hb : IsPiece ceilings b bs) :
    ∃ cs ds, IsPiece ceilings (a ++ ' ' :: b) (cs ++ ds) ∧
      TokenTree.AllAlike .all registry as cs ∧ TokenTree.AllAlike .all registry bs ds := by
  have hscan := Lexeme.scan_append_blank a b ha.complete
  obtain ⟨c, hc, hframes, hproblems, hoffset, cs, hcs, halike⟩ :=
    ha.exists_within registry (c := {}) (Token.mentionsAlike_before hb.plain a) rfl rfl rfl
  obtain ⟨d, hd, hframes', hproblems', -, ds, hds, halike'⟩ :=
    hb.exists_within registry (c := c.consume 1 .space) (Token.mentionsAlike_behind ha.plain b)
      hframes hproblems (by simp [consume, hoffset])
  have hlead : within [] a (' ' :: b) = a ++ ' ' :: b := rfl
  have hbehind : within (a ++ [' ']) b [] = a ++ ' ' :: b := by
    rw [within, List.append_nil, List.append_assoc, List.singleton_append]
  rw [hlead] at hc
  rw [hbehind] at hd
  have hcurrent : c.current.reverse = cs := hcs
  have hbuilt :
      (Lexeme.scan (a ++ ' ' :: b)).foldlM (step ceilings (a ++ ' ' :: b)) {} = .ok d := by
    rw [hscan, List.foldlM_append, hc]
    exact hd
  refine ⟨cs, ds, ⟨⟨d, hbuilt, hframes', hproblems', ?_⟩, ?_, ?_, ?_⟩, halike, halike'⟩
  · rw [hds, ← hcurrent]
    rfl
  · rw [hscan]
    refine List.forall_mem_append.mpr ⟨ha.complete, List.forall_mem_cons.mpr ⟨rfl, hb.complete⟩⟩
  · rw [hscan]
    exact opensFirst_append ha.opens hb.opens
  · rw [Token.mentions_append_blank, not_or]
    exact ⟨ha.plain, hb.plain⟩

/-- Pieces with blanks between them are cut into what each is cut into alone. -/
theorem intercalate (registry : Registry) {sources : List (List Char)}
    {pieces : List (List TokenTree)} (h : List.Forall₂ (IsPiece ceilings) sources pieces) :
    ∃ copies, IsPiece ceilings ([' '].intercalate sources) copies ∧
      TokenTree.AllAlike .all registry pieces.flatten copies := by
  induction h with
  | nil => exact ⟨[], .nil, .nil⟩
  | @cons source trees sources pieces hfirst hrest ih =>
    cases hrest with
    | nil =>
      refine ⟨trees, by rwa [List.intercalate_singleton], ?_⟩
      rw [List.flatten_singleton]
      exact TokenTree.allAlike_refl registry trees
    | cons _ _ =>
      obtain ⟨behind, hpiece, hbehind⟩ := ih
      obtain ⟨cs, ds, hjoined, hcs, hds⟩ := hfirst.append_blank registry hpiece
      refine ⟨cs ++ ds, ?_, ?_⟩
      · rw [List.intercalate_cons_cons, List.append_assoc, List.singleton_append]
        exact hjoined
      · rw [List.flatten_cons]
        exact List.rel_append hcs (TokenTree.AllAlike.trans _ _ _ hbehind hds)

end IsPiece

/-! ## Keywords of several words -/

namespace TokenTree

/-- Trees in a row have the keywords that they have alone, where all of them begin anew. -/
lemma mergeAll_flatten {pieces : List (List TokenTree)} (h : ∀ trees ∈ pieces, StartsAnew trees) :
    mergeAll pieces.flatten = (pieces.map mergeAll).flatten := by
  induction pieces with
  | nil => exact mergeAll_nil
  | cons trees pieces ih =>
    obtain ⟨htrees, hpieces⟩ := List.forall_mem_cons.mp h
    have hrest : StartsAnew pieces.flatten := by
      intro tree htree
      rw [List.head?_flatten] at htree
      obtain ⟨other, hother, hhead⟩ := List.exists_of_findSome?_eq_some htree
      exact hpieces other hother tree hhead
    rw [List.flatten_cons, mergeAll_append trees hrest, ih hpieces, List.map_cons,
      List.flatten_cons]

end TokenTree

end RecordQuery
