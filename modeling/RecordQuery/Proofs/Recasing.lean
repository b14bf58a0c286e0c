import RecordQuery.Proofs.KeywordWalk
import RecordQuery.Proofs.Quoting
import RecordQuery.Proofs.Relayout
import RecordQuery.Proofs.Tiling

/-!
# Token trees of another layout

The characters of a text belong to tokens or are spaces between them. `Relayout` says that another
text is the same but for its spaces, which may be more or less of another sort of blank, and for the
case of letters in the tokens where that is *loose*.

Two machines are run side by side, one on each of two such texts. They stand at different offsets,
but they hold the same trees: `TokenTree.Recased` says that two trees differ at most in the case of
the words of loose tokens without a rule. The only thing that a machine asks an offset for is
whether a parenthesis touches the token before it. So it is enough to know that both offsets are
where that token ends, or that both are behind it.
-/

namespace RecordQuery

open Text

/-- Two texts, the first of them with the owners of its characters, that are the same but for the
blanks in its spaces and the case of letters in the tokens where that is loose. -/
inductive Relayout (loose : Nat → Prop) : List Char → List Slot → List Char → Prop
  | nil : Relayout loose [] [] []
  | char {c d : Char} {slot : Slot} {a b : List Char} {slots : List Slot} (owned : slot ≠ .space)
      (same : SameLetter (∃ id, slot = .token id ∧ loose id) c d)
        (rest : Relayout loose a slots b) :
      Relayout loose (c :: a) (slot :: slots) (d :: b)
  | blanks {run run' a b : List Char} {slots : List Slot} (nonempty : run ≠ [])
    (nonempty' : run' ≠ [])
      (blank : ∀ c ∈ run, isBlank c = true) (blank' : ∀ c ∈ run', isBlank c = true)
      (rest : Relayout loose a slots b) :
      Relayout loose (run ++ a) (List.replicate run.length .space ++ slots) (run' ++ b)

/-! ## Letters -/

namespace Text

variable {p q : Prop} {c d : Char} {a b : List Char}

/-- Case may matter less. -/
lemma SameLetter.mono (h : SameLetter p c d) (hpq : p → q) : SameLetter q c d :=
  h.imp_right fun hupper => ⟨hpq hupper.1, hupper.2⟩

/-- No letter is a typographic quote. -/
lemma SameLetter.straighten (h : SameLetter p c d) :
    SameLetter p (straightenChar c) (straightenChar d) := by
  rcases h.eq_or_isPlainChar with rfl | ⟨hc, hd⟩
  · exact .inl rfl
  · rwa [straightenChar_of_lt (Lexeme.isPlainChar_lt hc),
      straightenChar_of_lt (Lexeme.isPlainChar_lt hd)]

/-- Straightening leaves blanks blank. -/
lemma isBlank_straightenChar (h : isBlank c = true) : isBlank (straightenChar c) = true := by
  have hstraight : straightenChar c = c := by
    unfold straightenChar
    simp only [isBlank, Bool.or_eq_true, Bool.and_eq_true, decide_eq_true_eq, beq_iff_eq] at h
    rw [if_neg (by omega), if_neg (by omega)]
  rwa [hstraight]

/-- Words of the same letters are the same, or differ in case where that is free. -/
lemma eq_or_upperCase_eq (h : List.Forall₂ (SameLetter p) a b) :
    String.ofList a = String.ofList b ∨
      (p ∧ upperCase (String.ofList a) = upperCase (String.ofList b)) := by
  by_cases hp : p
  · refine .inr ⟨hp, ?_⟩
    have hupper : a.map Char.toUpper = b.map Char.toUpper := by
      induction h with
      | nil => rfl
      | cons hcd _ ih => rw [List.map_cons, List.map_cons, hcd.toUpper_eq, ih]
    rw [upperCase, upperCase, String.toList_ofList, String.toList_ofList, hupper]
  · left
    have hsame : a = b := by
      induction h with
      | nil => rfl
      | cons hcd _ ih => rw [hcd.eq_of_not hp, ih]
    rw [hsame]

/-- Escapes are taken out of bodies of the same letters at the same places. -/
lemma unescape_forall₂ {quote : Char} (hquote : Lexeme.isPlainChar quote = false)
    (h : List.Forall₂ (SameLetter p) a b) :
    List.Forall₂ (SameLetter p) (unescape quote a) (unescape quote b) := by
  fun_induction unescape quote a generalizing b with
  | case1 c rest hc ih =>
    obtain ⟨_, tail, hslash, htail, rfl⟩ := List.forall₂_cons_left_iff.mp h
    obtain ⟨d, more, hcd, hmore, rfl⟩ := List.forall₂_cons_left_iff.mp htail
    obtain rfl := hslash.eq_sign (by decide)
    have hd : d = quote ∨ d = '\\' :=
      hc.imp (hcd.eq_sign_iff hquote).mp (hcd.eq_sign_iff (by decide)).mp
    rw [unescape, if_pos hd]
    exact .cons hcd (ih hmore)
  | case2 c rest hc ih =>
    obtain ⟨_, tail, hslash, htail, rfl⟩ := List.forall₂_cons_left_iff.mp h
    obtain ⟨d, more, hcd, hmore, rfl⟩ := List.forall₂_cons_left_iff.mp htail
    obtain rfl := hslash.eq_sign (by decide)
    have hd : ¬ (d = quote ∨ d = '\\') := fun hd =>
      hc (hd.imp (hcd.eq_sign_iff hquote).mpr (hcd.eq_sign_iff (by decide)).mpr)
    rw [unescape, if_neg hd]
    exact .cons (.inl rfl) (.cons hcd (ih hmore))
  | case3 c rest hnot ih =>
    obtain ⟨d, more, hcd, hmore, rfl⟩ := List.forall₂_cons_left_iff.mp h
    -- a backslash here is the last character, and so it is in the other body
    have hnot' : ∀ e tail, d = '\\' → more = e :: tail → False := by
      rintro e tail rfl rfl
      obtain rfl := (hcd.eq_sign_iff (by decide)).mpr rfl
      obtain ⟨e', tail', -, -, rfl⟩ := List.forall₂_cons_right_iff.mp hmore
      exact hnot e' tail' rfl rfl
    rw [unescape]
    · exact .cons hcd (ih hmore)
    · exact hnot'
  | case4 =>
    cases h
    exact .nil

end Text

/-- Blanks are lexemes of their own. -/
lemma Lexeme.scan_blanks {run : List Char} (h : ∀ c ∈ run, isBlank c = true) (rest : List Char) :
    scan (run ++ rest) = run.map blank ++ scan rest := by
  induction run with
  | nil => rfl
  | cons c run ih =>
    obtain ⟨hc, hrun⟩ := List.forall_mem_cons.mp h
    rw [List.cons_append, scan_of_isBlank hc, ih hrun, List.map_cons, List.cons_append]

namespace Relayout

variable {loose : Nat → Prop} {a b : List Char} {slots : List Slot}

/-- Another layout of a text with its owners is one of the text. -/
lemma relaid (h : Relayout loose a slots b) : Relaid a b := by
  induction h with
  | nil => exact .nil
  | char _ same _ ih => exact .char same.free ih
  | blanks nonempty nonempty' blank blank' _ ih => exact .blanks nonempty nonempty' blank blank' ih

/-- Characters of one token that stay as they are, or of a loose one whose letters are the same. -/
lemma word {id : Nat} (piece piece' : List Char)
    (hsame : piece = piece' ∨ (loose id ∧ piece.map Char.toUpper = piece'.map Char.toUpper))
    (rest : Relayout loose a slots b) :
    Relayout loose (piece ++ a) (List.replicate piece.length (.token id) ++ slots)
      (piece' ++ b) := by
  have hletters : List.Forall₂ (SameLetter (loose id)) piece piece' := by
    rcases hsame with rfl | ⟨hloose, hupper⟩
    · exact List.forall₂_same.mpr fun _ _ => .inl rfl
    · rw [← List.forall₂_eq_eq_eq, List.forall₂_map_left_iff, List.forall₂_map_right_iff] at hupper
      exact hupper.imp fun _ _ h => .inr ⟨hloose, h⟩
  clear hsame
  induction hletters with
  | nil => exact rest
  | cons hcd _ ih => exact .char (by simp) (hcd.mono fun hloose => ⟨id, rfl, hloose⟩) ih

/-- Typographic quotes are made straight in both texts. -/
lemma straighten (h : Relayout loose a slots b) :
    Relayout loose (a.map straightenChar) slots (b.map straightenChar) := by
  induction h with
  | nil => exact .nil
  | char owned same _ ih => exact .char owned same.straighten ih
  | @blanks run run' a b slots nonempty nonempty' blank blank' _ ih =>
    have hblank : ∀ {run : List Char}, (∀ c ∈ run, isBlank c = true) →
        ∀ c ∈ run.map straightenChar, isBlank c = true := by
      intro run hrun c hc
      obtain ⟨c, hmem, rfl⟩ := List.mem_map.mp hc
      exact isBlank_straightenChar (hrun c hmem)
    have hlength : run.length = (run.map straightenChar).length := by rw [List.length_map]
    rw [List.map_append, List.map_append, hlength]
    exact .blanks (by simpa using nonempty) (by simpa using nonempty') (hblank blank)
      (hblank blank') ih

/-- The owners of characters may have been given other numbers. -/
lemma of_mapOwner {f : Nat → Nat} (h : Relayout loose a (slots.map (Slot.mapOwner f)) b) :
    Relayout (fun id => loose (f id)) a slots b := by
  have hspace : ∀ {slot : Slot}, slot.mapOwner f = .space → slot = .space := by
    rintro ⟨⟩ h <;> first | rfl | cases h
  generalize hmap : slots.map (Slot.mapOwner f) = owners at h
  induction h generalizing slots with
  | nil =>
    obtain rfl := List.map_eq_nil_iff.mp hmap
    exact .nil
  | @char c d slot a b owners owned same _ ih =>
    obtain ⟨slot, slots, rfl, rfl, rfl⟩ := List.map_eq_cons_iff.mp hmap
    refine .char ?_ (same.mono ?_) (ih rfl)
    · rintro rfl
      exact owned rfl
    · rintro ⟨id, hid, hloose⟩
      cases slot with
      | token id' =>
        cases hid
        exact ⟨id', rfl, hloose⟩
      | space | opening | closing => cases hid
  | @blanks run run' a b owners nonempty nonempty' blank blank' _ ih =>
    obtain ⟨spaces, slots, rfl, hspaces, rfl⟩ := List.map_eq_append_iff.mp hmap
    have hall : spaces = List.replicate run.length .space := by
      refine List.eq_replicate_iff.mpr ⟨?_, fun slot hslot => hspace ?_⟩
      · simpa using congrArg List.length hspaces
      · have hmem := List.mem_map_of_mem (f := Slot.mapOwner f) hslot
        rw [hspaces] at hmem
        exact List.eq_of_mem_replicate hmem
    rw [hall]
    exact .blanks nonempty nonempty' blank blank' (ih rfl)

/-- The characters of one token, or a parenthesis, and what stands there in the other text. -/
lemma split {slot : Slot} (hslot : slot ≠ .space) {piece : List Char}
    (h : Relayout loose (piece ++ a) (List.replicate piece.length slot ++ slots) b) :
    ∃ piece' b', b = piece' ++ b' ∧
      List.Forall₂ (SameLetter (∃ id, slot = .token id ∧ loose id)) piece piece' ∧
      Relayout loose a slots b' := by
  induction piece generalizing b with
  | nil => exact ⟨[], b, rfl, .nil, h⟩
  | cons c piece ih =>
    rw [List.cons_append, List.length_cons, List.replicate_succ, List.cons_append] at h
    generalize hca : c :: (piece ++ a) = ca, hslots : slot :: _ = owners at h
    cases h with
    | nil => cases hca
    | char owned same rest =>
      cases hca
      cases hslots
      obtain ⟨piece', b', rfl, hpiece, hrest⟩ := ih rest
      exact ⟨_ :: piece', b', rfl, .cons same hpiece, hrest⟩
    | @blanks run _ _ _ _ nonempty =>
      obtain ⟨e, run, rfl⟩ := List.exists_cons_of_ne_nil nonempty
      rw [List.length_cons, List.replicate_succ, List.cons_append] at hslots
      exact absurd (List.cons.inj hslots).1 hslot

end Relayout

/-! ## Tokens and trees -/

section

variable (loose : Nat → Prop)

/-- Two tokens that stand for the same, where the word of a loose one without a rule may be in
another case. -/
structure Token.Recased (t u : Token) : Prop where
  id : u.id = t.id
  kind : u.kind = t.kind
  rule : u.rule = t.rule
  fault : u.fault = t.fault
  hasChildren : u.hasChildren = t.hasChildren
  text : t.text = u.text ∨ (t.rule = none ∧ loose t.id ∧ upperCase t.text = upperCase u.text)

/-- Two trees of such tokens. What a keyword has absorbed is not read. -/
inductive TokenTree.Recased : TokenTree → TokenTree → Prop
  | intro {t u : Token} {ts us as bs : List TokenTree} (token : Token.Recased loose t u)
      (children : List.Forall₂ TokenTree.Recased ts us) : TokenTree.Recased ⟨t, ts, as⟩ ⟨u, us, bs⟩

/-- Two lists of such trees. -/
abbrev TokenTree.AllRecased (as bs : List TokenTree) : Prop :=
  List.Forall₂ (TokenTree.Recased loose) as bs

end

variable {loose : Nat → Prop}

namespace Token.Recased

variable {t u : Token}

/-- Tokens that differ in case are the same in capitals. -/
lemma upperCase_eq (h : Token.Recased loose t u) : upperCase t.text = upperCase u.text := by
  rcases h.text with htext | ⟨-, -, htext⟩
  · rw [htext]
  · exact htext

/-- Both tokens are a word in some case, or none is. -/
lemma isWord_eq (h : Token.Recased loose t u) (word : String) : u.isWord word = t.isWord word := by
  rw [isWord, isWord, h.kind, h.upperCase_eq]

/-- Whether a list begins right after both tokens, behind both of them, or at none. -/
lemma claims_eq (h : Token.Recased loose t u) {offset offset' : Nat}
    (hplace : t.hasChildren = true ∨ (t.span.stop = offset ↔ u.span.stop = offset')) :
    u.claims offset' = t.claims offset := by
  rw [claims, claims, h.hasChildren, h.rule, h.kind]
  rcases hplace with hchildren | hplace
  · rw [hchildren]
    rfl
  · have hstop : (u.span.stop == offset') = (t.span.stop == offset) := by
      rw [Bool.eq_iff_iff, beq_iff_eq, beq_iff_eq]
      exact hplace.symm
    rw [hstop]

/-- Words of the same letters. A keyword is told in upper case. -/
lemma ofWord (id : Nat) (kind : TokenKind) (span span' : Span) {text text' : String}
    (h : text = text' ∨ (loose id ∧ upperCase text = upperCase text')) :
    Token.Recased loose (Token.ofWord id kind text span) (Token.ofWord id kind text' span') := by
  have hupper : upperCase text' = upperCase text := by
    rcases h with rfl | ⟨-, h⟩
    · rfl
    · exact h.symm
  unfold Token.ofWord
  rw [hupper]
  split
  · exact ⟨rfl, rfl, rfl, rfl, rfl, .inl rfl⟩
  · exact ⟨rfl, rfl, rfl, rfl, rfl, h.imp_right fun hloose => ⟨rfl, hloose⟩⟩

end Token.Recased

/-- Lexemes of the same letters come to such tokens, where regular expressions are mentioned around
both or around none. -/
lemma Token.ofLexeme?_recased {id : Nat} {source source' : List Char} {span span' : Span}
    (hmentions : mentionsRegexp source' span' = mentionsRegexp source span)
    {lexeme lexeme' : Lexeme}
    (hregular : lexeme.IsRegular) (h : Lexeme.Recased (loose id) lexeme lexeme') :
    Option.Rel (Token.Recased loose) (ofLexeme? id source span lexeme)
      (ofLexeme? id source' span' lexeme') := by
  have free : ∀ {text text' : String} {kind : TokenKind} {fault : Option TokenFault},
      (text = text' ∨ (loose id ∧ upperCase text = upperCase text')) →
      Token.Recased loose { id, text, kind, span, fault }
        { id, text := text', kind, span := span', fault } :=
    fun htext => ⟨rfl, rfl, rfl, rfl, rfl, htext.imp_right fun hloose => ⟨rfl, hloose⟩⟩
  cases h with
  | blank | opening | closing => exact .none
  | delimiter c => exact .some (free (.inl rfl))
  | quoted quote closed same =>
    have hquote : Lexeme.isPlainChar quote = false := by
      obtain rfl | rfl : quote = '"' ∨ quote = '\'' := hregular <;> decide
    refine .some ?_
    unfold ofQuoted
    rw [hmentions]
    split
    · exact free (eq_or_upperCase_eq same)
    · exact free (eq_or_upperCase_eq (unescape_forall₂ hquote same))
  | block closed same => exact .some (free (eq_or_upperCase_eq same))
  | bracketed closed same => exact .some (free (eq_or_upperCase_eq same))
  | run kind same =>
    have hword := eq_or_upperCase_eq same
    cases kind with
    | symbol => exact .some (.ofWord id .symbol span span' hword)
    | word => exact .some (.ofWord id .word span span' hword)
    | other => exact .some (free hword)

/-! ## The machines -/

/-- Two open lists whose owners and outer sequences are recased. -/
structure Frame.Recased (loose : Nat → Prop) (f g : Frame) : Prop where
  owner : Token.Recased loose f.owner g.owner
  before : TokenTree.AllRecased loose f.before g.before

/-- Two machines that have read two layouts of a text. The token that a list could still belong to
ends where both machines stand, or before that in both. -/
structure TreeBuilder.Recased (loose : Nat → Prop) (b c : TreeBuilder) : Prop where
  nextId : c.nextId = b.nextId
  current : TokenTree.AllRecased loose b.current c.current
  frames : List.Forall₂ (Frame.Recased loose) b.frames c.frames
  problems : c.problems.length = b.problems.length
  place : ∀ x ∈ b.current.head?, ∀ y ∈ c.current.head?, x.token.hasChildren = true ∨
    (x.token.span.stop = b.offset ∧ y.token.span.stop = c.offset) ∨
      (x.token.span.stop < b.offset ∧ y.token.span.stop < c.offset)

namespace TokenTree

variable {a b : TokenTree} {as bs : List TokenTree}

/-- Trees that differ in case have tokens that do. -/
lemma Recased.root (h : TokenTree.Recased loose a b) : Token.Recased loose a.token b.token := by
  cases h with
  | intro token => exact token

/-- Trees that differ in case have lists that do. -/
lemma Recased.list (h : TokenTree.Recased loose a b) :
    TokenTree.AllRecased loose a.children b.children := by
  cases h with
  | intro _ children => exact children

end TokenTree

namespace TreeBuilder

variable {b c : TreeBuilder} {ceilings : Ceilings} {source source' : List Char}

/-- Both machines pass over blanks. -/
lemma Recased.consume_blanks (h : Recased loose b c) {count count' : Nat} (hcount : 0 < count)
    (hcount' : 0 < count') : Recased loose (b.consume count .space) (c.consume count' .space) where
  nextId := h.nextId
  current := h.current
  frames := h.frames
  problems := h.problems
  place x hx y hy := by
    rcases h.place x hx y hy with hchildren | ⟨hstop, hstop'⟩ | ⟨hstop, hstop'⟩
    · exact .inl hchildren
    · exact .inr (.inr ⟨by simp only [consume]; omega, by simp only [consume]; omega⟩)
    · exact .inr (.inr ⟨by simp only [consume]; omega, by simp only [consume]; omega⟩)

/-- Both machines add a token. -/
lemma Recased.add (h : Recased loose b c) {t u : Token} (htu : Token.Recased loose t u)
    {width width' : Nat} (hstop : t.span.stop = b.offset + width)
    (hstop' : u.span.stop = c.offset + width') :
    Recased loose ((b.addToken source t).consume width (.token t.id))
      ((c.addToken source' u).consume width' (.token u.id)) where
  nextId := congrArg (· + 1) h.nextId
  current := .cons (.intro htu .nil) h.current
  frames := h.frames
  problems := by
    simp only [consume, addToken, htu.fault]
    split
    · rw [List.length_cons, List.length_cons, h.problems]
    · exact h.problems
  place x hx y hy := by
    cases hx
    cases hy
    exact .inr (.inl ⟨hstop, hstop'⟩)

/-- Both machines open a group. -/
lemma Recased.openGroup (h : Recased loose b c) :
    Recased loose (openList.openGroup b) (openList.openGroup c) where
  nextId := congrArg (· + 1) h.nextId
  current := .nil
  frames := .cons ⟨⟨h.nextId, rfl, rfl, rfl, rfl, .inl rfl⟩, h.current⟩ h.frames
  problems := h.problems
  place x hx := by cases hx

/-- Both machines open a list of the same token, or both a group. -/
lemma Recased.openList (h : Recased loose b c) : Recased loose b.openList c.openList := by
  have hcurrent := h.current
  have hplace := h.place
  unfold TreeBuilder.openList
  generalize b.current = as, c.current = bs at hcurrent hplace ⊢
  cases hcurrent with
  | nil => exact h.openGroup
  | @cons x y as bs hxy hrest =>
    have hclaims : y.token.claims c.offset = x.token.claims b.offset := by
      refine hxy.root.claims_eq ?_
      rcases hplace x rfl y rfl with hchildren | ⟨hstop, hstop'⟩ | ⟨hstop, hstop'⟩
      · exact .inl hchildren
      · exact .inr (iff_of_true hstop hstop')
      · exact .inr (iff_of_false hstop.ne hstop'.ne)
    dsimp only
    rw [hclaims]
    split
    · exact ⟨h.nextId, .nil, .cons ⟨hxy.root, hrest⟩ h.frames, h.problems, fun x hx => by cases hx⟩
    · exact h.openGroup

/-- A list that both machines close is that of the same token. -/
lemma closeFrame_recased {f g : Frame} (hfg : Frame.Recased loose f g) {as bs : List TokenTree}
    (h : TokenTree.AllRecased loose as bs) (stop stop' : Nat) :
    TokenTree.AllRecased loose (closeFrame f as stop) (closeFrame g bs stop') := by
  obtain ⟨⟨hid, hkind, hrule, hfault, -, htext⟩, hbefore⟩ := hfg
  exact .cons (.intro ⟨hid, hkind, hrule, hfault, rfl, htext⟩ (List.rel_reverse h)) hbefore

/-- What both machines do with a lexeme that is no blank. -/
lemma Recased.step (h : Recased loose b c) {lexeme lexeme' : Lexeme} (hregular : lexeme.IsRegular)
    (hregular' : lexeme'.IsRegular) (hlexeme : Lexeme.Recased (loose b.nextId) lexeme lexeme')
    (hblank : ∀ x, lexeme ≠ .blank x)
    (hmentions : Token.mentionsRegexp source' ⟨c.offset, c.offset + lexeme'.source.length⟩ =
      Token.mentionsRegexp source ⟨b.offset, b.offset + lexeme.source.length⟩)
    {b' : TreeBuilder} (hstep : TreeBuilder.step ceilings source b lexeme = .ok b') :
    ∃ c', TreeBuilder.step ceilings source' c lexeme' = .ok c' ∧ Recased loose b' c' := by
  -- whatever is no parenthesis adds the token that it comes to
  have token :
    ∀ t, Token.ofLexeme? b.nextId source ⟨b.offset, b.offset + lexeme.source.length⟩ lexeme =
      some t → ∃ c', TreeBuilder.step ceilings source' c lexeme' = .ok c' ∧ Recased loose
        ((b.addToken source t).consume lexeme.source.length (.token t.id)) c' := by
    intro t ht
    have hrel : Option.Rel (Token.Recased loose) _ _ :=
      Token.ofLexeme?_recased hmentions hregular hlexeme
    rw [ht] at hrel
    generalize hu : Token.ofLexeme? b.nextId source' _ lexeme' = u? at hrel
    cases hrel with
    | @some _ u htu =>
      have hspan := (Token.ofLexeme?_fits hregular ht).2.1
      have hspan' := (Token.ofLexeme?_fits hregular' hu).2.1
      rw [← h.nextId] at hu
      exact ⟨_, step_of_ofLexeme? hu,
        h.add htu (congrArg Span.stop hspan) (congrArg Span.stop hspan')⟩
  cases hlexeme with
  | blank x => exact absurd rfl (hblank x)
  | opening =>
    have hframes := h.frames.length_eq
    unfold TreeBuilder.step at hstep ⊢
    dsimp only at hstep ⊢
    rw [hframes] at hstep
    split at hstep
    · cases hstep
    · rename_i hdepth
      cases hstep
      exact ⟨_, if_neg hdepth, h.openList⟩
  | closing =>
    have hframes := h.frames
    unfold TreeBuilder.step at hstep ⊢
    dsimp only at hstep ⊢
    generalize b.frames = fs, c.frames = gs at hframes hstep ⊢
    cases hframes with
    | nil => cases hstep
    | cons hfg hframes =>
      cases hstep
      refine ⟨_, rfl, h.nextId, closeFrame_recased hfg h.current _ _, hframes, h.problems, ?_⟩
      intro x hx y hy
      cases hx
      exact .inl rfl
  | delimiter | quoted | block | bracketed | run =>
    cases reads_of_step hstep with
    | token made => exact token _ made

/-! ## Runs -/

/-- Blanks are passed over one by one. -/
lemma foldlM_blanks (run : List Char) (lexemes : List Lexeme) (b : TreeBuilder) :
    (run.map Lexeme.blank ++ lexemes).foldlM (TreeBuilder.step ceilings source) b =
      lexemes.foldlM (TreeBuilder.step ceilings source) (b.consume run.length .space) := by
  induction run generalizing b with
  | nil => rfl
  | cons x run ih =>
    have hsum : (b.consume 1 .space).consume run.length .space =
        b.consume (x :: run).length .space := by
      simp only [consume, List.length_cons, List.replicate_succ', List.append_assoc]
      congr 1
      omega
    rw [List.map_cons, List.cons_append, List.foldlM_cons, ← hsum, ← ih]
    rfl

/-- The characters of a lexeme have one owner: a blank is a space, and a token that is added is the
owner of its own characters. -/
lemma Reads.slots_eq {lexeme : Lexeme} (hregular : lexeme.IsRegular)
    (h : Reads ceilings source b lexeme c) : ∃ slot,
      c.slots = List.replicate lexeme.source.length slot ++ b.slots ∧
        (∀ x, lexeme = .blank x → slot = .space) ∧ ∀ id, slot = .token id → id = b.nextId := by
  cases h with
  | blank x => exact ⟨.space, rfl, fun _ _ => rfl, fun _ h => by cases h⟩
  | @token _ t made =>
    refine ⟨.token t.id, rfl, fun x hx => ?_, fun id h => ?_⟩
    · rw [hx] at made
      cases made
    · cases h
      exact (Token.ofLexeme?_fits hregular made).1
  | @claim tree =>
    exact ⟨.opening tree.token.id, rfl, fun _ h => (by cases h), fun _ h => by cases h⟩
  | group => exact ⟨.opening b.nextId, rfl, fun _ h => (by cases h), fun _ h => by cases h⟩
  | @close frame =>
    exact ⟨.closing frame.owner.id, rfl, fun _ h => (by cases h), fun _ h => by cases h⟩

/-- Owners are put in front of those that are there. -/
lemma exists_slots {lexemes : List Lexeme} (hregular : ∀ lexeme ∈ lexemes, lexeme.IsRegular)
    {e : TreeBuilder} (h : lexemes.foldlM (TreeBuilder.step ceilings source) b = .ok e) :
    ∃ more, e.slots = more ++ b.slots := by
  induction lexemes generalizing b with
  | nil =>
    cases h
    exact ⟨[], rfl⟩
  | cons lexeme rest ih =>
    obtain ⟨hlexeme, hrest⟩ := List.forall_mem_cons.mp hregular
    rw [List.foldlM_cons] at h
    cases hstep : TreeBuilder.step ceilings source b lexeme with
    | error => rw [hstep] at h; cases h
    | ok c =>
      rw [hstep] at h
      obtain ⟨more, hmore⟩ := ih hrest h
      obtain ⟨slot, hslot, -⟩ := (reads_of_step hstep).slots_eq hlexeme
      exact ⟨more ++ List.replicate lexeme.source.length slot, by
        rw [hmore, hslot, List.append_assoc]⟩

/-- Of the owners that are put in front, those of the first lexeme are the first. -/
lemma exists_owners {lexeme : Lexeme} {rest : List Lexeme} {slots : List Slot}
    (hlexeme : lexeme.IsRegular) (hrest : ∀ l ∈ rest, l.IsRegular) {e : TreeBuilder}
    (hstep : TreeBuilder.step ceilings source b lexeme = .ok c)
    (hrun : rest.foldlM (TreeBuilder.step ceilings source) c = .ok e)
    (hslots : e.slots = slots.reverse ++ b.slots) :
    ∃ slot more, slots = List.replicate lexeme.source.length slot ++ more ∧
      e.slots = more.reverse ++ c.slots ∧ (∀ x, lexeme = .blank x → slot = .space) ∧
        ∀ id, slot = .token id → id = b.nextId := by
  obtain ⟨slot, hslot, hspace, hid⟩ := (reads_of_step hstep).slots_eq hlexeme
  obtain ⟨more, hmore⟩ := exists_slots hrest hrun
  refine ⟨slot, more.reverse, ?_, by rw [List.reverse_reverse, hmore], hspace, hid⟩
  rw [hslots, hslot, ← List.append_assoc] at hmore
  have hreverse := congrArg List.reverse (List.append_cancel_right hmore)
  rwa [List.reverse_reverse, List.reverse_append, List.reverse_replicate] at hreverse

/-- What stands in another layout where a lexeme stands, if its characters have one owner. -/
lemma exists_front {lexeme : Lexeme} {after left' : List Char} {slot : Slot} {slots : List Slot}
    {id : Nat} (hsteady : lexeme.IsSteady after) (hslot : slot ≠ .space)
    (hid : ∀ id', slot = .token id' → id' = id)
    (h : Relayout loose (lexeme.source ++ after)
      (List.replicate lexeme.source.length slot ++ slots) left') :
    ∃ lexeme' after', left' = lexeme'.source ++ after' ∧
      Lexeme.scan left' = lexeme' :: Lexeme.scan after' ∧
        Lexeme.Recased (loose id) lexeme lexeme' ∧ Relaid lexeme.source lexeme'.source ∧
          Relayout loose after slots after' := by
  obtain ⟨piece, after', rfl, hletters, hafter⟩ := h.split hslot
  have hown : (∃ id', slot = .token id' ∧ loose id') → loose id := by
    rintro ⟨id', htoken, hloose⟩
    exact hid id' htoken ▸ hloose
  obtain ⟨lexeme', hscan, rfl, hrecased⟩ := hsteady (loose id) piece after'
    (hletters.imp fun _ _ hcd => hcd.mono hown) hafter.relaid
  exact ⟨lexeme', after', rfl, hscan, hrecased, by simpa using Relaid.of_forall₂ hletters .nil,
    hafter⟩

/-- Around a lexeme stands what comes before it and what comes after it. -/
lemma mentionsRegexp_eq (before piece after : List Char) :
    Token.mentionsRegexp (before ++ (piece ++ after))
      ⟨before.length, before.length + piece.length⟩ =
      Text.occursIn Token.regexpWord ((before ++ after).map Char.toUpper) := by
  rw [Token.mentionsRegexp, List.take_left, ← List.append_assoc, ← List.length_append,
    List.drop_left]

/-- What both machines make of the rest of their texts. -/
theorem Recased.run {left left' before before' : List Char} {slots : List Slot} {e : TreeBuilder}
    (hleft : Relayout loose left slots left') (hbefore : Relaid before before')
    (hsource : source = before ++ left) (hsource' : source' = before' ++ left')
    (hb : b.offset = before.length) (hc : c.offset = before'.length) (h : Recased loose b c)
    (hrun : (Lexeme.scan left).foldlM (TreeBuilder.step ceilings source) b = .ok e)
    (hslots : e.slots = slots.reverse ++ b.slots) :
    ∃ e', (Lexeme.scan left').foldlM (TreeBuilder.step ceilings source') c = .ok e' ∧
      Recased loose e e' := by
  generalize hn : left.length = n
  induction n using Nat.strong_induction_on generalizing left left' before before' slots b c with
  | _ n ih =>
  cases hleft with
  | nil =>
    rw [Lexeme.scan_nil] at hrun ⊢
    cases hrun
    exact ⟨c, rfl, h⟩
  | @blanks run run' a a' slots nonempty nonempty' blank blank' rest =>
    -- both machines pass over their blanks, however many there are
    rw [Lexeme.scan_blanks blank, foldlM_blanks] at hrun
    rw [Lexeme.scan_blanks blank', foldlM_blanks]
    have hlength := List.length_pos_of_ne_nil nonempty
    rw [List.length_append] at hn
    refine ih a.length (by omega) rest
      (hbefore.append (.blanks nonempty nonempty' blank blank' .nil))
      ?_ ?_ ?_ ?_ (h.consume_blanks hlength (List.length_pos_of_ne_nil nonempty')) hrun ?_ rfl
    · simpa using hsource
    · simpa using hsource'
    · simp [consume, hb]
    · simp [consume, hc]
    · simpa [consume] using hslots
  | @char x y slot a a' slots owned same rest =>
    -- no lexeme goes on behind a blank that may change, so the first one is cut off in both
    obtain ⟨lexeme, after, hscan, hpiece, hsteady⟩ := Lexeme.exists_steady x a
    have hregular : ∀ l ∈ lexeme :: Lexeme.scan after, l.IsRegular := fun l hl =>
      Lexeme.isRegular_of_mem_scan (hscan ▸ hl)
    obtain ⟨hlexeme, hrest⟩ := List.forall_mem_cons.mp hregular
    rw [hscan, List.foldlM_cons] at hrun
    cases hstep : TreeBuilder.step ceilings source b lexeme with
    | error => rw [hstep] at hrun; cases hrun
    | ok b₁ =>
      rw [hstep] at hrun
      obtain ⟨slot', more, howners, hmore, hspace, hid⟩ :=
        exists_owners hlexeme hrest hstep hrun hslots
      have hlength := List.length_pos_of_ne_nil (Lexeme.source_ne_nil hlexeme)
      have hne : slot' ≠ .space := by
        obtain ⟨k, hk⟩ := Nat.exists_eq_succ_of_ne_zero hlength.ne'
        rw [hk, List.replicate_succ, List.cons_append] at howners
        exact (List.cons.inj howners).1 ▸ owned
      have hwhole : Relayout loose (lexeme.source ++ after)
          (List.replicate lexeme.source.length slot' ++ more) (y :: a') := by
        rw [hpiece, ← howners]
        exact .char owned same rest
      obtain ⟨lexeme', after', hy, hscan', hrecased, hrelaid, hafter⟩ :=
        exists_front hsteady hne hid hwhole
      have hregular' : ∀ l ∈ lexeme' :: Lexeme.scan after', l.IsRegular := fun l hl =>
        Lexeme.isRegular_of_mem_scan (hscan' ▸ hl)
      rw [← hpiece] at hsource hn
      rw [hy] at hsource'
      -- whether a quotation is taken as it stands is asked of the rest of the text
      have hmentions : Token.mentionsRegexp source' ⟨c.offset, c.offset + lexeme'.source.length⟩ =
          Token.mentionsRegexp source ⟨b.offset, b.offset + lexeme.source.length⟩ := by
        rw [hsource, hsource', hb, hc, mentionsRegexp_eq, mentionsRegexp_eq]
        exact ((hbefore.append hafter.relaid).occursIn_eq (by decide) (by decide)).symm
      obtain ⟨c₁, hstep', h₁⟩ := h.step hlexeme (List.forall_mem_cons.mp hregular').1 hrecased
        (fun x hx => hne (hspace x hx)) hmentions hstep
      rw [List.length_append] at hn
      rw [hscan', List.foldlM_cons, hstep']
      refine ih after.length (by omega) hafter
        (hbefore.append hrelaid) ?_ ?_ ?_ ?_ h₁ hrun hmore rfl
      · rw [hsource, List.append_assoc]
      · rw [hsource', List.append_assoc]
      · rw [(reads_of_step hstep).offset_eq, hb, List.length_append]
      · rw [(reads_of_step hstep').offset_eq, hc, List.length_append]

/-- The trees at the top level, of both machines. -/
lemma closeAll_recased (stop stop' : Nat) {fs gs : List Frame}
    (hframes : List.Forall₂ (Frame.Recased loose) fs gs) {as bs : List TokenTree}
    (h : TokenTree.AllRecased loose as bs) :
    TokenTree.AllRecased loose (closeAll stop fs as) (closeAll stop' gs bs) := by
  induction hframes generalizing as bs with
  | nil => exact List.rel_reverse h
  | cons hfg _ ih => exact ih (closeFrame_recased hfg h stop stop')

end TreeBuilder

/-- Where a text can be cut into tokens, so can its other layouts, and the trees are those of the
text but for the case of loose words. -/
theorem TokenForest.exists_recased {text text' : String} {ceilings : Ceilings}
    {forest : TokenForest} (h : ofText text ceilings = .ok forest)
    (hrelayout : Relayout loose text.toList forest.slots text'.toList) :
    ∃ forest', ofText text' ceilings = .ok forest' ∧
      TokenTree.AllRecased loose forest.trees forest'.trees ∧
      forest'.problems.length = forest.problems.length := by
  obtain ⟨e, hrun, rfl⟩ := exists_builder h
  have hempty : TreeBuilder.Recased loose {} {} :=
    ⟨rfl, .nil, .nil, rfl, fun x hx => by cases hx⟩
  have hslots : e.slots = (e.finish (text.toList.map straightenChar)).slots.reverse ++ [] := by
    rw [TreeBuilder.finish, List.reverse_reverse, List.append_nil]
  obtain ⟨e', hrun', hrecased⟩ := TreeBuilder.Recased.run hrelayout.straighten .nil rfl rfl rfl rfl
    hempty hrun hslots
  refine ⟨_, ofText_of_builder hrun', ?_, ?_⟩
  · exact TreeBuilder.closeAll_recased _ _ hrecased.frames hrecased.current
  · simp [TreeBuilder.finish, hrecased.problems, hrecased.frames.length_eq]

/-! ## Keywords of several words -/

namespace TokenTree

/-- Trees that differ in case spell the same keywords. -/
lemma spells_recased {as bs : List TokenTree} (h : AllRecased loose as bs) (words : List String) :
    spells words bs = spells words as := by
  induction h generalizing words with
  | nil => cases words <;> rfl
  | cons hab _ ih =>
    cases words with
    | nil => rfl
    | cons word words => rw [spells, spells, ih, hab.root.isWord_eq]

mutual

/-- Trees that differ in case still do no more than that once their keywords are merged. -/
lemma Recased.merge : (a b : TokenTree) → TokenTree.Recased loose a b →
    TokenTree.Recased loose (merge a) (merge b)
  | ⟨_, ts, _⟩, ⟨_, us, _⟩, .intro token children => by
    rw [TokenTree.merge, TokenTree.merge]
    exact .intro token (AllRecased.mergeAll ts us children)

/-- Sequences that differ in case are merged at the same words. -/
lemma AllRecased.mergeAll : (as bs : List TokenTree) → TokenTree.AllRecased loose as bs →
    TokenTree.AllRecased loose (mergeAll as) (mergeAll bs)
  | [], [], .nil => by
    rw [TokenTree.mergeAll_nil]
    exact .nil
  | a :: as, b :: bs, .cons hab hrest => by
    have hmerged := Recased.merge a b hab
    have hmergedRest := AllRecased.mergeAll as bs hrest
    have hspelled : spelled? (b :: bs) = spelled? (a :: as) := by
      simp only [spelled?, spells_recased (.cons hab hrest)]
    rw [TokenTree.mergeAll_cons, TokenTree.mergeAll_cons, hspelled]
    split
    · refine .cons ?_ (List.forall₂_drop _ hmergedRest)
      revert hmerged
      generalize TokenTree.merge a = a', TokenTree.merge b = b'
      rintro ⟨token, children⟩
      exact .intro ⟨token.id, token.kind, rfl, token.fault, token.hasChildren, .inl rfl⟩ children
    · exact .cons hmerged hmergedRest

end

end TokenTree

end RecordQuery
