import RecordQuery.Proofs.Building
import RecordQuery.Proofs.Sketch

/-!
# Cutting sketched texts

The machine that builds token trees, when it comes to the text of a sound sketch, goes past it and
puts a tree that matches the sketch behind the trees it has. This is shown sketch by sketch, for a
text that goes on behind the sketch. What has to be known of the text before it is little: where a
quotation begins, no word reaches up to it, and if patterns may follow, regular expressions were
mentioned already.
-/

namespace RecordQuery

open Text

namespace Token

/-- Whether a token claims no parenthesis that stands some way behind an offset. -/
def RestsAt (token : Token) (offset : Nat) : Prop :=
  ∀ later, offset < later → token.claims later = false

/-- Whether a text ends where a quotation can begin. -/
def Opens (text : List Char) : Prop := ∀ c ∈ text.getLast?, c = ' ' ∨ c = '('

/-- A quotation can stand at the beginning of a text. -/
lemma Opens.nil : Opens [] := by simp [Opens]

/-- A quotation can stand behind a blank. -/
lemma Opens.blank (text : List Char) : Opens (text ++ [' ']) := by simp [Opens]

/-- A quotation can stand behind an opening parenthesis. -/
lemma Opens.opening (text : List Char) : Opens (text ++ ['(']) := by simp [Opens]

/-- Whether a text mentions regular expressions. -/
def Mentions (text : List Char) : Prop := regexpWord <:+: text.map Char.toUpper

instance : DecidablePred Mentions := fun text =>
  inferInstanceAs (Decidable (regexpWord <:+: text.map Char.toUpper))

/-- A mention stays one when the text goes on. -/
lemma Mentions.append_left {a : List Char} (h : Mentions a) (b : List Char) :
    Mentions (a ++ b) := by
  rw [Mentions, List.map_append]
  exact h.trans (List.prefix_append _ _).isInfix

/-- A mention stays one behind another text. -/
lemma Mentions.append_right {b : List Char} (h : Mentions b) (a : List Char) :
    Mentions (a ++ b) := by
  rw [Mentions, List.map_append]
  exact h.trans (List.suffix_append _ _).isInfix

/-- The keyword of regular expressions mentions them. -/
lemma mentions_regexpWord : Mentions "REGEXP_MATCH".toList := by
  rw [Mentions]
  decide

/-- Whether a text mentions regular expressions before or behind a piece of it. -/
def MentionsBeside (text piece : List Char) : Prop :=
  ∃ pre post, text = pre ++ piece ++ post ∧ (Mentions pre ∨ Mentions post)

/-- A mention beside a piece is one before or behind some occurrence of it, so there are finitely
many places to look at. -/
lemma mentionsBeside_iff {text piece : List Char} :
    (∃ n ∈ List.range (text.length + 1), piece <+: text.drop n ∧
        (Mentions (text.take n) ∨ Mentions (text.drop (n + piece.length)))) ↔
      MentionsBeside text piece := by
  constructor
  · rintro ⟨n, hn, ⟨post, hpost⟩, hmentions⟩
    have hdrop : text.drop (n + piece.length) = post := by
      rw [← List.drop_drop, ← hpost, List.drop_left]
    rw [hdrop] at hmentions
    exact ⟨_, post, by rw [List.append_assoc, hpost, List.take_append_drop], hmentions⟩
  · rintro ⟨pre, post, rfl, hmentions⟩
    refine ⟨pre.length, ?_, ?_, ?_⟩
    · rw [List.mem_range, List.length_append, List.length_append]
      omega
    · rw [List.append_assoc, List.drop_left]
      exact List.prefix_append _ _
    · rwa [← List.length_append, List.drop_left, List.append_assoc, List.take_left]

instance (text piece : List Char) : Decidable (MentionsBeside text piece) :=
  decidable_of_iff _ mentionsBeside_iff

/-- What is mentioned beside a piece is mentioned in the text. -/
lemma MentionsBeside.mentions {text piece : List Char} (h : MentionsBeside text piece) :
    Mentions text := by
  obtain ⟨pre, post, rfl, hbefore | hbehind⟩ := h
  · exact (hbefore.append_left _).append_left _
  · exact hbehind.append_right _

/-- What mentions regular expressions outside a quotation does so before it or behind it, if the
quotation begins behind a blank or a parenthesis. -/
lemma mentions_of_mentionsRegexp {pre piece post : List Char} (hopens : Opens pre)
    (h : mentionsRegexp (pre ++ piece ++ post) ⟨pre.length, pre.length + piece.length⟩ = true) :
    Mentions pre ∨ Mentions post := by
  have houtside : (pre ++ piece ++ post).take pre.length ++
      (pre ++ piece ++ post).drop (pre.length + piece.length) = pre ++ post := by
    rw [← List.length_append, List.drop_left, List.append_assoc, List.take_left]
  rw [mentionsRegexp, occursIn_iff, houtside, List.map_append] at h
  refine infix_or_infix h fun c hc => ?_
  rw [List.getLast?_map] at hc
  obtain ⟨d, hd, rfl⟩ := Option.map_eq_some_iff.mp hc
  obtain rfl | rfl := hopens d hd <;> decide

/-- What is mentioned before a quotation is mentioned outside it. -/
lemma mentionsRegexp_of_mentions {pre : List Char} (h : Mentions pre) (piece post : List Char) :
    mentionsRegexp (pre ++ piece ++ post) ⟨pre.length, pre.length + piece.length⟩ = true := by
  rw [mentionsRegexp, occursIn_iff, List.append_assoc, List.take_left, List.map_append]
  exact h.trans (List.prefix_append _ _).isInfix

/-- The token that a keyword becomes. -/
def keywordToken (kind : Kind) (id : Nat) (span : Span) : Token :=
  { id, span, text := kind.keyword, kind := kind.tokenKind, rule := some kind }

/-- A keyword of one word comes to its token. -/
lemma ofLexeme?_keyword {kind : Kind} (hsingle : kind.isSingle = true) (id : Nat)
    (source : List Char) (span : Span) :
    ofLexeme? id source span
      (.run (if kind.isSign then .symbol else .word) kind.keyword.toList) =
        some (keywordToken kind id span) := by
  cases hsign : kind.isSign <;>
    simp [ofLexeme?, ofWord, keywordToken, Kind.ofKeyword?_keyword hsingle, Kind.tokenKind, hsign]

/-- The token of a quotation holds the text that it is read as in either way. -/
lemma ofQuoted_eq (id : Nat) (source : List Char) (span : Span) (quote : Char) (body : List Char)
    (text : String) (hverbatim : mentionsRegexp source span = true → body = text.toList)
    (hliteral : mentionsRegexp source span ≠ true → unescape quote body = text.toList) :
    (ofQuoted id source span quote body none).rule = none ∧
      (ofQuoted id source span quote body none).text = text ∧
      ((ofQuoted id source span quote body none).kind = .literal ∨
        (ofQuoted id source span quote body none).kind = .blob) ∧
      (ofQuoted id source span quote body none).hasChildren = false ∧
      (ofQuoted id source span quote body none).fault = none ∧
      (ofQuoted id source span quote body none).span.stop = span.stop := by
  unfold ofQuoted
  split
  · rename_i hmode
    exact ⟨rfl, by rw [hverbatim hmode, String.ofList_toList], .inr rfl, rfl, rfl, rfl⟩
  · rename_i hmode
    exact ⟨rfl, by rw [hliteral hmode, String.ofList_toList], .inl rfl, rfl, rfl, rfl⟩

end Token

namespace TreeBuilder

open Token Sketch

/-- The machine with some text read. -/
def read (ceilings : Ceilings) (source : List Char) (b : TreeBuilder) (text : List Char) :
    Except Problem TreeBuilder :=
  (Lexeme.scan text).foldlM (step ceilings source) b

/-- Whether a machine has read so many characters more than another, and has some more trees for
them. -/
structure Grown (b c : TreeBuilder) (count : Nat) (trees : List TokenTree) : Prop where
  offset : c.offset = b.offset + count
  frames : c.frames = b.frames
  problems : c.problems = b.problems
  current : c.current = trees.reverse ++ b.current

/-- A machine that has read nothing has not grown. -/
lemma Grown.refl (b : TreeBuilder) : Grown b b 0 [] := ⟨rfl, rfl, rfl, rfl⟩

/-- A machine that has grown twice has grown by both. -/
lemma Grown.trans {b c d : TreeBuilder} {m n : Nat} {ts us : List TokenTree}
    (h : Grown b c m ts) (h' : Grown c d n us) : Grown b d (m + n) (ts ++ us) := by
  refine ⟨?_, h'.frames.trans h.frames, h'.problems.trans h.problems, ?_⟩
  · rw [h'.offset, h.offset, Nat.add_assoc]
  · rw [h'.current, h.current, List.reverse_append, List.append_assoc]

section

variable {ceilings : Ceilings} {source : List Char} {b : TreeBuilder}

/-- Reading a text is taking the step for its first lexeme and reading the rest. -/
lemma read_cons {lexeme : Lexeme} {text post : List Char} {c : TreeBuilder}
    (hscan : Lexeme.scan text = lexeme :: Lexeme.scan post)
    (hstep : step ceilings source b lexeme = .ok c) :
    read ceilings source b text = read ceilings source c post := by
  rw [read, hscan, List.foldlM_cons, hstep]
  rfl

/-- A token without a fault is put behind the trees there are. -/
lemma grown_addToken (token : Token) (hfault : token.fault = none) (count : Nat) (slot : Slot) :
    Grown b ((b.addToken source token).consume count slot) count [⟨token, [], []⟩] := by
  refine ⟨rfl, rfl, ?_, rfl⟩
  simp only [consume, addToken, hfault]

/-- A blank adds no tree. -/
lemma read_blank (ceilings : Ceilings) (source : List Char) (b : TreeBuilder) (post : List Char) :
    ∃ c, read ceilings source b (' ' :: post) = read ceilings source c post ∧
      Grown b c 1 [] :=
  ⟨b.consume 1 .space, read_cons (Lexeme.scan_blank post) rfl, rfl, rfl, rfl, rfl⟩

/-- Reading a lexeme that becomes a token without a fault. -/
lemma read_token (ceilings : Ceilings) (b : TreeBuilder) {lexeme : Lexeme} {token : Token}
    {text post : List Char} (hscan : Lexeme.scan (text ++ post) = lexeme :: Lexeme.scan post)
    (hlength : lexeme.source.length = text.length)
    (htoken : ofLexeme? b.nextId source ⟨b.offset, b.offset + text.length⟩ lexeme = some token)
    (hfault : token.fault = none) :
    ∃ c, read ceilings source b (text ++ post) = read ceilings source c post ∧
      Grown b c text.length [⟨token, [], []⟩] := by
  rw [← hlength] at htoken
  refine ⟨_, read_cons hscan (step_of_ofLexeme? htoken), ?_⟩
  rw [← hlength]
  exact grown_addToken token hfault _ _

/-- What is known when a machine comes to a sketched text: it has read all that is before, and the
token before claims no parenthesis here. -/
structure Reaches (b : TreeBuilder) (mentioned : Prop) (pre : List Char) : Prop where
  offset : b.offset = pre.length
  mentions : mentioned → Mentions pre

/-- The token that a machine has read last claims no parenthesis at an offset. -/
def Unclaimed (b : TreeBuilder) (offset : Nat) : Prop :=
  ∀ tree ∈ b.current.head?, tree.token.claims offset = false

/-- Whether a machine reads a text as one tree that matches a sketch. -/
def ReadsAs (ceilings : Ceilings) (source : List Char) (b : TreeBuilder) (sketch : Sketch)
    (post : List Char) : Prop :=
  ∃ c tree, read ceilings source b (sketch.chars ++ post) = read ceilings source c post ∧
    Grown b c sketch.chars.length [tree] ∧ sketch.Matches tree ∧ tree.token.RestsAt c.offset

/-- A keyword that is no function is read as it is where something breaks the word. -/
lemma readsAs_keyword {kind : Kind} (hfunction : kind.isFunction = false)
    (hsingle : kind.isSingle = true) {post : List Char} (hpost : Lexeme.Breaks post) :
    ReadsAs ceilings source b (.keyword kind) post := by
  obtain ⟨c, hread, hgrown⟩ := read_token ceilings b (Kind.scan_keyword hsingle hpost) rfl
    (ofLexeme?_keyword hsingle b.nextId source _) rfl
  refine ⟨c, _, hread, hgrown, .keyword rfl rfl rfl rfl, fun later _ => ?_⟩
  simp [claims, keywordToken, hfunction]

/-- A leaf whose token is no keyword. -/
lemma readsAs_leaf {sketch : Sketch} {lexeme : Lexeme} {post : List Char} (token : Token)
    (hscan : Lexeme.scan (sketch.chars ++ post) = lexeme :: Lexeme.scan post)
    (hlength : lexeme.source.length = sketch.chars.length)
    (htoken : ofLexeme? b.nextId source ⟨b.offset, b.offset + sketch.chars.length⟩ lexeme =
      some token)
    (hfault : token.fault = none) (hrule : token.rule = none)
    (hstop : token.span.stop = b.offset + sketch.chars.length)
    (hmatches : sketch.Matches ⟨token, [], []⟩) : ReadsAs ceilings source b sketch post := by
  obtain ⟨c, hread, hgrown⟩ := read_token ceilings b hscan hlength htoken hfault
  refine ⟨c, _, hread, hgrown, hmatches, fun later hlater => ?_⟩
  rw [hgrown.offset] at hlater
  have hne : token.span.stop ≠ later := by omega
  simp [claims, hrule, hne]

/-- A plain word that is no keyword is read as it is where something breaks it. -/
lemma readsAs_word {text : String} (hne : text.toList ≠ [])
    (hplain : ∀ c ∈ text.toList, Lexeme.isPlainChar c = true)
    (hkeyword : Kind.ofKeyword? (upperCase text) = none) {post : List Char}
    (hpost : Lexeme.Breaks post) : ReadsAs ceilings source b (.word text) post := by
  refine readsAs_leaf
    ⟨b.nextId, text, .word, ⟨b.offset, b.offset + text.toList.length⟩, none, none, none⟩
    (Lexeme.scan_word hne hplain hpost) rfl ?_ rfl rfl rfl (.word rfl rfl rfl rfl)
  simp [ofLexeme?, ofWord, hkeyword, chars]

/-- A name in brackets is read as it is, unless it holds a closing one. -/
lemma readsAs_bracketed {text : String} (hclosing : ']' ∉ text.toList) (post : List Char) :
    ReadsAs ceilings source b (.bracketed text) post := by
  have hscan : Lexeme.scan ((Sketch.bracketed text).chars ++ post) =
      .bracketed text.toList true :: Lexeme.scan post := by
    have := Lexeme.scan_bracketed hclosing post
    rwa [chars, List.append_assoc, List.singleton_append]
  refine readsAs_leaf
    ⟨b.nextId, text, .bracketed, ⟨b.offset, b.offset + (Sketch.bracketed text).chars.length⟩, none,
      none, none⟩ hscan rfl ?_ rfl rfl rfl (.bracketed rfl rfl rfl rfl)
  simp [ofLexeme?]

/-- A comma is read as it is. -/
lemma readsAs_comma (post : List Char) : ReadsAs ceilings source b .comma post :=
  readsAs_leaf ⟨b.nextId, ",", .delimiter, ⟨b.offset, b.offset + 1⟩, none, none, none⟩
    (Lexeme.scan_comma post) rfl rfl rfl rfl rfl (.comma rfl rfl rfl rfl)

/-- A quotation is read as a text if it stands for the text in the way in which it is taken. -/
lemma readsAs_quoted_of_closes {lexeme : Lexeme} {text : String} {post : List Char}
    (hcloses : lexeme.Closes)
    (hverbatim : mentionsRegexp source ⟨b.offset, b.offset + lexeme.source.length⟩ = true →
      lexeme.verbatim = text.toList)
    (hliteral : mentionsRegexp source ⟨b.offset, b.offset + lexeme.source.length⟩ ≠ true →
      lexeme.literal = text.toList) :
    ReadsAs ceilings source b (.quoted lexeme text) post := by
  have hscan := Lexeme.scan_quotation hcloses post
  cases lexeme with
  | quoted quote body closed =>
    obtain ⟨rfl, -⟩ := hcloses
    obtain ⟨hrule, htext, hkind, hchildren, hfault, hstop⟩ :=
      ofQuoted_eq b.nextId source _ quote body text hverbatim hliteral
    exact readsAs_leaf _ hscan rfl rfl hfault hrule hstop (.quoted hrule htext hkind hchildren)
  | block body closed =>
    obtain ⟨rfl, -⟩ := hcloses
    have hbody : body = text.toList := by
      by_cases hmode : mentionsRegexp source
          ⟨b.offset, b.offset + (Lexeme.block body true).source.length⟩ = true
      · exact hverbatim hmode
      · exact hliteral hmode
    refine readsAs_leaf
      ⟨b.nextId, text, .blob, ⟨b.offset, b.offset + (Lexeme.block body true).source.length⟩, none,
        none, none⟩ hscan rfl ?_ rfl rfl rfl (.quoted rfl rfl (.inr rfl) rfl)
    simp [ofLexeme?, hbody, chars]
  | _ => exact hcloses.elim

/-- A quotation is read as its text, in whichever way it is taken. -/
lemma readsAs_quoted {raw : Lexeme → Prop} {mentioned : Prop} {lexeme : Lexeme} {text : String}
    (h : IsQuotation raw mentioned lexeme text) {pre post : List Char}
    (hsource : source = pre ++ lexeme.source ++ post)
    (hraw : ∀ lexeme : Lexeme, MentionsBeside source lexeme.source → raw lexeme)
    (hreaches : b.Reaches mentioned pre) (hopens : Opens pre) :
    ReadsAs ceilings source b (.quoted lexeme text) post := by
  have hspan : (⟨b.offset, b.offset + lexeme.source.length⟩ : Span) =
      ⟨pre.length, pre.length + lexeme.source.length⟩ := by rw [hreaches.offset]
  refine readsAs_quoted_of_closes h.closes (fun hmentions => ?_) fun hmentions => ?_
  · rw [hspan, hsource] at hmentions
    refine h.verbatim (hraw lexeme ⟨pre, post, hsource, ?_⟩)
    exact mentions_of_mentionsRegexp hopens hmentions
  · refine h.literal fun hmentioned => hmentions ?_
    rw [hspan, hsource]
    exact mentionsRegexp_of_mentions (hreaches.mentions hmentioned) _ _

/-! ## Parentheses -/

/-- Whether a machine reads a text as trees that match sketches. -/
def ReadsAllAs (ceilings : Ceilings) (source : List Char) (b : TreeBuilder)
    (sketches : List Sketch) (text post : List Char) : Prop :=
  ∃ c trees, read ceilings source b (text ++ post) = read ceilings source c post ∧
    Grown b c text.length trees ∧ MatchesAll sketches trees

/-- Whether a machine opens a parenthesis for an owner that has some trees before it. -/
structure Opened (b c : TreeBuilder) (owner : Token) (before : List TokenTree) : Prop where
  offset : c.offset = b.offset + 1
  frames : c.frames = ⟨owner, before⟩ :: b.frames
  problems : c.problems = b.problems
  current : c.current = []

/-- A parenthesis that touches a token that may own it opens the list of this token. -/
lemma opened_of_claims {owner : Token} {before : List TokenTree}
    (hcurrent : b.current = ⟨owner, [], []⟩ :: before) (hclaims : owner.claims b.offset = true) :
    Opened b b.openList owner before := by
  unfold openList
  rw [hcurrent]
  dsimp only
  rw [if_pos hclaims]
  exact ⟨rfl, rfl, rfl, rfl⟩

/-- A parenthesis that touches no such token opens a group. -/
lemma opened_of_unclaimed (h : b.Unclaimed b.offset) :
    Opened b b.openList (Token.group b.nextId b.offset) b.current := by
  unfold openList
  split
  · rename_i tree before hcurrent
    have hclaims : tree.token.claims b.offset = false := h tree (by rw [hcurrent]; rfl)
    rw [hclaims, if_neg Bool.false_ne_true]
    exact ⟨rfl, rfl, rfl, rfl⟩
  · exact ⟨rfl, rfl, rfl, rfl⟩

/-- What stands in parentheses becomes the children of their owner. -/
lemma read_parentheses {owner : Token} {before : List TokenTree} {contents : List Sketch}
    {post : List Char} (hdepth : b.frames.length + 1 ≤ ceilings.depth)
    (hopened : Opened b b.openList owner before)
    (hcontents : ReadsAllAs ceilings source b.openList contents (charsAll contents) (')' :: post)) :
    ∃ c children stop,
      read ceilings source b ('(' :: (charsAll contents ++ ')' :: post)) =
        read ceilings source c post ∧
      c.offset = b.offset + 1 + (charsAll contents).length + 1 ∧ c.frames = b.frames ∧
      c.problems = b.problems ∧ MatchesAll contents children ∧
      c.current = ⟨{ owner with childrenEnd := some stop }, children, []⟩ :: before := by
  obtain ⟨d, children, hread, hgrown, hmatches⟩ := hcontents
  have hopening : step ceilings source b .opening = .ok b.openList := if_neg (by omega)
  have hframes : d.frames = ⟨owner, before⟩ :: b.frames := by
    rw [hgrown.frames, hopened.frames]
  have hclosing : step ceilings source d .closing =
      .ok { d.consume 1 (.closing owner.id) with
        current := closeFrame ⟨owner, before⟩ d.current (d.offset + 1), frames := b.frames } := by
    unfold step
    dsimp only
    split
    · rename_i hnone
      rw [hframes] at hnone
      cases hnone
    · rename_i hsome
      rw [hframes] at hsome
      cases hsome
      rfl
  refine ⟨{ d.consume 1 (.closing owner.id) with
    current := closeFrame ⟨owner, before⟩ d.current (d.offset + 1), frames := b.frames }, children,
    d.offset + 1, ?_, ?_, rfl, ?_, hmatches, ?_⟩
  · rw [read_cons (Lexeme.scan_opening _) hopening, hread,
      read_cons (Lexeme.scan_closing post) hclosing]
  · show d.offset + 1 = _
    rw [hgrown.offset, hopened.offset]
  · show d.problems = _
    rw [hgrown.problems, hopened.problems]
  · show closeFrame _ _ _ = _
    rw [closeFrame, hgrown.current, hopened.current, List.append_nil, List.reverse_reverse]

end

/-! ## Whole sketches -/

/-- Whatever stands behind a sketch breaks its last word. -/
lemma breaks_charsBehind (sketches : List Sketch) {post : List Char} (h : Lexeme.Breaks post) :
    Lexeme.Breaks (charsBehind sketches ++ post) := by
  cases sketches with
  | nil => exact h
  | cons sketch rest =>
    rw [charsBehind, List.append_assoc, List.append_assoc]
    cases sketch with
    | comma => exact .comma _
    | _ => exact .blank _

/-- What stands between a keyword and its parenthesis adds no tree. -/
lemma read_gap (ceilings : Ceilings) (source : List Char) (b : TreeBuilder) (kind : Kind)
    (post : List Char) :
    ∃ c, read ceilings source b (kind.gap ++ post) = read ceilings source c post ∧
      Grown b c kind.gap.length [] := by
  unfold Kind.gap
  split
  · exact read_blank ceilings source b post
  · exact ⟨b, rfl, .refl b⟩

/-- The keyword `REGEXP_MATCH` is a mention of regular expressions. -/
lemma mentions_keyword {kind : Kind} (h : kind = .regexpMatch) :
    Mentions kind.keyword.toList := by
  subst h
  exact mentions_regexpWord

/-- A machine that grows has reached the end of what it has read. -/
lemma Reaches.grown {b c : TreeBuilder} {mentioned : Prop} {pre text : List Char}
    {trees : List TokenTree} (h : b.Reaches mentioned pre) (hgrown : Grown b c text.length trees) :
    c.Reaches mentioned (pre ++ text) :=
  ⟨by rw [hgrown.offset, h.offset, List.length_append],
    fun hmentioned => (h.mentions hmentioned).append_left _⟩

/-- Where a machine comes to a text: what is before and behind it, and how deep it may nest. -/
structure Site (ceilings : Ceilings) (source : List Char) (mentioned : Prop) (b : TreeBuilder)
    (pre text post : List Char) (depth : Nat) : Prop where
  source : source = pre ++ text ++ post
  reaches : b.Reaches mentioned pre
  breaks : Lexeme.Breaks post
  depth : b.frames.length + depth ≤ ceilings.depth

section

variable {ceilings : Ceilings} {source : List Char} {raw : Lexeme → Prop} {mentioned : Prop}
  {b : TreeBuilder} {pre post : List Char}

/-- The place inside the parentheses that a machine opens. -/
lemma Site.inside {text : List Char} {mentioned' : Prop} {owner : Token} {before : List TokenTree}
    {contents : List Sketch} {lead : List Char}
    (h : Site ceilings source mentioned b pre text post (depthAll contents + 1))
    (htext : text = lead ++ '(' :: (charsAll contents ++ [')'])) {c : TreeBuilder}
    (hoffset : c.offset = b.offset + lead.length) (hframes : c.frames = b.frames)
    (hopened : Opened c c.openList owner before)
    (hmentions : mentioned' → Mentions (pre ++ lead)) :
    Site ceilings source mentioned' c.openList (pre ++ lead ++ ['(']) (charsAll contents)
      (')' :: post) (depthAll contents) := by
  refine ⟨?_, ⟨?_, fun hmentioned => (hmentions hmentioned).append_left _⟩, .closing _, ?_⟩
  · rw [h.source, htext]
    simp
  · rw [hopened.offset, hoffset, h.reaches.offset, List.length_append, List.length_append]
    rfl
  · rw [hopened.frames, List.length_cons, hframes]
    have := h.depth
    omega

/-- The place behind the first of some sketches. -/
lemma Site.next {text more : List Char} {depth first rest : Nat}
    (h : Site ceilings source mentioned b pre (text ++ more) post depth)
    (hdepth : depth = max first rest) {c : TreeBuilder} {trees : List TokenTree}
    (hgrown : Grown b c text.length trees) :
    Site ceilings source mentioned c (pre ++ text) more post rest := by
  refine ⟨?_, h.reaches.grown hgrown, h.breaks, ?_⟩
  · rw [h.source]
    simp only [List.append_assoc]
  · have := h.depth
    rw [hgrown.frames]
    omega

/-- The place of the first of some sketches. -/
lemma Site.first {text : List Char} {more : List Sketch} {depth first rest : Nat}
    (h : Site ceilings source mentioned b pre (text ++ charsBehind more) post depth)
    (hdepth : depth = max first rest) :
    Site ceilings source mentioned b pre text (charsBehind more ++ post) first := by
  refine ⟨?_, h.reaches, breaks_charsBehind more h.breaks, ?_⟩
  · rw [h.source]
    simp only [List.append_assoc]
  · have := h.depth
    omega

end

mutual

/-- The text of a sound sketch is read as a tree that matches it. -/
lemma readsAs {ceilings : Ceilings} {source : List Char} {raw : Lexeme → Prop}
    (hraw : ∀ lexeme : Lexeme, MentionsBeside source lexeme.source → raw lexeme) :
    (sketch : Sketch) → {mentioned : Prop} →
    {b : TreeBuilder} → {pre post : List Char} → Sound raw mentioned sketch →
    Site ceilings source mentioned b pre sketch.chars post sketch.depth → Opens pre →
    b.Unclaimed b.offset → ReadsAs ceilings source b sketch post
  | .keyword kind, _, _, _, _, hsound, hsite, _, _ =>
    readsAs_keyword hsound.1 hsound.2 hsite.breaks
  | .word text, _, _, _, _, hsound, hsite, _, _ =>
    readsAs_word hsound.1 hsound.2.1 hsound.2.2 hsite.breaks
  | .bracketed text, _, _, _, post, hsound, _, _, _ => readsAs_bracketed hsound.1 post
  | .quoted lexeme text, _, _, _, _, hsound, hsite, hopens, _ =>
    readsAs_quoted hsound hsite.source hraw hsite.reaches hopens
  | .comma, _, _, _, post, _, _, _, _ => readsAs_comma post
  | .call kind parameters, mentioned, b, pre, post, hsound, hsite, _, _ => by
    obtain ⟨hfunction, hparameters⟩ := hsound
    have hsingle := Kind.isSingle_of_isFunction hfunction
    have hbreaks : Lexeme.Breaks (kind.gap ++ '(' :: (charsAll parameters ++ ')' :: post)) := by
      unfold Kind.gap
      split
      · exact .blank _
      · exact .opening _
    -- the keyword, what stands before its parenthesis, and then the list that it claims
    obtain ⟨c, hread, hgrown⟩ := read_token ceilings b
      (Kind.scan_keyword hsingle hbreaks) rfl
      (ofLexeme?_keyword hsingle b.nextId source ⟨b.offset, _⟩) rfl
    obtain ⟨d, hread', hgrown'⟩ := read_gap ceilings source c kind
      ('(' :: (charsAll parameters ++ ')' :: post))
    have hgrown := hgrown.trans hgrown'
    rw [List.append_nil] at hgrown
    have hopened := opened_of_claims hgrown.current
      (by simp [claims, keywordToken, hfunction, hasChildren])
    have htext : (Sketch.call kind parameters).chars =
        (kind.keyword.toList ++ kind.gap) ++ '(' :: (charsAll parameters ++ [')']) := rfl
    have hmentions : mentioned ∨ kind = .regexpMatch →
        Mentions (pre ++ (kind.keyword.toList ++ kind.gap)) := by
      rintro (hmentioned | hregexp)
      · exact (hsite.reaches.mentions hmentioned).append_left _
      · exact ((mentions_keyword hregexp).append_left _).append_right _
    have hinside := hsite.inside htext (by rw [hgrown.offset, List.length_append]) hgrown.frames
      hopened hmentions
    have hcontents := readsAll hraw parameters hparameters hinside (.opening _)
      (by simp [Unclaimed, hopened.current])
    have hdepth := hsite.depth
    rw [depth] at hdepth
    obtain ⟨e, children, stop, hread'', hoffset, hframes, hproblems, hmatches, hcurrent⟩ :=
      read_parentheses (by rw [hgrown.frames]; omega) hopened hcontents
    refine ⟨e, _, ?_, ⟨?_, ?_, ?_, hcurrent⟩, .call rfl rfl ?_ rfl hmatches, ?_⟩
    · rw [htext]
      simp only [List.append_assoc, List.cons_append, List.nil_append]
      rw [hread, hread', hread'']
    · rw [hoffset, hgrown.offset, htext]
      simp only [List.length_append, List.length_cons, List.length_nil]
      omega
    · rw [hframes, hgrown.frames]
    · rw [hproblems, hgrown.problems]
    · simp [keywordToken, Kind.tokenKind, Kind.isSign_of_isFunction hfunction]
    · exact fun later _ => rfl
  | .group contents, mentioned, b, pre, post, hsound, hsite, _, hunclaimed => by
    -- no token claims the parenthesis, so it opens a group
    have hopened := opened_of_unclaimed hunclaimed
    have htext : (Sketch.group contents).chars = [] ++ '(' :: (charsAll contents ++ [')']) := rfl
    have hinside := hsite.inside htext rfl rfl hopened
      (by rw [List.append_nil]; exact hsite.reaches.mentions)
    have hcontents := readsAll hraw contents hsound hinside (.opening _)
      (by simp [Unclaimed, hopened.current])
    have hdepth := hsite.depth
    rw [depth] at hdepth
    obtain ⟨c, children, stop, hread, hoffset, hframes, hproblems, hmatches, hcurrent⟩ :=
      read_parentheses (by omega) hopened hcontents
    refine ⟨c, _, ?_, ⟨?_, hframes, hproblems, hcurrent⟩, .group rfl rfl rfl hmatches, ?_⟩
    · rw [chars, List.cons_append, List.append_assoc]
      exact hread
    · rw [hoffset, chars, List.length_cons, List.length_append, List.length_singleton]
      omega
    · exact fun later _ => rfl

/-- The text of sound sketches is read as trees that match them. -/
lemma readsAll {ceilings : Ceilings} {source : List Char} {raw : Lexeme → Prop}
    (hraw : ∀ lexeme : Lexeme, MentionsBeside source lexeme.source → raw lexeme) :
    (sketches : List Sketch) → {mentioned : Prop} →
    {b : TreeBuilder} → {pre post : List Char} → SoundAll raw mentioned sketches →
    Site ceilings source mentioned b pre (charsAll sketches) post (depthAll sketches) → Opens pre →
    b.Unclaimed b.offset → ReadsAllAs ceilings source b sketches (charsAll sketches) post
  | [], _, b, _, _, _, _, _, _ => ⟨b, [], rfl, .refl b, .nil⟩
  | sketch :: rest, mentioned, b, pre, post, hsound, hsite, hopens, hunclaimed => by
    rw [charsAll] at hsite
    obtain ⟨c, tree, hread, hgrown, hmatches, hrests⟩ :=
      readsAs hraw sketch hsound.1 (hsite.first rfl) hopens hunclaimed
    obtain ⟨d, trees, hread', hgrown', hmatches'⟩ := readsBehind hraw rest hsound.2
      (hsite.next rfl hgrown) (by rw [hgrown.current]; rintro _ ⟨⟩; exact hrests)
    refine ⟨d, tree :: trees, ?_, ?_, .cons hmatches hmatches'⟩
    · rw [charsAll, List.append_assoc, hread, hread']
    · rw [charsAll, List.length_append]
      exact hgrown.trans hgrown'

/-- The text of sound sketches behind a token is read as trees that match them. -/
lemma readsBehind {ceilings : Ceilings} {source : List Char} {raw : Lexeme → Prop}
    (hraw : ∀ lexeme : Lexeme, MentionsBeside source lexeme.source → raw lexeme) :
    (sketches : List Sketch) → {mentioned : Prop} →
    {b : TreeBuilder} → {pre post : List Char} → SoundAll raw mentioned sketches →
    Site ceilings source mentioned b pre (charsBehind sketches) post (depthAll sketches) →
    (∀ tree ∈ b.current.head?, tree.token.RestsAt b.offset) →
    ReadsAllAs ceilings source b sketches (charsBehind sketches) post
  | [], _, b, _, _, _, _, _ => ⟨b, [], rfl, .refl b, .nil⟩
  | sketch :: rest, mentioned, b, pre, post, hsound, hsite, hrests => by
    rw [charsBehind, List.append_assoc] at hsite
    have hrest : ∀ {c : TreeBuilder} {tree : TokenTree},
        read ceilings source b (sketch.gap ++ sketch.chars ++ (charsBehind rest ++ post)) =
          read ceilings source c (charsBehind rest ++ post) →
        Grown b c (sketch.gap ++ sketch.chars).length [tree] → sketch.Matches tree →
        tree.token.RestsAt c.offset →
        ReadsAllAs ceilings source b (sketch :: rest) (charsBehind (sketch :: rest)) post := by
      intro c tree hread hgrown hmatches hrests
      rw [← List.append_assoc] at hsite
      obtain ⟨d, trees, hread', hgrown', hmatches'⟩ := readsBehind hraw rest hsound.2
        (hsite.next rfl hgrown) (by rw [hgrown.current]; rintro _ ⟨⟩; exact hrests)
      refine ⟨d, tree :: trees, ?_, ?_, .cons hmatches hmatches'⟩
      · rw [charsBehind, List.append_assoc, hread, hread']
      · rw [charsBehind, List.length_append]
        exact hgrown.trans hgrown'
    have hblank : sketch.gap = [' '] →
        ReadsAllAs ceilings source b (sketch :: rest) (charsBehind (sketch :: rest)) post := by
      intro hgap
      rw [hgap] at hsite
      obtain ⟨c, hread, hgrown⟩ := read_blank ceilings source b
        (sketch.chars ++ (charsBehind rest ++ post))
      have hunclaimed : c.Unclaimed c.offset := by
        intro tree htree
        rw [hgrown.current] at htree
        refine hrests tree htree c.offset ?_
        rw [hgrown.offset]
        omega
      have hnext :
        Site ceilings source mentioned c (pre ++ [' ']) (sketch.chars ++ charsBehind rest)
          post (depthAll (sketch :: rest)) :=
        hsite.next (Nat.max_self _).symm hgrown
      obtain ⟨d, tree, hread', hgrown', hmatches, hrests'⟩ :=
        readsAs hraw sketch hsound.1 (hnext.first rfl) (.blank pre) hunclaimed
      rw [← List.singleton_append, ← List.append_assoc, ← hgap] at hread
      rw [← hread] at hread'
      refine hrest hread' ?_ hmatches hrests'
      rw [hgap, List.length_append]
      exact hgrown.trans hgrown'
    -- a comma stands right behind a token, everything else behind a blank
    cases sketch with
    | comma =>
      have hcomma : ReadsAs ceilings source b .comma (charsBehind rest ++ post) := readsAs_comma _
      obtain ⟨c, tree, hread, hgrown, hmatches, hrests'⟩ := hcomma
      exact hrest hread hgrown hmatches hrests'
    | _ => exact hblank rfl

end

end TreeBuilder

/-- The text of sound sketches is cut into trees that match them, and nothing is wrong with it. -/
theorem TokenForest.ofText_charsAll {sketches : List Sketch} {raw : Lexeme → Prop}
    {ceilings : Ceilings} (hsound : Sketch.SoundAll raw False sketches)
    (hraw : ∀ lexeme : Lexeme, Token.MentionsBeside (Sketch.charsAll sketches) lexeme.source →
      raw lexeme)
    (hdepth : Sketch.depthAll sketches ≤ ceilings.depth) :
    ∃ forest, ofText (String.ofList (Sketch.charsAll sketches)) ceilings = .ok forest ∧
      forest.source = Sketch.charsAll sketches ∧ forest.problems = [] ∧
        Sketch.MatchesAll sketches forest.trees := by
  have hsource : (String.ofList (Sketch.charsAll sketches)).toList.map straightenChar =
      Sketch.charsAll sketches := by
    rw [String.toList_ofList, (Sketch.isStraight_charsAll False sketches hsound).map_eq]
  have hsite : TreeBuilder.Site ceilings (Sketch.charsAll sketches) False {} []
      (Sketch.charsAll sketches) [] (Sketch.depthAll sketches) :=
    ⟨by simp, ⟨rfl, False.elim⟩, .nil, by simpa using hdepth⟩
  obtain ⟨b, trees, hread, hgrown, hmatches⟩ :=
    TreeBuilder.readsAll hraw sketches hsound hsite .nil fun tree htree => by cases htree
  have hend : TreeBuilder.read ceilings (Sketch.charsAll sketches) b [] = .ok b := by
    rw [TreeBuilder.read, Lexeme.scan_nil]
    rfl
  rw [List.append_nil, hend, TreeBuilder.read] at hread
  refine ⟨b.finish (Sketch.charsAll sketches), ?_, rfl, ?_, ?_⟩
  · rw [ofText]
    simp only [hsource, hread]
    rfl
  · simp [TreeBuilder.finish, hgrown.problems, hgrown.frames]
  · simpa [TreeBuilder.finish, hgrown.frames, hgrown.current, TreeBuilder.closeAll] using hmatches

end RecordQuery
