import RecordQuery.Proofs.Layout

/-!
# The tokens of a text tile its source

While a text is read, each open parenthesis keeps the trees before it, and the innermost list holds
those read since. All of them lie in the source as `Tiles` says, one stretch behind the other:
`Opened` says so of the frames, `TreeBuilder.IsTiled` of the whole machine. A closing parenthesis
joins the two innermost stretches, and so does the end of the source for each list that is still
open, which leaves one tiling of the whole source.
-/

namespace RecordQuery

open TokenTree

/-! ## Single lexemes -/

/-- What the token of a lexeme takes from it. -/
lemma Token.ofLexeme?_fits {id : Nat} {source : List Char} {span : Span} {lexeme : Lexeme}
    {token : Token} (hregular : lexeme.IsRegular)
    (made : Token.ofLexeme? id source span lexeme = some token) :
    token.id = id ∧ token.span = span ∧ token.kind ≠ .group ∧ token.childrenEnd = none ∧
      (token.isEnclosed = false → ∀ c ∈ lexeme.source, Text.isBlank c = false) := by
  have hword : ∀ kind text, (Token.ofWord id kind text span).id = id ∧
      (Token.ofWord id kind text span).span = span ∧
      (Token.ofWord id kind text span).kind = kind ∧
      (Token.ofWord id kind text span).childrenEnd = none := by
    intro kind text
    unfold Token.ofWord
    split <;> exact ⟨rfl, rfl, rfl, rfl⟩
  have hrun : ∀ {kind : RunKind} {chars : List Char}, (Lexeme.run kind chars).IsRegular →
      ∀ c ∈ (Lexeme.run kind chars).source, Text.isBlank c = false := by
    intro kind chars hregular c hc
    obtain ⟨rest, hlead⟩ := hregular.2 c hc
    exact (Lexeme.leads_of_lead hlead).1
  cases lexeme with
  | blank | opening | closing => cases made
  | delimiter c =>
    cases made
    refine ⟨rfl, rfl, by simp, rfl, fun _ => List.forall_mem_singleton.mpr ?_⟩
    obtain rfl | rfl := hregular <;> decide
  | quoted quote body closed =>
    simp only [Token.ofLexeme?, Token.ofQuoted, Option.some.injEq] at made
    subst made
    split <;> exact ⟨rfl, rfl, by simp, rfl, by simp [Token.isEnclosed, Token.isLiteral]⟩
  | block | bracketed =>
    cases made
    exact ⟨rfl, rfl, by simp, rfl, by simp [Token.isEnclosed, Token.isLiteral]⟩
  | run kind chars =>
    cases kind with
    | symbol | word =>
      cases made
      obtain ⟨hid, hspan, hkind, hchildless⟩ := hword _ (String.ofList chars)
      exact ⟨hid, hspan, by simp [hkind], hchildless, fun _ => hrun hregular⟩
    | other =>
      cases made
      exact ⟨rfl, rfl, by simp, rfl, fun _ => hrun hregular⟩

/-! ## The machine -/

/-- `Opened source frames start first slots`: the stretches before the innermost list, which starts
at `start` with the token `first`, come to the frames; `slots` are the owners
of their characters. -/
inductive Opened (source : List Char) : List Frame → Nat → Nat → List Slot → Prop
  | nil : Opened source [] 0 0 []
  | claimed {frames : List Frame} {start stop first next : Nat} {before : List TokenTree}
      {owner : Token} {outer slots : List Slot}
        (frames_opened : Opened source frames start first outer)
      (tiles : Tiles source start stop first next (before.reverse ++ [⟨owner, [], []⟩]) slots)
      (claims : owner.claims stop = true) (char : source[stop]? = some '(') :
      Opened source (⟨owner, before⟩ :: frames) (stop + 1) next
        (outer ++ (slots ++ [.opening owner.id]))
  | group {frames : List Frame} {start stop first next : Nat} {before : List TokenTree}
      {outer slots : List Slot} (frames_opened : Opened source frames start first outer)
      (tiles : Tiles source start stop first next before.reverse slots)
      (char : source[stop]? = some '(') :
      Opened source (⟨Token.group next stop, before⟩ :: frames) (stop + 1) (next + 1)
        (outer ++ (slots ++ [.opening next]))

/-- Whether the source up to `stop` comes to the frames and the trees of the innermost list. -/
def Tiled (source : List Char) (frames : List Frame) (current : List TokenTree)
    (stop next : Nat) (slots : List Slot) : Prop :=
  ∃ start first outer inner, Opened source frames start first outer ∧
    Tiles source start stop first next current.reverse inner ∧ slots = outer ++ inner

/-- Closing a list joins it to the stretch before it. -/
lemma Tiled.close {source : List Char} {frame : Frame} {frames : List Frame} {stop next : Nat}
    {current : List TokenTree} {slots : List Slot} {closed : Bool}
    (h : Tiled source (frame :: frames) current stop next slots)
    (ends : ListEnds source stop closed) :
    Tiled source frames (TreeBuilder.closeFrame frame current (stop + closed.toNat))
      (stop + closed.toNat) next
      (slots ++ List.replicate closed.toNat (.closing frame.owner.id)) := by
  obtain ⟨_, _, _, inner, hframes, htiles, rfl⟩ := h
  rw [Tiled, TreeBuilder.closeFrame, List.reverse_cons]
  cases hframes with
  | claimed hframes before claims char =>
    exact ⟨_, _, _, _, hframes, .claimed before claims char htiles ends, by simp⟩
  | group hframes before char =>
    exact ⟨_, _, _, _, hframes, .group before char htiles ends, by simp [Token.group]⟩

namespace TreeBuilder

variable {ceilings : Ceilings} {source : List Char}

/-- Whether the machine has tiled the source up to its offset. -/
def IsTiled (source : List Char) (b : TreeBuilder) : Prop :=
  Tiled source b.frames b.current b.offset b.nextId b.slots.reverse

/-- The lists that are still open at the end of the source are closed there. -/
lemma tiles_closeAll {frames : List Frame} {current : List TokenTree} {next : Nat}
    {slots : List Slot} (h : Tiled source frames current source.length next slots) :
    Tiles source 0 source.length 0 next (closeAll source.length frames current) slots := by
  induction frames generalizing current slots with
  | nil =>
    obtain ⟨_, _, _, _, hframes, htiles, rfl⟩ := h
    cases hframes
    exact htiles
  | cons frame frames ih =>
    have hclosed := h.close (show ListEnds source source.length false from rfl)
    rw [Bool.toNat_false, List.replicate_zero, List.append_nil] at hclosed
    exact ih hclosed

/-- A token that can claim a list is the last of its sequence and has no list. -/
lemma eq_leaf_of_claims {start stop first next : Nat} {slots : List Slot} {tree : TokenTree}
    {before : List TokenTree} {offset : Nat}
    (h : Tiles source start stop first next (tree :: before).reverse slots)
    (claims : tree.token.claims offset = true) : tree = ⟨tree.token, [], []⟩ := by
  have hlist : tree.token.hasChildren = false := by
    rw [Token.hasChildren, Token.childless_of_claims claims]
    rfl
  have hlaid := h.isLaid tree (by simp)
  obtain ⟨token, children, absorbed⟩ := tree
  obtain rfl := hlaid.absorbed
  obtain rfl := hlaid.childless hlist
  rfl

/-- One lexeme more is tiled. -/
lemma IsTiled.reads {b c : TreeBuilder} {lexeme : Lexeme} (h : b.IsTiled source)
    (hregular : lexeme.IsRegular)
    (hchars : ∀ k < lexeme.source.length, source[b.offset + k]? = lexeme.source[k]?)
    (hreads : Reads ceilings source b lexeme c) : c.IsTiled source := by
  have hclose := h
  obtain ⟨start, first, outer, slots, hframes, htiles, hslots⟩ := h
  cases hreads with
  | blank ch =>
    refine ⟨start, first, outer, slots ++ [.space], hframes, ?_, ?_⟩
    · exact htiles.blank (hchars 0 Nat.one_pos) hregular
    · simp [consume, hslots]
  | @token lexeme token made =>
    obtain ⟨hid, hspan, hkind, hchildless, hblank⟩ := Token.ofLexeme?_fits hregular made
    have hlength : 0 < lexeme.source.length :=
      List.length_pos_iff.mpr (Lexeme.source_ne_nil hregular)
    have hnonblank : token.isEnclosed = false → ∀ o c, token.span.contains o = true →
        source[o]? = some c → Text.isBlank c = false := by
      intro henclosed o c ho hc
      simp only [hspan, Span.contains, Bool.and_eq_true, decide_eq_true_eq] at ho
      have hk := hchars (o - b.offset) (by omega)
      rw [Nat.add_sub_cancel' ho.1, hc] at hk
      exact hblank henclosed c (List.mem_of_getElem? hk.symm)
    have htoken :=
      htiles.token hid (by rw [hspan]) (by rw [hspan]; simpa) hkind hnonblank hchildless
    rw [hspan, ← List.reverse_cons] at htoken
    exact ⟨start, first, outer, _, hframes, htoken, by
      simp [addToken, consume, hslots, Span.length]⟩
  | @claim tree before depth current claims =>
    rw [current] at htiles
    have htree := eq_leaf_of_claims htiles claims
    rw [List.reverse_cons, htree] at htiles
    refine ⟨_, _, _, _, .claimed hframes htiles claims (hchars 0 Nat.one_pos), .nil _ _, ?_⟩
    simp [consume, hslots]
  | group depth unclaimed =>
    refine ⟨_, _, _, _, .group hframes htiles (hchars 0 Nat.one_pos), .nil _ _, ?_⟩
    simp [openList.openGroup, consume, hslots]
  | @close frame frames frames_eq =>
    unfold IsTiled at hclose
    rw [frames_eq] at hclose
    have hends : ListEnds source b.offset true := hchars 0 Nat.one_pos
    simpa [IsTiled, consume] using hclose.close hends

end TreeBuilder

/-! ## Forests -/

namespace TokenForest

/-- All trees of a forest, those in parentheses included, in the order of their tokens. -/
def subtrees (forest : TokenForest) : List TokenTree := subtreesOf forest.trees

/-- What the tokens of a source, their sequences and the owners of its characters have to do with
each other. -/
structure IsTiled (forest : TokenForest) : Prop where
  /-- Every character has an owner. -/
  length_slots : forest.slots.length = forest.source.length
  /-- The spaces are the blanks outside all text with terminators of its own. -/
  space : ∀ offset, forest.slots[offset]? = some .space ↔
    (∃ c, forest.source[offset]? = some c ∧ Text.isBlank c = true) ∧
      ∀ token ∈ forest.tokens, token.isEnclosed = true → token.span.contains offset = false
  /-- The other characters belong to the text of a token or are a parenthesis of its list. -/
  owner : ∀ offset slot, slot ≠ .space → (forest.slots[offset]? = some slot ↔
    ∃ tree ∈ forest.subtrees, tree.Owns forest.source offset slot)
  /-- Every token stands once in the top sequence or in one list. -/
  tokens_eq : forest.tokens = forest.subtrees.map TokenTree.token
  /-- The number of a token is its place. -/
  ids : forest.tokens.map Token.id = List.range forest.tokens.length
  /-- No span is empty, and none reaches beyond the source. -/
  spans : ∀ token ∈ forest.tokens,
    token.span.start < token.span.stop ∧ token.span.stop ≤ forest.source.length
  /-- Spans are disjoint, and their starts follow the order of the tokens. -/
  disjoint : forest.tokens.Pairwise fun a b =>
    a.span.start < b.span.start ∧ a.span.stop ≤ b.span.start
  /-- The top sequence and all lists are in the order of the source. -/
  order : InSourceOrder forest.trees ∧ ∀ tree ∈ forest.subtrees, InSourceOrder tree.children
  /-- Tokens without a list have no tokens beneath them. -/
  childless : ∀ tree ∈ forest.subtrees, tree.token.childrenEnd = none → tree.children = []
  /-- A list begins with a parenthesis, and its tokens are behind that and before its end. -/
  inside : ∀ tree ∈ forest.subtrees, ∀ stop, tree.token.childrenEnd = some stop →
    ∃ start, tree.OpensAt forest.source start ∧
      ∀ token ∈ tokensOf tree.children, start < token.span.start ∧ token.fullSpan.stop ≤ stop

end TokenForest

namespace TokenTree

mutual

/-- Where nothing is absorbed, the tokens of a tree are those of its subtrees. -/
lemma tokens_eq_map : (tree : TokenTree) → (∀ t ∈ tree.subtrees, t.absorbed = []) →
    tree.tokens = tree.subtrees.map TokenTree.token
  | ⟨token, children, absorbed⟩, h => by
    rw [subtrees, List.forall_mem_cons] at h
    obtain ⟨rfl, hchildren⟩ := h
    rw [tokens, subtrees, List.map_cons, tokensOf_eq_map children hchildren, tokensOf,
      List.append_nil]

/-- Before merging the tokens of a sequence are those of its subtrees. -/
lemma tokensOf_eq_map : (trees : List TokenTree) → (∀ t ∈ subtreesOf trees, t.absorbed = []) →
    tokensOf trees = (subtreesOf trees).map TokenTree.token
  | [], _ => by simp [tokensOf, subtreesOf]
  | tree :: rest, h => by
    rw [subtreesOf, List.forall_mem_append] at h
    rw [tokensOf, subtreesOf, List.map_append, tokens_eq_map tree h.1, tokensOf_eq_map rest h.2]

end

end TokenTree

namespace Tiles

variable {source : List Char} {next : Nat} {trees : List TokenTree} {slots : List Slot}

/-- The tokens of a text are those of its subtrees. -/
lemma tokensOf_eq (h : Tiles source 0 source.length 0 next trees slots) :
    tokensOf trees = (subtreesOf trees).map TokenTree.token :=
  tokensOf_eq_map trees fun tree htree => (h.isLaid tree htree).absorbed

/-- A character belongs to a token exactly if the token owns it. -/
lemma owner_iff (h : Tiles source 0 source.length 0 next trees slots) (offset : Nat) {slot : Slot}
    (hslot : slot ≠ .space) :
    slots[offset]? = some slot ↔ ∃ tree ∈ subtreesOf trees, tree.Owns source offset slot := by
  have howned := h.owned_iff offset hslot
  simp only [IsSlotAt, Nat.zero_add, exists_eq_left] at howned
  exact howned.symm

/-- The blanks that are not spaces are in a text with terminators of its own. -/
lemma space_iff (h : Tiles source 0 source.length 0 next trees slots) (offset : Nat) :
    slots[offset]? = some .space ↔
      (∃ c, source[offset]? = some c ∧ Text.isBlank c = true) ∧
        ∀ token ∈ tokensOf trees, token.isEnclosed = true → token.span.contains offset = false := by
  constructor
  · intro hspace
    refine ⟨h.isBlank_of_space ⟨offset, Nat.zero_add _, hspace⟩, fun token htoken henclosed => ?_⟩
    rw [h.tokensOf_eq] at htoken
    obtain ⟨tree, htree, rfl⟩ := List.mem_map.mp htoken
    -- an enclosed token claims all the places of its span
    by_contra hcontains
    have hkind : tree.token.kind ≠ .group := by
      intro hgroup
      simp [Token.isEnclosed, Token.isLiteral, hgroup] at henclosed
    have hne : Slot.token tree.token.id ≠ .space := nofun
    have hslot := (h.owner_iff offset hne).mpr
      ⟨tree, htree, .inl ⟨rfl, hkind, by simpa using hcontains⟩⟩
    rw [hspace] at hslot
    cases hslot
  · rintro ⟨⟨c, hc, hblank⟩, houtside⟩
    have hlength : slots.length = source.length := by simpa using h.length_slots
    obtain ⟨hlt, -⟩ := List.getElem?_eq_some_iff.mp hc
    obtain ⟨slot, hslot⟩ : ∃ slot, slots[offset]? = some slot :=
      ⟨_, List.getElem?_eq_getElem (hlength ▸ hlt)⟩
    by_cases hspace : slot = .space
    · rw [hslot, hspace]
    -- what claims a place is a token that holds no blank, or a parenthesis
    · obtain ⟨tree, htree, ⟨-, hkind, hcontains⟩ | ⟨-, -, hchar, -⟩ | ⟨-, -, hchar, -⟩⟩ :=
        (h.owner_iff offset hspace).mp hslot
      · have htoken : tree.token ∈ tokensOf trees := by
          rw [h.tokensOf_eq]
          exact List.mem_map_of_mem htree
        have henclosed : tree.token.isEnclosed = false := by
          by_contra henclosed
          have := houtside _ htoken (by simpa using henclosed)
          rw [hcontains] at this
          cases this
        have := (h.fits _ htoken).chars hkind henclosed offset c hcontains hc
        rw [hblank] at this
        cases this
      all_goals
        rw [hc, Option.some.injEq] at hchar
        subst hchar
        exact absurd hblank (by decide)

/-- A tiling of the whole source. -/
lemma isTiled (h : Tiles source 0 source.length 0 next trees slots) (problems : List Problem) :
    TokenForest.IsTiled { source, trees, slots, problems } where
  length_slots := by simpa using h.length_slots
  space := h.space_iff
  owner offset _ := h.owner_iff offset
  tokens_eq := h.tokensOf_eq
  ids := by
    have hids := h.ids
    have hlength := congrArg List.length hids
    rw [List.length_map, List.Ico.length, Nat.sub_zero] at hlength
    rw [List.Ico.zero_bot, ← hlength] at hids
    exact hids
  spans token htoken :=
    have hfits := h.fits token htoken
    ⟨hfits.nonempty, token.stop_span_le_fullSpan.trans hfits.stops⟩
  disjoint := by
    have hspans := List.pairwise_map.mp h.pairwise_spans
    refine hspans.imp_of_mem fun {a b} ha hb hab => ⟨?_, hab⟩
    exact (h.fits a ha).nonempty.trans_le hab
  order := ⟨h.inSourceOrder, fun tree htree => (h.isLaid tree htree).order⟩
  childless tree htree hnone := (h.isLaid tree htree).childless (by simp [Token.hasChildren, hnone])
  inside tree htree stop hstop := by
    have hlaid := h.isLaid tree htree
    obtain ⟨start, hstart⟩ := hlaid.opens (by simp [Token.hasChildren, hstop])
    exact ⟨start, hstart, hlaid.inside start stop hstart hstop⟩

end Tiles

namespace TokenForest

/-- The machine has tiled what it has read of a text. -/
lemma exists_tiled_builder {text : String} {ceilings : Ceilings} {forest : TokenForest}
    (h : ofText text ceilings = .ok forest) :
    ∃ b : TreeBuilder, b.IsTiled (text.toList.map Text.straightenChar) ∧
      b.offset = (text.toList.map Text.straightenChar).length ∧
      forest = b.finish (text.toList.map Text.straightenChar) := by
  set source := text.toList.map Text.straightenChar
  have hsource := Lexeme.flatMap_source_scan source
  have hstep : ∀ before lexeme after b c, Lexeme.scan source = before ++ lexeme :: after →
      b.IsTiled source ∧ b.offset = (before.flatMap Lexeme.source).length →
      TreeBuilder.Reads ceilings source b lexeme c →
      c.IsTiled source ∧ c.offset = ((before ++ [lexeme]).flatMap Lexeme.source).length := by
    rintro before lexeme after b c hall ⟨htiled, hoffset⟩ hreads
    have hregular :=
      Lexeme.isRegular_of_mem_scan (show lexeme ∈ Lexeme.scan source by rw [hall]; simp)
    refine ⟨htiled.reads hregular (fun k hk => ?_) hreads, ?_⟩
    · rw [← hsource, hall, List.flatMap_append, List.flatMap_cons, hoffset,
        List.getElem?_append_right (Nat.le_add_right _ _), Nat.add_sub_cancel_left,
        List.getElem?_append_left hk]
    · rw [hreads.offset_eq, hoffset]
      simp
  obtain ⟨b, ⟨htiled, hoffset⟩, rfl⟩ := exists_builder_of_invariant
    (I := fun before b => b.IsTiled source ∧ b.offset = (before.flatMap Lexeme.source).length)
    ⟨⟨0, 0, [], [], .nil, .nil 0 0, rfl⟩, rfl⟩ hstep h
  rw [hsource] at hoffset
  exact ⟨b, htiled, hoffset, rfl⟩

/-- The trees of a text and the owners of its characters tile its source. -/
lemma exists_tiles {text : String} {ceilings : Ceilings} {forest : TokenForest}
    (h : ofText text ceilings = .ok forest) :
    ∃ next, Tiles forest.source 0 forest.source.length 0 next forest.trees forest.slots := by
  obtain ⟨b, hb, hoffset, rfl⟩ := exists_tiled_builder h
  refine ⟨b.nextId, ?_⟩
  unfold TreeBuilder.IsTiled at hb
  rw [hoffset] at hb
  rw [TreeBuilder.finish, hoffset]
  exact TreeBuilder.tiles_closeAll hb

/-- The source of a forest is the text with its quotes straightened. -/
lemma source_eq {text : String} {ceilings : Ceilings} {forest : TokenForest}
    (h : ofText text ceilings = .ok forest) :
    forest.source = text.toList.map Text.straightenChar := by
  obtain ⟨b, -, rfl⟩ := exists_builder h
  rfl

/-- A text that can be cut into tokens is tiled by them. -/
theorem isTiled_of_ofText {text : String} {ceilings : Ceilings} {forest : TokenForest}
    (h : ofText text ceilings = .ok forest) :
    forest.source = text.toList.map Text.straightenChar ∧ forest.IsTiled := by
  obtain ⟨next, htiles⟩ := exists_tiles h
  exact ⟨source_eq h, htiles.isTiled forest.problems⟩

/-- A list that is closed, one that is not, a blank inside quotes, and one before a parenthesis. -/
theorem isTiled_sample : ∃ forest,
    ofText "COUNT (a) 'b c' (d" {} = .ok forest ∧
      forest.source = "COUNT (a) 'b c' (d".toList.map Text.straightenChar ∧ forest.IsTiled := by
  have hok : (ofText "COUNT (a) 'b c' (d" {}).isOk = true := by decide +kernel
  obtain ⟨forest, h⟩ : ∃ forest, ofText "COUNT (a) 'b c' (d" {} = .ok forest := by
    cases hread : ofText "COUNT (a) 'b c' (d" {} with
    | error e =>
      rw [hread] at hok
      cases hok
    | ok forest => exact ⟨forest, rfl⟩
  exact ⟨forest, h, isTiled_of_ofText h⟩

end TokenForest

end RecordQuery
