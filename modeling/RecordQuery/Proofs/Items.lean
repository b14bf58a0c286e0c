import RecordQuery.Proofs.Names
import RecordQuery.Proofs.Writable
import RecordQuery.Reading

/-!
# Sketched elements and items

The token trees that match a sketch become elements, and `Sketch.Reads` says how such an element is
read. An item *shows* an operand if it will be read as that operand: a token that is written as a
reference shows it, and a finished operator shows every operator that has its core.
-/

namespace RecordQuery

open Reader

/-! ## Elements -/

namespace Sketch

/-- Whether an element is a token that is read as it stands. -/
structure IsLeaf (text : String) (e : Element) : Prop where
  item : e.item = pure ⟨e.token, e.token.fullSpan, .raw⟩
  text_eq : e.token.text = text
  rule : e.token.rule = none

/-- Whether an element is read as what was sketched. -/
inductive Reads (s : Setting) : Sketch → Element → Prop
  | keyword {kind : Kind} {e : Element}
      (item : e.item = pure ⟨e.token, e.token.fullSpan, .pending kind none⟩)
      (rule : e.token.rule = some kind) (class_ : e.token.kind = kind.tokenKind)
      (childless : e.token.hasChildren = false) : Reads s (.keyword kind) e
  | word {text : String} {e : Element} (leaf : IsLeaf text e) (class_ : e.token.kind = .word) :
      Reads s (.word text) e
  | bracketed {text : String} {e : Element} (leaf : IsLeaf text e)
      (class_ : e.token.kind = .bracketed) : Reads s (.bracketed text) e
  | quoted {lexeme : Lexeme} {text : String} {e : Element} (leaf : IsLeaf text e)
      (class_ : e.token.kind = .literal ∨ e.token.kind = .blob) : Reads s (.quoted lexeme text) e
  | comma {e : Element} (leaf : IsLeaf "," e) (class_ : e.token.kind = .delimiter) :
      Reads s .comma e
  | call {kind : Kind} {parameters : List Sketch} {e : Element} {contents : List Element}
      (reads : List.Forall₂ (Reads s) parameters contents)
      (item : e.item = do
        let items ← Phrase.parameters s e.token contents
        return ⟨e.token, e.token.fullSpan, .pending kind (some items)⟩)
      (parameters_eq : e.parameters = Phrase.parameters s e.token contents)
      (rule : e.token.rule = some kind) (class_ : e.token.kind = .word)
      (owns : e.token.hasChildren = true) : Reads s (.call kind parameters) e
  | group {contents : List Sketch} {e : Element} {inner : List Element}
      (reads : List.Forall₂ (Reads s) contents inner)
      (item : e.item = Phrase.groupItem s e.token inner) (rule : e.token.rule = none)
      (class_ : e.token.kind = .group) : Reads s (.group contents) e

/-- Whether elements are read as what was sketched. -/
abbrev ReadsAll (s : Setting) (sketches : List Sketch) (elements : List Element) : Prop :=
  List.Forall₂ (Reads s) sketches elements

variable {s : Setting}

/-- A token without a rule and without a list is a leaf. -/
lemma isLeaf_element {t : Token} {children absorbed : List TokenTree} (hgroup : t.kind ≠ .group)
    (hrule : t.rule = none) (hchildren : t.hasChildren = false) :
    IsLeaf t.text (TokenTree.element s ⟨t, children, absorbed⟩) := by
  refine ⟨?_, rfl, hrule⟩
  rw [TokenTree.element]
  dsimp only
  rw [Phrase.tokenItem, if_neg hgroup, hrule, hchildren]
  rfl

/-- A keyword without a list waits to be settled. -/
lemma tokenItem_keyword {t : Token} {kind : Kind} (hgroup : t.kind ≠ .group)
    (hrule : t.rule = some kind) (hchildren : t.hasChildren = false) (es : List Element) :
    Phrase.tokenItem s t es = pure ⟨t, t.fullSpan, .pending kind none⟩ := by
  rw [Phrase.tokenItem, if_neg hgroup, hrule, hchildren]
  dsimp only
  rw [Bool.and_false, if_neg Bool.false_ne_true]

/-- A function with a list waits to be settled, with its parameters. -/
lemma tokenItem_call {t : Token} {kind : Kind} (hgroup : t.kind ≠ .group)
    (hrule : t.rule = some kind) (hfunction : kind.isFunction = true)
    (hchildren : t.hasChildren = true) (es : List Element) :
    Phrase.tokenItem s t es = do
      let items ← Phrase.parameters s t es
      return ⟨t, t.fullSpan, .pending kind (some items)⟩ := by
  rw [Phrase.tokenItem, if_neg hgroup, hrule]
  dsimp only
  rw [hfunction, hchildren, Bool.and_true, if_pos rfl]

mutual

/-- The element of a tree that matches a sketch is read as what was sketched. -/
lemma reads_element (s : Setting) {raw : Lexeme → Prop} : (sketch : Sketch) → {mentioned : Prop} →
    sketch.Sound raw mentioned ∨ (∃ kind, sketch = .keyword kind) → (tree : TokenTree) →
    sketch.Matches tree → sketch.Reads s (TokenTree.element s tree)
  | .keyword kind, _, _, ⟨t, children, _⟩, .keyword rule _ class_ childless => by
    have hgroup : t.kind ≠ .group := by rw [class_]; cases kind <;> decide
    rw [TokenTree.element]
    exact .keyword (tokenItem_keyword hgroup rule childless _) rule class_ childless
  | .word _, _, _, ⟨t, _, _⟩, .word rule text class_ childless =>
    .word (text ▸ isLeaf_element (by rw [class_]; decide) rule childless) class_
  | .bracketed _, _, _, ⟨t, _, _⟩, .bracketed rule text class_ childless =>
    .bracketed (text ▸ isLeaf_element (by rw [class_]; decide) rule childless) class_
  | .quoted _ _, _, _, ⟨t, _, _⟩, .quoted rule text class_ childless => by
    have hgroup : t.kind ≠ .group := by
      obtain h | h := class_ <;> rw [h] <;> decide
    exact .quoted (text ▸ isLeaf_element hgroup rule childless) class_
  | .comma, _, _, ⟨t, _, _⟩, .comma rule text class_ childless =>
    .comma (text ▸ isLeaf_element (by rw [class_]; decide) rule childless) class_
  | .call kind parameters, _, hsound, ⟨t, children, _⟩, .call rule _ class_ owns h => by
    obtain hsound | ⟨_, hkeyword⟩ := hsound
    · have hgroup : t.kind ≠ .group := by rw [class_]; decide
      rw [TokenTree.element]
      exact .call (readsAll_elements s parameters hsound.2 children h)
        (tokenItem_call hgroup rule hsound.1 owns _) rfl rule class_ owns
    · cases hkeyword
  | .group contents, _, hsound, ⟨t, children, _⟩, .group rule class_ owns h => by
    obtain hsound | ⟨_, hkeyword⟩ := hsound
    · rw [TokenTree.element]
      exact .group (readsAll_elements s contents hsound children h)
        (by rw [Phrase.tokenItem, if_pos class_]) rule class_
    · cases hkeyword

/-- The elements of trees that match sketches are read as what was sketched. -/
lemma readsAll_elements (s : Setting) {raw : Lexeme → Prop} : (sketches : List Sketch) →
    {mentioned : Prop} → SoundAll raw mentioned sketches → (trees : List TokenTree) →
    MatchesAll sketches trees → ReadsAll s sketches (TokenTree.elements s trees)
  | [], _, _, [], .nil => .nil
  | sketch :: rest, _, hsound, tree :: trees, .cons h hrest =>
    .cons (reads_element s sketch (.inl hsound.1) tree h)
      (readsAll_elements s rest hsound.2 trees hrest)

end

/-- The elements of merged trees are read as what was sketched. -/
lemma readsAll_of_expand (s : Setting) {raw : Lexeme → Prop} {sketches : List Sketch}
    (hsound : SoundAll raw False (sketches.flatMap expand)) {trees : List TokenTree}
    (h : MatchesAll sketches trees) : ReadsAll s sketches (TokenTree.elements s trees) := by
  induction h with
  | nil => exact .nil
  | @cons sketch tree sketches trees hfirst hrest ih =>
    rw [List.flatMap_cons, soundAll_iff] at hsound
    have hbehind : SoundAll raw False (sketches.flatMap expand) :=
      soundAll_iff.mpr fun sketch hmem => hsound sketch (List.mem_append_right _ hmem)
    have hreadable : sketch.Sound raw False ∨ ∃ kind, sketch = .keyword kind := by
      cases sketch with
      | keyword kind => exact .inr ⟨kind, rfl⟩
      | _ => exact .inl (hsound _ (List.mem_append_left _ (List.mem_cons_self ..)))
    exact .cons (reads_element s sketch hreadable tree hfirst) (ih hbehind)

end Sketch

/-! ## Items -/

namespace Item

/-- The item of a token that is read as it stands. -/
def ofToken (token : Token) : Item := ⟨token, token.fullSpan, .raw⟩

/-- Whether a token is written as a reference. -/
structure IsReference (registry : Registry) (p : PropertyRef) (token : Token) : Prop where
  class_ : token.kind = .word ∨ token.kind = .bracketed
  text : token.text = p.writtenText registry

/-- Whether a token is written as a scalar. -/
structure IsScalar (registry : Registry) (v : ScalarValue) (token : Token) : Prop where
  class_ : token.kind = .word ∨ token.kind = .literal ∨ token.kind = .blob
  value : ((ScalarValue.infer token.text token.isLiteral).resolveNames registry).value = v.value

/-- Whether an item will be read as an operand. -/
inductive Shows (registry : Registry) : Operand → Item → Prop
  | property {p : PropertyRef} {token : Token} (h : IsReference registry p token) :
      Shows registry (.property p) (ofToken token)
  | value {v : ScalarValue} {token : Token} (h : IsScalar registry v token) :
      Shows registry (.value v) (ofToken token)
  | operator {op op' : Operator} {token : Token} {span : Span} (core : op'.core = op.core) :
      Shows registry (.operator op) ⟨token, span, .node (.operator op')⟩

/-- An item that shows a property is a token that refers to it. -/
lemma Shows.reference {registry : Registry} {p : PropertyRef} {item : Item}
    (h : Shows registry (.property p) item) :
    ∃ token, item = ofToken token ∧ IsReference registry p token := by
  cases h with
  | property h => exact ⟨_, rfl, h⟩

/-- An item that shows a value is a token that stands for it. -/
lemma Shows.scalar {registry : Registry} {v : ScalarValue} {item : Item}
    (h : Shows registry (.value v) item) :
    ∃ token, item = ofToken token ∧ IsScalar registry v token := by
  cases h with
  | value h => exact ⟨_, rfl, h⟩

/-- Whether an operand can be an expression, and a reference is looked up rightly. -/
def Resolved (registry : Registry) (names : List String) : Operand → Prop
  | .property p => p.IsWritable registry ∧ p.isAlias = names.contains (p.writtenText registry)
  | .value _ => False
  | .operator _ => True

variable {s : Setting} {names : List String}

/-- An item that shows a property is read as this property. -/
lemma yields_property {p : PropertyRef} {item : Item}
    (hitem : Shows s.registry (.property p) item)
    (hp : Resolved s.registry names (.property p)) :
    Yields names names (· = p) (item.property s) := by
  obtain ⟨token, rfl, h⟩ := hitem.reference
  have hread : Yields names names (· = p) (do
      let isAlias := (← get).draft.isAlias token.text
      Parse.setRole token .property
      return if isAlias then PropertyRef.byAlias token.text
        else .ofText token.text s.registry) := by
    refine .get fun n hn => (Yields.setRole token .property).bind fun _ _ => .pure ?_
    rw [hn, h.text, ← hp.2]
    cases p with
    | byAlias name => rfl
    | field scope id => exact hp.1.readBack rfl
  unfold Item.property
  obtain hclass | hclass := h.class_ <;> simp only [ofToken, hclass] <;> exact hread

/-- An item that shows a value is read as this value. -/
lemma yields_value {v : ScalarValue} {item : Item} (hitem : Shows s.registry (.value v) item)
    {allowed : List ScalarType} (hallowed : ScalarValue.allows allowed v.type = true) :
    Yields names names (fun w => w.value = v.value) (item.value s allowed) := by
  obtain ⟨token, rfl, h⟩ := hitem.scalar
  have htype : (ScalarValue.infer token.text token.isLiteral).type = v.type := by
    rw [← ScalarValue.type_resolveNames _ s.registry, ScalarValue.type, h.value, ScalarValue.type]
  have hread : Yields names names (fun w => w.value = v.value) (do
      Parse.setRole token .value
      return (ScalarValue.infer token.text token.isLiteral).resolveNames s.registry) :=
    (Yields.setRole token .value).bind fun _ _ => .pure h.value
  unfold Item.value
  obtain hclass | hclass | hclass := h.class_ <;>
    simp only [ofToken, hclass, ScalarValue.inferAs, htype, hallowed, if_true] <;> exact hread

/-- A word is read as its text. -/
lemma yields_word {token : Token} (hclass : token.kind = .word ∨ token.kind = .bracketed)
    (role : Role) : Yields names names (· = token.text) ((ofToken token).word s role) := by
  have hread : Yields names names (· = token.text) (do
      Parse.setRole token role
      return token.text) := (Yields.setRole token role).bind fun _ _ => .pure rfl
  unfold Item.word
  obtain hclass | hclass := hclass <;> simp only [ofToken, hclass] <;> exact hread

/-- An item that shows an operand is read as this operand. -/
lemma yields_expression {x : Operand} {item : Item} (h : Shows s.registry x item)
    (hx : Resolved s.registry names x) :
    Yields names names (fun y => y.core = x.core) (item.expression s) := by
  cases h with
  | property htoken =>
    exact (yields_property (.property htoken) hx).bind fun q hq => .pure (by rw [hq])
  | value => exact hx.elim
  | operator core => exact .pure (by simpa [Operand.core] using core)

/-- An item that shows a subject is read as this subject. -/
lemma yields_subject {x : Operand} {item : Item} (h : Shows s.registry x item)
    (hx : Resolved s.registry names x)
    (hcondition : ∀ op, x = .operator op → op.isCondition = false) :
    Yields names names (fun y => y.core = x.core) (item.subject s) := by
  cases h with
  | property htoken =>
    exact (yields_property (.property htoken) hx).bind fun q hq => .pure (by rw [hq])
  | value => exact hx.elim
  | @operator op op' token span core =>
    have hkind : op'.isCondition = false := by
      rw [Operator.isCondition, ← Operator.core_kind, core, Operator.core_kind]
      exact hcondition op rfl
    simp only [Item.subject, hkind]
    exact .pure (by simpa [Operand.core] using core)

/-- An item that shows a condition is read as this condition. -/
lemma yields_condition {op : Operator} {item : Item} (h : Shows s.registry (.operator op) item)
    (hcondition : op.isCondition = true) :
    Yields names names (fun op' => op'.core = op.core) (item.condition s) := by
  cases h with
  | @operator _ op' token span core =>
    have hkind : op'.isCondition = true := by
      rw [Operator.isCondition, ← Operator.core_kind, core, Operator.core_kind]
      exact hcondition
    simp only [Item.condition, Item.condition?, hkind, if_true]
    exact .pure core

/-- The condition that an item shows. -/
lemma condition?_of_shows {op : Operator} {item : Item} (h : Shows s.registry (.operator op) item)
    (hcondition : op.isCondition = true) :
    ∃ op', item.condition? = some op' ∧ op'.core = op.core := by
  cases h with
  | @operator _ op' token span core =>
    have hkind : op'.isCondition = true := by
      rw [Operator.isCondition, ← Operator.core_kind, core, Operator.core_kind]
      exact hcondition
    exact ⟨op', by simp [Item.condition?, hkind], core⟩

end Item

end RecordQuery
