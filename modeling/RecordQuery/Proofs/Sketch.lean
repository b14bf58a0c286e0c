import Mathlib.Data.List.Forall2
import RecordQuery.Proofs.Quoting
import RecordQuery.Token.Merge

/-!
# Sketches

A *sketch* is a tree of tokens without their places. What queries are rendered as can be sketched:
its tokens stand one blank apart, but for commas, which follow what is before them, and for the
parenthesis of a function. So a list of sketches has one text, `Sketch.charsAll`.

A sketch is *sound* if its tokens are read from that text as they were sketched. Words must not be
keywords, brackets must not be closed before their end, and quotations must be closed where they
end. What a quotation is read as depends on the whole text, since all of them are taken as they
stand where the text mentions regular expressions.
-/

namespace RecordQuery

/-- A tree of tokens without their places. -/
inductive Sketch where
  /-- A keyword that owns no parentheses. -/
  | keyword (kind : Kind)
  /-- A word that is no keyword. -/
  | word (text : String)
  | bracketed (text : String)
  /-- A quotation, and the text it is read as. -/
  | quoted (lexeme : Lexeme) (text : String)
  | comma
  /-- A keyword that owns parentheses. -/
  | call (kind : Kind) (parameters : List Sketch)
  | group (contents : List Sketch)

namespace Kind

/-- Whether a kind is written as a comparison sign. -/
def isSign : Kind → Bool
  | equals | notEquals | greaterThan | lessThan | greaterOrEqual | lessOrEqual => true
  | _ => false

/-- The class of the token that a keyword is. -/
def tokenKind (kind : Kind) : TokenKind := if kind.isSign then .symbol else .word

/-- Whether a keyword is one word. -/
def isSingle (kind : Kind) : Bool := !kind.keyword.toList.contains ' '

/-- What stands between a keyword and the parenthesis it owns. -/
def gap (kind : Kind) : List Char := if kind.family = .membership then [' '] else []

/-- Functions have keywords of one word. -/
lemma isSingle_of_isFunction {kind : Kind} (h : kind.isFunction = true) : kind.isSingle = true := by
  cases kind <;> revert h <;> decide +kernel

/-- No function is written with a sign. -/
lemma isSign_of_isFunction {kind : Kind} (h : kind.isFunction = true) : kind.isSign = false := by
  cases kind <;> revert h <;> decide

@[simp] lemma upperCase_keyword (kind : Kind) : upperCase kind.keyword = kind.keyword := by
  cases kind <;> decide +kernel

/-- The keyword of a kind leads back to the kind. -/
lemma ofKeyword?_keyword {kind : Kind} (h : kind.isSingle = true) :
    ofKeyword? kind.keyword = some kind := by
  cases kind <;> revert h <;> decide +kernel

/-- A keyword that ends is one lexeme. -/
lemma scan_keyword {kind : Kind} (hsingle : kind.isSingle = true) {rest : List Char}
    (hrest : Lexeme.Breaks rest) :
    Lexeme.scan (kind.keyword.toList ++ rest) =
      .run (if kind.isSign then .symbol else .word) kind.keyword.toList :: Lexeme.scan rest := by
  cases hsign : kind.isSign with
  | true =>
    refine Lexeme.scan_sign ?_ hrest
    cases kind <;> revert hsign <;> decide +kernel
  | false =>
    refine Lexeme.scan_word ?_ ?_ hrest
    · cases kind <;> decide +kernel
    · cases kind <;> revert hsign hsingle <;> decide +kernel

/-- No keyword holds a typographic quote. -/
lemma isStraight_keyword (kind : Kind) : Text.IsStraight kind.keyword.toList := by
  cases kind <;> decide +kernel

end Kind

namespace Sketch

/-! ## Texts -/

/-- What stands before a sketch that is not the first of a list. -/
def gap : Sketch → List Char
  | comma => []
  | _ => [' ']

mutual

/-- The text of a sketch. -/
def chars : Sketch → List Char
  | keyword kind => kind.keyword.toList
  | word text => text.toList
  | bracketed text => '[' :: text.toList ++ [']']
  | quoted lexeme _ => lexeme.source
  | comma => [',']
  | call kind parameters => kind.keyword.toList ++ kind.gap ++ '(' :: (charsAll parameters ++ [')'])
  | group contents => '(' :: (charsAll contents ++ [')'])

/-- The text of some sketches. -/
def charsAll : List Sketch → List Char
  | [] => []
  | sketch :: rest => sketch.chars ++ charsBehind rest

/-- The text of some sketches that stand behind another. -/
def charsBehind : List Sketch → List Char
  | [] => []
  | sketch :: rest => sketch.gap ++ sketch.chars ++ charsBehind rest

end

@[simp] lemma charsBehind_append (a b : List Sketch) :
    charsBehind (a ++ b) = charsBehind a ++ charsBehind b := by
  induction a with
  | nil => rfl
  | cons sketch a ih => simp only [List.cons_append, charsBehind, ih, List.append_assoc]

/-- Sketches are written one behind the other. -/
lemma charsAll_append {a : List Sketch} (h : a ≠ []) (b : List Sketch) :
    charsAll (a ++ b) = charsAll a ++ charsBehind b := by
  cases a with
  | nil => exact absurd rfl h
  | cons sketch a =>
    rw [List.cons_append, charsAll, charsAll, charsBehind_append, List.append_assoc]

/-! ## Sound sketches -/

/-- Whether a quotation is read as a text. The text around it may ask for it to be taken as it
stands, and does so if regular expressions were mentioned before. -/
structure IsQuotation (raw : Lexeme → Prop) (mentioned : Prop) (lexeme : Lexeme) (text : String) :
    Prop where
  closes : lexeme.Closes
  isStraight : Text.IsStraight lexeme.source
  verbatim : raw lexeme → lexeme.verbatim = text.toList
  literal : ¬ mentioned → lexeme.literal = text.toList

mutual

/-- Whether a sketch is read from its text as it was sketched. -/
def Sound (raw : Lexeme → Prop) (mentioned : Prop) : Sketch → Prop
  | keyword kind => kind.isFunction = false ∧ kind.isSingle = true
  | word text =>
    text.toList ≠ [] ∧ (∀ c ∈ text.toList, Lexeme.isPlainChar c = true) ∧
      Kind.ofKeyword? (upperCase text) = none
  | bracketed text => ']' ∉ text.toList ∧ Text.IsStraight text.toList
  | quoted lexeme text => IsQuotation raw mentioned lexeme text
  | comma => True
  | call kind parameters =>
    kind.isFunction = true ∧ SoundAll raw (mentioned ∨ kind = .regexpMatch) parameters
  | group contents => SoundAll raw mentioned contents

/-- Whether sketches are read from their text as they were sketched. -/
def SoundAll (raw : Lexeme → Prop) (mentioned : Prop) : List Sketch → Prop
  | [] => True
  | sketch :: rest => Sound raw mentioned sketch ∧ SoundAll raw mentioned rest

end

/-- Sketches are sound if each of them is. -/
lemma soundAll_iff {raw : Lexeme → Prop} {mentioned : Prop} {sketches : List Sketch} :
    SoundAll raw mentioned sketches ↔ ∀ sketch ∈ sketches, Sound raw mentioned sketch := by
  induction sketches with
  | nil => simp [SoundAll]
  | cons sketch rest ih => simp [SoundAll, ih]

mutual

/-- The deepest nesting of parentheses in a sketch. -/
def depth : Sketch → Nat
  | call _ parameters => depthAll parameters + 1
  | group contents => depthAll contents + 1
  | _ => 0

/-- The deepest nesting of parentheses in some sketches. -/
def depthAll : List Sketch → Nat
  | [] => 0
  | sketch :: rest => max sketch.depth (depthAll rest)

end

mutual

/-- A sound sketch is written without typographic quotes. -/
lemma isStraight_chars {raw : Lexeme → Prop} :
    (mentioned : Prop) → (sketch : Sketch) → Sound raw mentioned sketch →
      Text.IsStraight sketch.chars
  | _, keyword kind, _ => kind.isStraight_keyword
  | _, word text, h => fun c hc =>
    Text.straightenChar_of_lt (Lexeme.isPlainChar_lt (h.2.1 c hc))
  | _, bracketed text, h => by
    have hbrackets : Text.IsStraight ['['] ∧ Text.IsStraight [']'] := by decide
    exact Text.isStraight_append.mpr
      ⟨Text.isStraight_append.mpr ⟨hbrackets.1, h.2⟩, hbrackets.2⟩
  | _, quoted lexeme text, h => h.isStraight
  | _, comma, _ => by decide
  | mentioned, call kind parameters, h => by
    have hgap : Text.IsStraight kind.gap := by cases kind <;> decide
    have hclosing : Text.IsStraight [')'] := by decide
    have hparameters := isStraight_charsAll _ parameters h.2
    have hopening : Text.IsStraight ['('] := by decide
    rw [chars, List.append_cons]
    refine Text.isStraight_append.mpr ⟨?_, Text.isStraight_append.mpr ⟨hparameters, hclosing⟩⟩
    exact Text.isStraight_append.mpr
      ⟨Text.isStraight_append.mpr ⟨kind.isStraight_keyword, hgap⟩, hopening⟩
  | mentioned, group contents, h => by
    have hclosing : Text.IsStraight [')'] := by decide
    have hopening : Text.IsStraight ['('] := by decide
    have hcontents := isStraight_charsAll _ contents h
    rw [chars, ← List.singleton_append]
    exact Text.isStraight_append.mpr
      ⟨hopening, Text.isStraight_append.mpr ⟨hcontents, hclosing⟩⟩

/-- Sound sketches are written without typographic quotes. -/
lemma isStraight_charsAll {raw : Lexeme → Prop} :
    (mentioned : Prop) → (sketches : List Sketch) → SoundAll raw mentioned sketches →
      Text.IsStraight (charsAll sketches)
  | _, [], _ => by simp [charsAll, Text.IsStraight]
  | mentioned, sketch :: rest, h => Text.isStraight_append.mpr
    ⟨isStraight_chars mentioned sketch h.1, isStraight_charsBehind mentioned rest h.2⟩

/-- What stands behind a sound sketch is written without typographic quotes. -/
lemma isStraight_charsBehind {raw : Lexeme → Prop} :
    (mentioned : Prop) → (sketches : List Sketch) → SoundAll raw mentioned sketches →
      Text.IsStraight (charsBehind sketches)
  | _, [], _ => by simp [charsBehind, Text.IsStraight]
  | mentioned, sketch :: rest, h => by
    have hgap : Text.IsStraight sketch.gap := by
      have hblank : Text.IsStraight [' '] := by decide
      cases sketch with
      | comma => exact fun _ h => nomatch h
      | _ => exact hblank
    exact Text.isStraight_append.mpr
      ⟨Text.isStraight_append.mpr ⟨hgap, isStraight_chars mentioned sketch h.1⟩,
        isStraight_charsBehind mentioned rest h.2⟩

end

/-! ## Matching trees -/

/-- Whether a token tree is what was sketched. -/
inductive Matches : Sketch → TokenTree → Prop
  | keyword {kind : Kind} {t : Token} {children absorbed : List TokenTree}
      (rule : t.rule = some kind) (text : t.text = kind.keyword) (class_ : t.kind = kind.tokenKind)
      (childless : t.hasChildren = false) : Matches (.keyword kind) ⟨t, children, absorbed⟩
  | word {text : String} {t : Token} {children absorbed : List TokenTree} (rule : t.rule = none)
      (text_eq : t.text = text) (class_ : t.kind = .word) (childless : t.hasChildren = false) :
      Matches (.word text) ⟨t, children, absorbed⟩
  | bracketed {text : String} {t : Token} {children absorbed : List TokenTree}
      (rule : t.rule = none) (text_eq : t.text = text) (class_ : t.kind = .bracketed)
      (childless : t.hasChildren = false) : Matches (.bracketed text) ⟨t, children, absorbed⟩
  | quoted {lexeme : Lexeme} {text : String} {t : Token} {children absorbed : List TokenTree}
      (rule : t.rule = none) (text_eq : t.text = text) (class_ : t.kind = .literal ∨ t.kind = .blob)
      (childless : t.hasChildren = false) : Matches (.quoted lexeme text) ⟨t, children, absorbed⟩
  | comma {t : Token} {children absorbed : List TokenTree} (rule : t.rule = none)
      (text : t.text = ",") (class_ : t.kind = .delimiter) (childless : t.hasChildren = false) :
      Matches .comma ⟨t, children, absorbed⟩
  | call {kind : Kind} {parameters : List Sketch} {t : Token} {children absorbed : List TokenTree}
      (rule : t.rule = some kind) (text : t.text = kind.keyword) (class_ : t.kind = .word)
      (owns : t.hasChildren = true) (children_match : List.Forall₂ Matches parameters children) :
      Matches (.call kind parameters) ⟨t, children, absorbed⟩
  | group {contents : List Sketch} {t : Token} {children absorbed : List TokenTree}
      (rule : t.rule = none) (class_ : t.kind = .group) (owns : t.hasChildren = true)
      (children_match : List.Forall₂ Matches contents children) :
      Matches (.group contents) ⟨t, children, absorbed⟩

/-- Whether token trees are what was sketched. -/
abbrev MatchesAll (sketches : List Sketch) (trees : List TokenTree) : Prop :=
  List.Forall₂ Matches sketches trees

end Sketch

end RecordQuery
