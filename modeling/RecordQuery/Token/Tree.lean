import RecordQuery.Text.Quoted
import RecordQuery.Token.Basic
import RecordQuery.Token.Lexeme

/-!
# Token trees

Lexemes become tokens, and parentheses give the tokens their nesting. A parenthesis belongs to the
token before it, if that is a function keyword, or a plain word that touches it, and owns no list
yet; otherwise it begins a group of its own.

The trees are built by a machine that reads one lexeme at a time and keeps the parentheses that are
still open as a list of *frames*. Only two things stop it: a closing parenthesis where none is open,
and an opening one at the greatest depth allowed. Everything else that is wrong with the source, as
a quote or a parenthesis that is never closed, is noted and passed over.
-/

namespace RecordQuery

/-- A token with the trees in its parentheses. `absorbed` holds the trees of words that were merged
into the token and are no longer read. -/
structure TokenTree where
  token : Token
  children : List TokenTree := []
  absorbed : List TokenTree := []
deriving Inhabited

/-- The safety ceilings of reading a query text. -/
structure Ceilings where
  /-- The deepest nesting of parentheses. -/
  depth : Nat := 64
  /-- The greatest number of rounds of any one loop. -/
  steps : Nat := 10000
deriving DecidableEq, Repr, Inhabited

/-- The result of cutting a source into tokens: the trees at the top level, the owner of each
character, and what was wrong with the source. -/
structure TokenForest where
  source : List Char
  trees : List TokenTree
  slots : List Slot
  problems : List Problem

namespace TokenTree

mutual

/-- The tokens of a tree, in the order of their numbers. -/
def tokens : TokenTree → List Token
  | ⟨token, children, absorbed⟩ => token :: (tokensOf children ++ tokensOf absorbed)

/-- The tokens of some trees, in the order of their numbers. -/
def tokensOf : List TokenTree → List Token
  | [] => []
  | tree :: rest => tokens tree ++ tokensOf rest

end

mutual

/-- The tokens of a tree that are read: those that no keyword has absorbed. -/
def reachable : TokenTree → List Token
  | ⟨token, children, _⟩ => token :: reachableOf children

/-- The tokens of some trees that no keyword has absorbed. -/
def reachableOf : List TokenTree → List Token
  | [] => []
  | tree :: rest => reachable tree ++ reachableOf rest

end

end TokenTree

namespace TokenForest

/-- Every token of a forest; the number of a token is its place in this list. -/
def tokens (forest : TokenForest) : List Token := TokenTree.tokensOf forest.trees

/-- The source text as a string. -/
def text (forest : TokenForest) : String := String.ofList forest.source

end TokenForest

namespace Token

/-! ## From lexemes to tokens -/

/-- A sign or word, which may be a keyword. -/
def ofWord (id : Nat) (kind : TokenKind) (text : String) (span : Span) : Token :=
  match Kind.ofKeyword? (upperCase text) with
  | some rule => { id, kind, span, text := upperCase text, rule := some rule }
  | none => { id, kind, span, text }

/-- The word whose mention, outside a quoted text, makes that text verbatim. -/
def regexpWord : List Char := "REGEXP_MATCH".toList

/-- Whether a source mentions regular expressions outside a span. -/
def mentionsRegexp (source : List Char) (span : Span) : Bool :=
  Text.occursIn regexpWord
    ((source.take span.start ++ source.drop span.stop).map Char.toUpper)

/-- A quoted text: verbatim where the rest of the source mentions regular expressions, with its
escapes taken out elsewhere. -/
def ofQuoted (id : Nat) (source : List Char) (span : Span) (quote : Char) (body : List Char)
    (fault : Option TokenFault) : Token :=
  if mentionsRegexp source span then
    { id, span, fault, kind := .blob, text := String.ofList body }
  else { id, span, fault, kind := .literal, text := String.ofList (Text.unescape quote body) }

/-- The token of a lexeme. Blanks and parentheses have none. -/
def ofLexeme? (id : Nat) (source : List Char) (span : Span) : Lexeme → Option Token
  | .blank _ | .opening | .closing => none
  | .delimiter c => some { id, span, kind := .delimiter, text := String.ofList [c] }
  | .quoted quote body closed =>
    some (ofQuoted id source span quote body (if closed then none else some .unterminatedString))
  | .block body closed =>
    some
      { id, span, kind := .blob, text := String.ofList body
        fault := if closed then none else some .unterminatedBlock }
  | .bracketed body closed =>
    some
      { id, span, kind := .bracketed, text := String.ofList body
        fault := if closed then none else some .unterminatedProperty }
  | .run .symbol chars => some (ofWord id .symbol (String.ofList chars) span)
  | .run .word chars => some (ofWord id .word (String.ofList chars) span)
  | .run .other chars => some { id, span, kind := .other, text := String.ofList chars }

/-- The token of a parenthesis that belongs to no other token. -/
def group (id offset : Nat) : Token :=
  { id, text := "(", kind := .group, span := ⟨offset, offset + 1⟩ }

/-- Whether a parenthesis at an offset belongs to the token before it. -/
def claims (token : Token) (offset : Nat) : Bool :=
  !token.hasChildren &&
    match token.rule with
    | some kind => kind.isFunction
    | none => token.kind == .word && token.span.stop == offset

end Token

/-! ## Nesting -/

/-- A parenthesis that is still open: the token it belongs to, and the trees before that token in
its sequence, the last one first. -/
structure Frame where
  owner : Token
  before : List TokenTree

/-- The machine that builds token trees. Lists grow at their heads, so they are kept reversed. -/
structure TreeBuilder where
  /-- The offset of the next lexeme. -/
  offset : Nat := 0
  /-- The number of the next token. -/
  nextId : Nat := 0
  /-- The trees of the innermost sequence. -/
  current : List TokenTree := []
  /-- The open parentheses, the innermost first. -/
  frames : List Frame := []
  /-- The owners of the characters read. -/
  slots : List Slot := []
  /-- What was wrong with the characters read. -/
  problems : List Problem := []

namespace TreeBuilder

/-- A fault at a span of the source. -/
def problemAt (source : List Char) (fault : TokenFault) (span : Span) : Problem :=
  { fault := .token fault
    location := some ⟨String.ofList (span.slice source), span⟩
    expression := String.ofList source }

/-- The machine with some more characters read, all of one owner. -/
def consume (b : TreeBuilder) (count : Nat) (slot : Slot) : TreeBuilder :=
  { b with offset := b.offset + count, slots := List.replicate count slot ++ b.slots }

/-- The machine with another token in the innermost sequence. -/
def addToken (b : TreeBuilder) (source : List Char) (token : Token) : TreeBuilder :=
  { b with
    nextId := b.nextId + 1
    current := { token } :: b.current
    problems := match token.fault with
      | some fault => problemAt source fault token.span :: b.problems
      | none => b.problems }

/-- The machine with a parenthesis opened. -/
def openList (b : TreeBuilder) : TreeBuilder :=
  match b.current with
  | tree :: before =>
    if tree.token.claims b.offset then
      { b.consume 1 (.opening tree.token.id) with
        current := [], frames := ⟨tree.token, before⟩ :: b.frames }
    else openGroup
  | [] => openGroup
where
  /-- The machine with a group opened. -/
  openGroup : TreeBuilder :=
    { b.consume 1 (.opening b.nextId) with
      nextId := b.nextId + 1
      current := []
      frames := ⟨Token.group b.nextId b.offset, b.current⟩ :: b.frames }

/-- The sequence that results from closing a frame whose list ends at an offset. -/
def closeFrame (frame : Frame) (children : List TokenTree) (stop : Nat) : List TokenTree :=
  { token := { frame.owner with childrenEnd := some stop }, children := children.reverse } ::
    frame.before

/-- Reads one lexeme. -/
def step (ceilings : Ceilings) (source : List Char) (b : TreeBuilder) (lexeme : Lexeme) :
    Except Problem TreeBuilder :=
  let width := lexeme.source.length
  let span : Span := ⟨b.offset, b.offset + width⟩
  match lexeme with
  | .blank _ => .ok (b.consume 1 .space)
  | .opening =>
    if ceilings.depth < b.frames.length + 1 then
      .error (problemAt source (.nestedTooDeep ceilings.depth) span)
    else .ok b.openList
  | .closing =>
    match b.frames with
    | [] => .error (problemAt source .unexpectedParenthesis span)
    | frame :: frames =>
      .ok { b.consume 1 (.closing frame.owner.id) with
        current := closeFrame frame b.current span.stop, frames }
  | lexeme =>
    match Token.ofLexeme? b.nextId source span lexeme with
    | some token => .ok ((b.addToken source token).consume width (.token token.id))
    | none => .ok b

/-- The top sequence, after all open parentheses are closed at the end of the source. -/
def closeAll (stop : Nat) : List Frame → List TokenTree → List TokenTree
  | [], current => current.reverse
  | frame :: frames, current => closeAll stop frames (closeFrame frame current stop)

/-- The forest, once all lexemes are read. Every parenthesis that is still open is a fault at the
end of the source. -/
def finish (source : List Char) (b : TreeBuilder) : TokenForest :=
  let missing := problemAt source .missingParenthesis ⟨b.offset, b.offset⟩
  { source
    trees := closeAll b.offset b.frames b.current
    slots := b.slots.reverse
    problems := b.problems.reverse ++ List.replicate b.frames.length missing }

end TreeBuilder

/-- Cuts a text, its quotes made straight first, into token trees. -/
def TokenForest.ofText (text : String) (ceilings : Ceilings) : Except Problem TokenForest := do
  let source := text.toList.map Text.straightenChar
  let b ← (Lexeme.scan source).foldlM (TreeBuilder.step ceilings source) {}
  return b.finish source

end RecordQuery
