import RecordQuery.Phrase.Reduction

/-!
# Drawing phrases from a sequence of tokens

Phrases are drawn one after the other from a sequence of *elements*: tokens together with the way to
read them, which includes reading what is in their parentheses. A phrase ends before a delimiter or
a connective, and before a clause keyword that is not its first token. Where it ends depends on the
tokens alone and is decided before anything is read.

Phrases joined by `AND` and `OR` fold into groups: first the runs of phrases with `AND` between
them, then the runs with `OR` between them.
-/

namespace RecordQuery

/-- A token and how it is read: as an item, and as the owner of a list of parameters. -/
structure Element where
  token : Token
  item : Parse Item
  parameters : Parse (List Item)

/-- A failure to draw a phrase: the problem, and the elements that were not consumed. -/
structure Stuck where
  problem : Problem
  rest : List Element

/-- Drawing from a sequence, which takes notes and may get stuck. -/
abbrev Draw (α : Type) := Reader Stuck α

/-- A reading that, if it fails, leaves the given elements unconsumed. -/
def Parse.leaving {α : Type} (rest : List Element) (reading : Parse α) : Draw α :=
  ExceptT.adapt (fun problem => ⟨problem, rest⟩) reading

/-- A drawing that, if it fails, only tells why. -/
def Draw.forget {α : Type} (drawing : Draw α) : Parse α :=
  ExceptT.adapt Stuck.problem drawing

namespace Phrase

/-! ## Where a phrase ends -/

/-- Whether a token ends the phrase before it, whatever that is. -/
def separates (token : Token) : Bool := token.isDelimiter || token.isConnective

/-- Whether a token goes on with a phrase. -/
def continues (token : Token) : Bool := !separates token && !token.isClause

/-- The elements of the first phrase of a sequence. -/
def run : List Element → List Element
  | [] => []
  | e :: rest =>
    if separates e.token then [] else e :: rest.takeWhile fun e => continues e.token

/-- The elements behind the first phrase of a sequence. -/
def afterRun : List Element → List Element
  | [] => []
  | e :: rest =>
    if separates e.token then e :: rest else rest.dropWhile fun e => continues e.token

/-- A phrase leaves no more elements than there were. -/
theorem length_afterRun_le (elements : List Element) :
    (afterRun elements).length ≤ elements.length := by
  cases elements with
  | nil => simp [afterRun]
  | cons e rest =>
    have := (List.dropWhile_sublist (l := rest) fun e => continues e.token).length_le
    simp only [afterRun]
    split <;> simp only [List.length_cons] <;> omega

/-! ## One phrase -/

/-- Reads the elements of a phrase, given those behind it. -/
def readAll : (elements after : List Element) → Draw (List Item)
  | [], _ => return []
  | e :: rest, after => do
    let item ← e.item.leaving (e :: rest ++ after)
    return item :: (← readAll rest after)

/-- Draws the first phrase of a sequence, if there is one. What is left is `afterRun`. -/
def drawOne (setting : Setting) (elements : List Element) : Draw (Option Item) := do
  match run elements with
  | [] => return none
  | phrase => do
    let items ← readAll phrase (afterRun elements)
    return some (← (reduce setting items).leaving (afterRun elements))

/-! ## Phrases joined by connectives -/

/-- Things in a row, with a token between each two. -/
structure Chain (α : Type) where
  first : α
  more : List (Token × α)

/-- The runs of a chain that have only `AND` between their parts. -/
def andRuns {α : Type} (first : α) : List (Token × α) → Chain (Chain α)
  | [] => ⟨⟨first, []⟩, []⟩
  | (token, next) :: rest =>
    let runs := andRuns next rest
    if token.rule = some .and then
      ⟨⟨first, (token, runs.first.first) :: runs.first.more⟩, runs.more⟩
    else ⟨⟨first, []⟩, (token, runs.first) :: runs.more⟩

/-- The conditions that some items are. -/
def conditions (setting : Setting) (connective : Connective) : List Item → Parse (List Operator)
  | [] => return []
  | item :: rest => do
    match item.condition? with
    | some condition => return condition :: (← conditions setting connective rest)
    | none =>
      Parse.failAt setting (.joinsConditions connective (setting.slice item.span)) item.token

/-- A group of the items of a chain; a single item stays what it is. -/
def join (setting : Setting) (connective : Connective) (chain : Chain Item) : Parse Item := do
  match chain.more with
  | [] => return chain.first
  | (anchor, _) :: _ => do
    let items := chain.first :: chain.more.map Prod.snd
    let span := items.foldl (fun span item => span.cover item.span) anchor.span
    let group := Operator.group connective (← conditions setting connective items)
    Parse.recordPhrase anchor span group
    return ⟨anchor, span, .node (.operator (group.withSpan span))⟩

/-- Folds the runs of a chain, from left to right. -/
def joinRuns (setting : Setting) : List (Token × Chain Item) → Parse (List (Token × Item))
  | [] => return []
  | (token, chain) :: rest => do
    let item ← join setting .and chain
    return (token, item) :: (← joinRuns setting rest)

/-- Folds phrases and the connectives between them into one item, `AND` binding
tighter than `OR`. -/
def consolidate (setting : Setting) (terms : List Item) (connectives : List Token) :
    Parse Item := do
  match terms with
  | [] => throw { fault := .phrase .nothingToFold }
  | first :: more =>
    let runs := andRuns first (connectives.zip more)
    let node ← join setting .and runs.first
    let links ← joinRuns setting runs.more
    let nodes := node :: links.map Prod.snd
    if nodes.length = 1 then
      match nodes.getLast? with
      | some node => return node
      | none => throw { fault := .phrase .lostNode }
    else join setting .or ⟨node, links⟩

/-- Draws a phrase of a chain, if there is one. No connective may stand where the phrase begins. -/
def drawTerm (setting : Setting) (budget : Nat) (elements : List Element) :
    Draw (Option Item) := do
  if budget = 0 then throw ⟨setting.exhausted, elements⟩
  if let some e := elements.head? then
    if e.token.isConnective then
      throw ⟨setting.problemAt (.conditionOnBothSides e.token.text) e.token, elements⟩
  drawOne setting elements

/-- Draws the connectives and phrases behind the first phrase of a chain, and what is left. -/
def drawLinks (setting : Setting) (budget : Nat) :
    List Element → Draw (List (Token × Item) × List Element)
  | [] => return ([], [])
  | e :: rest => do
    if !e.token.isConnective then return ([], e :: rest)
    match ← drawTerm setting budget rest with
    | none => throw ⟨setting.problemAt (.conditionExpectedAfter e.token.text) e.token, rest⟩
    | some item =>
      let (links, left) ← drawLinks setting (budget - 1) (afterRun rest)
      return ((e.token, item) :: links, left)
termination_by elements => elements.length
decreasing_by
  have := length_afterRun_le rest
  simp only [List.length_cons]
  omega

/-- Draws phrases joined by connectives and folds them into one item, if there is a phrase. -/
def drawGroup (setting : Setting) (elements : List Element) :
    Draw (Option Item × List Element) := do
  match ← drawTerm setting setting.ceilings.steps elements with
  | none => return (none, elements)
  | some item =>
    let (links, rest) ← drawLinks setting (setting.ceilings.steps - 1) (afterRun elements)
    let folded ← (consolidate setting (item :: links.map Prod.snd) (links.map Prod.fst)).leaving
      rest
    return (some folded, rest)

/-! ## Parentheses -/

/-- Reads phrases with commas between them, to the end of a sequence. -/
def drawParameters (setting : Setting) (owner : Token) (budget : Nat) (elements : List Element) :
    Parse (List Item) := do
  if budget = 0 then throw setting.exhausted
  match ← (drawOne setting elements).forget with
  | none =>
    let place := (elements.head?.map Element.token).getD owner
    Parse.failAt setting (.parameterExpected owner.text) place
  | some item =>
    match _h : afterRun elements with
    | [] => return [item]
    | e :: rest =>
      if e.token.isComma then
        return item :: (← drawParameters setting owner (budget - 1) rest)
      else
        Parse.failAt setting (.leftoverInParameters (setting.describe e.token) owner.text) e.token
termination_by elements.length
decreasing_by
  have := length_afterRun_le elements
  rw [_h] at this
  simp only [List.length_cons] at this
  omega

/-- The parameters in the parentheses of a token. -/
def parameters (setting : Setting) (owner : Token) (elements : List Element) :
    Parse (List Item) :=
  if elements.isEmpty then return []
  else drawParameters setting owner setting.ceilings.steps elements

/-- The item that the contents of a group fold into. -/
def groupItem (setting : Setting) (token : Token) (elements : List Element) : Parse Item := do
  let (item, rest) ← (drawGroup setting elements).forget
  match item, rest with
  | none, _ => Parse.failAt setting .emptyParentheses token
  | some item, [] => do
    Parse.markOpened token
    return { item with span := token.fullSpan }
  | some _, e :: _ =>
    Parse.failAt setting (.leftoverInParentheses (setting.describe e.token)) e.token

/-- The item of a token, given the elements in its parentheses. -/
def tokenItem (setting : Setting) (token : Token) (elements : List Element) : Parse Item := do
  if token.kind = .group then groupItem setting token elements
  else
    match token.rule with
    | some kind =>
      if kind.isFunction && token.hasChildren then do
        let items ← parameters setting token elements
        return ⟨token, token.fullSpan, .pending kind (some items)⟩
      else return ⟨token, token.fullSpan, .pending kind none⟩
    | none =>
      if token.hasChildren then Parse.failAt setting (.unknownFunction token.text) token
      else return ⟨token, token.fullSpan, .raw⟩

end Phrase

namespace TokenTree

mutual

/-- The element of a token tree. -/
def element (setting : Setting) : TokenTree → Element
  | ⟨token, children, _⟩ =>
    { token
      item := Phrase.tokenItem setting token (elements setting children)
      parameters := Phrase.parameters setting token (elements setting children) }

/-- The elements of a sequence of token trees. -/
def elements (setting : Setting) : List TokenTree → List Element
  | [] => []
  | tree :: rest => element setting tree :: elements setting rest

end

end TokenTree

end RecordQuery
