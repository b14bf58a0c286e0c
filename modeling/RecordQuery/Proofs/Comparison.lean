import Mathlib.Data.List.Forall2
import RecordQuery.Proofs.Remainders
import RecordQuery.Proofs.Shape
import RecordQuery.Phrase.Clause

/-!
# Readings side by side

Much of what is proved of readings compares two of them: the tokens of one text stand elsewhere, or
are spelled otherwise, the ceilings are higher, or the text is a part of a longer one. What is
proved of one reading alone compares it with itself. The comparisons differ in what they ask of
tokens and in what they tell of problems and notes. They do not differ in how they get from tokens
to operators, as all ways to read are made of the same few steps.

So the steps are all that a comparison has to be told of. A *likeness* says which tokens are read
alike, and hence which items and operators are; a *comparison* adds when two readings are, and keeps
that in every step. Here are the steps: what an item is read as, failures, rounds of loops and
notes. That a comparison is then kept by all phrases and clauses is shown once, in the modules after
this one.
-/

namespace RecordQuery

/-! ## Vocabularies -/

/-- What the words of a text may come to. -/
structure Vocabulary where
  /-- The property references. -/
  ref : PropertyRef → Prop
  /-- The scalars. -/
  scalar : ScalarValue → Prop
  /-- The names that `AS` introduces. -/
  name : String → Prop

/-- The vocabulary of all texts. -/
def Vocabulary.all : Vocabulary := ⟨fun _ => True, fun _ => True, fun _ => True⟩

/-- The shapes of the operators that texts denote. -/
def ShapeRules.ofText (V : Vocabulary) : ShapeRules where
  ref := V.ref
  scalar := V.scalar
  name := V.name
  subject
    | .property p => V.ref p
    | .operator op => op.isCondition = false ∧ op.kind.isClause = false
    | .value _ => False
  target
    | .property p => V.ref p
    | .operator op => op.isCondition = false ∧ op.kind.isClause = false
    | .value _ => False
  listed
    | .property p => V.ref p
    | .operator op => op.kind.isClause = false
    | .value _ => False
  groupSize n := 2 ≤ n
  listSize n := 1 ≤ n
  bound type := type = .string ∨ type = .number

section

variable (V : Vocabulary)

/-- Two trees of operators that say the same. -/
structure Operator.Alike (a b : Operator) : Prop where
  core : a.core = b.core
  shaped : a.Everywhere (Operator.Shaped (.ofText V))

/-- Two operands that say the same, the first of which has a property. -/
structure Operand.Alike (P : Operand → Prop) (a b : Operand) : Prop where
  core : a.core = b.core
  holds : P a
  shaped : ∀ op, a = .operator op → op.Everywhere (Operator.Shaped (.ofText V))

end

/-- Operators that say the same still do so wherever they stand. -/
lemma Operator.Alike.withSpan {V : Vocabulary} {a b : Operator} (h : Operator.Alike V a b)
    (r s : Span) : Operator.Alike V (a.withSpan r) (b.withSpan s) :=
  ⟨by simp [h.core], h.shaped.withSpan r fun hroot => hroot.withSpan r⟩

/-- Of operators that are alike both are conditions or none is. -/
lemma Operator.Alike.isCondition_eq {V : Vocabulary} {a b : Operator} (h : Operator.Alike V a b) :
    b.isCondition = a.isCondition := by
  have hkind := congrArg Operator.kind h.core
  rw [Operator.core_kind, Operator.core_kind] at hkind
  rw [isCondition, isCondition, hkind]

/-! ## What is read alike -/

/-- Two tokens that look the same to all that tells where phrases, lists and clauses end. -/
structure Token.Signs (t u : Token) : Prop where
  kind : u.kind = t.kind
  rule : u.rule = t.rule
  hasChildren : u.hasChildren = t.hasChildren
  isComma : u.isComma = t.isComma
  isSemicolon : u.isSemicolon = t.isSemicolon
  direction : direction? u.text = direction? t.text

namespace Token.Signs

variable {t u : Token}

/-- A token has the signs that it has itself. -/
lemma refl (t : Token) : Signs t t := ⟨rfl, rfl, rfl, rfl, rfl, rfl⟩

/-- Tokens with the same signs are both delimiters or none is. -/
lemma isDelimiter (h : Signs t u) : u.isDelimiter = t.isDelimiter := by
  rw [Token.isDelimiter, Token.isDelimiter, h.kind]

/-- Tokens with the same signs begin clauses both, or none does. -/
lemma isClause (h : Signs t u) : u.isClause = t.isClause := by
  rw [Token.isClause, Token.isClause, h.kind, h.rule]

/-- Tokens with the same signs are connectives both, or none is. -/
lemma isConnective (h : Signs t u) : u.isConnective = t.isConnective := by
  rw [Token.isConnective, Token.isConnective, h.kind, h.rule]

/-- Tokens with the same signs separate phrases both, or none does. -/
lemma separates (h : Signs t u) : Phrase.separates u = Phrase.separates t := by
  rw [Phrase.separates, Phrase.separates, h.isDelimiter, h.isConnective]

/-- Tokens with the same signs go on with a phrase both, or none does. -/
lemma continues (h : Signs t u) : Phrase.continues u = Phrase.continues t := by
  rw [Phrase.continues, Phrase.continues, h.separates, h.isClause]

/-- Tokens with the same signs go on with an entry of an ordering both, or none does. -/
lemma continuesEntry (h : Signs t u) : Clause.continuesEntry u = Clause.continuesEntry t := by
  rw [Clause.continuesEntry, Clause.continuesEntry, h.isDelimiter, h.rule]

end Token.Signs

/-- What is alike in two readings. -/
structure Likeness where
  /-- What the words of the first reading come to. -/
  vocabulary : Vocabulary
  /-- Tokens that are read alike. -/
  Tokens : Token → Token → Prop
  /-- Whether such tokens stand at one place. -/
  exact : Prop
  /-- Whether they are the same. -/
  faithful : Prop

namespace Likeness

section

variable (K : Likeness)

/-- Two operators that are made alike. -/
structure Operators (a b : Operator) : Prop where
  alike : Operator.Alike K.vocabulary a b
  same : K.exact → a = b

/-- Two operands that are made alike, the first of which has a property. -/
structure Operands (P : Operand → Prop) (a b : Operand) : Prop where
  alike : Operand.Alike K.vocabulary P a b
  same : K.exact → a = b

/-- Two items that are read alike. -/
inductive Items : Item → Item → Prop
  | raw {t u : Token} {r r' : Span} (token : K.Tokens t u) (span : K.exact → r = r') :
      Items ⟨t, r, .raw⟩ ⟨u, r', .raw⟩
  | pending {t u : Token} {r r' : Span} {kind : Kind} (token : K.Tokens t u)
      (span : K.exact → r = r') : Items ⟨t, r, .pending kind none⟩ ⟨u, r', .pending kind none⟩
  | call {t u : Token} {r r' : Span} {kind : Kind} {is js : List Item} (token : K.Tokens t u)
      (span : K.exact → r = r') (parameters : List.Forall₂ Items is js) :
      Items ⟨t, r, .pending kind (some is)⟩ ⟨u, r', .pending kind (some js)⟩
  | node {t u : Token} {r r' : Span} {a b : Operator} (token : K.Tokens t u)
      (span : K.exact → r = r') (operator : K.Operators a b) (notClause : a.kind.isClause = false) :
      Items ⟨t, r, .node (.operator a)⟩ ⟨u, r', .node (.operator b)⟩

/-- Two lists of items that are read alike. -/
abbrev AllItems (is js : List Item) : Prop := List.Forall₂ K.Items is js

/-- Two faults that are told of tokens that are read alike. None is internal: what cannot happen
while phrases are read is no fault of a token. -/
structure Faults (f f' : PhraseFault) : Prop where
  kind : f'.kind = f.kind
  kind_ne : f.kind ≠ .internal
  same : K.faithful → f' = f

end

variable {K : Likeness} {is js : List Item} {i j : Item}

/-- Every fault but those of the reader itself is compared with itself. -/
lemma Faults.refl {f : PhraseFault} (h : f.kind ≠ .internal) : K.Faults f f :=
  ⟨rfl, h, fun _ => rfl⟩

/-- Operators stay comparable when they are given spans, the same ones where spans are compared. -/
lemma Operators.withSpan {a b : Operator} (h : K.Operators a b) {r r' : Span}
    (hspan : K.exact → r = r') : K.Operators (a.withSpan r) (b.withSpan r') :=
  ⟨h.alike.withSpan r r', fun hexact => by rw [h.same hexact, hspan hexact]⟩

/-- Comparable operators are comparable as operands. -/
lemma Operators.operand {a b : Operator} (h : K.Operators a b) {P : Operand → Prop}
    (hP : P (.operator a)) : K.Operands P (.operator a) (.operator b) := by
  refine ⟨⟨?_, hP, ?_⟩, fun hexact => by rw [h.same hexact]⟩
  · simp only [Operand.core, h.alike.core]
  · rintro op ⟨⟩
    exact h.alike.shaped

/-- A property is comparable with itself. -/
lemma Operands.property {P : Operand → Prop} {p : PropertyRef} (hP : P (.property p)) :
    K.Operands P (.property p) (.property p) := ⟨⟨rfl, hP, nofun⟩, fun _ => rfl⟩

/-- Comparable operands may be said to be what follows from what they are. -/
lemma Operands.mono {P Q : Operand → Prop} {a b : Operand} (h : K.Operands P a b)
    (hPQ : P a → Q a) : K.Operands Q a b :=
  ⟨⟨h.alike.core, hPQ h.alike.holds, h.alike.shaped⟩, h.same⟩

namespace Items

/-- Comparable items have comparable tokens. -/
lemma token (h : K.Items i j) : K.Tokens i.token j.token := by
  cases h with
  | raw token | pending token | call token | node token => exact token

/-- Where spans are compared, comparable items have the same one. -/
lemma span (h : K.Items i j) : K.exact → i.span = j.span := by
  cases h with
  | raw _ span | pending _ span | call _ span | node _ span => exact span

/-- Items stay comparable when they are given spans, the same ones where spans are compared. -/
lemma moved (h : K.Items i j) {r r' : Span} (hspan : K.exact → r = r') :
    K.Items { i with span := r } { j with span := r' } := by
  cases h with
  | raw token => exact .raw token hspan
  | pending token => exact .pending token hspan
  | call token _ parameters => exact .call token hspan parameters
  | node token _ operator notClause => exact .node token hspan operator notClause

/-- Of two items that are read alike, both are conditions or none is. -/
lemma condition (h : K.Items i j) :
    (i.condition? = none ∧ j.condition? = none) ∨
      ∃ a b, i.condition? = some a ∧ j.condition? = some b ∧ K.Operators a b ∧
        a.isCondition = true := by
  cases h with
  | raw | pending | call => exact .inl ⟨rfl, rfl⟩
  | @node t u r r' a b _ _ hab =>
    have hcondition := hab.alike.isCondition_eq
    cases ha : a.isCondition with
    | true =>
      exact .inr ⟨a, b, by simp [Item.condition?, ha], by simp [Item.condition?, hcondition, ha],
        hab, ha⟩
    | false => exact .inl ⟨by simp [Item.condition?, ha], by simp [Item.condition?, hcondition, ha]⟩

/-- Of two items that are read alike, both wait to be an operator of a tier or none does. -/
lemma pendingAt? (h : K.Items i j) (tier : Nat) :
    (Phrase.pendingAt? tier i = none ∧ Phrase.pendingAt? tier j = none) ∨
      ∃ kind p q, Phrase.pendingAt? tier i = some (kind, p) ∧
        Phrase.pendingAt? tier j = some (kind, q) ∧ Option.Rel K.AllItems p q := by
  cases h with
  | raw | node => exact .inl ⟨rfl, rfl⟩
  | @pending t u r r' kind token =>
    by_cases hkind : kind.tier = tier
    · exact .inr ⟨kind, none, none, if_pos hkind, if_pos hkind, .none⟩
    · exact .inl ⟨if_neg hkind, if_neg hkind⟩
  | @call t u r r' kind is js token _ parameters =>
    by_cases hkind : kind.tier = tier
    · exact .inr ⟨kind, some is, some js, if_pos hkind, if_pos hkind, .some parameters⟩
    · exact .inl ⟨if_neg hkind, if_neg hkind⟩

/-- Items that stand at the same places cover the same span. -/
lemma cover_eq (h : K.AllItems is js) (hexact : K.exact) (span : Span) :
    js.foldl (fun span item => span.cover item.span) span =
      is.foldl (fun span item => span.cover item.span) span := by
  induction h generalizing span with
  | nil => rfl
  | cons hij _ ih =>
    rw [List.foldl_cons, List.foldl_cons, hij.span hexact]
    exact ih _

end Items

end Likeness

/-! ## Comparisons -/

namespace ScalarValue

variable {text : String} {isQuoted : Bool} {allowed : List ScalarType}

/-- A value that was accepted is the one that is inferred, and its type is allowed. -/
lemma of_inferAs_ok {value : ScalarValue} (h : inferAs text isQuoted allowed = .ok value) :
    value = infer text isQuoted ∧ allows allowed value.type = true := by
  unfold inferAs at h
  dsimp only at h
  split at h
  · cases h
    exact ⟨rfl, ‹_›⟩
  · cases h

/-- A text that is no scalar of an allowed type is a fault of the text. -/
lemma of_inferAs_error {fault : PhraseFault} (h : inferAs text isQuoted allowed = .error fault) :
    fault = .wrongType allowed (infer text isQuoted).type text := by
  unfold inferAs at h
  dsimp only at h
  split at h
  · cases h
  · cases h
    rfl

end ScalarValue

/-- The problem that a failure tells of. -/
class Telling (ε : Type) where
  problem : ε → Problem

instance : Telling Problem := ⟨id⟩

instance : Telling Stuck := ⟨Stuck.problem⟩

open Reader

/-- Two results that are one, which has a property. -/
def Reader.Same {α : Type} (P : α → Prop) (a b : α) : Prop := a = b ∧ P a

namespace Token

/-- A word as a property. -/
def asProperty (s : Setting) (t : Token) : Parse PropertyRef := do
  let isAlias := (← get).draft.isAlias t.text
  Parse.setRole t .property
  return if isAlias then .byAlias t.text else .ofText t.text s.registry

/-- A word as a scalar of one of some types. -/
def asValue (s : Setting) (t : Token) (allowed : List ScalarType) : Parse ScalarValue :=
  match ScalarValue.inferAs t.text t.isLiteral allowed with
  | .error fault => Parse.failAt s fault t
  | .ok value => do
    Parse.setRole t .value
    return value.resolveNames s.registry

/-- A word as a name. -/
def asWord (t : Token) (role : Role) : Parse String := do
  Parse.setRole t role
  return t.text

end Token

/-- Reads a clause of a kind, unless one that competes with it was noted before. -/
def Clause.unlessRepeated {α : Type} (s : Setting) (kind : Kind) (token : Token)
    (reading : Parse α) : Parse α := do
  if (← get).draft.clauses.any fun entry => entry.1.competes kind then
    Parse.failAt s (.repeatedClause kind) token
  reading

/-- Whether whoever reads a clause of a kind without a warning notes it. -/
def Clause.NotesKind {α : Type} (kind : Kind) (reading : Parse α) : Prop :=
  ∀ n a n', on reading n = (.ok a, n') → n'.draft.problems = [] →
    kind ∈ n'.draft.clauses.map Prod.fst

/-- A way to compare two readings, which is kept in each step that readings are made of. -/
structure Comparison (s s' : Setting) extends Likeness where
  /-- Whether no loop of the first reading comes to the end of its rounds. -/
  fits : Prop
  /-- Whether nothing is asked of the second reading where the first fails. -/
  oneSided : Prop
  /-- Rounds that are left in loops that are run alike. -/
  Budgets : Nat → Nat → Prop
  /-- Whether two readings are alike, where what they come to is related. -/
  Holds : ∀ {ε α β : Type} [Telling ε], (α → β → Prop) → Reader ε α → Reader ε β → Prop
  exact_of_faithful : faithful → exact
  source_eq : faithful → s'.source = s.source
  steps : Budgets s.ceilings.steps s'.ceilings.steps
  pred : ∀ {budget budget' : Nat}, Budgets budget budget' → Budgets (budget - 1) (budget' - 1)
  signs : ∀ {t u : Token}, Tokens t u → Token.Signs t u
  span_eq : ∀ {t u : Token}, exact → Tokens t u → t.span = u.span
  fullSpan_eq : ∀ {t u : Token}, exact → Tokens t u → t.fullSpan = u.fullSpan
  token_eq : ∀ {t u : Token}, faithful → Tokens t u → u = t
  pure : ∀ {ε α β : Type} [Telling ε] {R : α → β → Prop} {a : α} {b : β}, R a b →
    Holds R (pure a : Reader ε α) (pure b : Reader ε β)
  bind : ∀ {ε α β γ κ : Type} [Telling ε] {R : α → β → Prop} {S : γ → κ → Prop} {p : Reader ε α}
    {q : Reader ε β} {f : α → Reader ε γ} {g : β → Reader ε κ}, Holds R p q →
    (∀ a b, R a b → Holds S (f a) (g b)) → Holds S (p >>= f) (q >>= g)
  adapt : ∀ {ε δ α β : Type} [Telling ε] [Telling δ] {R : α → β → Prop} {p : Reader ε α}
    {q : Reader ε β} {f g : ε → δ}, Holds R p q →
    (∀ e, Telling.problem (f e) = Telling.problem e) →
    (∀ e, Telling.problem (g e) = Telling.problem e) →
    Holds R (ExceptT.adapt f p) (ExceptT.adapt g q)
  throw : ∀ {ε α β : Type} [Telling ε] {R : α → β → Prop} {e f : ε} {fault fault' : PhraseFault}
    {t u : Token}, toLikeness.Faults fault fault' → Tokens t u →
    Telling.problem e = s.problemAt fault t → Telling.problem f = s'.problemAt fault' u →
    Holds R (throw e : Reader ε α) (throw f : Reader ε β)
  of_fails : ∀ {ε α β : Type} [Telling ε] {R : α → β → Prop} {p : Reader ε α} {q : Reader ε β},
    oneSided → (∀ n, (on p n).1.isOk = false) → Holds R p q
  counted : ∀ {ε α β γ : Type} [Telling ε] {R : α → β → Prop} {budget budget' : Nat} {e f : ε}
    {k : γ → Reader ε α} {k' : γ → Reader ε β} {p : Reader ε α} {q : Reader ε β},
    Budgets budget budget' → (fits → budget ≠ 0) → Telling.problem e = s.exhausted →
    Telling.problem f = s'.exhausted → (budget ≠ 0 → Holds R p q) →
    Holds R (if budget = 0 then MonadExcept.throw e >>= k else p)
      (if budget' = 0 then MonadExcept.throw f >>= k' else q)
  recordPhrase : ∀ {t u : Token} {r r' : Span} {a b : Operator}, Tokens t u → (exact → r = r') →
    toLikeness.Operators a b →
    Holds (fun _ _ => True) (Parse.recordPhrase t r a) (Parse.recordPhrase u r' b)
  bindAlias : ∀ {name : String} {x y : Operand}, toLikeness.Operands (fun _ => True) x y →
    Holds (fun _ _ => True) (Parse.bindAlias name x) (Parse.bindAlias name y)
  markOpened : ∀ {t u : Token}, Tokens t u →
    Holds (fun _ _ => True) (Parse.markOpened t) (Parse.markOpened u)
  recordClause : ∀ {kind : Kind} {a b : Operator}, kind.isClause = true → a.kind = kind →
    toLikeness.Operators a b →
    Holds (fun _ _ => True) (Parse.recordClause kind a) (Parse.recordClause kind b)
  warn : ∀ {α β : Type} {R : α → β → Prop} {a : α} {b : β} {fault : PhraseFault} {t u : Token},
    fault.kind ≠ .internal → Tokens t u → R a b →
    Holds R (Parse.warn (s.problemAt fault t) >>= fun _ => Pure.pure a)
      (Parse.warn (s'.problemAt fault u) >>= fun _ => Pure.pure b)
  unlessRepeated : ∀ {α β : Type} {R : α → β → Prop} {p : Parse α} {q : Parse β} {kind : Kind}
    {t u : Token}, Tokens t u → Holds R p q → Clause.NotesKind kind p →
    Holds R (Clause.unlessRepeated s kind t p) (Clause.unlessRepeated s' kind u q)
  property : ∀ {t u : Token}, Tokens t u → t.kind = .word ∨ t.kind = .bracketed →
    Holds (Same vocabulary.ref) (t.asProperty s) (u.asProperty s')
  value : ∀ {t u : Token}, Tokens t u → t.kind = .word ∨ t.kind = .literal ∨ t.kind = .blob →
    ∀ allowed : List ScalarType,
      Holds (Same fun v => vocabulary.scalar v ∧ ScalarValue.allows allowed v.type = true)
        (t.asValue s allowed) (u.asValue s' allowed)
  name : ∀ {t u : Token}, Tokens t u →
    t.kind = .word ∨ t.kind = .bracketed ∨ t.kind = .literal →
      Holds (Same vocabulary.name) (t.asWord .aliasName) (u.asWord .aliasName)
  direction : ∀ {t u : Token}, Tokens t u →
    Holds (fun _ _ => True) (t.asWord .direction) (u.asWord .direction)

namespace Comparison

variable {s s' : Setting}

/-- Comparisons that need not keep tokens the same ask nothing of the sources. -/
lemma source_eq_of_unfaithful : False → s'.source = s.source := False.elim

/-- Equal budgets are equal after a round. -/
lemma pred_of_eq {budget budget' : Nat} (h : budget = budget') : budget - 1 = budget' - 1 := by
  rw [h]

variable (C : Comparison s s') {α β γ κ : Type} {R : α → β → Prop}
  {S : γ → κ → Prop} {t u : Token} {f f' : PhraseFault}

/-- Comparable faults at comparable tokens are comparable failures. -/
lemma failAt (h : C.Faults f f') (htu : C.Tokens t u) :
    C.Holds R (Parse.failAt s f t : Parse α) (Parse.failAt s' f' u : Parse β) :=
  C.throw h htu rfl rfl

/-- A failure, whatever was to come after it. -/
lemma stop {ε : Type} [Telling ε] {e e' : ε} {k : γ → Reader ε α} {k' : γ → Reader ε β}
    (h : C.Faults f f') (htu : C.Tokens t u) (he : Telling.problem e = s.problemAt f t)
    (he' : Telling.problem e' = s'.problemAt f' u) :
    C.Holds R (MonadExcept.throw e >>= k) (MonadExcept.throw e' >>= k') :=
  C.throw h htu he he'

/-- Comparable faults are comparable failures, whatever would come after them. -/
lemma stopAt {k : γ → Parse α} {k' : γ → Parse β} (h : C.Faults f f') (htu : C.Tokens t u) :
    C.Holds R (Parse.failAt s f t >>= k) (Parse.failAt s' f' u >>= k') :=
  C.throw h htu rfl rfl

/-- Comparable readings stay so when their results are changed alike. -/
lemma map {ε : Type} [Telling ε] {p : Reader ε α} {q : Reader ε β} (h : C.Holds R p q) {f : α → γ}
    {g : β → κ} (hfg : ∀ a b, R a b → S (f a) (g b)) : C.Holds S (f <$> p) (g <$> q) := by
  rw [map_eq_pure_bind, map_eq_pure_bind]
  exact C.bind h fun a b hab => C.pure (hfg a b hab)

/-- Comparable readings may be said to have results with a weaker relation. -/
lemma mono {ε : Type} [Telling ε] {p : Reader ε α} {q : Reader ε β} (h : C.Holds R p q)
    {R' : α → β → Prop} (hR : ∀ a b, R a b → R' a b) : C.Holds R' p q := by
  have hmapped := C.map h (f := id) (g := id) hR
  rwa [id_map, id_map] at hmapped

/-- Comparable readings of phrases leave elements as they are told. -/
lemma leaving {p : Parse α} {q : Parse β} {es fs : List Element} (h : C.Holds R p q) :
    C.Holds R (p.leaving es) (q.leaving fs) := C.adapt h (fun _ => rfl) fun _ => rfl

/-- Comparable readings stay so when the elements they leave are forgotten. -/
lemma forget {p : Draw α} {q : Draw β} (h : C.Holds R p q) : C.Holds R p.forget q.forget :=
  C.adapt h (fun _ => rfl) fun _ => rfl

/-! ## Texts of faults -/

variable {C}

/-- Where texts are quoted faithfully, the same spans show the same text. -/
lemma slice_eq (hfaithful : C.faithful) {r r' : Span} (hspan : C.exact → r = r') :
    s'.slice r' = s.slice r := by
  rw [Setting.slice, Setting.slice, C.source_eq hfaithful, hspan (C.exact_of_faithful hfaithful)]

/-- Where texts are quoted faithfully, comparable tokens are described alike. -/
lemma describe_eq (hfaithful : C.faithful) (htu : C.Tokens t u) : s'.describe u = s.describe t :=
  slice_eq hfaithful fun hexact => C.fullSpan_eq hexact htu

/-- A fault that tells the word of a token. -/
lemma faults_word (fault : String → PhraseFault) (htu : C.Tokens t u)
    (hkind : (fault "").kind ≠ .internal) (hall : ∀ text, (fault text).kind = (fault "").kind) :
    C.Faults (fault t.text) (fault u.text) :=
  ⟨(hall _).trans (hall _).symm, hall t.text ▸ hkind, fun hfaithful => by
    rw [C.token_eq hfaithful htu]⟩

/-- A fault that shows a part of the source. -/
lemma faults_slice (fault : String → PhraseFault) {r r' : Span} (hspan : C.exact → r = r')
    (hkind : (fault "").kind ≠ .internal) (hall : ∀ text, (fault text).kind = (fault "").kind) :
    C.Faults (fault (s.slice r)) (fault (s'.slice r')) :=
  ⟨(hall _).trans (hall _).symm, hall (s.slice r) ▸ hkind, fun hfaithful => by
    rw [slice_eq hfaithful hspan]⟩

/-! ## Items -/

variable {i j : Item}

/-- Comparable items are read alike as properties. -/
lemma holds_property (h : C.Items i j) :
    C.Holds (Same C.vocabulary.ref) (i.property s) (j.property s') := by
  have hfails : C.Holds (Same C.vocabulary.ref)
      (Parse.failAt s (.propertyExpected (s.slice i.span)) i.token)
      (Parse.failAt s' (.propertyExpected (s'.slice j.span)) j.token) :=
    C.failAt (faults_slice _ h.span nofun fun _ => rfl) h.token
  cases h with
  | @raw t u r r' htu =>
    unfold Item.property
    dsimp only
    rw [(C.signs htu).kind]
    cases hkind : t.kind with
    | word => exact C.property htu (.inl hkind)
    | bracketed => exact C.property htu (.inr hkind)
    | _ => exact hfails
  | pending | call | node => exact hfails

/-- Comparable items are read alike as values. -/
lemma holds_value (h : C.Items i j) (allowed : List ScalarType) :
    C.Holds (Same fun v => C.vocabulary.scalar v ∧ ScalarValue.allows allowed v.type = true)
      (i.value s allowed) (j.value s' allowed) := by
  have hfails : C.Holds
      (Same fun v => C.vocabulary.scalar v ∧ ScalarValue.allows allowed v.type = true)
      (Parse.failAt s (.valueExpected (s.slice i.span)) i.token)
      (Parse.failAt s' (.valueExpected (s'.slice j.span)) j.token) :=
    C.failAt (faults_slice _ h.span nofun fun _ => rfl) h.token
  cases h with
  | @raw t u r r' htu =>
    unfold Item.value
    dsimp only
    rw [(C.signs htu).kind]
    cases hkind : t.kind with
    | word | literal | blob => exact C.value htu (by simp [hkind]) allowed
    | _ => exact hfails
  | pending | call | node => exact hfails

/-- Words are read alike in a role if the words of tokens that are read alike are. -/
lemma holds_word (h : C.Items i j) (role : Role) {R : String → String → Prop}
    (hwords : ∀ {t u : Token}, C.Tokens t u →
      t.kind = .word ∨ t.kind = .bracketed ∨ t.kind = .literal →
        C.Holds R (t.asWord role) (u.asWord role)) :
    C.Holds R (i.word s role) (j.word s' role) := by
  have hfails : C.Holds R (Parse.failAt s (.nameExpected (s.slice i.span)) i.token)
      (Parse.failAt s' (.nameExpected (s'.slice j.span)) j.token) :=
    C.failAt (faults_slice _ h.span nofun fun _ => rfl) h.token
  cases h with
  | @raw t u r r' htu =>
    unfold Item.word
    dsimp only
    rw [(C.signs htu).kind]
    cases hkind : t.kind with
    | word | bracketed | literal => exact hwords htu (by simp [hkind])
    | _ => exact hfails
  | pending | call | node => exact hfails

/-- Comparable items are read alike as names. -/
lemma holds_name (h : C.Items i j) :
    C.Holds (Same C.vocabulary.name) (i.word s .aliasName) (j.word s' .aliasName) :=
  holds_word h .aliasName C.name

/-- Comparable items are read alike as directions, but the directions may differ. -/
lemma holds_direction (h : C.Items i j) :
    C.Holds (fun _ _ => True) (i.word s .direction) (j.word s' .direction) :=
  holds_word h .direction fun htu _ => C.direction htu

/-- Comparable items are read alike as operands that are properties. -/
lemma holds_asProperty {P : Operand → Prop} (hP : ∀ p, C.vocabulary.ref p → P (.property p))
    (h : C.Items i j) :
    C.Holds (C.Operands P) (do return Operand.property (← i.property s))
      (do return Operand.property (← j.property s')) := by
  refine C.bind (holds_property h) ?_
  rintro p _ ⟨rfl, hp⟩
  exact C.pure (.property (hP p hp))

/-- Comparable items are read alike as subjects. -/
lemma holds_subject (h : C.Items i j) :
    C.Holds (C.Operands (ShapeRules.ofText C.vocabulary).subject) (i.subject s) (j.subject s') := by
  have hproperty := holds_asProperty (P := (ShapeRules.ofText C.vocabulary).subject)
    (fun _ hp => hp) h
  cases h with
  | raw | pending | call => exact hproperty
  | @node t u r r' a b _ _ hab notClause =>
    unfold Item.subject
    dsimp only
    rw [hab.alike.isCondition_eq]
    split
    · exact hproperty
    · rename_i hcondition
      exact C.pure (hab.operand ⟨by simpa using hcondition, notClause⟩)

/-- Comparable items are read alike as expressions. -/
lemma holds_expression (h : C.Items i j) :
    C.Holds (C.Operands (ShapeRules.ofText C.vocabulary).listed) (i.expression s)
      (j.expression s') := by
  have hproperty := holds_asProperty (P := (ShapeRules.ofText C.vocabulary).listed)
    (fun _ hp => hp) h
  cases h with
  | raw | pending | call => exact hproperty
  | node _ _ hab notClause => exact C.pure (hab.operand notClause)

/-- Comparable items are read alike as conditions. -/
lemma holds_condition (h : C.Items i j) :
    C.Holds (fun a b => C.Operators a b ∧ a.isCondition = true) (i.condition s)
      (j.condition s') := by
  unfold Item.condition
  obtain ⟨hi, hj⟩ | ⟨a, b, hi, hj, hab⟩ := h.condition
  · rw [hi, hj]
    exact C.failAt (faults_slice _ h.span nofun fun _ => rfl) h.token
  · rw [hi, hj]
    exact C.pure hab

end Comparison

end RecordQuery
