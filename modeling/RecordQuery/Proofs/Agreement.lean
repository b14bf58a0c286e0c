import RecordQuery.Proofs.KeywordWalk
import RecordQuery.Proofs.ComparedClauses

/-!
# Readings that agree

Where the tokens of a text stand, and how they are numbered, decides what its reading notes and how
a fault is described. It does not decide which operators the text denotes, nor whether it denotes
any. To say so, two readings are compared, on tokens and notes that *say the same*: they come to
operators that say the same, or they fail with faults of one kind.

The relations ask a little more of the first of the two sides. What the words of its tokens come to
belongs to a *vocabulary*, and its operators have one of the shapes that texts denote. So a reading
run beside itself tells what is true of all that it comes to.
-/

namespace RecordQuery

/-- Whether a token comes to nothing but what a vocabulary has. -/
structure Vocabulary.Covers (V : Vocabulary) (registry : Registry) (token : Token) : Prop where
  ref : token.kind = .word ∨ token.kind = .bracketed →
    V.ref (.ofText token.text registry) ∧ V.ref (.byAlias token.text)
  scalar : token.kind = .word ∨ token.kind = .literal ∨ token.kind = .blob →
    V.scalar ((ScalarValue.infer token.text token.isLiteral).resolveNames registry)
  name : token.kind = .word ∨ token.kind = .bracketed ∨ token.kind = .literal →
    V.name token.text

section

variable (V : Vocabulary) (registry : Registry)

/-- Two tokens that say the same. -/
structure Token.Alike (t u : Token) : Prop where
  kind : t.kind = u.kind
  text : t.text = u.text
  rule : t.rule = u.rule
  hasChildren : t.hasChildren = u.hasChildren
  covered : V.Covers registry t

/-- Two recorded clauses that say the same. -/
structure Clause.Alike (a b : Kind × Operator) : Prop where
  key : a.1 = b.1
  kind : a.2.kind = a.1
  isClause : a.1.isClause = true
  operator : Operator.Alike V a.2 b.2

/-- Two notes that say the same. -/
structure Notes.Alike (n m : Notes) : Prop where
  names : n.draft.aliases.map Prod.fst = m.draft.aliases.map Prod.fst
  clauses : List.Forall₂ (Clause.Alike V) n.draft.clauses m.draft.clauses
  problems : n.draft.problems.length = m.draft.problems.length

/-- Tokens that say the same are read alike, wherever they stand. -/
def Likeness.alike : Likeness where
  vocabulary := V
  Tokens := Token.Alike V registry
  exact := False
  faithful := False

end

/-- Two settings that differ in the source only. -/
structure Setting.Alike (s s' : Setting) : Prop where
  registry : s.registry = s'.registry
  steps : s.ceilings.steps = s'.ceilings.steps

/-- Tokens that are alike have the same signs. -/
lemma Token.Alike.signs {V : Vocabulary} {registry : Registry} {t u : Token}
    (h : Token.Alike V registry t u) : Token.Signs t u := by
  have hdelimiter : u.isDelimiter = t.isDelimiter := by rw [isDelimiter, isDelimiter, h.kind]
  constructor
  · exact h.kind.symm
  · exact h.rule.symm
  · exact h.hasChildren.symm
  · rw [isComma, isComma, hdelimiter, h.text]
  · rw [isSemicolon, isSemicolon, hdelimiter, h.text]
  · rw [h.text]

/-! ## Agreement -/

namespace Reader

variable {V : Vocabulary}
variable {ε δ α β : Type} [Telling ε] [Telling δ]

/-- Two results that are related, or two failures of one class. -/
def Corresponds (R : α → β → Prop) : Except ε α → Except δ β → Prop
  | .ok a, .ok b => R a b
  | .error e, .error f => (Telling.problem e).kind = (Telling.problem f).kind
  | _, _ => False

/-- Two readings that come to related results, or to failures of one class, on notes that say the
same, and leave notes that say the same. -/
def Agree (V : Vocabulary) (R : α → β → Prop) (p : Reader ε α) (q : Reader δ β) : Prop :=
  ∀ n m, Notes.Alike V n m →
    Corresponds R (on p n).1 (on q m).1 ∧ Notes.Alike V (on p n).2 (on q m).2

/-- Related results agree. -/
lemma Agree.pure {R : α → β → Prop} {a : α} {b : β} (h : R a b) :
    Agree V R (pure a : Reader ε α) (pure b : Reader δ β) := fun _ _ hnotes => ⟨h, hnotes⟩

/-- Failures of one class agree. -/
lemma Agree.throw {R : α → β → Prop} {e : ε} {f : δ}
    (h : (Telling.problem e).kind = (Telling.problem f).kind) :
    Agree V R (throw e : Reader ε α) (throw f : Reader δ β) := fun _ _ hnotes => ⟨h, hnotes⟩

/-- Two steps agree if they do one by one. -/
lemma Agree.bind {α' β' : Type} {R : α → β → Prop} {S : α' → β' → Prop} {p : Reader ε α}
    {q : Reader δ β} {f : α → Reader ε α'} {g : β → Reader δ β'} (h : Agree V R p q)
    (next : ∀ a b, R a b → Agree V S (f a) (g b)) : Agree V S (p >>= f) (q >>= g) := by
  intro n m hnotes
  have hpq := h n m hnotes
  rw [on_bind, on_bind]
  rcases hp : on p n with ⟨a | e, n'⟩ <;> rcases hq : on q m with ⟨b | f, m'⟩ <;>
    rw [hp, hq] at hpq
  · exact hpq
  · exact hpq.1.elim
  · exact hpq.1.elim
  · exact next _ _ hpq.1 _ _ hpq.2

/-- Failures of one class agree whatever was to come after them. -/
lemma Agree.stop {α' β' : Type} {R : α' → β' → Prop} {e : ε} {f : δ} {k : α → Reader ε α'}
    {k' : β → Reader δ β'} (h : (Telling.problem e).kind = (Telling.problem f).kind) :
    Agree V R (MonadExcept.throw e >>= k) (MonadExcept.throw f >>= k') :=
  Agree.bind (R := fun _ _ => False) (Agree.throw h) fun _ _ => False.elim

/-- What the first of two readings ensures can be asked of its result. -/
lemma Agree.ensuring {R : α → β → Prop} {P : α → Prop} {p : Reader ε α} {q : Reader δ β}
    (h : Agree V R p q) (hp : Ensures P p) : Agree V (fun a b => R a b ∧ P a) p q := by
  intro n m hnotes
  obtain ⟨hpq, hnotes'⟩ := h n m hnotes
  refine ⟨?_, hnotes'⟩
  rcases ha : on p n with ⟨a | a, n'⟩ <;> rcases hb : on q m with ⟨b | b, m'⟩ <;> rw [ha, hb] at hpq
  · exact hpq
  · exact hpq
  · exact hpq
  · exact ⟨hpq, hp _ _ _ ha⟩

/-- Readings agree that look at the notes, if they do on any notes that are alike. -/
lemma Agree.get {f : Notes → Reader ε α} {g : Notes → Reader δ β} {R : α → β → Prop}
    (h : ∀ n m, Notes.Alike V n m → Agree V R (f n) (g m)) :
    Agree V R (get >>= f) (get >>= g) := by
  intro n m hnotes
  simpa using h n m hnotes n m hnotes

/-- Changes of the notes agree that keep them alike. -/
lemma Agree.modify {f g : Notes → Notes}
    (h : ∀ n m, Notes.Alike V n m → Notes.Alike V (f n) (g m)) :
    Agree V (fun _ _ => True) (modify f : Reader ε Unit) (modify g : Reader δ Unit) :=
  fun n m hnotes => ⟨trivial, h n m hnotes⟩

/-- Readings agree however their failures are wrapped. -/
lemma Agree.adapt {ε' δ' : Type} [Telling ε'] [Telling δ'] {R : α → β → Prop} {p : Reader ε α}
    {q : Reader δ β} {f : ε → ε'} {g : δ → δ'} (h : Agree V R p q)
    (hf : ∀ e, Telling.problem (f e) = Telling.problem e)
    (hg : ∀ e, Telling.problem (g e) = Telling.problem e) :
    Agree V R (ExceptT.adapt f p) (ExceptT.adapt g q) := by
  intro n m hnotes
  have hpq := h n m hnotes
  rw [on_adapt, on_adapt]
  rcases hp : on p n with ⟨a | e, n'⟩ <;> rcases hq : on q m with ⟨b | e', m'⟩ <;>
    rw [hp, hq] at hpq
  · refine ⟨?_, hpq.2⟩
    show (Telling.problem (f a)).kind = (Telling.problem (g b)).kind
    rw [hf, hg]
    exact hpq.1
  · exact hpq
  · exact hpq
  · exact hpq

/-- A phrase that only the second of two readings notes makes no difference. -/
lemma Agree.afterPhrase {R : α → β → Prop} {p : Parse α} {k : Unit → Parse β} {t : Token} {r : Span}
    {a : Operator} (h : Agree V R p (k ())) : Agree V R p (Parse.recordPhrase t r a >>= k) :=
  fun n m hnotes => by
    rw [on_bind]
    exact h n _ ⟨hnotes.names, hnotes.clauses, hnotes.problems⟩

end Reader

open Reader

variable {V : Vocabulary}

/-! ## Notes that say the same -/

/-- Roles do not matter. -/
lemma Reader.Agree.setRole {t t' : Token} {role role' : Role} :
    Agree V (fun _ _ => True) (Parse.setRole t role) (Parse.setRole t' role') :=
  Agree.modify fun _ _ h => ⟨h.names, h.clauses, h.problems⟩

/-- The names of a table after an insertion depend on the names before it only. -/
lemma Table.map_fst_insertSorted {α : Type} :
    (s t : Table α) → (key : String) → (a b : α) → s.map Prod.fst = t.map Prod.fst →
      (Table.insertSorted s key a).map Prod.fst = (Table.insertSorted t key b).map Prod.fst
  | [], [], _, _, _, _ => rfl
  | [], _ :: _, _, _, _, h => by simp at h
  | _ :: _, [], _, _, _, h => by simp at h
  | x :: s, y :: t, key, a, b, h => by
    obtain ⟨hxy, hst⟩ : x.1 = y.1 ∧ s.map Prod.fst = t.map Prod.fst := by simpa using h
    simp only [Table.insertSorted, hxy]
    split
    · simp [hst]
    · split
      · simp [hxy, hst]
      · simp [hxy, Table.map_fst_insertSorted s t key a b hst]

/-- Which names are bound depends on the names of a table only. -/
lemma Table.contains_eq_of_map_fst {α : Type} :
    (s t : Table α) → (key : String) → s.map Prod.fst = t.map Prod.fst →
      Table.contains s key = Table.contains t key
  | [], [], _, _ => rfl
  | [], _ :: _, _, h => by simp at h
  | _ :: _, [], _, h => by simp at h
  | x :: s, y :: t, key, h => by
    obtain ⟨hxy, hst⟩ : x.1 = y.1 ∧ s.map Prod.fst = t.map Prod.fst := by simpa using h
    have ih := Table.contains_eq_of_map_fst s t key hst
    simp only [Table.contains, Table.get?_cons, hxy] at ih ⊢
    split
    · rfl
    · exact ih

/-- Notes that are alike have the same aliases. -/
lemma Notes.Alike.isAlias {n m : Notes} (h : Notes.Alike V n m) (name : String) :
    n.draft.isAlias name = m.draft.isAlias name :=
  Table.contains_eq_of_map_fst _ _ name h.names

namespace Clause

/-- Clauses that are alike are noted in the same place. -/
lemma recordIn_rel {kind : Kind} {a b : Operator} (hab : Alike V (kind, a) (kind, b))
    {as bs : List (Kind × Operator)} (hclauses : List.Forall₂ (Alike V) as bs) :
    List.Forall₂ (Alike V) (Draft.recordIn kind a as) (Draft.recordIn kind b bs) := by
  induction hclauses with
  | nil => exact .cons hab .nil
  | cons hxy hrest ih =>
    simp only [Draft.recordIn, hxy.key]
    split
    · exact .cons hab hrest
    · exact .cons hxy ih

/-- Noting clauses that are alike keeps the notes alike. -/
lemma agree_recordClause {kind : Kind} {a b : Operator} (hab : Alike V (kind, a) (kind, b)) :
    Agree V (fun _ _ => True) (Parse.recordClause kind a) (Parse.recordClause kind b) :=
  Agree.modify fun _ _ hnotes => ⟨hnotes.names, recordIn_rel hab hnotes.clauses, hnotes.problems⟩

/-- Notes that are alike have clauses of the same kinds. -/
lemma any_competes_eq {n m : Notes} (h : Notes.Alike V n m) (kind : Kind) :
    (n.draft.clauses.any fun entry => entry.1.competes kind) =
      m.draft.clauses.any fun entry => entry.1.competes kind := by
  have hclauses := h.clauses
  generalize n.draft.clauses = as, m.draft.clauses = bs at hclauses
  induction hclauses with
  | nil => rfl
  | cons hab _ ih => rw [List.any_cons, List.any_cons, hab.key, ih]

/-- A clause is refused as repeated in both notes, or in none. -/
lemma agree_unlessRepeated {s s' : Setting} {α β : Type} {R : α → β → Prop} {p : Parse α}
    {q : Parse β} {kind : Kind} {t u : Token} (h : Agree V R p q) :
    Agree V R (unlessRepeated s kind t p) (unlessRepeated s' kind u q) := by
  refine Agree.get fun n m hnotes => ?_
  rw [any_competes_eq hnotes]
  split
  · exact Agree.stop rfl
  · exact h

end Clause

/-! ## Words -/

namespace Token.Alike

variable {s s' : Setting} {t u : Token}

/-- Tokens that are alike are read as the same property. -/
lemma agree_asProperty (hs : Setting.Alike s s') (h : Token.Alike V s.registry t u)
    (hkind : t.kind = .word ∨ t.kind = .bracketed) :
    Agree V (Same V.ref) (t.asProperty s) (u.asProperty s') := by
  refine Agree.get fun n m hnotes => ?_
  refine Agree.bind Agree.setRole fun _ _ _ => ?_
  rw [← hs.registry, ← h.text, hnotes.isAlias]
  refine Agree.pure ⟨rfl, ?_⟩
  split
  · exact (h.covered.ref hkind).2
  · exact (h.covered.ref hkind).1

/-- Tokens that are alike are read as the same value. -/
lemma agree_asValue (hs : Setting.Alike s s') (h : Token.Alike V s.registry t u)
    (hkind : t.kind = .word ∨ t.kind = .literal ∨ t.kind = .blob) (allowed : List ScalarType) :
    Agree V (Same fun v => V.scalar v ∧ ScalarValue.allows allowed v.type = true)
      (t.asValue s allowed) (u.asValue s' allowed) := by
  have hliteral : u.isLiteral = t.isLiteral := by rw [isLiteral, isLiteral, h.kind]
  unfold asValue
  rw [hliteral, ← h.text, ← hs.registry]
  cases hvalue : ScalarValue.inferAs t.text t.isLiteral allowed with
  | error fault => exact Agree.throw rfl
  | ok value =>
    obtain ⟨rfl, hallowed⟩ := ScalarValue.of_inferAs_ok hvalue
    refine Agree.bind Agree.setRole fun _ _ _ => Agree.pure ⟨rfl, h.covered.scalar hkind, ?_⟩
    rwa [ScalarValue.type_resolveNames]

/-- Tokens are read as words with the relation that their texts have. -/
lemma agree_asWord {R : String → String → Prop} (role : Role) (h : R t.text u.text) :
    Agree V R (t.asWord role) (u.asWord role) :=
  Agree.bind Agree.setRole fun _ _ _ => Agree.pure h

end Token.Alike

/-! ## The comparison -/

/-- Readings of tokens that say the same, in settings that differ in the source only. -/
def Comparison.agreeing (V : Vocabulary) {s s' : Setting} (hs : Setting.Alike s s') :
    Comparison s s' where
  toLikeness := .alike V s.registry
  fits := False
  oneSided := False
  Budgets budget budget' := budget = budget'
  Holds := Agree V
  exact_of_faithful := id
  source_eq := source_eq_of_unfaithful
  steps := hs.steps
  pred := pred_of_eq
  signs := Token.Alike.signs
  span_eq := False.elim
  fullSpan_eq := False.elim
  token_eq := False.elim
  pure := Agree.pure
  bind := Agree.bind
  adapt := Agree.adapt
  throw hfaults _ he hf := Agree.throw (by rw [he, hf]; exact hfaults.kind.symm)
  of_fails := False.elim
  counted := by
    rintro _ _ _ _ _ _ budget _ _ _ _ _ _ _ rfl - he hf h
    by_cases hzero : budget = 0
    · rw [if_pos hzero, if_pos hzero]
      exact Agree.stop (by rw [he, hf]; rfl)
    · rw [if_neg hzero, if_neg hzero]
      exact h hzero
  recordPhrase _ _ _ := Agree.modify fun _ _ h => ⟨h.names, h.clauses, h.problems⟩
  bindAlias _ := Agree.modify fun _ _ h =>
    ⟨Table.map_fst_insertSorted _ _ _ _ _ h.names, h.clauses, h.problems⟩
  markOpened _ := Agree.modify fun _ _ h => ⟨h.names, h.clauses, h.problems⟩
  recordClause hclause hkind hab := Clause.agree_recordClause ⟨rfl, hkind, hclause, hab.alike⟩
  warn _ _ hab := Agree.bind
    (Agree.modify fun _ _ h => ⟨h.names, h.clauses, by simp [Draft.note, h.problems]⟩)
    fun _ _ _ => Agree.pure hab
  unlessRepeated _ h _ := Clause.agree_unlessRepeated h
  property h hkind := h.agree_asProperty hs hkind
  value h hkind := h.agree_asValue hs hkind
  name h hkind := Token.Alike.agree_asWord _ ⟨h.text, h.covered.name hkind⟩
  direction _ := Token.Alike.agree_asWord _ trivial

/-! ## Token trees -/

section

variable (V : Vocabulary) (registry : Registry)

/-- Two token trees that say the same. -/
abbrev TokenTree.Alike : TokenTree → TokenTree → Prop := Corresponds (Token.Alike V registry)

/-- Two lists of token trees that say the same. -/
abbrev TokenTree.AllAlike : List TokenTree → List TokenTree → Prop :=
  AllCorrespond (Token.Alike V registry)

end

namespace TokenTree

variable {registry : Registry} {as bs : List TokenTree}

/-- Trees that are alike spell the same words. -/
lemma spells_eq (h : TokenTree.AllAlike V registry as bs) (words : List String) :
    spells words as = spells words bs := by
  induction h generalizing words with
  | nil => cases words <;> rfl
  | cons hab _ ih =>
    cases words with
    | nil => rfl
    | cons word words =>
      rw [spells, spells, ih, Token.isWord, Token.isWord, hab.root.kind, hab.root.text]

/-- Trees that are alike spell the same keyword at their beginning. -/
lemma spelled?_eq (h : TokenTree.AllAlike V registry as bs) : spelled? as = spelled? bs := by
  simp only [spelled?, spells_eq h]

/-- Trees that say the same are read alike. -/
lemma AllAlike.elements {s s' : Setting} (hs : Setting.Alike s s') (as bs : List TokenTree)
    (h : TokenTree.AllAlike V s.registry as bs) :
    (Comparison.agreeing V hs).Sequences [] (elements s as) (elements s' bs) :=
  AllCorrespond.sequences (C := .agreeing V hs) as bs h False.elim

end TokenTree

namespace Clause

variable {s s' : Setting} {hs : Setting.Alike s s'} {es fs : List Element}

/-- Clauses that say the same are read alike. -/
lemma agree_readAll (h : (Comparison.agreeing V hs).Sequences [] es fs) :
    Agree V (fun _ _ => True) (readAll s es) (readAll s' fs) :=
  Comparison.holds_readAll es fs h False.elim

/-- Conditions without keywords that say the same are read alike. -/
lemma agree_readCondition (h : (Comparison.agreeing V hs).Sequences [] es fs) :
    Agree V (fun _ _ => True) (readCondition s es) (readCondition s' fs) :=
  Comparison.holds_readCondition h False.elim

end Clause

end RecordQuery
