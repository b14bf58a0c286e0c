import RecordQuery.Proofs.Agreement
import RecordQuery.Proofs.Names

/-!
# Readings in company

A text that is read as a part of a longer one is read in *company*: the parts before it have bound
names and noted clauses, and the parts behind it add elements at its end. What a reading of the part
alone comes to is then carried over to the reading in company, on three conditions. No word that the
part reads as a property is a name of the company, no clause of the part competes with one of the
company, and the part gives no cause for a warning.

The conditions are asked of the notes that the reading alone leaves. Notes only grow, so whatever
meets the conditions at the end has met them all along. Nothing is said of readings that fail:
alone, no reading of the part fails.
-/

namespace RecordQuery

/-- What a part of a text is read in. -/
structure Company where
  /-- The tokens of the part. -/
  tokens : List Token
  /-- What the parts before it have left. -/
  before : Draft

/-- Whether notes are later notes of the same reading. -/
structure Notes.Grows (n m : Notes) : Prop where
  roles : n.roles <:+ m.roles
  problems : n.draft.problems <+: m.draft.problems
  kinds : n.draft.clauses.map Prod.fst ⊆ m.draft.clauses.map Prod.fst

namespace Notes.Grows

variable {n m k : Notes}

/-- Notes are grown from themselves. -/
lemma refl (n : Notes) : n.Grows n := ⟨List.suffix_refl _, List.prefix_refl _, List.Subset.refl _⟩

/-- Notes that have grown twice have grown. -/
lemma trans (h : n.Grows m) (h' : m.Grows k) : n.Grows k :=
  ⟨h.roles.trans h'.roles, h.problems.trans h'.problems, List.Subset.trans h.kinds h'.kinds⟩

/-- Notes grow when roles are noted, or anything beside the draft. -/
lemma of_draft_eq (hroles : n.roles <:+ m.roles) (hdraft : m.draft = n.draft) : n.Grows m := by
  obtain ⟨draft, _, _, _⟩ := m
  obtain rfl : draft = n.draft := hdraft
  exact ⟨hroles, List.prefix_refl _, List.Subset.refl _⟩

end Notes.Grows

namespace Company

variable {G : Company} {n m : Notes}

/-- Whether notes that a part alone has left stay the same in company. -/
structure Suits (G : Company) (n : Notes) : Prop where
  names : ∀ token ∈ G.tokens, (token.id, Role.property) ∈ n.roles →
    G.before.isAlias token.text = false
  problems : n.draft.problems = []
  clauses : ∀ kind ∈ n.draft.clauses.map Prod.fst, ∀ entry ∈ G.before.clauses,
    entry.1.competes kind = false

/-- Whether notes are those of a reading in company, the other ones being those of
the part alone. -/
structure Joins (G : Company) (n m : Notes) : Prop where
  names : ∀ name, m.draft.isAlias name = (n.draft.isAlias name || G.before.isAlias name)
  problems : m.draft.problems = []
  clauses : m.draft.clauses = G.before.clauses ++ n.draft.clauses

/-- What suits the company at the end has suited it all along. -/
lemma Suits.of_grows (h : G.Suits m) (hgrows : n.Grows m) : G.Suits n := by
  refine ⟨fun token htoken hrole => ?_, ?_, fun kind hkind => ?_⟩
  · exact h.names token htoken (hgrows.roles.subset hrole)
  · exact List.prefix_nil.mp (h.problems ▸ hgrows.problems)
  · exact h.clauses kind (hgrows.kinds hkind)

/-- A part joins the company with empty notes. -/
lemma Joins.of_before (hproblems : G.before.problems = []) (hm : m.draft = G.before) :
    G.Joins {} m := by
  refine ⟨fun name => ?_, ?_, ?_⟩
  · rw [hm]
    rfl
  · rw [hm, hproblems]
  · rw [hm]
    exact (List.append_nil _).symm

/-- What is noted beside the draft does not matter. -/
lemma Joins.of_draft_eq {n' m' : Notes} (h : G.Joins n m) (hn : n'.draft = n.draft)
    (hm : m'.draft = m.draft) : G.Joins n' m' :=
  ⟨by rw [hn, hm]; exact h.names, by rw [hm]; exact h.problems, by rw [hn, hm]; exact h.clauses⟩

end Company

/-! ## Carrying over -/

namespace Reader

variable {ε δ α β γ κ : Type}

/-- Whether what a reading comes to alone is what another comes to in company. -/
def Carries (G : Company) (R : α → β → Prop) (p : Reader ε α) (q : Reader δ β) : Prop :=
  ∀ n a n', on p n = (.ok a, n') → n.Grows n' ∧ ∃ b, R a b ∧ (G.Suits n' → ∀ m, G.Joins n m →
    ∃ m', on q m = (.ok b, m') ∧ G.Joins n' m')

namespace Carries

variable {G : Company} {R : α → β → Prop} {S : γ → κ → Prop} {p : Reader ε α} {q : Reader δ β}

/-- Related results are carried. -/
lemma pure {a : α} {b : β} (h : R a b) :
    Carries G R (pure a : Reader ε α) (pure b : Reader δ β) := by
  rintro n _ _ ⟨⟩
  exact ⟨.refl n, b, h, fun _ m hm => ⟨m, rfl, hm⟩⟩

/-- A reading that fails has nothing to carry over. -/
lemma throw {e : ε} : Carries G R (MonadExcept.throw e : Reader ε α) q := by
  rintro n _ _ ⟨⟩

/-- The same, of a reading that is known to fail. -/
lemma of_fails (h : ∀ n, (on p n).1.isOk = false) : Carries G R p q := by
  intro n a n' hp
  have hfails := h n
  rw [hp] at hfails
  cases hfails

/-- Two steps carry if each of them does. -/
lemma bind {f : α → Reader ε γ} {g : β → Reader δ κ} (h : Carries G R p q)
    (hnext : ∀ a b, R a b → Carries G S (f a) (g b)) : Carries G S (p >>= f) (q >>= g) := by
  intro n c n'' hc
  rw [on_bind] at hc
  rcases hp : on p n with ⟨a | a, n'⟩ <;> rw [hp] at hc
  · cases hc
  · obtain ⟨hgrows, b, hab, hfirst⟩ := h _ _ _ hp
    obtain ⟨hgrows', d, hcd, hsecond⟩ := hnext a b hab _ _ _ hc
    refine ⟨hgrows.trans hgrows', d, hcd, fun hsuits m hm => ?_⟩
    obtain ⟨m', hq, hm'⟩ := hfirst (hsuits.of_grows hgrows') m hm
    obtain ⟨m'', hg, hm''⟩ := hsecond hsuits m' hm'
    exact ⟨m'', by rw [on_bind, hq, goOn_ok, hg], hm''⟩

/-- What is carried has nothing to do with how failures are wrapped. -/
lemma adapt {ε' δ' : Type} {f : ε → ε'} {g : δ → δ'} (h : Carries G R p q) :
    Carries G R (ExceptT.adapt f p) (ExceptT.adapt g q) := by
  intro n a n' ha
  rw [on_adapt] at ha
  rcases hp : on p n with ⟨b | b, _⟩ <;> rw [hp] at ha
  · cases ha
  · cases ha
    obtain ⟨hgrows, b, hab, hcarried⟩ := h _ _ _ hp
    refine ⟨hgrows, b, hab, fun hsuits m hm => ?_⟩
    obtain ⟨m', hq, hm'⟩ := hcarried hsuits m hm
    exact ⟨m', by rw [on_adapt, hq], hm'⟩

/-- Something that is noted beside the draft. -/
lemma noting {f : Notes → Notes} (hroles : ∀ n, n.roles <:+ (f n).roles)
    (hdraft : ∀ n, (f n).draft = n.draft) :
    Carries G (fun _ _ => True) (modify f : Reader ε Unit) (modify f : Reader δ Unit) := by
  rintro n _ _ ⟨⟩
  exact ⟨.of_draft_eq (hroles n) (hdraft n), (), trivial, fun _ m hm =>
    ⟨f m, rfl, hm.of_draft_eq (hdraft n) (hdraft m)⟩⟩

/-- Giving a token its role is the same in company. -/
lemma setRole (token : Token) (role : Role) :
    Carries G (fun _ _ => True) (Parse.setRole token role) (Parse.setRole token role) :=
  .noting (fun _ => List.suffix_cons _ _) fun _ => rfl

/-- Noting a phrase is the same in company. -/
lemma recordPhrase (token : Token) (span : Span) (op : Operator) :
    Carries G (fun _ _ => True) (Parse.recordPhrase token span op)
      (Parse.recordPhrase token span op) :=
  .noting (fun _ => List.suffix_refl _) fun _ => rfl

/-- Noting that a token opens a list is the same in company. -/
lemma markOpened (token : Token) :
    Carries G (fun _ _ => True) (Parse.markOpened token) (Parse.markOpened token) :=
  .noting (fun _ => List.suffix_refl _) fun _ => rfl

/-- A name that is bound alone is bound in company as well. -/
lemma bindAlias (name : String) (target : Operand) :
    Carries G (fun _ _ => True) (Parse.bindAlias name target) (Parse.bindAlias name target) := by
  rintro n _ _ ⟨⟩
  refine ⟨⟨List.suffix_refl _, List.prefix_refl _, List.Subset.refl _⟩, (), trivial, ?_⟩
  intro _ m hm
  refine ⟨_, rfl, fun other => ?_, hm.problems, hm.clauses⟩
  have hnames := hm.names other
  simp only [Draft.isAlias] at hnames
  simp only [Draft.isAlias, Draft.bind, Table.contains_insertSorted, hnames, Bool.or_assoc]

/-- A clause that is noted alone is noted behind those of the company, as none competes with it. -/
lemma recordClause (kind : Kind) (clause : Operator) :
    Carries G (fun _ _ => True) (Parse.recordClause kind clause)
      (Parse.recordClause kind clause) := by
  rintro n _ _ ⟨⟩
  obtain ⟨hkind, hkinds⟩ := Clause.kinds_recordIn kind clause n.draft.clauses
  refine ⟨⟨List.suffix_refl _, List.prefix_refl _, hkinds⟩, (), trivial, fun hsuits m hm => ?_⟩
  refine ⟨_, rfl, hm.names, hm.problems, ?_⟩
  dsimp only [Draft.record]
  rw [hm.clauses, Clause.recordIn_append (hsuits.clauses kind hkind)]

/-- A warning suits no company. -/
lemma warn {problem : Problem} {a : α} {b : β} (h : R a b) (q : Parse β) :
    Carries G R (Parse.warn problem >>= fun _ => Pure.pure a) q := by
  rintro n _ _ ⟨⟩
  refine ⟨⟨List.suffix_refl _, List.prefix_append _ _, List.Subset.refl _⟩, b, h, ?_⟩
  intro hsuits
  have hproblems : n.draft.problems ++ [problem] = [] := hsuits.problems
  simp at hproblems

/-- Who has noted a clause of a kind alone competes with no clause of the company. -/
lemma unlessRepeated {s s' : Setting} {p : Parse α} {q : Parse β} (h : Carries G R p q)
    {kind : Kind} (hnotes : Clause.NotesKind kind p) (token : Token) :
    Carries G R (Clause.unlessRepeated s kind token p) (Clause.unlessRepeated s' kind token q) := by
  intro n a n' hread
  rw [Clause.on_unlessRepeated] at hread
  split at hread
  · cases hread
  · rename_i hany
    obtain ⟨hgrows, b, hab, hcarried⟩ := h _ _ _ hread
    refine ⟨hgrows, b, hab, fun hsuits m hm => ?_⟩
    have hkind := hnotes _ _ _ hread hsuits.problems
    have hbefore : (G.before.clauses.any fun entry => entry.1.competes kind) = false := by
      simpa using hsuits.clauses kind hkind
    have hnone : (m.draft.clauses.any fun entry => entry.1.competes kind) = false := by
      rw [hm.clauses, List.any_append, hbefore, Bool.false_or]
      exact Bool.eq_false_iff.mpr hany
    rw [Clause.on_unlessRepeated, if_neg (Bool.eq_false_iff.mp hnone)]
    exact hcarried hsuits m hm

end Carries

end Reader

open Reader

/-! ## Words -/

namespace Token

variable {G : Company} {s s' : Setting} {t : Token}

/-- A word means the same property in company, as it is no name there that it is not alone. -/
lemma carries_asProperty (hs : Setting.Alike s s') (ht : t ∈ G.tokens) :
    Carries G (Same fun _ => True) (t.asProperty s) (t.asProperty s') := by
  rintro n _ _ ⟨⟩
  refine ⟨.of_draft_eq (List.suffix_cons _ _) rfl, _, ⟨rfl, trivial⟩, fun hsuits m hm => ?_⟩
  have hforeign : G.before.isAlias t.text = false := hsuits.names t ht List.mem_cons_self
  have hsame : m.draft.isAlias t.text = n.draft.isAlias t.text := by
    rw [hm.names, hforeign, Bool.or_false]
  refine ⟨{ m with roles := (t.id, .property) :: m.roles }, ?_, hm.of_draft_eq rfl rfl⟩
  rw [← hsame, hs.registry]
  rfl

/-- A token is read as the same value in company. -/
lemma carries_asValue (hs : Setting.Alike s s') (t : Token) (allowed : List ScalarType) :
    Carries G (Same fun v => True ∧ ScalarValue.allows allowed v.type = true)
      (t.asValue s allowed) (t.asValue s' allowed) := by
  unfold asValue
  rw [← hs.registry]
  cases hvalue : ScalarValue.inferAs t.text t.isLiteral allowed with
  | error fault => exact .throw
  | ok value =>
    refine (Carries.setRole _ _).bind fun _ _ _ => .pure ⟨rfl, trivial, ?_⟩
    rw [ScalarValue.type_resolveNames]
    exact (ScalarValue.of_inferAs_ok hvalue).2

/-- A token is read as the same word in company. -/
lemma carries_asWord (t : Token) (role : Role) :
    Carries G (Same fun _ => True) (t.asWord role) (t.asWord role) :=
  (Carries.setRole _ _).bind fun _ _ _ => .pure ⟨rfl, trivial⟩

end Token

/-! ## The comparison -/

/-- Readings of a part of a text, alone and in company. -/
def Comparison.joining (G : Company) {s s' : Setting} (hs : Setting.Alike s s') :
    Comparison s s' where
  vocabulary := .all
  Tokens t u := t = u ∧ t ∈ G.tokens
  exact := True
  faithful := False
  fits := False
  oneSided := True
  Budgets budget budget' := budget = budget'
  Holds := Carries G
  exact_of_faithful := False.elim
  source_eq := source_eq_of_unfaithful
  steps := hs.steps
  pred := pred_of_eq
  signs := by
    rintro t _ ⟨rfl, -⟩
    exact .refl t
  span_eq _ h := congrArg Token.span h.1
  fullSpan_eq _ h := congrArg Token.fullSpan h.1
  token_eq := False.elim
  pure := Carries.pure
  bind := Carries.bind
  adapt h _ _ := Carries.adapt h
  throw _ _ _ _ := Carries.throw
  of_fails _ h := Carries.of_fails h
  counted := by
    rintro _ _ _ _ _ _ budget _ _ _ _ _ _ _ rfl - - - h
    by_cases hzero : budget = 0
    · rw [if_pos hzero]
      exact Carries.of_fails fun n => by rw [on_bind, on_throw, goOn_error]; rfl
    · rw [if_neg hzero, if_neg hzero]
      exact h hzero
  recordPhrase htu hspan hab := by
    obtain ⟨rfl, -⟩ := htu
    rw [hspan trivial, hab.same trivial]
    exact .recordPhrase _ _ _
  bindAlias hxy := by
    rw [hxy.same trivial]
    exact .bindAlias _ _
  markOpened htu := by
    obtain ⟨rfl, -⟩ := htu
    exact .markOpened _
  recordClause _ _ hab := by
    rw [hab.same trivial]
    exact .recordClause _ _
  warn _ _ hab := .warn hab _
  unlessRepeated htu h hnotes := by
    obtain ⟨rfl, -⟩ := htu
    exact h.unlessRepeated hnotes _
  property htu _ := by
    obtain ⟨rfl, ht⟩ := htu
    exact Token.carries_asProperty hs ht
  value htu _ allowed := by
    obtain ⟨rfl, -⟩ := htu
    exact Token.carries_asValue hs _ allowed
  name htu _ := by
    obtain ⟨rfl, -⟩ := htu
    exact Token.carries_asWord _ _
  direction htu := by
    obtain ⟨rfl, -⟩ := htu
    exact (Carries.setRole _ _).bind fun _ _ _ => .pure trivial

/-- Token trees are read in company as they are alone. -/
lemma TokenTree.carries_elements {G : Company} {s s' : Setting} (hs : Setting.Alike s s')
    (trees : List TokenTree) (htokens : reachableOf trees ⊆ G.tokens) :
    (Comparison.joining G hs).Sequences [] (elements s trees) (elements s' trees) :=
  AllCorrespond.sequences (C := .joining G hs) trees trees
    (.refl trees fun _ htoken => ⟨rfl, htokens htoken⟩) False.elim

/-- The clauses of a part are read in company as they are alone, and then what follows is read. -/
lemma Clause.carries_readAll {G : Company} {s s' : Setting} (hs : Setting.Alike s s')
    {rest : List Element} (hrest : atEnd rest = true) :
    (es fs : List Element) → (Comparison.joining G hs).Sequences rest es fs →
      ∀ n n', on (readAll s es) n = (.ok (), n') →
        n.Grows n' ∧ (G.Suits n' → ∀ m, G.Joins n m →
          ∃ m', on (readAll s' fs) m = on (readAll s' rest) m' ∧ G.Joins n' m')
  | [], _, .nil => by
    intro n n' h
    unfold readAll at h
    cases h
    exact ⟨.refl n, fun _ m hm => ⟨m, rfl, hm⟩⟩
  | e :: es, f :: fs, .cons hef hmore => by
    intro n n' h
    rw [readAll] at h
    rw [readAll, ← hef.token.1]
    split at h
    · rename_i hsemicolon
      rw [if_pos hsemicolon]
      exact carries_readAll hs hrest es fs hmore n n' h
    · rename_i hsemicolon
      rw [if_neg hsemicolon]
      cases hkind : e.token.rule with
      | none =>
        rw [hkind] at h
        cases h
      | some kind =>
        rw [hkind] at h
        dsimp only at h ⊢
        split at h
        · rename_i hclause
          rw [if_pos hclause]
          -- one clause, and then those behind what it used up
          obtain ⟨used, n₁, hread, hnext⟩ := exists_of_on_bind h
          have hcarries : Carries G (Same fun used => used ≤ es.length) (read s kind e es)
              (read s' kind f fs) :=
            Comparison.holds_read ⟨hrest, fun _ => trivial⟩
              (Comparison.isClause_of_rule hkind hclause) hef hmore False.elim
          obtain ⟨hgrows, _, ⟨rfl, hused⟩, hcarried⟩ := hcarries _ _ _ hread
          obtain ⟨hgrows', hrest'⟩ := carries_readAll hs hrest _ _ (hmore.drop hused) n₁ n' hnext
          refine ⟨hgrows.trans hgrows', fun hsuits m hm => ?_⟩
          obtain ⟨m₁, hm₁, hjoins₁⟩ := hcarried (hsuits.of_grows hgrows') m hm
          obtain ⟨m', hm', hjoins'⟩ := hrest' hsuits m₁ hjoins₁
          exact ⟨m', by rw [on_bind, hm₁, goOn_ok, hm'], hjoins'⟩
        · cases h
termination_by es => es.length
decreasing_by
  · simp only [List.length_drop, List.length_cons]
    omega
  · simp

end RecordQuery
