import RecordQuery.Proofs.ComparedClauses
import RecordQuery.Proofs.Compiling

/-!
# Which tokens problems point at

What stops the reading of a phrase or a clause points at a token and tells of a fault of the text,
or it tells that a loop has gone on for too long; what is noted on the way always points at a token.
`Reader.Blames` says so of a reading. The token is one of those that are read, because an item is
about such a token all the way from its element to the phrase that takes it in. And where there are
fewer tokens than the ceiling, no loop goes on for too long.

That is said of one reading. It is a comparison all the same, of which the second side does not
matter.
-/

namespace RecordQuery

namespace Setting

/-- Whether a problem points at one of some tokens. -/
def PointsAt (s : Setting) (tokens : List Token) (problem : Problem) : Prop :=
  ∃ fault, ∃ token ∈ tokens, problem = s.problemAt fault token

/-- What may stop the reading of some tokens, where it may be known that no loop goes on for too
long. -/
inductive Raises (s : Setting) (tokens : List Token) (fits : Prop) : Problem → Prop
  | pointing {problem : Problem} (points : s.PointsAt tokens problem)
      (kind_ne : problem.kind ≠ .internal) : Raises s tokens fits problem
  | exhausted (h : ¬ fits) : Raises s tokens fits s.exhausted

variable {s : Setting} {tokens : List Token} {fits : Prop}

/-- A fault of the text at one of the tokens may be raised. -/
lemma Raises.problemAt {fault : PhraseFault} {token : Token} (h : token ∈ tokens)
    (hkind : fault.kind ≠ .internal) : s.Raises tokens fits (s.problemAt fault token) :=
  .pointing ⟨fault, token, h, rfl⟩ hkind

/-- No internal problem stops a reading whose loops do not go on for too long. -/
lemma Raises.kind_ne {problem : Problem} (h : s.Raises tokens fits problem) (hfits : fits) :
    problem.kind ≠ .internal := by
  cases h with
  | pointing _ kind_ne => exact kind_ne
  | exhausted h => exact absurd hfits h

end Setting

namespace Reader

variable {ε δ α β : Type} [Telling ε] [Telling δ] {s : Setting} {tokens : List Token} {fits : Prop}
  {P : α → Prop} {Q : β → Prop}

/-- Whether all that a reading comes to has a property, the problems that it notes point at given
tokens, and so does what it fails with, unless that is the ceiling of a loop. -/
def Blames (s : Setting) (tokens : List Token) (fits : Prop) (P : α → Prop)
    (reading : Reader ε α) : Prop :=
  ∀ notes,
    (∀ problem ∈ (on reading notes).2.draft.problems,
      problem ∈ notes.draft.problems ∨ s.PointsAt tokens problem) ∧
    match (on reading notes).1 with
    | .ok a => P a
    | .error e => s.Raises tokens fits (Telling.problem e)

/-- The same of a reading of which no more is to be known. -/
abbrev BlamesOnly (s : Setting) (tokens : List Token) (fits : Prop) (reading : Reader ε α) : Prop :=
  Blames s tokens fits (fun _ => True) reading

namespace Blames

/-- A result blames nothing. -/
lemma pure {a : α} (h : P a) : Blames s tokens fits P (pure a : Reader ε α) :=
  fun _ => ⟨fun _ => .inl, h⟩

/-- A failure blames what it points at. -/
lemma throw {e : ε} (h : s.Raises tokens fits (Telling.problem e)) :
    Blames s tokens fits P (throw e : Reader ε α) :=
  fun _ => ⟨fun _ => .inl, h⟩

/-- Two steps blame what one of them does. -/
lemma bind {reading : Reader ε α} {next : α → Reader ε β} (h : Blames s tokens fits P reading)
    (hnext : ∀ a, P a → Blames s tokens fits Q (next a)) :
    Blames s tokens fits Q (reading >>= next) := by
  intro notes
  obtain ⟨hnoted, hfirst⟩ := h notes
  rw [on_bind]
  rcases hr : on reading notes with ⟨e | a, middle⟩ <;> rw [hr] at hnoted hfirst
  · exact ⟨hnoted, hfirst⟩
  · obtain ⟨hnoted', hsecond⟩ := hnext a hfirst middle
    refine ⟨fun problem hproblem => ?_, hsecond⟩
    rcases hnoted' problem hproblem with hbefore | hpoints
    · exact hnoted problem hbefore
    · exact .inr hpoints

/-- A reading that fails, whatever was to come after it. -/
lemma stop {e : ε} {next : α → Reader ε β} (h : s.Raises tokens fits (Telling.problem e)) :
    Blames s tokens fits Q (MonadExcept.throw e >>= next) :=
  bind (P := fun _ => False) (throw h) fun _ => False.elim

/-- What is blamed has nothing to do with how failures are wrapped. -/
lemma adapt {f : ε → δ} {reading : Reader ε α} (h : Blames s tokens fits P reading)
    (hf : ∀ e, Telling.problem (f e) = Telling.problem e) :
    Blames s tokens fits P (ExceptT.adapt f reading) := by
  intro notes
  obtain ⟨hnoted, hfirst⟩ := h notes
  rw [on_adapt]
  rcases hr : on reading notes with ⟨e | a, middle⟩ <;> rw [hr] at hnoted hfirst
  · refine ⟨hnoted, ?_⟩
    dsimp only at hfirst ⊢
    rwa [hf]
  · exact ⟨hnoted, hfirst⟩

/-- Looking at the notes blames nothing. -/
lemma get : BlamesOnly s tokens fits (MonadState.get : Reader ε Notes) :=
  fun _ => ⟨fun _ => .inl, trivial⟩

/-- Noting anything but a problem. -/
lemma modify {P : Unit → Prop} {f : Notes → Notes}
    (h : ∀ notes, (f notes).draft.problems = notes.draft.problems) (hP : P ()) :
    Blames s tokens fits P (modify f : Reader ε Unit) := by
  intro notes
  rw [on_modify]
  exact ⟨fun problem hproblem => .inl (h notes ▸ hproblem), hP⟩

/-- A warning at one of the tokens blames this token. -/
lemma warn {fault : PhraseFault} {token : Token} (h : token ∈ tokens) :
    BlamesOnly s tokens fits (Parse.warn (s.problemAt fault token)) := by
  intro notes
  refine ⟨fun problem hproblem => ?_, trivial⟩
  rcases List.mem_append.mp hproblem with hbefore | hnew
  · exact .inl hbefore
  · exact .inr ⟨fault, token, h, List.mem_singleton.mp hnew⟩

end Blames

end Reader

open Reader

variable {s : Setting} {tokens : List Token} {fits : Prop}

/-! ## Words -/

namespace Token

variable {t : Token}

/-- Reading a token as a property blames nothing. -/
lemma blames_asProperty (t : Token) :
    Blames s tokens fits (fun p => ∃ q, Same (fun _ => True) p q) (t.asProperty s) :=
  Blames.get.bind fun _ _ => Blames.bind (.modify (P := fun _ => True) (fun _ => rfl) trivial)
    fun _ _ => .pure ⟨_, rfl, trivial⟩

/-- Reading a token as a value blames this token. -/
lemma blames_asValue (ht : t ∈ tokens) (allowed : List ScalarType) :
    Blames s tokens fits
      (fun v => ∃ w, Same (fun v => True ∧ ScalarValue.allows allowed v.type = true) v w)
      (t.asValue s allowed) := by
  unfold asValue
  cases hvalue : ScalarValue.inferAs t.text t.isLiteral allowed with
  | error fault =>
    rw [ScalarValue.of_inferAs_error hvalue]
    exact .throw (.problemAt ht nofun)
  | ok value =>
    refine Blames.bind (.modify (P := fun _ => True) (fun _ => rfl) trivial) fun _ _ =>
      .pure ⟨_, rfl, trivial, ?_⟩
    rw [ScalarValue.type_resolveNames]
    exact (ScalarValue.of_inferAs_ok hvalue).2

/-- Reading a token as a word blames nothing. -/
lemma blames_asWord (t : Token) (role : Role) :
    Blames s tokens fits (fun a => ∃ b, Same (fun _ => True) a b) (t.asWord role) :=
  Blames.bind (.modify (P := fun _ => True) (fun _ => rfl) trivial) fun _ _ =>
    .pure ⟨_, rfl, trivial⟩

end Token

/-! ## The comparison -/

/-- A reading of tokens beside itself, where only what the first side does matters. -/
def Comparison.blaming (s : Setting) (tokens : List Token) (fits : Prop) : Comparison s s where
  vocabulary := .all
  Tokens t u := t = u ∧ t ∈ tokens
  exact := False
  faithful := False
  fits := fits
  oneSided := False
  Budgets _ _ := True
  Holds R p _ := Blames s tokens fits (fun a => ∃ b, R a b) p
  exact_of_faithful := id
  source_eq := source_eq_of_unfaithful
  steps := trivial
  pred _ := trivial
  signs := by
    rintro t _ ⟨rfl, -⟩
    exact .refl t
  span_eq := False.elim
  fullSpan_eq := False.elim
  token_eq := False.elim
  pure h := .pure ⟨_, h⟩
  bind h hnext := Blames.bind h fun a ⟨b, hab⟩ => hnext a b hab
  adapt h hf _ := Blames.adapt h hf
  throw hfaults htu he _ := .throw (he ▸ .problemAt htu.2 hfaults.kind_ne)
  of_fails := False.elim
  counted {_ _ _ _ _ _ budget _ _ _ _ _ _ _} _ hrounds he _ h := by
    by_cases hzero : budget = 0
    · rw [if_pos hzero]
      exact .stop (he ▸ .exhausted fun hfits => hrounds hfits hzero)
    · rw [if_neg hzero]
      exact h hzero
  recordPhrase _ _ _ := .modify (fun _ => rfl) ⟨(), trivial⟩
  bindAlias _ := .modify (fun _ => rfl) ⟨(), trivial⟩
  markOpened _ := .modify (fun _ => rfl) ⟨(), trivial⟩
  recordClause _ _ _ := .modify (fun _ => rfl) ⟨(), trivial⟩
  warn _ htu hab := (Blames.warn htu.2).bind fun _ _ => .pure ⟨_, hab⟩
  unlessRepeated htu h _ := by
    refine Blames.get.bind fun notes _ => ?_
    split
    · exact .stop (.problemAt htu.2 nofun)
    · exact h
  property {t _} _ _ := t.blames_asProperty
  value htu _ := Token.blames_asValue htu.2
  name {t _} _ _ := t.blames_asWord .aliasName
  direction _ := Blames.bind (.modify (P := fun _ => True) (fun _ => rfl) trivial) fun _ _ =>
    .pure ⟨"", trivial⟩

/-- What is known of results may be said in a weaker way. -/
lemma Reader.Blames.mono {ε α : Type} [Telling ε] {P Q : α → Prop} {reading : Reader ε α}
    (h : Blames s tokens fits P reading) (hPQ : ∀ a, P a → Q a) :
    Blames s tokens fits Q reading := by
  have hmapped := h.bind fun a ha => Blames.pure (hPQ a ha)
  rwa [bind_pure] at hmapped

/-- Reading token trees, in either mode, leads to problems that point at tokens of the trees, and no
loop goes on for too long if they are fewer than the ceiling. -/
lemma Mode.blames_trees (mode : Mode) {trees : List TokenTree}
    (htokens : TokenTree.reachableOf trees ⊆ tokens)
    (hfits : fits → (TokenTree.reachableOf trees).length < s.ceilings.steps) :
    BlamesOnly s tokens fits (mode.body s (TokenTree.elements s trees)) := by
  let C := Comparison.blaming s tokens fits
  have hsequences : C.Sequences [] (TokenTree.elements s trees) (TokenTree.elements s trees) :=
    TokenTree.AllCorrespond.sequences trees trees
      (.refl trees fun _ htoken => ⟨rfl, htokens htoken⟩) fun h => Nat.le_of_lt (hfits h)
  have hrounds : C.Fits (TokenTree.elements s trees) := TokenTree.fits_elements hfits
  have hbody : C.Holds (fun _ _ => True) (mode.body s (TokenTree.elements s trees))
      (mode.body s (TokenTree.elements s trees)) := by
    cases mode with
    | clauses => exact Comparison.holds_readAll _ _ hsequences hrounds
    | condition => exact Comparison.holds_readCondition hsequences hrounds
  exact Blames.mono hbody fun _ _ => trivial

end RecordQuery
