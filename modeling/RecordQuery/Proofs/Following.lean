import RecordQuery.Proofs.ComparedClauses
import RecordQuery.Proofs.Compiling
import RecordQuery.Proofs.Numerals

/-!
# Readings that follow one another

Two readings of one text are run side by side on the same notes. They may differ in two ways. The
second may have higher ceilings, so that the first gives up where the second goes on. And some words
may be spelled in other letters, as long as they are directions of orderings either way.

What the first reading does, the second follows, with two exceptions. The first may be cut off, that
is, fail because it has reached a ceiling. Or its notes are *spoiled*: a word whose letters may
differ was read as something else than a direction, and nothing is known of what comes after that.
Notes only grow, so spoiled notes stay spoiled, and a reading whose last notes are not spoiled was
followed all the way.
-/

namespace RecordQuery

/-- Whether a problem tells of a ceiling that was reached. -/
def Problem.isOfCeiling (problem : Problem) : Bool :=
  match problem.fault with
  | .token (.nestedTooDeep _) | .phrase (.tooManySteps _) => true
  | _ => false

/-- A setting with other ceilings. -/
def Setting.withCeilings (s : Setting) (ceilings : Ceilings) : Setting := { s with ceilings }

/-- How the second of two readings may differ from the first. -/
structure Leeway where
  /-- The numbers of the words that may be spelled otherwise. -/
  loose : Nat → Prop
  /-- Whether the first reading may run out of rounds before the second. -/
  mayBeCut : Prop

namespace Leeway

/-- Whether a word that may be spelled otherwise was read as something else than a direction. -/
def Spoils (L : Leeway) (notes : Notes) : Prop :=
  ∃ entry ∈ notes.roles, L.loose entry.1 ∧ entry.2 ≠ .direction

/-- Two budgets of which the first may run out earlier where that is allowed. -/
def Affords (L : Leeway) (budget budget' : Nat) : Prop :=
  budget = budget' ∨ (L.mayBeCut ∧ budget ≤ budget')

/-- Two problems that are the same, but for the words that may be spelled otherwise. -/
def SameProblem (L : Leeway) (p q : Problem) : Prop :=
  p.kind = q.kind ∧ ((∀ id, ¬ L.loose id) → p = q)

variable {L : Leeway}

/-- Notes stay spoiled when they grow. -/
lemma Spoils.mono {n m : Notes} (h : L.Spoils n) (hgrow : n.roles <:+ m.roles) : L.Spoils m := by
  obtain ⟨entry, hentry, hspoils⟩ := h
  exact ⟨entry, hgrow.subset hentry, hspoils⟩

/-- Two budgets can still be compared after a round of each. -/
lemma Affords.pred {budget budget' : Nat} (h : L.Affords budget budget') :
    L.Affords (budget - 1) (budget' - 1) := by
  obtain rfl | ⟨hcut, hle⟩ := h
  · exact .inl rfl
  · exact .inr ⟨hcut, Nat.sub_le_sub_right hle 1⟩

/-- A problem is the same as itself. -/
lemma SameProblem.refl (p : Problem) : L.SameProblem p p := ⟨rfl, fun _ => rfl⟩

end Leeway

/-- Two tokens that are the same, but for the spelling of a direction. -/
structure Token.Respelled (L : Leeway) (t u : Token) : Prop where
  same : u = { t with text := u.text }
  text : t.text = u.text ∨
    (L.loose t.id ∧ upperCase t.text = upperCase u.text ∧ (direction? t.text).isSome)

namespace Token.Respelled

variable {L : Leeway} {t u : Token}

/-- A word that is spelled otherwise has the same number. -/
lemma id_eq (h : Respelled L t u) : u.id = t.id := by rw [h.same]

/-- A word that is spelled otherwise is of the same kind of token. -/
lemma kind_eq (h : Respelled L t u) : u.kind = t.kind := by rw [h.same]

/-- A word that is spelled otherwise has the same rule. -/
lemma rule_eq (h : Respelled L t u) : u.rule = t.rule := by rw [h.same]

/-- A word that is spelled otherwise has a list if it had one. -/
lemma hasChildren_eq (h : Respelled L t u) : u.hasChildren = t.hasChildren := by
  rw [h.same]
  rfl

/-- A word that is spelled otherwise stands in the same place. -/
lemma span_eq (h : Respelled L t u) : u.span = t.span := by rw [h.same]

/-- A word that is spelled otherwise reaches as far with its list. -/
lemma fullSpan_eq (h : Respelled L t u) : u.fullSpan = t.fullSpan := by
  rw [h.same]
  rfl

/-- Spelling makes nothing a delimiter. -/
lemma isDelimiter_eq (h : Respelled L t u) : u.isDelimiter = t.isDelimiter := by
  rw [isDelimiter, isDelimiter, h.kind_eq]

/-- Tokens are the same if their words are. -/
lemma eq_of_text (h : Respelled L t u) (htext : t.text = u.text) : u = t := by
  rw [h.same, ← htext]

/-- Where no word may be spelled otherwise, tokens are the same. -/
lemma eq_of_strict (h : Respelled L t u) (hstrict : ∀ id, ¬ L.loose id) : u = t :=
  h.eq_of_text (h.text.resolve_right fun hloose => hstrict _ hloose.1)

/-- Both words are directions, and the same one, or none is. -/
lemma direction?_eq (h : Respelled L t u) : direction? u.text = direction? t.text := by
  obtain htext | ⟨-, hupper, -⟩ := h.text
  · rw [htext]
  · rw [direction?, direction?, hupper]

/-- What is no direction is spelled in one way. -/
lemma text_eq_iff (h : Respelled L t u) {word : String} (hword : direction? word = none) :
    (u.text == word) = (t.text == word) := by
  have hne {text : String} (hsome : (direction? text).isSome) : (text == word) = false := by
    refine beq_eq_false_iff_ne.mpr ?_
    rintro rfl
    rw [hword] at hsome
    cases hsome
  obtain htext | ⟨-, -, hsome⟩ := h.text
  · rw [htext]
  · rw [hne hsome, hne (h.direction?_eq ▸ hsome)]

/-- Spelling makes nothing a comma. -/
lemma isComma_eq (h : Respelled L t u) : u.isComma = t.isComma := by
  rw [isComma, isComma, h.isDelimiter_eq, h.text_eq_iff (by decide +kernel)]

/-- Spelling makes nothing a semicolon. -/
lemma isSemicolon_eq (h : Respelled L t u) : u.isSemicolon = t.isSemicolon := by
  rw [isSemicolon, isSemicolon, h.isDelimiter_eq, h.text_eq_iff (by decide +kernel)]

/-- A word that is spelled otherwise has the same signs. -/
lemma signs (h : Respelled L t u) : Token.Signs t u :=
  ⟨h.kind_eq, h.rule_eq, h.hasChildren_eq, h.isComma_eq, h.isSemicolon_eq, h.direction?_eq⟩

end Token.Respelled

/-! ## Following -/

namespace Reader

variable {ε δ α β γ κ : Type} [Telling ε] [Telling δ]

/-- Whether a result is the failure of a reading that has reached a ceiling. -/
def IsCut (result : Except ε α) : Prop :=
  ∃ e, result = .error e ∧ (Telling.problem e).isOfCeiling = true

/-- How what the second of two readings comes to may follow what the first comes to. Where notes are
spoiled, all that is known is that the first could have been followed. -/
inductive Outcome (L : Leeway) (R : α → β → Prop) :
    Except ε α × Notes → Except δ β × Notes → Prop
  | ok {a : α} {b : β} {n : Notes} (h : R a b) : Outcome L R (.ok a, n) (.ok b, n)
  | error {e : ε} {f : δ} {n : Notes}
      (h : L.SameProblem (Telling.problem e) (Telling.problem f)) :
      Outcome L R (.error e, n) (.error f, n)
  | cut {e : ε} {n : Notes} {second : Except δ β × Notes} (allowed : L.mayBeCut)
      (h : (Telling.problem e).isOfCeiling = true) : Outcome L R (.error e, n) second
  | spoiled {a : α} {b : β} {n : Notes} {second : Except δ β × Notes} (spoils : L.Spoils n)
      (h : R a b) : Outcome L R (.ok a, n) second
  | spoiledError {e : ε} {n : Notes} {second : Except δ β × Notes} (spoils : L.Spoils n) :
      Outcome L R (.error e, n) second

/-- Whether a reading is followed by another one. -/
def Follows (L : Leeway) (R : α → β → Prop) (p : Reader ε α) (q : Reader δ β) : Prop :=
  ∀ notes, notes.roles <:+ (on p notes).2.roles ∧ Outcome L R (on p notes) (on q notes)

namespace Follows

variable {L : Leeway} {R : α → β → Prop} {S : γ → κ → Prop} {p : Reader ε α} {q : Reader δ β}

/-- Related results follow each other. -/
lemma pure {a : α} {b : β} (h : R a b) :
    Follows L R (pure a : Reader ε α) (pure b : Reader δ β) :=
  fun _ => ⟨List.suffix_refl _, .ok h⟩

/-- Failures that tell the same follow each other. -/
lemma throw {e : ε} {f : δ} (h : L.SameProblem (Telling.problem e) (Telling.problem f)) :
    Follows L R (throw e : Reader ε α) (throw f : Reader δ β) :=
  fun _ => ⟨List.suffix_refl _, .error h⟩

/-- Two steps follow two others one by one. -/
lemma bind {f : α → Reader ε γ} {g : β → Reader δ κ} (h : Follows L R p q)
    (hnext : ∀ a b, R a b → Follows L S (f a) (g b)) : Follows L S (p >>= f) (q >>= g) := by
  intro notes
  have ⟨hgrow, hfirst⟩ := h notes
  rw [on_bind, on_bind]
  generalize on p notes = first at hgrow hfirst ⊢
  generalize on q notes = second at hfirst ⊢
  cases hfirst with
  | @ok a b n hab =>
    have ⟨hgrow', hsecond⟩ := hnext a b hab n
    exact ⟨hgrow.trans hgrow', hsecond⟩
  | error hproblem => exact ⟨hgrow, .error hproblem⟩
  | cut allowed hceiling => exact ⟨hgrow, .cut allowed hceiling⟩
  | spoiledError spoils => exact ⟨hgrow, .spoiledError spoils⟩
  | @spoiled a b n _ spoils hab =>
    have ⟨hgrow', hsecond⟩ := hnext a b hab n
    refine ⟨hgrow.trans hgrow', ?_⟩
    rw [goOn_ok]
    generalize on (f a) n = last at hgrow' hsecond ⊢
    generalize on (g b) n = other at hsecond
    have hspoils : L.Spoils last.2 := spoils.mono hgrow'
    cases hsecond with
    | ok hcd => exact .spoiled hspoils hcd
    | spoiled _ hcd => exact .spoiled hspoils hcd
    | error => exact .spoiledError hspoils
    | cut => exact .spoiledError hspoils
    | spoiledError => exact .spoiledError hspoils

/-- Two readings that fail alike, whatever was to come after it. -/
lemma stop {e : ε} {f : δ} {next : α → Reader ε γ} {next' : β → Reader δ κ}
    (h : L.SameProblem (Telling.problem e) (Telling.problem f)) :
    Follows L S (MonadExcept.throw e >>= next) (MonadExcept.throw f >>= next') := by
  intro notes
  rw [on_bind, on_bind]
  exact ⟨List.suffix_refl _, .error h⟩

/-- Readings follow each other however their failures are wrapped. -/
lemma adapt {ε' δ' : Type} [Telling ε'] [Telling δ'] {f : ε → ε'} {g : δ → δ'}
    (h : Follows L R p q) (hf : ∀ e, Telling.problem (f e) = Telling.problem e)
    (hg : ∀ e, Telling.problem (g e) = Telling.problem e) :
    Follows L R (ExceptT.adapt f p) (ExceptT.adapt g q) := by
  intro notes
  have ⟨hgrow, hfirst⟩ := h notes
  rw [on_adapt, on_adapt]
  generalize on p notes = first at hgrow hfirst ⊢
  generalize on q notes = second at hfirst ⊢
  cases hfirst with
  | ok hab => exact ⟨hgrow, .ok hab⟩
  | error hproblem => exact ⟨hgrow, .error (by rwa [hf, hg])⟩
  | cut allowed hceiling => exact ⟨hgrow, .cut allowed (by rwa [hf])⟩
  | spoiled spoils hab => exact ⟨hgrow, .spoiled spoils hab⟩
  | spoiledError spoils => exact ⟨hgrow, .spoiledError spoils⟩

/-- Looking at the notes finds the same notes. -/
lemma get : Follows L (fun n m => n = m) (MonadState.get : Reader ε Notes)
    (MonadState.get : Reader δ Notes) := fun _ => ⟨List.suffix_refl _, .ok rfl⟩

/-- Notes may be changed in both, as long as no role is taken back. -/
lemma noting {f : Notes → Notes} (hf : ∀ notes, notes.roles <:+ (f notes).roles) :
    Follows L (fun _ _ => True) (modify f : Reader ε Unit) (modify f : Reader δ Unit) :=
  fun notes => ⟨hf notes, .ok trivial⟩

/-- Notes of other sorts than roles. -/
lemma noting_same {f : Notes → Notes} (hf : ∀ notes, (f notes).roles = notes.roles) :
    Follows L (fun _ _ => True) (modify f : Reader ε Unit) (modify f : Reader δ Unit) :=
  .noting fun notes => (hf notes).symm ▸ List.suffix_refl _

/-- Giving a role to tokens that differ in spelling only is the same. -/
lemma setRole {t u : Token} (h : Token.Respelled L t u) (role : Role) :
    Follows L (fun _ _ => True) (Parse.setRole t role) (Parse.setRole u role) := by
  rw [Parse.setRole, Parse.setRole, h.id_eq]
  exact .noting fun _ => List.suffix_cons _ _

/-- A word that may be spelled otherwise, read as something else than a direction. -/
lemma spoil {t : Token} {role : Role} {a : α} {b : β} {q : Parse β} (hloose : L.loose t.id)
    (hrole : role ≠ .direction) (h : R a b) :
    Follows L R (Parse.setRole t role >>= fun _ => Pure.pure a) q := by
  intro notes
  have hon : on (Parse.setRole t role >>= fun _ => Pure.pure a : Parse α) notes =
      (.ok a, { notes with roles := (t.id, role) :: notes.roles }) := rfl
  rw [hon]
  exact ⟨List.suffix_cons _ _, .spoiled ⟨_, List.mem_cons_self, hloose, hrole⟩ h⟩

end Follows

end Reader

open Reader

variable {L : Leeway} {s : Setting} {c : Ceilings}

/-- A round of a loop, where the first of two loops may run out of rounds before the second. -/
lemma Reader.Follows.counted {ε α β γ κ : Type} [Telling ε] {R : γ → κ → Prop}
    (hc : L.Affords s.ceilings.steps c.steps) {budget budget' : Nat}
    (hbudget : L.Affords budget budget') {e f : ε} {stopped : α → Reader ε γ}
    {stopped' : β → Reader ε κ} {p : Reader ε γ} {q : Reader ε κ}
    (he : Telling.problem e = s.exhausted) (hf : Telling.problem f = (s.withCeilings c).exhausted)
    (h : budget ≠ 0 → Follows L R p q) :
    Follows L R (if budget = 0 then MonadExcept.throw e >>= stopped else p)
      (if budget' = 0 then MonadExcept.throw f >>= stopped' else q) := by
  by_cases hzero : budget = 0
  · rw [if_pos hzero]
    by_cases hcut : L.mayBeCut
    · intro notes
      rw [on_bind, on_throw, goOn_error]
      exact ⟨List.suffix_refl _, .cut hcut (by rw [he]; rfl)⟩
    · have hsame : budget = budget' := hbudget.resolve_right fun h => hcut h.1
      have hsteps : s.ceilings.steps = c.steps := hc.resolve_right fun h => hcut h.1
      rw [if_pos (hsame ▸ hzero)]
      refine .stop ?_
      rw [he, hf, Setting.exhausted, Setting.exhausted, hsteps]
      exact .refl _
  · have hzero' : budget' ≠ 0 := by
      obtain rfl | ⟨-, hle⟩ := hbudget
      · exact hzero
      · omega
    rw [if_neg hzero, if_neg hzero']
    exact h hzero

/-- A word that is a direction is a string, however it is spelled. -/
lemma ScalarValue.type_infer_of_direction? {text : String} (h : (direction? text).isSome)
    (isQuoted : Bool) : (infer text isQuoted).type = .string := by
  have hupper : upperCase text = "ASC" ∨ upperCase text = "DESC" := by
    unfold direction? at h
    split at h
    · exact .inl ‹_›
    · split at h
      · exact .inr ‹_›
      · cases h
  have hne {word : String} (hword : direction? word = none) : text ≠ word := by
    rintro rfl
    rw [hword] at h
    cases h
  -- the first character is a letter, so the word is no number
  obtain ⟨c, rest, htext, hc⟩ : ∃ c rest, text.toList = c :: rest ∧
      (c.toUpper = 'A' ∨ c.toUpper = 'D') := by
    have hlist (word : String) (hword : upperCase text = word) :
        text.toList.map Char.toUpper = word.toList := by
      rw [← hword, upperCase, String.toList_ofList]
    obtain hasc | hdesc := hupper
    · obtain ⟨c, rest, htext, hc, -⟩ := List.map_eq_cons_iff.mp (hlist _ hasc)
      exact ⟨c, rest, htext, .inl hc⟩
    · obtain ⟨c, rest, htext, hc, -⟩ := List.map_eq_cons_iff.mp (hlist _ hdesc)
      exact ⟨c, rest, htext, .inr hc⟩
  have hdigit : Decimal.isDigit c = false := by
    by_contra hdigit
    rw [Decimal.toUpper_of_isDigit (Bool.not_eq_false _ ▸ hdigit)] at hc
    obtain rfl | rfl := hc <;> exact hdigit rfl
  have hsign : c ≠ '-' := by
    rintro rfl
    obtain hc | hc := hc <;> cases hc
  unfold infer
  rw [htext, Decimal.ofPlain?_of_lead hdigit hsign, if_neg (hne (by decide +kernel)),
    if_neg (hne (by decide +kernel)), if_neg (hne (by decide +kernel))]
  split <;> rfl

namespace Token.Respelled

variable {t u : Token}

/-- Problems that are told of such tokens are the same as far as can be asked. -/
lemma sameProblem (h : Respelled L t u) {fault fault' : PhraseFault}
    (hkind : fault'.kind = fault.kind) (hstrict : (∀ id, ¬ L.loose id) → fault' = fault) :
    L.SameProblem (s.problemAt fault t) ((s.withCeilings c).problemAt fault' u) := by
  refine ⟨hkind.symm, fun hnone => ?_⟩
  rw [h.eq_of_strict hnone, hstrict hnone]
  rfl

/-- A token that is read as a property is followed by the same token, unless this spoils
the notes. -/
lemma follows_asProperty (h : Respelled L t u) :
    Follows L (Same fun _ => True) (t.asProperty s) (u.asProperty (s.withCeilings c)) := by
  refine Follows.get.bind ?_
  rintro notes _ rfl
  obtain htext | ⟨hloose, -⟩ := h.text
  · rw [h.eq_of_text htext]
    exact (Follows.setRole ⟨rfl, .inl rfl⟩ _).bind fun _ _ _ => .pure ⟨rfl, trivial⟩
  · exact .spoil hloose nofun ⟨rfl, trivial⟩

/-- A token that is read as a value is followed by the same token, unless this spoils the notes. -/
lemma follows_asValue (h : Respelled L t u) (allowed : List ScalarType) :
    Follows L (Same fun v => True ∧ ScalarValue.allows allowed v.type = true)
      (t.asValue s allowed) (u.asValue (s.withCeilings c) allowed) := by
  unfold asValue
  obtain htext | ⟨hloose, -, hdirection⟩ := h.text
  · rw [h.eq_of_text htext]
    cases hvalue : ScalarValue.inferAs t.text t.isLiteral allowed with
    | error fault => exact .throw (.refl _)
    | ok value =>
      refine (Follows.setRole ⟨rfl, .inl rfl⟩ _).bind fun _ _ _ => .pure ⟨rfl, trivial, ?_⟩
      rw [ScalarValue.type_resolveNames]
      exact (ScalarValue.of_inferAs_ok hvalue).2
  · -- a direction is a string, so the types tell both words apart from what is allowed or none
    have hdirection' := hdirection
    rw [← h.direction?_eq] at hdirection'
    unfold ScalarValue.inferAs
    dsimp only
    rw [ScalarValue.type_infer_of_direction? hdirection,
      ScalarValue.type_infer_of_direction? hdirection']
    by_cases hallowed : ScalarValue.allows allowed .string = true
    · rw [if_pos hallowed]
      refine .spoil hloose nofun ⟨rfl, trivial, ?_⟩
      rwa [ScalarValue.type_resolveNames, ScalarValue.type_infer_of_direction? hdirection]
    · rw [if_neg hallowed, if_neg hallowed]
      exact .throw (h.sameProblem rfl fun hstrict => by rw [h.eq_of_strict hstrict])

/-- A word that is read as a name. -/
lemma follows_asWord (h : Respelled L t u) {role : Role} (hrole : role ≠ .direction) :
    Follows L (Same fun _ => True) (t.asWord role) (u.asWord role) := by
  obtain htext | ⟨hloose, -⟩ := h.text
  · rw [h.eq_of_text htext]
    exact (Follows.setRole ⟨rfl, .inl rfl⟩ _).bind fun _ _ _ => .pure ⟨rfl, trivial⟩
  · exact .spoil hloose hrole ⟨rfl, trivial⟩

/-- The words of directions tell the same problems, however they are spelled. -/
lemma problemAt_eq (h : Respelled L t u) (fault : PhraseFault) :
    (s.withCeilings c).problemAt fault u = s.problemAt fault t := by
  rw [Setting.problemAt, Setting.problemAt, Setting.describe, Setting.describe, h.fullSpan_eq]
  rfl

end Token.Respelled

/-! ## The comparison -/

/-- Readings of one text, of which the second may have higher ceilings and spell directions
otherwise. -/
def Comparison.following (hc : L.Affords s.ceilings.steps c.steps) :
    Comparison s (s.withCeilings c) where
  vocabulary := .all
  Tokens := Token.Respelled L
  exact := True
  faithful := ∀ id, ¬ L.loose id
  fits := False
  oneSided := False
  Budgets := L.Affords
  Holds := Follows L
  exact_of_faithful _ := trivial
  source_eq _ := rfl
  steps := hc
  pred := Leeway.Affords.pred
  signs := Token.Respelled.signs
  span_eq _ h := h.span_eq.symm
  fullSpan_eq _ h := h.fullSpan_eq.symm
  token_eq hstrict h := h.eq_of_strict hstrict
  pure := Follows.pure
  bind := Follows.bind
  adapt := Follows.adapt
  throw hfaults htu he hf := Follows.throw <| by
    rw [he, hf]
    exact htu.sameProblem hfaults.kind hfaults.same
  of_fails := False.elim
  counted hbudget _ := Follows.counted hc hbudget
  recordPhrase htu hspan hab := by
    rw [Parse.recordPhrase, Parse.recordPhrase, htu.id_eq, hspan trivial, hab.same trivial]
    exact .noting_same fun _ => rfl
  bindAlias hxy := by
    rw [hxy.same trivial]
    exact .noting_same fun _ => rfl
  markOpened htu := by
    rw [Parse.markOpened, Parse.markOpened, htu.id_eq]
    exact .noting_same fun _ => rfl
  recordClause _ _ hab := by
    rw [hab.same trivial]
    exact .noting_same fun _ => rfl
  warn _ htu hab := by
    rw [htu.problemAt_eq]
    exact Follows.bind (.noting_same fun _ => rfl) fun _ _ _ => .pure hab
  unlessRepeated htu h _ := by
    refine Follows.get.bind ?_
    rintro notes _ rfl
    split
    · exact .stop (htu.sameProblem rfl fun _ => rfl)
    · exact h
  property htu _ := htu.follows_asProperty
  value htu _ := htu.follows_asValue
  name htu _ := htu.follows_asWord nofun
  direction htu := (Follows.setRole htu _).bind fun _ _ _ => .pure trivial

/-! ## Token trees -/

/-- Two token trees that are the same, but for the spelling of directions. -/
abbrev TokenTree.Respelled (L : Leeway) : TokenTree → TokenTree → Prop :=
  Corresponds (Token.Respelled L)

/-- Two lists of token trees that are the same, but for the spelling of directions. -/
abbrev TokenTree.AllRespelled (L : Leeway) : List TokenTree → List TokenTree → Prop :=
  AllCorrespond (Token.Respelled L)

namespace TokenTree

/-- Every list of trees is itself in its own spelling. -/
lemma AllRespelled.refl (trees : List TokenTree) : TokenTree.AllRespelled L trees trees :=
  AllCorrespond.refl trees fun _ _ => ⟨rfl, .inl rfl⟩

/-- Trees that are the same but for the spelling of directions are read one as the other. -/
lemma AllRespelled.follows (hc : L.Affords s.ceilings.steps c.steps) (as bs : List TokenTree)
    (h : TokenTree.AllRespelled L as bs) :
    (Comparison.following hc).Sequences [] (elements s as) (elements (s.withCeilings c) bs) :=
  AllCorrespond.sequences (C := .following hc) as bs h False.elim

end TokenTree

/-- The reading of a text in either mode follows that of another, if it affords as many rounds. -/
lemma Mode.follows_body (mode : Mode) {es fs : List Element}
    (hsteps : L.Affords s.ceilings.steps c.steps)
    (h : (Comparison.following hsteps).Sequences [] es fs) :
    Follows L (fun _ _ => True) (mode.body s es) (mode.body (s.withCeilings c) fs) := by
  cases mode with
  | clauses => exact Comparison.holds_readAll es fs h False.elim
  | condition => exact Comparison.holds_readCondition h False.elim

end RecordQuery
