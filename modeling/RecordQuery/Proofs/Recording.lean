import RecordQuery.Proofs.PhraseForest
import RecordQuery.Proofs.Reader

/-!
# Readings and the phrases they note

Making an operator out of items notes roles and names, but no phrase: such readings are *quiet*, and
what is known of the phrases stays known. Phrases are noted in three places only, where an operator
is settled, where conditions are joined, and where a clause is complete.

`Reader.Builds` says what a reading that is not quiet does: from a forest of phrases of which
something is known it comes to a forest, whether it succeeds or fails, and where it succeeds,
something is known of that forest. As the next steps rely on it, this knowledge goes from step to
step.
-/

namespace RecordQuery

namespace Reader

variable {ε δ α β : Type}

/-! ## Quiet readings -/

/-- Whether a reading notes no phrase. -/
def Quiet (reading : Reader ε α) : Prop :=
  ∀ notes, (on reading notes).2.phrases = notes.phrases

namespace Quiet

/-- A result notes no phrase. -/
lemma pure {a : α} : Quiet (pure a : Reader ε α) := fun _ => rfl

/-- A failure notes no phrase. -/
lemma throw {e : ε} : Quiet (MonadExcept.throw e : Reader ε α) := fun _ => rfl

/-- Looking at the notes notes no phrase. -/
lemma get : Quiet (MonadState.get : Reader ε Notes) := fun _ => rfl

/-- A reading of two quiet steps is quiet. -/
lemma bind {reading : Reader ε α} {next : α → Reader ε β} (h : Quiet reading)
    (hnext : ∀ a, Quiet (next a)) : Quiet (reading >>= next) := by
  intro notes
  rw [on_bind]
  have hfirst := h notes
  rcases hon : on reading notes with ⟨e | a, middle⟩ <;> rw [hon] at hfirst
  · exact hfirst
  · exact (hnext a middle).trans hfirst

/-- A failure is quiet, whatever would come after it. -/
lemma stop {e : ε} {next : α → Reader ε β} : Quiet (MonadExcept.throw e >>= next) := fun _ => rfl

end Quiet

/-! ## Readings that build a forest -/

/-- Whether a reading, given a forest of phrases with a property, leaves a forest, and where it
succeeds, one with another property. -/
def Builds (length : Nat) (before : List Phrase → Prop) (reading : Reader ε α)
    (after : α → List Phrase → Prop) : Prop :=
  ∀ notes, Phrase.IsForest length notes.phrases.toList → before notes.phrases.toList →
    Phrase.IsForest length (on reading notes).2.phrases.toList ∧
      ∀ a, (on reading notes).1 = .ok a → after a (on reading notes).2.phrases.toList

namespace Builds

variable {length : Nat} {before : List Phrase → Prop} {after : α → List Phrase → Prop}

/-- A quiet reading leaves the phrases as they were. -/
lemma of_quiet {reading : Reader ε α} (h : Quiet reading) :
    Builds length before reading fun _ => before := by
  intro notes hforest hbefore
  rw [h notes]
  exact ⟨hforest, fun _ _ => hbefore⟩

/-- A result builds what there was. -/
lemma pure {a : α} (h : ∀ phrases, before phrases → after a phrases) :
    Builds length before (pure a : Reader ε α) after := by
  intro notes hforest hbefore
  refine ⟨hforest, ?_⟩
  rintro _ ⟨⟩
  exact h _ hbefore

/-- A failure builds what there was. -/
lemma throw {e : ε} : Builds length before (MonadExcept.throw e : Reader ε α) after := by
  intro notes hforest hbefore
  refine ⟨hforest, ?_⟩
  rintro _ ⟨⟩

/-- A reading that fails builds anything, whatever was to come after it. -/
lemma stop {e : ε} {next : β → Reader ε α} :
    Builds length before (MonadExcept.throw e >>= next) after := throw

/-- Two steps build one after the other. -/
lemma bind {middle : β → List Phrase → Prop} {reading : Reader ε β} {next : β → Reader ε α}
    (h : Builds length before reading middle)
    (hnext : ∀ b, Builds length (middle b) (next b) after) :
    Builds length before (reading >>= next) after := by
  intro notes hforest hbefore
  rw [on_bind]
  obtain ⟨hmiddle, hmiddle'⟩ := h notes hforest hbefore
  rcases hon : on reading notes with ⟨e | b, notes'⟩ <;> rw [hon] at hmiddle hmiddle'
  · refine ⟨hmiddle, ?_⟩
    rintro _ ⟨⟩
  · exact hnext b notes' hmiddle (hmiddle' b rfl)

/-- A first step that notes no phrase. -/
lemma bind_quiet {reading : Reader ε β} {next : β → Reader ε α} (h : Quiet reading)
    (hnext : ∀ b, Builds length before (next b) after) :
    Builds length before (reading >>= next) after := (of_quiet h).bind hnext

/-- More may be asked of the phrases before, and less of those after. -/
lemma mono {before' : List Phrase → Prop} {after' : α → List Phrase → Prop} {reading : Reader ε α}
    (h : Builds length before reading after) (hbefore : ∀ phrases, before' phrases → before phrases)
    (hafter : ∀ a phrases, after a phrases → after' a phrases) :
    Builds length before' reading after' := by
  intro notes hforest hnotes
  obtain ⟨hforest', hafter'⟩ := h notes hforest (hbefore _ hnotes)
  exact ⟨hforest', fun a ha => hafter a _ (hafter' a ha)⟩

/-- What is only known to exist beforehand may be taken as given. -/
lemma of_exists {γ : Type} {known : γ → List Phrase → Prop} {reading : Reader ε α}
    (h : ∀ c, Builds length (known c) reading after) :
    Builds length (fun phrases => ∃ c, known c phrases) reading after :=
  fun notes hforest ⟨c, hc⟩ => h c notes hforest hc

/-- What holds beforehand may be used to show what a reading builds. -/
lemma assuming {P : Prop} {reading : Reader ε α} (hP : ∀ phrases, before phrases → P)
    (h : P → Builds length before reading after) : Builds length before reading after :=
  fun notes hforest hbefore => h (hP _ hbefore) notes hforest hbefore

/-- What is built has nothing to do with how failures are reported. -/
lemma adapt {f : ε → δ} {reading : Reader ε α} (h : Builds length before reading after) :
    Builds length before (ExceptT.adapt f reading) after := by
  intro notes hforest hbefore
  rw [on_adapt]
  have hreading := h notes hforest hbefore
  rcases hon : on reading notes with ⟨e | a, notes'⟩ <;> rw [hon] at hreading
  · refine ⟨hreading.1, ?_⟩
    rintro _ ⟨⟩
  · refine ⟨hreading.1, ?_⟩
    rintro _ ⟨⟩
    exact hreading.2 a rfl

/-- Facts about what a reading comes to may be added. -/
lemma ensures {P : α → Prop} {reading : Reader ε α} (h : Builds length before reading after)
    (hP : Ensures P reading) :
    Builds length before reading fun a phrases => after a phrases ∧ P a := by
  intro notes hforest hbefore
  obtain ⟨hforest', hafter⟩ := h notes hforest hbefore
  refine ⟨hforest', fun a ha => ⟨hafter a ha, ?_⟩⟩
  exact hP notes a _ (Prod.ext ha rfl)

end Builds

end Reader

open Reader

/-! ## What is quiet -/

namespace Parse

/-- Giving a token its role notes no phrase. -/
lemma quiet_setRole (token : Token) (role : Role) : Quiet (setRole token role) := fun _ => rfl

/-- Binding a name notes no phrase. -/
lemma quiet_bindAlias (name : String) (target : Operand) : Quiet (bindAlias name target) :=
  fun _ => rfl

/-- A warning notes no phrase. -/
lemma quiet_warn (problem : Problem) : Quiet (warn problem) := fun _ => rfl

/-- Noting a clause notes no phrase. -/
lemma quiet_recordClause (kind : Kind) (clause : Operator) : Quiet (recordClause kind clause) :=
  fun _ => rfl

/-- Noting that a token opens a list notes no phrase. -/
lemma quiet_markOpened (token : Token) : Quiet (markOpened token) := fun _ => rfl

end Parse

namespace Item

variable {s : Setting} (item : Item)

/-- An item is read as a property without noting a phrase. -/
lemma quiet_property : Quiet (item.property s) := by
  unfold property
  split
  · exact .bind .get fun _ => (Parse.quiet_setRole _ _).bind fun _ => .pure
  · exact .bind .get fun _ => (Parse.quiet_setRole _ _).bind fun _ => .pure
  · exact .pure
  · exact .throw

/-- An item is read as a subject without noting a phrase. -/
lemma quiet_subject : Quiet (item.subject s) := by
  unfold subject
  split
  · split
    · exact item.quiet_property.bind fun _ => .pure
    · exact .pure
  · exact item.quiet_property.bind fun _ => .pure

/-- An item is read as an expression without noting a phrase. -/
lemma quiet_expression : Quiet (item.expression s) := by
  unfold expression
  split
  · exact .pure
  · exact item.quiet_property.bind fun _ => .pure

/-- An item is read as a value without noting a phrase. -/
lemma quiet_value (allowed : List ScalarType) : Quiet (item.value s allowed) := by
  unfold value
  split
  case h_1 | h_2 | h_3 =>
    split
    · exact .throw
    · exact (Parse.quiet_setRole _ _).bind fun _ => .pure
  case h_4 => exact .pure
  case h_5 => exact .throw

/-- An item is read as a word without noting a phrase. -/
lemma quiet_word (role : Role) : Quiet (item.word s role) := by
  unfold word
  split
  · exact (Parse.quiet_setRole _ _).bind fun _ => .pure
  · exact (Parse.quiet_setRole _ _).bind fun _ => .pure
  · exact (Parse.quiet_setRole _ _).bind fun _ => .pure
  · exact .throw

/-- An item is read as a condition without noting a phrase. -/
lemma quiet_condition : Quiet (item.condition s) := by
  unfold condition
  split
  · exact .pure
  · exact .throw

end Item

namespace Claim

variable {s : Setting} (claim : Claim)

/-- Asking for an item beside an operator notes no phrase. -/
lemma quiet_require (fault : PhraseFault) (item : Option Item) :
    Quiet (claim.require s fault item) := by
  cases item with
  | none => exact .throw
  | some item => exact .pure

/-- Asking for parameters notes no phrase. -/
lemma quiet_requireParameters : Quiet (claim.requireParameters s) := by
  unfold requireParameters
  split
  · exact .pure
  · exact .throw

/-- Counting parameters notes no phrase. -/
lemma quiet_exactParameters (count : Nat) : Quiet (claim.exactParameters s count) := by
  unfold exactParameters
  refine claim.quiet_requireParameters.bind fun items => ?_
  split
  · exact .pure
  · exact .throw

/-- Items are read as values without noting a phrase. -/
lemma quiet_values (allowed : List ScalarType) (items : List Item) :
    Quiet (values s allowed items) := by
  induction items with
  | nil => exact .pure
  | cons item rest ih => exact (item.quiet_value allowed).bind fun _ => ih.bind fun _ => .pure

/-- A comparison is made without noting a phrase. -/
lemma quiet_comparison : Quiet (claim.comparison s) := by
  unfold comparison
  refine (claim.quiet_require _ _).bind fun left => (claim.quiet_require _ _).bind fun right => ?_
  exact left.quiet_subject.bind fun _ => (right.quiet_value _).bind fun _ => .pure

/-- A membership is made without noting a phrase. -/
lemma quiet_membership : Quiet (claim.membership s) := by
  unfold membership
  refine claim.quiet_requireParameters.bind fun items => (claim.quiet_require _ _).bind fun left =>
    ?_
  refine left.quiet_subject.bind fun subject => ?_
  split
  · split
    · exact .stop
    · exact (quiet_values _ items).bind fun _ => .pure
  · split
    · exact .stop
    · exact (quiet_values _ items).bind fun _ => .pure

/-- A test for existence is made without noting a phrase. -/
lemma quiet_existence : Quiet (claim.existence s) := by
  unfold existence
  exact (claim.quiet_require _ _).bind fun right => right.quiet_property.bind fun _ => .pure

/-- A negation is made without noting a phrase. -/
lemma quiet_logical : Quiet (claim.logical s) := by
  unfold logical
  split
  · exact .stop
  · exact (claim.quiet_require _ _).bind fun right => right.quiet_condition.bind fun _ => .pure

/-- A naming is made without noting a phrase. -/
lemma quiet_naming : Quiet (claim.naming s) := by
  unfold naming
  refine (claim.quiet_require _ _).bind fun left => (claim.quiet_require _ _).bind fun right => ?_
  refine left.quiet_subject.bind fun target => (right.quiet_word _).bind fun name => ?_
  exact (Parse.quiet_bindAlias _ _).bind fun _ => .pure

/-- Parameters that were counted are read without noting a phrase. -/
lemma quiet_arguments (items : List Item) : Quiet (claim.arguments s items) := by
  cases items with
  | nil => exact .throw
  | cons first rest =>
    exact first.quiet_property.bind fun _ => (quiet_values _ rest).bind fun _ => .pure

/-- A function is made without noting a phrase. -/
lemma quiet_function : Quiet (claim.function s) := by
  unfold function
  refine (claim.quiet_exactParameters _).bind fun items => ?_
  refine (claim.quiet_arguments items).bind fun op => ?_
  split
  · exact (Parse.quiet_bindAlias _ _).bind fun _ => .pure
  · exact .pure

/-- Making an operator notes no phrase; that is left to what made it. -/
lemma quiet_produce (family : Family) : Quiet (claim.produce s family) := by
  unfold produce
  split
  · exact claim.quiet_comparison
  · exact claim.quiet_membership
  · exact claim.quiet_existence
  · exact claim.quiet_logical
  · split
    · exact claim.quiet_naming
    · exact claim.quiet_function
  · exact .throw

end Claim

namespace Phrase

variable {s : Setting}

/-- Items are read as conditions of a group without noting a phrase. -/
lemma quiet_conditions (connective : Connective) (items : List Item) :
    Quiet (conditions s connective items) := by
  induction items with
  | nil => exact .pure
  | cons item rest ih =>
    unfold conditions
    split
    · exact ih.bind fun _ => .pure
    · exact .throw

end Phrase

namespace Clause

variable {s : Setting}

/-- Items are read as expressions of a listing without noting a phrase. -/
lemma quiet_expressions (items : List Item) : Quiet (expressions s items) := by
  induction items with
  | nil => exact .pure
  | cons item rest ih => exact item.quiet_expression.bind fun _ => ih.bind fun _ => .pure

end Clause

end RecordQuery
