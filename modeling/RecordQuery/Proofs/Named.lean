import RecordQuery.Proofs.NameTables
import RecordQuery.Proofs.Writable

/-!
# References and strings that have names of their own

Under a registry a property is shown by the name of its id, and a string by the name of the value it
is. The text leads back if the name is found again under the id that it was taken from, which is so
unless the id is itself the name of something else. A text that is read without a registry has no
such names, and leads back whatever property its words come to.
-/

namespace RecordQuery

open Text

/-! ## References and strings -/

namespace PropertyRef

/-- Whether a reference is to a property that its text leads back to. -/
structure IsNamed (registry : Registry) (p : PropertyRef) : Prop where
  notAlias : p.isAlias = false
  /-- The id is found by the name that it is shown under. -/
  found : (registry.properties.name? p.label).isSome ∨ registry.properties.id? p.label = none
  isStraight : IsStraight (registry.propertyName p.label).toList
  closing : ']' ∉ (registry.propertyName p.label).toList
  /-- A namespace is not the default one, has no colon, and a name stands behind it. -/
  scope : ∀ scope, p.scope? = some scope → scope ≠ "" ∧ scope ≠ defaultScope ∧
    ':' ∉ scope.toList ∧ ']' ∉ scope.toList ∧ IsStraight scope.toList ∧
      registry.propertyName p.label ≠ ""

/-- A name with a namespace is split at its first colon. -/
lemma splitScope_eq {scope name : List Char} (hscope : ':' ∉ scope) (hne : scope ≠ [])
    (hname : name ≠ []) : splitScope (scope ++ ':' :: name) = some (scope, name) := by
  have hall : ∀ c ∈ scope, decide (c ≠ ':') = true := by
    intro c hc
    simpa using fun heq : c = ':' => hscope (heq ▸ hc)
  unfold splitScope
  rw [List.takeWhile_append_of_pos hall, List.dropWhile_append_of_pos hall]
  simp [hne, hname]

/-- A name without a colon has no namespace. -/
lemma splitScope_eq_none {name : List Char} (h : ':' ∉ name) : splitScope name = none := by
  have hall : ∀ c ∈ name, decide (c ≠ ':') = true := by
    intro c hc
    simpa using fun heq : c = ':' => h (heq ▸ hc)
  unfold splitScope
  rw [List.dropWhile_eq_nil_iff.mpr hall]

variable {registry : Registry} {p : PropertyRef}

/-- A text that is not empty has characters. -/
lemma toList_ne_nil {text : String} (h : text ≠ "") : text.toList ≠ [] := by
  simpa using h

/-- A property that is named is found under what it is written as. -/
lemma IsNamed.ofText_writtenText (hregistry : registry.IsMutual) (h : p.IsNamed registry) :
    ofText (p.writtenText registry) registry = p := by
  cases p with
  | byAlias name => cases h.notAlias
  | field scope id =>
    have hfound : registry.propertyId (registry.propertyName id) = id :=
      hregistry.propertyId_propertyName h.found
    cases scope with
    | none =>
      by_cases hcolon : ':' ∈ (registry.propertyName id).toList
      · have hwritten : ((field none id).writtenText registry).toList =
            defaultScope.toList ++ ':' :: (registry.propertyName id).toList := by
          simp [writtenText, shownName, hcolon]
        rw [ofText, hwritten, splitScope_eq (by decide) (by decide) (List.ne_nil_of_mem hcolon)]
        dsimp only
        rw [String.ofList_toList, String.ofList_toList, hfound, inScope, if_pos rfl]
      · have hwritten : (field none id).writtenText registry = registry.propertyName id := by
          simp [writtenText, shownName, hcolon]
        rw [ofText, hwritten, splitScope_eq_none hcolon, ofId, hfound]
    | some scope =>
      obtain ⟨hne, hdefault, hcolon, -, -, hname⟩ := h.scope scope rfl
      have hwritten : ((field (some scope) id).writtenText registry).toList =
          scope.toList ++ ':' :: (registry.propertyName id).toList := by
        simp [writtenText, shownName]
      have hsplit : splitScope (scope.toList ++ ':' :: (registry.propertyName id).toList) =
          some (scope.toList, (registry.propertyName id).toList) :=
        splitScope_eq hcolon (toList_ne_nil hne) (toList_ne_nil hname)
      rw [ofText, hwritten, hsplit]
      dsimp only
      rw [String.ofList_toList, String.ofList_toList, hfound, inScope, if_neg hdefault]

/-- What the written text of a property is made of. -/
lemma mem_writtenText (h : p.isAlias = false) {c : Char}
    (hc : c ∈ (p.writtenText registry).toList) :
    c ∈ (registry.propertyName p.label).toList ∨ c ∈ "default:".toList ∨
      ∃ scope, p.scope? = some scope ∧ c ∈ scope.toList := by
  cases p with
  | byAlias name => cases h
  | field scope id =>
    cases scope with
    | none =>
      by_cases hcolon : ':' ∈ (registry.propertyName id).toList
      · simp only [writtenText, shownName, List.contains_iff_mem.mpr hcolon, if_true,
          String.toList_append, List.mem_append] at hc
        obtain hc | hc := hc
        · exact .inr (.inl (by simpa [defaultScope, or_assoc] using hc))
        · exact .inl hc
      · simp only [writtenText, shownName, List.contains_iff_mem, hcolon, if_false] at hc
        exact .inl hc
    | some scope =>
      simp only [writtenText, shownName, String.toList_append, List.mem_append] at hc
      obtain (hc | hc) | hc := hc
      · exact .inr (.inr ⟨scope, rfl, hc⟩)
      · exact .inr (.inl (List.mem_append_right "default".toList hc))
      · exact .inl hc

/-- A property that is named can be written. -/
lemma IsNamed.isWritable (hregistry : registry.IsMutual) (h : p.IsNamed registry) :
    p.IsWritable registry where
  readBack _ := h.ofText_writtenText hregistry
  closing hc := by
    obtain hc | hc | ⟨scope, hscope, hc⟩ := mem_writtenText h.notAlias hc
    · exact h.closing hc
    · revert hc
      decide
    · exact (h.scope scope hscope).2.2.2.1 hc
  isStraight := by
    intro c hc
    obtain hc | hc | ⟨scope, hscope, hc⟩ := mem_writtenText h.notAlias hc
    · exact h.isStraight c hc
    · have hdefault : IsStraight "default:".toList := by decide
      exact hdefault c hc
    · exact (h.scope scope hscope).2.2.2.2.1 c hc

end PropertyRef

namespace ScalarValue

/-- Whether a scalar is no string, or a string that its text leads back to. -/
structure IsNamed (registry : Registry) (v : ScalarValue) : Prop where
  found : ∀ s, v.value = .string s →
    (registry.values.name? s).isSome ∨ registry.values.id? s = none
  isStraight : ∀ s, v.value = .string s → IsStraight (registry.valueName s).toList

/-- A scalar that is named can be written, where quotations are not taken as they stand. -/
lemma IsNamed.isWritable {registry : Registry} {v : ScalarValue} (hregistry : registry.IsMutual)
    (h : v.IsNamed registry) : v.IsWritable registry fun _ => False where
  readBack s hs := by
    rw [hs, resolveNames, ofString]
    dsimp only
    unfold Registry.valueName
    cases hname : registry.values.name? s with
    | some name => rw [Option.getD_some, (hregistry.values name s).mpr hname]
    | none =>
      have hid : registry.values.id? s = none := by
        obtain hfound | hfound := h.found s hs
        · rw [hname] at hfound
          cases hfound
        · exact hfound
      rw [Option.getD_none, hid]
  isStraight := h.isStraight
  plain _ _ := False.elim

end ScalarValue

/-! ## Words under the empty registry -/

/-- The empty registry has every pair both ways. -/
lemma Registry.isMutual_empty : Registry.empty.IsMutual :=
  ⟨NameTable.isMutual_empty, NameTable.isMutual_empty⟩

namespace PropertyRef

/-- What a text is that is cut at a colon. -/
lemma eq_of_splitScope {text scope name : List Char} (h : splitScope text = some (scope, name)) :
    text = scope ++ ':' :: name ∧ ':' ∉ scope ∧ scope ≠ [] ∧ name ≠ [] := by
  unfold splitScope at h
  dsimp only at h
  split at h
  · rename_i c rest hrest
    split at h
    · cases h
    · rename_i hsome
      cases h
      rw [Bool.or_eq_true, not_or, List.isEmpty_iff, List.isEmpty_iff] at hsome
      refine ⟨?_, fun hmem => ?_, hsome.1, hsome.2⟩
      · obtain rfl : c = ':' := by
          have := List.head?_dropWhile_not (fun c : Char => decide (c ≠ ':')) text
          rw [hrest] at this
          simpa using this
        rw [← hrest, List.takeWhile_append_dropWhile]
      · have := List.mem_takeWhile_imp hmem
        simp at this
  · cases h

/-- What a word comes to under the empty registry has a text that leads back to it. -/
lemma isNamed_ofText {text : String} (hstraight : IsStraight text.toList)
    (hclosing : ']' ∉ text.toList) : (ofText text .empty).IsNamed .empty := by
  have hname : ∀ id, Registry.empty.propertyName id = id := fun _ => rfl
  have hid : ∀ name, Registry.empty.propertyId name = name := fun _ => rfl
  unfold ofText
  cases hsplit : splitScope text.toList with
  | none => exact ⟨rfl, .inr rfl, hstraight, hclosing, by rintro _ ⟨⟩⟩
  | some parts =>
    obtain ⟨scope, name⟩ := parts
    obtain ⟨htext, hcolon, hscope, hne⟩ := eq_of_splitScope hsplit
    rw [htext] at hstraight hclosing
    obtain ⟨hfirst, hlast⟩ := isStraight_append.mp hstraight
    rw [List.mem_append, List.mem_cons, not_or, not_or] at hclosing
    have hlast' : IsStraight name := fun c hc => hlast c (List.mem_cons_of_mem _ hc)
    dsimp only
    rw [hid, inScope]
    refine ⟨rfl, .inr rfl, ?_, ?_, ?_⟩
    · rwa [hname, label, String.toList_ofList]
    · rw [hname, label, String.toList_ofList]
      exact hclosing.2.2
    · intro other hother
      dsimp only [scope?] at hother
      split at hother
      · cases hother
      · rename_i hdefault
        cases hother
        refine ⟨?_, hdefault, ?_, ?_, ?_, ?_⟩
        · simpa using hscope
        · rwa [String.toList_ofList]
        · rw [String.toList_ofList]
          exact hclosing.1
        · rwa [String.toList_ofList]
        · simpa [hname, label] using hne

end PropertyRef

end RecordQuery
