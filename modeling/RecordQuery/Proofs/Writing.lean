import RecordQuery.Proofs.Rendering
import RecordQuery.Proofs.Writable

/-!
# Sketches that write a text

`Sketch.Writes` says that some sketches are a text and are read from it as they were sketched, and
how deep their parentheses are. The lemmas of this file put such texts together, with blanks, commas
and connectives between them and with parentheses around them.
-/

namespace RecordQuery

namespace Sketch

/-! ## Texts in a row -/

/-- Whether sketches begin with one that a blank stands before. -/
def Starts (sketches : List Sketch) : Prop :=
  ∃ first rest, sketches = first :: rest ∧ first.gap = [' ']

/-- What starts a text is something. -/
lemma Starts.ne_nil {sketches : List Sketch} (h : Starts sketches) : sketches ≠ [] := by
  obtain ⟨first, rest, rfl, -⟩ := h
  exact List.cons_ne_nil _ _

/-- What starts a text does so whatever comes behind it. -/
lemma Starts.append {a : List Sketch} (h : Starts a) (b : List Sketch) : Starts (a ++ b) := by
  obtain ⟨first, rest, rfl, hgap⟩ := h
  exact ⟨first, rest ++ b, rfl, hgap⟩

/-- A blank stands before what could start a text. -/
lemma charsBehind_of_starts {sketches : List Sketch} (h : Starts sketches) :
    charsBehind sketches = ' ' :: charsAll sketches := by
  obtain ⟨first, rest, rfl, hgap⟩ := h
  rw [charsBehind, hgap, charsAll, List.singleton_append, List.cons_append]

/-- Entries with separators between them start a text if each of them does. -/
lemma starts_intercalate {separators : List Sketch} {entries : List (List Sketch)}
    (hne : entries ≠ []) (h : ∀ entry ∈ entries, Starts entry) :
    Starts (separators.intercalate entries) := by
  cases entries with
  | nil => exact absurd rfl hne
  | cons first rest =>
    have hfirst := h first (List.mem_cons_self ..)
    cases rest with
    | nil => simpa using hfirst
    | cons second rest =>
      rw [List.intercalate_cons_cons, List.append_assoc]
      exact hfirst.append _

/-- Entries are written with the separators and a blank between any two. -/
lemma charsAll_intercalate (separators : List Sketch) {entries : List (List Sketch)}
    (h : ∀ entry ∈ entries, Starts entry) :
    charsAll (separators.intercalate entries) =
      (charsBehind separators ++ [' ']).intercalate (entries.map charsAll) := by
  induction entries with
  | nil => rfl
  | cons first rest ih =>
    obtain ⟨hfirst, hrest⟩ := List.forall_mem_cons.mp h
    cases rest with
    | nil => simp
    | cons second rest =>
      have hstarts : Starts (separators.intercalate (second :: rest)) :=
        starts_intercalate (List.cons_ne_nil second rest) hrest
      rw [List.intercalate_cons_cons, List.map_cons, List.map_cons, List.intercalate_cons_cons,
        List.append_assoc, charsAll_append hfirst.ne_nil, charsBehind_append,
        charsBehind_of_starts hstarts, ih hrest, List.map_cons]
      simp

/-- What is between separators is a separator or in an entry. -/
lemma mem_intercalate {separators : List Sketch} {entries : List (List Sketch)} {sketch : Sketch}
    (h : sketch ∈ separators.intercalate entries) :
    sketch ∈ separators ∨ ∃ entry ∈ entries, sketch ∈ entry := by
  induction entries with
  | nil => cases h
  | cons first rest ih =>
    cases rest with
    | nil => exact .inr ⟨first, List.mem_cons_self .., by simpa using h⟩
    | cons second rest =>
      rw [List.intercalate_cons_cons, List.mem_append, List.mem_append] at h
      obtain (h | h) | h := h
      · exact .inr ⟨first, List.mem_cons_self .., h⟩
      · exact .inl h
      · obtain h | ⟨entry, hentry, h⟩ := ih h
        · exact .inl h
        · exact .inr ⟨entry, List.mem_cons_of_mem _ hentry, h⟩

/-- Sketches are as deep as the deepest of them. -/
lemma depthAll_le_iff {sketches : List Sketch} {n : Nat} :
    depthAll sketches ≤ n ↔ ∀ sketch ∈ sketches, sketch.depth ≤ n := by
  induction sketches with
  | nil => simp [depthAll]
  | cons sketch rest ih => simp [depthAll, ih]

/-- A sound sketch is not empty. -/
lemma chars_ne_nil {raw : Lexeme → Prop} {mentioned : Prop} {sketch : Sketch}
    (h : sketch.Sound raw mentioned) : sketch.chars ≠ [] := by
  cases sketch with
  | keyword kind => cases kind <;> decide +kernel
  | word text => exact h.1
  | bracketed text => exact List.cons_ne_nil _ _
  | quoted lexeme text =>
    have hcloses := h.closes
    cases lexeme with
    | quoted quote body closed => exact List.cons_ne_nil _ _
    | block body closed => exact List.cons_ne_nil _ _
    | _ => exact hcloses.elim
  | comma => exact List.cons_ne_nil _ _
  | call kind parameters => simp [chars]
  | group contents => exact List.cons_ne_nil _ _

/-! ## Tidy sketches -/

/-- Whether a sketch is read from its text as it was sketched, and is no part of a keyword, and its
parentheses are only so deep. -/
structure Tidy (raw : Lexeme → Prop) (mentioned : Prop) (n : Nat) (sketch : Sketch) : Prop where
  sound : sketch.Sound raw mentioned
  steady : sketch.Steady
  depth : sketch.depth ≤ n

/-- A tidy sketch may be said to be deeper than it is. -/
lemma Tidy.mono {raw : Lexeme → Prop} {mentioned : Prop} {m n : Nat} {sketch : Sketch}
    (h : sketch.Tidy raw mentioned m) (hmn : m ≤ n) : sketch.Tidy raw mentioned n :=
  ⟨h.sound, h.steady, h.depth.trans hmn⟩

/-- Whether sketches write a text. -/
structure Writes (raw : Lexeme → Prop) (n : Nat) (text : String) (sketches : List Sketch) :
    Prop where
  chars_eq : charsAll sketches = text.toList
  starts : Starts sketches
  tidy : ∀ sketch ∈ sketches, sketch.Tidy raw False n

namespace Writes

variable {raw : Lexeme → Prop} {m n : Nat} {text text' : String} {sketches sketches' : List Sketch}

/-- A text may be said to be deeper than it is. -/
lemma mono (h : Writes raw m text sketches) (hmn : m ≤ n) : Writes raw n text sketches :=
  ⟨h.chars_eq, h.starts, fun sketch hsketch => (h.tidy sketch hsketch).mono hmn⟩

/-- The sketches of a text are sound. -/
lemma soundAll (h : Writes raw n text sketches) : SoundAll raw False sketches :=
  soundAll_iff.mpr fun sketch hsketch => (h.tidy sketch hsketch).sound

/-- The sketches of a text are steady. -/
lemma steadyAll (h : Writes raw n text sketches) : SteadyAll sketches :=
  steadyAll_iff.mpr fun sketch hsketch => (h.tidy sketch hsketch).steady

/-- The sketches of a text are no deeper than is said. -/
lemma depthAll_le (h : Writes raw n text sketches) : depthAll sketches ≤ n :=
  depthAll_le_iff.mpr fun sketch hsketch => (h.tidy sketch hsketch).depth

/-- No sketches write the empty text. -/
lemma ne_empty (h : Writes raw n text sketches) : text ≠ "" := by
  rintro rfl
  obtain ⟨first, rest, rfl, -⟩ := h.starts
  have hchars := h.chars_eq
  rw [charsAll, String.toList_empty, List.append_eq_nil_iff] at hchars
  exact chars_ne_nil (h.tidy first (List.mem_cons_self ..)).sound hchars.1

/-- One sketch that is a text. -/
lemma single {sketch : Sketch} (h : sketch.Tidy raw False n) (hgap : sketch.gap = [' '])
    (htext : sketch.chars = text.toList) : Writes raw n text [sketch] := by
  refine ⟨?_, ⟨sketch, [], rfl, hgap⟩, by simpa using h⟩
  rw [charsAll, charsBehind, List.append_nil, htext]

/-- A blank stands between two texts. -/
lemma append (h : Writes raw n text sketches) (h' : Writes raw n text' sketches') :
    Writes raw n (text ++ " " ++ text') (sketches ++ sketches') := by
  refine ⟨?_, h.starts.append _, fun sketch hsketch => ?_⟩
  · rw [charsAll_append h.starts.ne_nil, charsBehind_of_starts h'.starts, h.chars_eq, h'.chars_eq]
    simp
  · obtain hsketch | hsketch := List.mem_append.mp hsketch
    · exact h.tidy sketch hsketch
    · exact h'.tidy sketch hsketch

/-- A text in parentheses. -/
lemma group (h : Writes raw n text sketches) :
    Writes raw (n + 1) ("(" ++ text ++ ")") [.group sketches] := by
  refine single ⟨h.soundAll, h.steadyAll, ?_⟩ rfl ?_
  · rw [depth]
    exact Nat.succ_le_succ h.depthAll_le
  · rw [chars, h.chars_eq]
    simp

/-- Texts with the text of one sketch between each two. -/
lemma separate {separator : Sketch} {between : String}
    (hbetween : charsBehind [separator] ++ [' '] = between.toList)
    (hseparator : separator.Tidy raw False n) {texts : List String} {entries : List (List Sketch)}
    (h : List.Forall₂ (Writes raw n) texts entries) (hne : texts ≠ []) :
    Writes raw n (between.intercalate texts) ([separator].intercalate entries) := by
  have hentries : ∀ entry ∈ entries, ∃ text, Writes raw n text entry := by
    intro entry hentry
    obtain ⟨i, hi, rfl⟩ := List.mem_iff_getElem.mp hentry
    exact ⟨_, (List.forall₂_iff_get.mp h).2 i (h.length_eq ▸ hi) hi⟩
  have hstarts : ∀ entry ∈ entries, Starts entry := fun entry hentry =>
    (hentries entry hentry).elim fun _ h => h.starts
  have hsome : entries ≠ [] := by
    rintro rfl
    cases h
    exact hne rfl
  have htexts : entries.map charsAll = texts.map String.toList := by
    clear hentries hstarts hsome hne
    induction h with
    | nil => rfl
    | cons hfirst _ ih => rw [List.map_cons, List.map_cons, hfirst.chars_eq, ih]
  refine ⟨?_, starts_intercalate hsome hstarts, fun sketch hsketch => ?_⟩
  · rw [charsAll_intercalate _ hstarts, String.toList_intercalate, htexts, hbetween]
  · obtain hsketch | ⟨entry, hentry, hsketch⟩ := mem_intercalate hsketch
    · rwa [List.mem_singleton.mp hsketch]
    · obtain ⟨text, hwrites⟩ := hentries entry hentry
      exact hwrites.tidy sketch hsketch

/-- Texts with a keyword between each two. -/
lemma join {kind : Kind} (hsingle : kind.isSingle = true) (hfunction : kind.isFunction = false)
    {texts : List String} {entries : List (List Sketch)}
    (h : List.Forall₂ (Writes raw n) texts entries) (hne : texts ≠ []) :
    Writes raw n ((" " ++ kind.keyword ++ " ").intercalate texts)
      ([.keyword kind].intercalate entries) := by
  have htidy : (Sketch.keyword kind).Tidy raw False n :=
    ⟨⟨hfunction, hsingle⟩, trivial, Nat.zero_le _⟩
  exact separate (by simp [charsBehind, gap, chars]) htidy h hne

/-- Texts with commas between them. -/
lemma list {texts : List String} {entries : List (List Sketch)}
    (h : List.Forall₂ (Writes raw n) texts entries) (hne : texts ≠ []) :
    Writes raw n (Operator.commaList texts) ([.comma].intercalate entries) := by
  have htidy : Sketch.comma.Tidy raw False n := ⟨trivial, trivial, Nat.zero_le _⟩
  exact separate (by simp [charsBehind, gap, chars]) htidy h hne

/-- Whether a sketch is a token that is a text. -/
structure IsToken (raw : Lexeme → Prop) (mentioned : Prop) (text : String) (leaf : Sketch) :
    Prop where
  chars_eq : leaf.chars = text.toList
  gap_eq : leaf.gap = [' ']
  tidy : leaf.Tidy raw mentioned 0

/-- A single token is written by its sketch. -/
lemma of_token {leaf : Sketch} (h : IsToken raw False text leaf) : Writes raw 0 text [leaf] :=
  single h.tidy h.gap_eq h.chars_eq

/-- A keyword with parameters in parentheses. -/
lemma call {kind : Kind} (hfunction : kind.isFunction = true) {texts : List String}
    {leaves : List Sketch}
    (h : List.Forall₂ (IsToken raw (False ∨ kind = .regexpMatch)) texts leaves) :
    Writes raw 1
      (kind.keyword ++ String.ofList kind.gap ++ "(" ++ Operator.commaList texts ++ ")")
      [.call kind ([.comma].intercalate (leaves.map ([·])))] := by
  have hleaves : ∀ leaf ∈ leaves, ∃ text, IsToken raw (False ∨ kind = .regexpMatch) text leaf := by
    intro leaf hleaf
    obtain ⟨i, hi, rfl⟩ := List.mem_iff_getElem.mp hleaf
    exact ⟨_, (List.forall₂_iff_get.mp h).2 i (h.length_eq ▸ hi) hi⟩
  have hstarts : ∀ entry ∈ leaves.map ([·]), Starts entry := by
    intro entry hentry
    obtain ⟨leaf, hleaf, rfl⟩ := List.mem_map.mp hentry
    obtain ⟨text, htoken⟩ := hleaves leaf hleaf
    exact ⟨leaf, [], rfl, htoken.gap_eq⟩
  have htexts : (leaves.map ([·])).map charsAll = texts.map String.toList := by
    clear hleaves hstarts
    induction h with
    | nil => rfl
    | cons hfirst _ ih =>
      rw [List.map_cons, List.map_cons, List.map_cons, ih, charsAll, charsBehind, List.append_nil,
        hfirst.chars_eq]
  have hparameters : ∀ sketch ∈ [comma].intercalate (leaves.map ([·])),
      sketch.Tidy raw (False ∨ kind = .regexpMatch) 0 := by
    intro sketch hsketch
    obtain hsketch | ⟨entry, hentry, hsketch⟩ := mem_intercalate hsketch
    · obtain rfl := List.mem_singleton.mp hsketch
      exact ⟨trivial, trivial, Nat.le_refl _⟩
    · obtain ⟨leaf, hleaf, rfl⟩ := List.mem_map.mp hentry
      obtain rfl := List.mem_singleton.mp hsketch
      obtain ⟨text, htoken⟩ := hleaves sketch hleaf
      exact htoken.tidy
  refine single ⟨⟨hfunction, soundAll_iff.mpr fun sketch hsketch =>
    (hparameters sketch hsketch).sound⟩, ?_, ?_⟩ rfl ?_
  · exact steadyAll_iff.mpr fun sketch hsketch => (hparameters sketch hsketch).steady
  · rw [depth]
    exact Nat.succ_le_succ (depthAll_le_iff.mpr fun sketch hsketch =>
      (hparameters sketch hsketch).depth)
  · rw [chars, charsAll_intercalate _ hstarts, htexts, Operator.commaList]
    simp [charsBehind, gap, chars]

end Writes

/-! ## Tokens -/

open Writes

/-- A writable reference is a single token. -/
lemma isToken_reference {registry : Registry} {p : PropertyRef} (h : p.IsWritable registry)
    (raw : Lexeme → Prop) (mentioned : Prop) :
    IsToken raw mentioned (p.render registry) (p.sketch registry) := by
  refine ⟨p.chars_sketch registry, ?_, p.sound_sketch h raw mentioned, p.steady_sketch registry, ?_⟩
  · unfold PropertyRef.sketch
    split <;> rfl
  · unfold PropertyRef.sketch
    split <;> exact Nat.le_refl 0

/-- A writable scalar is a single token. -/
lemma isToken_scalar {registry : Registry} {raw : Lexeme → Prop} {v : ScalarValue}
    (h : v.IsWritable registry raw) (mentioned : Prop) :
    IsToken raw mentioned (v.render registry) (v.sketch registry) := by
  refine ⟨v.chars_sketch registry, ?_, v.sound_sketch h mentioned, v.steady_sketch registry, ?_⟩
  · unfold ScalarValue.sketch
    split <;> rfl
  · unfold ScalarValue.sketch
    split <;> exact Nat.le_refl 0

/-- A pattern is a single token behind a mention of regular expressions. -/
lemma isToken_pattern {registry : Registry} {raw : Lexeme → Prop} {mentioned : Prop}
    {v : ScalarValue} (h : v.IsPattern registry) (hmentioned : mentioned) :
    IsToken raw mentioned (Text.quoteVerbatim v.text) v.patternSketch :=
  ⟨v.chars_patternSketch, rfl, v.sound_patternSketch h hmentioned, trivial, Nat.le_refl 0⟩

/-- A keyword of one word is a single token. -/
lemma isToken_keyword {kind : Kind} (hsingle : kind.isSingle = true)
    (hfunction : kind.isFunction = false) (raw : Lexeme → Prop) (mentioned : Prop) :
    IsToken raw mentioned kind.keyword (.keyword kind) :=
  ⟨rfl, rfl, ⟨hfunction, hsingle⟩, trivial, Nat.le_refl 0⟩

end Sketch

end RecordQuery
