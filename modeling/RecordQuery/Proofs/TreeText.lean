import RecordQuery.Proofs.ConditionTrees
import RecordQuery.Proofs.EmptyParentheses
import RecordQuery.Proofs.PlainWords
import RecordQuery.Proofs.ReadBack

/-!
# Texts of condition trees

The text of a condition tree is sketched by going through the tree: a negation or a group is written
from the sketches of its operands that are not empty, with parentheses around those that need them.
There are no sketches exactly for the spare hollow trees (`Operator.IsTree.transcript_eq_nil_iff`),
and a tree that is not spare has empty parentheses among its sketches
(`Operator.IsTree.exists_vacant`).
-/

namespace RecordQuery

open Reader Sketch

/-- Every number is read from its text as it was. -/
lemma ScalarValue.isWritable_of_number {registry : Registry} {raw : Lexeme → Prop} {v : ScalarValue}
    (h : v.type = .number) : v.IsWritable registry raw := by
  have hstring : ∀ s, v.value ≠ .string s := fun s hs => by
    rw [ScalarValue.type, hs] at h
    cases h
  exact ⟨fun s hs => absurd hs (hstring s), fun s hs => absurd hs (hstring s),
    fun s hs _ => absurd hs (hstring s)⟩

namespace Operator

mutual

/-- The sketches of the text of a tree. -/
def transcript : Operator → List Sketch
  | ⟨kind, property, operands, _⟩ =>
    match kind with
    | .and => [.keyword .and].intercalate (transcriptIn .and operands)
    | .or => [.keyword .or].intercalate (transcriptIn .or operands)
    | .not => (transcriptIn .not operands).flatMap (.keyword .not :: ·)
    | _ =>
      match property, operands with
      | some p, [.value v] => [p.sketch .empty, .keyword kind, v.sketch .empty]
      | _, _ => []

/-- The sketches of the trees among the operands of a negation or a group, without those that are
not written. -/
def transcriptIn (kind : Kind) : List Operand → List (List Sketch)
  | [] => []
  | .operator op :: rest =>
    let part := enclosed kind op (transcript op)
    if part.isEmpty then transcriptIn kind rest else part :: transcriptIn kind rest
  | _ :: rest => transcriptIn kind rest

end

/-- The sketches of a tree in a negation or a group. -/
def part (kind : Kind) (op : Operator) : List Sketch := enclosed kind op op.transcript

/-- The sketches of trees in a negation or a group that are written. -/
def parts (kind : Kind) (conditions : List Operator) : List (List Sketch) :=
  (conditions.map (part kind)).filter fun part => !part.isEmpty

/-- The sketches of operands are those of the conditions. -/
lemma transcriptIn_map (kind : Kind) (conditions : List Operator) :
    transcriptIn kind (conditions.map .operator) = parts kind conditions := by
  induction conditions with
  | nil => rfl
  | cons c conditions ih =>
    rw [List.map_cons, transcriptIn, ih, parts, parts, List.map_cons, List.filter_cons]
    change (if (part kind c).isEmpty = true then _ else _) = _
    cases (part kind c).isEmpty <;> rfl

/-- A group is transcribed as its parts with the connective between them. -/
lemma transcript_group (connective : Connective) (conditions : List Operator)
    (span : Option Span) :
    (Operator.mk connective.kind none (conditions.map .operator) span).transcript =
      [.keyword connective.kind].intercalate (parts connective.kind conditions) := by
  rw [← transcriptIn_map]
  cases connective <;> rfl

/-- A negation is transcribed as `NOT` and its condition, or as nothing if the condition is. -/
lemma transcript_negation (condition : Operator) (span : Option Span) :
    (Operator.mk .not none [.operator condition] span).transcript =
      if (part .not condition).isEmpty then [] else .keyword .not :: part .not condition := by
  have hparts := transcriptIn_map .not [condition]
  rw [List.map_singleton] at hparts
  rw [transcript, hparts, parts, List.map_singleton, List.filter_singleton]
  cases (part .not condition).isEmpty <;> simp

/-! ## Trees without a text -/

variable {op condition : Operator} {kind : Kind} {conditions : List Operator}

/-- A part is empty if its condition is and no parentheses stand around it. -/
lemma part_eq_nil_iff : part kind op = [] ↔ encloses kind op = false ∧ op.transcript = [] := by
  unfold part enclosed
  split <;> rename_i hencloses <;> simp [hencloses]

/-- There are no parts if each part is empty. -/
lemma parts_eq_nil_iff : parts kind conditions = [] ↔ ∀ c ∈ conditions, part kind c = [] := by
  simp [parts]

/-- Parts with separators between them are empty if there are no parts. -/
lemma intercalate_eq_nil_iff {separator : Sketch} :
    [separator].intercalate (parts kind conditions) = [] ↔ parts kind conditions = [] := by
  have hne : ∀ written ∈ parts kind conditions, written ≠ [] := by
    intro written hwritten
    simpa using (List.mem_filter.mp hwritten).2
  cases hparts : parts kind conditions with
  | nil => simp
  | cons first rest =>
    rw [hparts] at hne
    cases rest with
    | nil => simpa using hne first (List.mem_cons_self ..)
    | cons second rest => simp [List.intercalate_cons_cons]

/-- A tree has no text exactly if it is hollow and no parentheses are written in it. -/
theorem IsTree.transcript_eq_nil_iff (h : op.IsTree) :
    op.transcript = [] ↔ op.isHollow = true ∧ op.IsSpare := by
  induction h with
  | test => exact ⟨nofun, nofun⟩
  | @not condition span _ ih =>
    have hpart : (Operator.mk .not none [.operator condition] span).transcript = [] ↔
        part .not condition = [] := by
      rw [transcript_negation]
      cases hwritten : part .not condition <;> simp
    rw [hpart, part_eq_nil_iff, ih, isHollow_negation, isSpare_negation]
    cases encloses .not condition <;> cases condition.isHollow <;> simp
  | @group connective conditions span _ ih =>
    rw [transcript_group, intercalate_eq_nil_iff, parts_eq_nil_iff, isHollow_group,
      List.isEmpty_iff, kept_eq_nil_iff, isSpare_group, ← forall₂_and]
    refine forall₂_congr fun c hc => ?_
    rw [part_eq_nil_iff, ih c hc]
    cases encloses connective.kind c <;> cases c.isHollow <;> simp

/-! ## Empty parentheses -/

/-- In an operand there are empty parentheses if they are put around a hollow tree, or if there are
some in the tree. -/
lemma exists_vacant_part (h : op.IsTree)
    (ih : ¬ op.IsSpare → ∃ sketch ∈ op.transcript, sketch.Vacant)
    (hop : ¬ ((encloses kind op = true → op.isHollow = false) ∧ op.IsSpare)) :
    ∃ sketch ∈ part kind op, sketch.Vacant := by
  unfold part enclosed
  by_cases hspare : op.IsSpare
  · obtain ⟨hencloses, hhollow⟩ : encloses kind op = true ∧ op.isHollow = true := by
      simpa [hspare] using hop
    rw [if_pos hencloses, h.transcript_eq_nil_iff.mpr ⟨hhollow, hspare⟩]
    exact ⟨_, List.mem_singleton_self _, .empty⟩
  · obtain ⟨sketch, hmem, hvacant⟩ := ih hspare
    split
    · exact ⟨_, List.mem_singleton_self _, .inside hmem hvacant⟩
    · exact ⟨sketch, hmem, hvacant⟩

/-- What is in a part is among the parts with separators between them. -/
lemma mem_intercalate_parts {separator sketch : Sketch} {written : List Sketch}
    {parts : List (List Sketch)} (hwritten : written ∈ parts) (hmem : sketch ∈ written) :
    sketch ∈ [separator].intercalate parts := by
  induction parts with
  | nil => cases hwritten
  | cons first rest ih =>
    cases rest with
    | nil => simpa [List.mem_singleton.mp hwritten] using hmem
    | cons second rest =>
      rw [List.intercalate_cons_cons, List.mem_append]
      obtain rfl | hwritten := List.mem_cons.mp hwritten
      · exact .inl (List.mem_append_left _ hmem)
      · exact .inr (ih hwritten)

/-- The text of a tree that is not spare has empty parentheses in it. -/
theorem IsTree.exists_vacant (h : op.IsTree) (hspare : ¬ op.IsSpare) :
    ∃ sketch ∈ op.transcript, sketch.Vacant := by
  induction h with
  | test => exact absurd ⟨nofun, trivial⟩ hspare
  | @not condition span htree ih =>
    rw [isSpare_negation] at hspare
    obtain ⟨sketch, hmem, hvacant⟩ := exists_vacant_part htree ih hspare
    rw [transcript_negation, if_neg (by simpa using List.ne_nil_of_mem hmem)]
    exact ⟨sketch, List.mem_cons_of_mem _ hmem, hvacant⟩
  | @group connective conditions span htrees ih =>
    rw [isSpare_group, not_forall₂] at hspare
    obtain ⟨c, hc, hspare⟩ := hspare
    obtain ⟨sketch, hmem, hvacant⟩ := exists_vacant_part (htrees c hc) (ih c hc) hspare
    rw [transcript_group]
    refine ⟨sketch, mem_intercalate_parts (List.mem_filter.mpr ⟨?_, ?_⟩) hmem, hvacant⟩
    · exact List.mem_map_of_mem hc
    · simpa using List.ne_nil_of_mem hmem

/-! ## The text that is sketched -/

/-- Whether sketches write a text, where an empty text has none. -/
def Transcribes (n : Nat) (text : String) (sketches : List Sketch) : Prop :=
  (text = "" ∧ sketches = []) ∨ Writes (fun _ => True) n text sketches

/-- A text is empty exactly if it has no sketches. -/
lemma Transcribes.isEmpty_eq {n : Nat} {text : String} {sketches : List Sketch}
    (h : Transcribes n text sketches) : text.isEmpty = sketches.isEmpty := by
  obtain ⟨rfl, rfl⟩ | h := h
  · rfl
  · rw [Bool.eq_iff_iff, String.isEmpty_iff, List.isEmpty_iff]
    exact ⟨fun hempty => absurd hempty h.ne_empty, fun hempty => absurd hempty h.starts.ne_nil⟩

/-- Sketches that transcribe a text write it, if there are any. -/
lemma Transcribes.writes {n : Nat} {text : String} {sketches : List Sketch}
    (h : Transcribes n text sketches) (hne : sketches ≠ []) :
    Writes (fun _ => True) n text sketches :=
  h.resolve_left fun hempty => hne hempty.2

/-- What is written in an operand, parentheses around nothing included. -/
lemma Transcribes.part {n : Nat}
    (h : Transcribes op.depth (op.render .empty) op.transcript)
    (hdepth : op.depth + (if encloses kind op then 1 else 0) ≤ n) :
    Transcribes n (enclosedText kind op (op.render .empty)) (part kind op) := by
  unfold enclosedText Operator.part enclosed
  split <;> rename_i hencloses
  · rw [if_pos hencloses] at hdepth
    refine .inr (.mono ?_ hdepth)
    obtain ⟨htext, hsketches⟩ | h := h
    · rw [htext, hsketches]
      exact Writes.single ⟨trivial, trivial, by simp [Sketch.depth, depthAll]⟩ rfl rfl
    · exact h.group
  · rw [if_neg hencloses] at hdepth
    exact h.imp_right fun h => h.mono hdepth

/-- The parts of a group are written one by one, those without a text left out. -/
lemma writes_parts {n : Nat}
    (h : ∀ c ∈ conditions,
      Transcribes n (enclosedText kind c (c.render .empty)) (part kind c)) :
    List.Forall₂ (Writes (fun _ => True) n)
      ((conditions.map fun c => enclosedText kind c (c.render .empty)).filter
        fun text => !text.isEmpty) (parts kind conditions) := by
  induction conditions with
  | nil => exact .nil
  | cons c conditions ih =>
    obtain ⟨hc, hrest⟩ := List.forall_mem_cons.mp h
    rw [parts, List.map_cons, List.map_cons, List.filter_cons, List.filter_cons, hc.isEmpty_eq]
    split
    · rename_i hwritten
      exact .cons (hc.writes (by simpa using hwritten)) (ih hrest)
    · exact ih hrest

/-- The parentheses in an operand are no deeper than those in the tree. -/
lemma depth_le_of_mem {p : Option PropertyRef} {operands : List Operand} {span : Option Span}
    (hmem : .operator op ∈ operands) :
    op.depth + (if encloses kind op then 1 else 0) ≤ (Operator.mk kind p operands span).depth := by
  rw [depth]
  exact (le_depthIn hmem).trans (Nat.le_max_right _ _)

/-- A comparison with a number is sketched, and read from its sketches. -/
lemma isSketchedAs_test {text id : String} {ceilings : Ceilings} {v : ScalarValue}
    {span : Option Span} (plain : (PropertyRef.ofId id).isPlain .empty = true)
    (number : v.type = .number) :
    IsSketchedAs (.of text .empty ceilings) (fun _ => True)
      (stated .equals (.property (.ofId id)) [.value v] span)
      (stated .equals (.property (.ofId id)) [.value v] span).transcript :=
  isSketchedAs_comparison rfl
    (isSubject_reference (PropertyRef.isWritable_of_isPlain plain) .equals)
    (ScalarValue.isWritable_of_number number) (by rw [number]; rfl)

/-- The text of a tree is the one that is sketched. -/
theorem IsTree.transcribes (h : op.IsTree) :
    Transcribes op.depth (op.render .empty) op.transcript := by
  induction h with
  | test plain number =>
    exact .inr (@isSketchedAs_test "" _ {} _ _ plain number).writes
  | @not condition span _ ih =>
    have hpart : Transcribes (Operator.mk .not none [.operator condition] span).depth
        (enclosedText .not condition (condition.render .empty)) (part .not condition) :=
      ih.part (depth_le_of_mem (List.mem_singleton_self _))
    rw [render_negation_eq, transcript_negation]
    dsimp only
    rw [hpart.isEmpty_eq]
    split
    · exact .inl ⟨rfl, rfl⟩
    · rename_i hwritten
      have hkeyword : Writes (fun _ => True) 0 Kind.not.keyword [.keyword .not] :=
        Writes.of_token (isToken_keyword (by decide +kernel) rfl _ False)
      exact .inr ((hkeyword.mono (Nat.zero_le _)).append (hpart.writes (by simpa using hwritten)))
  | @group connective conditions span _ ih =>
    have hkind : connective.kind.isSingle = true ∧ connective.kind.isFunction = false := by
      cases connective <;> decide +kernel
    have hpart : ∀ c ∈ conditions, Transcribes
        (Operator.mk connective.kind none (conditions.map .operator) span).depth
        (enclosedText connective.kind c (c.render .empty)) (part connective.kind c) :=
      fun c hc => (ih c hc).part (depth_le_of_mem (List.mem_map_of_mem hc))
    have hparts := writes_parts hpart
    rw [render_group_eq, transcript_group]
    by_cases hnone : parts connective.kind conditions = []
    · rw [hnone] at hparts ⊢
      rw [List.forall₂_nil_right_iff.mp hparts]
      exact .inl ⟨rfl, rfl⟩
    · refine .inr (Writes.join hkind.1 hkind.2 hparts fun hnil => hnone ?_)
      rw [hnil] at hparts
      exact List.forall₂_nil_left_iff.mp hparts

end Operator

end RecordQuery
