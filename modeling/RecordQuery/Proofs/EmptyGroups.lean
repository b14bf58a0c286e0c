import RecordQuery.Proofs.SingleCondition
import RecordQuery.Proofs.TreeText

/-!
# Empty groups render as nothing

The text of a condition tree is read as what the tree comes to when its hollow trees are left out,
and so is the text of the pruned tree. This holds as long as no parentheses stand around a hollow
tree. Whether an operand needs parentheses is told from how many operands it has itself, and not
from its text, so that a group of empty groups is written as an empty pair of parentheses if it
stands in another group, and no text with such a pair can be read. Likewise `NOT` puts parentheses
around every other `NOT`.

Reading is told from the sketches of the text, bottom up. A tree stands in a group as one phrase: a
condition behind some negations, or a pair of parentheses.
-/

namespace RecordQuery

open Reader Sketch Phrase

namespace Operator

/-! ## What the ceilings allow -/

mutual

/-- How many operators are settled in the phrase that a tree is written as. What stands in
parentheses is a phrase of its own, and a group of one condition is written as the condition. -/
def strain : Operator → Nat
  | ⟨kind, _, operands, _⟩ => (if kind.isConnective then 0 else 1) + strainIn kind operands

/-- How many operators are settled in a phrase for the first operand of a negation or a group that
is not hollow. -/
def strainIn (kind : Kind) : List Operand → Nat
  | .operator op :: rest =>
    if op.isHollow then strainIn kind rest else if encloses kind op then 0 else strain op
  | _ => 0

end

/-- Whether no loop that reads a tree goes on for more than some steps. -/
def Sustained (steps : Nat) (op : Operator) : Prop :=
  op.isHollow = false → op.strain ≤ steps ∧ op.prune.breadth ≤ steps

instance (steps : Nat) : DecidablePred (Sustained steps) := fun op =>
  inferInstanceAs (Decidable (op.isHollow = false → op.strain ≤ steps ∧ op.prune.breadth ≤ steps))

/-- Whether the text of a tree stays within the ceilings of a reading. -/
structure Suits (ceilings : Ceilings) (op : Operator) : Prop where
  depth : op.depth ≤ ceilings.depth
  steps : op.Everywhere (Sustained ceilings.steps)

/-- How many operators are settled in a phrase for an operand. -/
def partStrain (kind : Kind) (op : Operator) : Nat := if encloses kind op then 0 else op.strain

/-- The strain of a group is that of the first condition that is kept. -/
lemma strainIn_map {kind : Kind} {conditions rest : List Operator} {c : Operator}
    (h : kept conditions = c :: rest) :
    strainIn kind (conditions.map .operator) = partStrain kind c := by
  induction conditions with
  | nil => cases h
  | cons d conditions ih =>
    rw [kept, List.filter_cons] at h
    rw [List.map_cons, strainIn]
    cases hhollow : d.isHollow with
    | true =>
      rw [if_pos rfl]
      exact ih (by rw [kept]; simpa [hhollow] using h)
    | false =>
      simp only [hhollow, Bool.not_false, if_true, List.cons.injEq] at h
      rw [if_neg Bool.false_ne_true, h.1]
      rfl

/-! ## What trees are read as -/

/-- Whether a tree is read as what it comes to: as a group, and as a phrase unless it is a group of
several operands, which is always put in parentheses. -/
structure IsReadAs (s : Setting) (op : Operator) : Prop where
  group : ∀ es, ReadsAll s op.transcript es → IsGroup s [] [] es op.settled
  phrase : ¬ (op.isConnective = true ∧ 1 < op.operands.length) → ∀ es, ReadsAll s op.transcript es →
    IsNegated s op.strain es op.settled

variable {s : Setting} {op condition : Operator} {kind : Kind} {conditions : List Operator}

/-- A tree is read as a phrase where it stands in a negation or a group. -/
lemma IsReadAs.part (h : op.IsReadAs s) (hkind : kind.family = .logical)
    (hcondition : op.settled.isCondition = true) {es : List Element}
    (hes : ReadsAll s (part kind op) es) : IsNegated s (partStrain kind op) es op.settled := by
  unfold Operator.part enclosed at hes
  unfold partStrain
  split at hes
  · rename_i hencloses
    obtain ⟨e, rfl, he⟩ := readsAll_single hes
    rw [if_pos hencloses]
    exact .of_group he hcondition h.group
  · rename_i hencloses
    rw [if_neg hencloses]
    refine h.phrase (fun hwide => hencloses ?_) es hes
    simp [encloses, hkind, hwide]

/-- A comparison of a plain property with a number is read as it is. -/
lemma isReadAs_test {text id : String} {ceilings : Ceilings} {v : ScalarValue} {span : Option Span}
    (plain : (PropertyRef.ofId id).isPlain .empty = true) (number : v.type = .number)
    (hsteps : 1 ≤ ceilings.steps) :
    (stated .equals (.property (.ofId id)) [.value v] span).IsReadAs
    (.of text .empty ceilings) := by
  have hread : ∀ es, ReadsAll (.of text .empty ceilings)
      (stated .equals (.property (.ofId id)) [.value v] span).transcript es →
      Phrase.IsRead (.of text .empty ceilings) [] [] es
        (stated .equals (.property (.ofId id)) [.value v] span) := fun es hes =>
    (isSketchedAs_test plain number).reads [] es hes rfl ⟨⟨hsteps, Nat.zero_le _⟩, trivial⟩
  refine ⟨fun es hes => (hread es hes).group rfl, fun _ es hes => ?_⟩
  obtain ⟨middle, hgathers⟩ := (hread es hes).condensed rfl rfl nofun
  exact ⟨(hread es hes).nonempty, (hread es hes).continues rfl, rfl, middle,
    hgathers.mono fun _ hitems => .base hitems rfl⟩

/-- A negation that is not hollow is read as what it comes to. -/
lemma isReadAs_negation {span : Option Span} (h : condition.IsReadAs s)
    (hcondition : condition.settled.isCondition = true) (hhollow : condition.isHollow = false)
    (hwritten : part .not condition ≠ [])
    (hsteps : (Operator.mk .not none [.operator condition] span).strain ≤ s.ceilings.steps) :
    (Operator.mk .not none [.operator condition] span).IsReadAs s := by
  have hstrain : (Operator.mk .not none [.operator condition] span).strain =
      partStrain .not condition + 1 := by
    rw [strain, strainIn, hhollow, Nat.add_comm]
    rfl
  have hphrase : ∀ es, ReadsAll s (Operator.mk .not none [.operator condition] span).transcript es →
      IsNegated s (Operator.mk .not none [.operator condition] span).strain es
        (Operator.mk .not none [.operator condition] span).settled := by
    intro es hes
    rw [transcript_negation, if_neg (by simpa using hwritten)] at hes
    obtain ⟨e, more, he, hmore, rfl⟩ := List.forall₂_cons_left_iff.mp hes
    rw [settled_negation hhollow, hstrain]
    exact (h.part rfl hcondition hmore).not he
  exact ⟨fun es hes => .of_phrase ((hphrase es hes).isPhrase hsteps) (by omega),
    fun _ => hphrase⟩

/-- Trees with a connective between them are read as a chain. -/
lemma isChain_of_parts {connective : Connective} (hne : conditions ≠ [])
    (h : ∀ c ∈ conditions, ∀ es, ReadsAll s (part connective.kind c) es →
      IsPhrase s [] [] es (.operator c.settled)) {es : List Element}
    (hes : ReadsAll s ([.keyword connective.kind].intercalate
      (conditions.map (part connective.kind))) es) :
    IsChain s connective [] [] es (conditions.map settled) := by
  induction conditions generalizing es with
  | nil => exact absurd rfl hne
  | cons c conditions ih =>
    obtain ⟨hc, hrest⟩ := List.forall_mem_cons.mp h
    cases conditions with
    | nil => exact .one (hc es (by simpa using hes))
    | cons d conditions =>
      rw [List.map_cons, List.map_cons, List.intercalate_cons_cons, List.append_assoc] at hes
      obtain ⟨es₁, more, rfl, hes₁, hmore⟩ := readsAll_append hes
      obtain ⟨link, es₂, hlink, hes₂, rfl⟩ := List.forall₂_cons_left_iff.mp hmore
      exact .more (hc es₁ hes₁) hlink (ih (List.cons_ne_nil _ _) hrest hes₂)

/-- Only conditions that are kept leave parts, if no part of a hollow one is written. -/
lemma parts_eq_map (h : ∀ c ∈ conditions, part kind c = [] ↔ c.isHollow = true) :
    parts kind conditions = (kept conditions).map (part kind) := by
  rw [parts, List.filter_map, kept]
  refine congrArg _ (List.filter_congr fun c hc => ?_)
  have hpart := h c hc
  rw [Function.comp_apply, Bool.eq_iff_iff]
  simp [hpart]

/-- A chain is read as the conditions joined. -/
lemma isGroup_joined {connective : Connective} {es : List Element}
    (h : IsChain s connective [] [] es conditions)
    (hconditions : ∀ c ∈ conditions, c.isCondition = true)
    (hsteps : conditions.length ≤ s.ceilings.steps) :
    IsGroup s [] [] es (connective.joined conditions) := by
  cases conditions with
  | nil => exact absurd rfl h.ne_nil
  | cons c conditions =>
    cases conditions with
    | nil =>
      cases h with
      | one phrase => exact .of_phrase phrase hsteps
      | more _ _ rest => exact absurd rfl rest.ne_nil
    | cons d conditions => exact .of_chain h (by simp) hsteps hconditions none

/-- A group of which something is kept is read as what it comes to. -/
lemma isReadAs_group {connective : Connective} {span : Option Span}
    (h : ∀ c ∈ kept conditions, c.IsReadAs s)
    (hconditions : ∀ c ∈ kept conditions, c.settled.isCondition = true)
    (hstrains : ∀ c ∈ kept conditions, c.strain ≤ s.ceilings.steps)
    (hwritten : ∀ c ∈ conditions, part connective.kind c = [] ↔ c.isHollow = true)
    (hkept : kept conditions ≠ []) (hsteps : (kept conditions).length ≤ s.ceilings.steps) :
    (Operator.mk connective.kind none (conditions.map .operator) span).IsReadAs s := by
  have hkind : connective.kind.family = .logical ∧ connective.kind.isConnective = true := by
    cases connective <;> exact ⟨rfl, rfl⟩
  have hpart : ∀ c ∈ kept conditions, ∀ es, ReadsAll s (part connective.kind c) es →
      IsNegated s (partStrain connective.kind c) es c.settled := fun c hc es hes =>
    (h c hc).part hkind.1 (hconditions c hc) hes
  have htranscript := transcript_group connective conditions span
  rw [parts_eq_map hwritten] at htranscript
  refine ⟨fun es hes => ?_, fun hnarrow es hes => ?_⟩
  · rw [htranscript] at hes
    rw [settled_group]
    have hphrase : ∀ c ∈ kept conditions, ∀ es, ReadsAll s (part connective.kind c) es →
        IsPhrase s [] [] es (.operator c.settled) := by
      refine fun c hc es hes => (hpart c hc es hes).isPhrase ?_
      unfold partStrain
      split
      · exact Nat.zero_le _
      · exact hstrains c hc
    refine isGroup_joined (isChain_of_parts hkept hphrase hes) ?_ (by simpa using hsteps)
    exact List.forall_mem_map.mpr hconditions
  · -- A group that is not put in parentheses has one operand only, and it is kept.
    have hlength : conditions.length ≤ 1 := by simpa [isConnective, hkind.2] using hnarrow
    have hsame : kept conditions = conditions :=
      List.filter_sublist.eq_of_length_le
        (hlength.trans (List.length_pos_iff.mpr hkept))
    obtain ⟨c, rfl⟩ : ∃ c, conditions = [c] :=
      List.length_eq_one_iff.mp (Nat.le_antisymm hlength (hsame ▸ List.length_pos_iff.mpr hkept))
    rw [htranscript, hsame, List.map_singleton, List.intercalate_singleton] at hes
    rw [settled_group, hsame, strain, hkind.2, if_pos rfl, Nat.zero_add, strainIn_map hsame]
    exact hpart c (by rw [hsame]; exact List.mem_singleton_self _) es hes

/-- Where no parentheses stand around hollow trees, just these are not written. -/
lemma IsTree.part_eq_nil_iff (h : op.IsTree)
    (hspare : (encloses kind op = true → op.isHollow = false) ∧ op.IsSpare) :
    part kind op = [] ↔ op.isHollow = true := by
  obtain ⟨hencloses, hspare⟩ := hspare
  rw [Operator.part_eq_nil_iff, h.transcript_eq_nil_iff]
  refine ⟨fun hnil => hnil.2.1, fun hhollow => ⟨?_, hhollow, hspare⟩⟩
  by_contra hparentheses
  rw [hencloses (by simpa using hparentheses)] at hhollow
  cases hhollow

/-- Every spare tree that is not hollow is read as what it comes to. -/
theorem IsTree.isReadAs {text : String} {ceilings : Ceilings} (h : op.IsTree)
    (hhollow : op.isHollow = false) (hspare : op.IsSpare)
    (hsteps : op.Everywhere (Sustained ceilings.steps)) :
    op.IsReadAs (.of text .empty ceilings) := by
  -- In a spare tree what is not written is what pruning drops, so each operand that is written is a
  -- tree with something left of it, and the induction goes on.
  induction h with
  | test plain number => exact isReadAs_test plain number (hsteps.root rfl).1
  | @not condition span htree ih =>
    have hstrain := (hsteps.root hhollow).1
    have hbelow := (everywhere_iff.mp hsteps).2 condition (List.mem_singleton_self _)
    rw [isHollow_negation] at hhollow
    rw [isSpare_negation] at hspare
    refine isReadAs_negation
      (ih hhollow hspare.2 hbelow) htree.isCondition_settled hhollow ?_ hstrain
    rw [ne_eq, htree.part_eq_nil_iff hspare, hhollow]
    exact Bool.false_ne_true
  | @group connective conditions span htrees ih =>
    have hbelow : ∀ c ∈ conditions, c.Everywhere (Sustained ceilings.steps) := fun c hc =>
      (everywhere_iff.mp hsteps).2 c (List.mem_map_of_mem hc)
    have hbreadth := (hsteps.root hhollow).2
    rw [prune_group] at hbreadth
    rw [isHollow_group] at hhollow
    rw [isSpare_group] at hspare
    refine isReadAs_group ?_ ?_ ?_ ?_ (by simpa using hhollow) ?_
    · intro c hc
      obtain ⟨hmem, hc⟩ := mem_kept.mp hc
      exact ih c hmem hc (hspare c hmem).2 (hbelow c hmem)
    · exact fun c hc => (htrees c (mem_kept.mp hc).1).isCondition_settled
    · intro c hc
      obtain ⟨hmem, hc⟩ := mem_kept.mp hc
      exact ((hbelow c hmem).root hc).1
    · exact fun c hc => (htrees c hc).part_eq_nil_iff (hspare c hc)
    · have hfamily : connective.kind.family = .logical := by cases connective <;> rfl
      change (kept conditions).length ≤ ceilings.steps
      simpa [breadth, hfamily] using hbreadth

/-! ## How texts of trees begin -/

/-- A part begins with a phrase if its condition does: parentheses are one. -/
lemma leads_part (h : Leads s op.transcript) : Leads s (part kind op) := by
  unfold part enclosed
  split
  · exact .cons (fun _ => continues_group) []
  · exact h

/-- The text of a tree begins with a phrase. -/
lemma IsTree.leads {text : String} {ceilings : Ceilings} (h : op.IsTree) :
    Leads (.of text .empty ceilings) op.transcript := by
  induction h with
  | test => exact .cons (fun e he => (denotes_reference (.of text .empty ceilings) _ e he).1) _
  | @not condition span _ ih =>
    rw [transcript_negation]
    split
    · exact .nil
    · exact .cons (fun _ he => continues_keyword he rfl rfl) _
  | @group connective conditions span _ ih =>
    have hparts : ∀ written ∈ parts connective.kind conditions,
        written ≠ [] ∧ Leads (.of text .empty ceilings) written := by
      intro written hwritten
      obtain ⟨hmem, hne⟩ := List.mem_filter.mp hwritten
      obtain ⟨c, hc, rfl⟩ := List.mem_map.mp hmem
      exact ⟨by simpa using hne, leads_part (ih c hc)⟩
    rw [transcript_group]
    cases hwritten : parts connective.kind conditions with
    | nil => exact .nil
    | cons first rest =>
      obtain ⟨hne, hfirst⟩ := hparts first (by rw [hwritten]; exact List.mem_cons_self ..)
      cases rest with
      | nil => simpa using hfirst
      | cons second rest =>
        rw [List.intercalate_cons_cons, List.append_assoc]
        exact hfirst.append hne _

end Operator

namespace Query

open Operator

variable {op : Operator} {ceilings : Ceilings}

/-- The text of a spare tree that is not hollow denotes what the tree comes to. -/
theorem denotes_settled (h : op.IsTree) (hhollow : op.isHollow = false) (hspare : op.IsSpare)
    (hsuits : op.Suits ceilings) : Denotes (op.render .empty) .empty ceilings op.settled := by
  have hne : op.transcript ≠ [] := by
    rw [ne_eq, h.transcript_eq_nil_iff, hhollow]
    exact fun hboth => Bool.false_ne_true hboth.1
  obtain ⟨r, hstart, hbegins⟩ : ∃ r, Reading.start (op.render .empty) .empty ceilings = .ok r ∧
      r.Begins (.of (op.render .empty) .empty ceilings) op.transcript :=
    Reading.exists_begins_of_writes (h.transcribes.writes hne) (fun _ _ => trivial) hsuits.depth
  have hread : op.IsReadAs (.of (op.render .empty) .empty ceilings) :=
    h.isReadAs hhollow hspare hsuits.steps
  have hgroup := hread.group r.elements hbegins.reads
  rw [← hbegins.setting] at hgroup
  exact denotes_of_isGroup hstart hbegins.notes hgroup h.isCondition_settled

/-- Rendering and pruning agree on the empty groups of a tree if and only if no parentheses stand
around a tree of which pruning leaves nothing. If nothing is left of the tree itself, its text is
empty just then. If something is left, the text of the pruned tree can be read, and that of the tree
can be read just then, with the same result. -/
theorem ofCondition_render_prune (h : op.IsTree) (ceilings : Ceilings) :
    (op.isHollow = true → (op.render .empty = "" ↔ op.IsSpare)) ∧
      (op.isHollow = false → op.Suits ceilings → op.prune.Suits ceilings →
        ∃ pruned, ofCondition (op.prune.render .empty) .empty ceilings = .ok pruned ∧
          (op.IsSpare → ∃ q, ofCondition (op.render .empty) .empty ceilings = .ok q ∧
            q.toJson = pruned.toJson) ∧
          (¬ op.IsSpare → ∀ q, ofCondition (op.render .empty) .empty ceilings ≠ .ok q)) := by
  constructor
  · intro hhollow
    have htext := h.transcribes.isEmpty_eq
    rw [Bool.eq_iff_iff, String.isEmpty_iff, List.isEmpty_iff, h.transcript_eq_nil_iff] at htext
    rw [htext]
    exact ⟨fun hboth => hboth.2, fun hspare => ⟨hhollow, hspare⟩⟩
  · intro hhollow hsuits hpruned
    obtain ⟨pruned, hcompiles, hhas⟩ :
        Denotes (op.prune.render .empty) .empty ceilings op.settled := by
      rw [← h.settled_prune hhollow]
      exact denotes_settled (h.prune hhollow)
        (by rw [isHollow_prune, hhollow]) op.isSpare_prune hpruned
    refine ⟨pruned, hcompiles, fun hspare => ?_, fun hspare q => ?_⟩
    · obtain ⟨q, hq, hsame⟩ := denotes_settled h hhollow hspare hsuits
      exact ⟨q, hq, by rw [hsame.toJson_eq, hhas.toJson_eq]⟩
    · obtain ⟨sketch, hmem, hvacant⟩ := h.exists_vacant hspare
      exact ofCondition_ne_ok_of_vacant
        (h.transcribes.writes (List.ne_nil_of_mem hmem)) hsuits.depth h.leads hmem hvacant q

/-- A comparison of a property with a number in digits. -/
def sampleTest (id digits : String) : Operator :=
  .stated .equals (.property (.ofId id)) [.value (.infer digits false)] none

/-- A group with an empty group in it, and a negation of a negation. -/
def sampleTree : Operator :=
  .group .and
    [.group .or [sampleTest "p" "1", .group .and []], (sampleTest "q" "2").negation.negation]

/-- The sample is a condition tree. -/
lemma sampleTree_isTree : sampleTree.IsTree := by
  have htest : ∀ id digits : String, (PropertyRef.ofId id).isPlain .empty = true →
      (ScalarValue.infer digits false).type = .number → (sampleTest id digits).IsTree :=
    fun _ _ hid hdigits => .test hid hdigits
  have hp : (sampleTest "p" "1").IsTree := htest _ _ (by decide +kernel) (by decide +kernel)
  have hq : (sampleTest "q" "2").IsTree := htest _ _ (by decide +kernel) (by decide +kernel)
  refine .group
    (List.forall_mem_cons.mpr ⟨.group ?_, List.forall_mem_singleton.mpr (.not (.not hq))⟩)
  exact List.forall_mem_cons.mpr ⟨hp, List.forall_mem_singleton.mpr (.group (by simp))⟩

/-- A group in a group is empty, and a negation is negated: only the first is left out of
the text. -/
theorem ofCondition_render_prune_sample :
    sampleTree.render .empty = "(p = 1) AND NOT (NOT q = 2)" ∧
      sampleTree.prune.render .empty = "p = 1 AND NOT (NOT q = 2)" ∧
        ∃ q pruned, ofCondition (sampleTree.render .empty) .empty {} = .ok q ∧
          ofCondition (sampleTree.prune.render .empty) .empty {} = .ok pruned ∧
            q.toJson = pruned.toJson := by
  refine ⟨by decide +kernel, by decide +kernel, ?_⟩
  obtain ⟨pruned, hpruned, hspared, -⟩ := (ofCondition_render_prune sampleTree_isTree {}).2
    (by decide +kernel) ⟨by decide +kernel, by decide +kernel⟩
    ⟨by decide +kernel, by decide +kernel⟩
  obtain ⟨q, hq, hsame⟩ := hspared (by decide +kernel)
  exact ⟨q, pruned, hq, hpruned, hsame⟩

/-- `NOT` puts parentheses around every other, also if there is nothing to put in them. -/
example : (Operator.group .and []).negation.negation.render .empty = "NOT ()" := by decide +kernel

end Query

end RecordQuery
