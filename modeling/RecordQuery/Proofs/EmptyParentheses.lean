import RecordQuery.Proofs.Compiling
import RecordQuery.Proofs.Remainders
import RecordQuery.Proofs.RenderedText
import RecordQuery.Proofs.Rendition

/-!
# Parentheses with nothing in them

There is nothing to read in a pair of empty parentheses, so that whatever holds one cannot be read
either. A phrase is read element by element, and what is drawn from a sequence of elements only
leaves out what is behind the last phrase. So an element that cannot be read either stops the
drawing or is among the elements that are left, and neither a pair of parentheses nor a condition
without a keyword may leave any.
-/

namespace RecordQuery

open Reader

/-! ## Elements that cannot be read -/

/-- Whether an element goes on with a phrase and cannot be read. -/
structure Element.IsStuck (e : Element) : Prop where
  continues : Phrase.continues e.token = true
  item : Ensures (fun _ => False) e.item

/-- An element that cannot be read is no connective. -/
lemma Element.IsStuck.isConnective_eq_false {e : Element} (h : e.IsStuck) :
    e.token.isConnective = false := by
  have hcontinues := h.continues
  simp only [Phrase.continues, Phrase.separates, Bool.and_eq_true, Bool.not_eq_true',
    Bool.or_eq_false_iff] at hcontinues
  exact hcontinues.1.2

namespace Phrase

variable {s : Setting} {es : List Element}

/-- A phrase that is read holds no element that cannot be. -/
lemma ensures_readAll_stuck (after : List Element) :
    Ensures (fun _ => ∀ e ∈ es, ¬ e.IsStuck) (readAll es after) := by
  induction es with
  | nil => exact .pure (by simp)
  | cons e es ih =>
    intro notes items notes' hread
    rw [readAll] at hread
    obtain ⟨item, middle, hitem, hread⟩ := exists_of_on_bind hread
    obtain ⟨items, last, hrest, -⟩ := exists_of_on_bind hread
    rw [Parse.leaving, on_adapt_eq_ok] at hitem
    exact List.forall_mem_cons.mpr ⟨fun hstuck => hstuck.item _ _ _ hitem, ih _ _ _ hrest⟩

/-- A phrase is drawn if there is one, and all of it can be read. -/
def Draws (es : List Element) (item? : Option Item) : Prop :=
  (item? = none ↔ run es = []) ∧ ∀ e ∈ run es, ¬ e.IsStuck

/-- Drawing a phrase leaves elements that cannot be read where they are, or fails. -/
lemma ensures_drawOne_stuck : Ensures (Draws es) (drawOne s es) := by
  unfold drawOne
  cases hrun : run es with
  | nil => exact .pure ⟨by simp [hrun], by simp [hrun]⟩
  | cons e rest =>
    refine Ensures.bind (ensures_readAll_stuck _) fun _ hread => ?_
    exact Ensures.bind .trivial fun _ _ => .pure ⟨by simp [hrun], hrun ▸ hread⟩

/-- Drawing a term leaves elements that cannot be read where they are, or fails. -/
lemma ensures_drawTerm_stuck (budget : Nat) : Ensures (Draws es) (drawTerm s budget es) := by
  have hdraw : Ensures (Draws es) (drawOne s es) := ensures_drawOne_stuck
  unfold drawTerm
  cases hhead : es.head? with
  | none =>
    dsimp only
    split
    · exact .stop
    · exact hdraw
  | some e =>
    dsimp only
    split
    · exact .stop
    · split
      · exact .stop
      · exact hdraw

/-- What is in no phrase that was drawn is behind it. -/
lemma Draws.mem_afterRun {item? : Option Item} (h : Draws es item?) {e : Element} (he : e ∈ es)
    (hstuck : e.IsStuck) : e ∈ afterRun es := by
  rw [← run_append_afterRun es] at he
  exact (List.mem_append.mp he).resolve_left fun hrun => h.2 e hrun hstuck

/-- What cannot be read is left where phrases are drawn. -/
lemma ensures_drawLinks_stuck : (budget : Nat) → (es : List Element) →
    Ensures (fun drawn => ∀ e ∈ es, e.IsStuck → e ∈ drawn.2) (drawLinks s budget es)
  | _, [] => by
    unfold drawLinks
    exact .pure fun _ he _ => he
  | budget, link :: rest => by
    unfold drawLinks
    split
    · exact .pure fun _ he _ => he
    · rename_i hlink
      refine Ensures.bind (ensures_drawTerm_stuck _) fun item hitem => ?_
      cases item with
      | none => exact Ensures.throw
      | some item =>
        refine (ensures_drawLinks_stuck (budget - 1) (afterRun rest)).bind fun drawn hdrawn => ?_
        refine .pure fun e he hstuck => hdrawn e ?_ hstuck
        -- What cannot be read is no connective, so it stands behind the one that is drawn.
        obtain rfl | he := List.mem_cons.mp he
        · simp [hstuck.isConnective_eq_false] at hlink
        · exact hitem.mem_afterRun he hstuck
termination_by _ es => es.length
decreasing_by
  have := length_afterRun_le rest
  simp only [List.length_cons]
  omega

/-- Drawing a group leaves elements that cannot be read among the others, or fails. -/
lemma ensures_drawGroup_stuck :
    Ensures (fun drawn => (drawn.1 = none ↔ run es = []) ∧ ∀ e ∈ es, e.IsStuck → e ∈ drawn.2)
      (drawGroup s es) := by
  rw [drawGroup_eq]
  refine Ensures.bind (ensures_drawTerm_stuck _) fun item hitem => ?_
  cases item with
  | none => exact .pure ⟨hitem.1, fun _ he _ => he⟩
  | some item =>
    refine Ensures.bind (ensures_drawLinks_stuck _ _) fun drawn hdrawn => ?_
    refine Ensures.bind .trivial fun _ _ => .pure ⟨by simpa using hitem.1, fun e he hstuck => ?_⟩
    exact hdrawn e (hitem.mem_afterRun he hstuck) hstuck

/-- Parentheses cannot be read around nothing, nor around what cannot be read. -/
lemma ensures_groupItem_stuck (token : Token) (h : es = [] ∨ ∃ e ∈ es, e.IsStuck) :
    Ensures (fun _ => False) (groupItem s token es) := by
  unfold groupItem
  refine Ensures.bind ensures_drawGroup_stuck.adapt fun drawn hdrawn => ?_
  obtain ⟨item, left⟩ := drawn
  obtain ⟨hitem, hleft⟩ := hdrawn
  cases item with
  | none => exact Ensures.throw
  | some item =>
    cases left with
    | cons => exact Ensures.throw
    | nil =>
      obtain rfl | ⟨e, he, hstuck⟩ := h
      · exact absurd (hitem.mpr rfl) (by simp)
      · cases hleft e he hstuck

end Phrase

/-- A condition that begins with a phrase cannot be read if not all of it can. -/
lemma Clause.ensures_readCondition_stuck {s : Setting} {es : List Element}
    (hbegins : ∀ e ∈ es.head?, Phrase.continues e.token = true) {e : Element} (he : e ∈ es)
    (hstuck : e.IsStuck) : Ensures (fun _ => False) (readCondition s es) := by
  have hrun : Phrase.run es ≠ [] := by
    cases es with
    | nil => cases he
    | cons first rest =>
      have hfirst := hbegins first rfl
      simp only [Phrase.continues, Bool.and_eq_true, Bool.not_eq_true'] at hfirst
      simp [Phrase.run, hfirst.1]
  unfold readCondition
  refine Ensures.bind Phrase.ensures_drawGroup_stuck.adapt fun drawn hdrawn => ?_
  obtain ⟨item, left⟩ := drawn
  obtain ⟨hitem, hleft⟩ := hdrawn
  cases item with
  | none => exact absurd (hitem.mp rfl) hrun
  | some item =>
    cases left with
    | nil => cases hleft e he hstuck
    | cons => exact Ensures.stop

/-! ## Sketches of empty parentheses -/

namespace Sketch

variable {s : Setting}

/-- Whether what sketches are read as begins with a phrase. -/
def Leads (s : Setting) (sketches : List Sketch) : Prop :=
  ∀ es, ReadsAll s sketches es → ∀ e ∈ es.head?, Phrase.continues e.token = true

/-- Without sketches nothing begins with anything but a phrase. -/
lemma Leads.nil : Leads s [] := by
  intro es hes e he
  cases hes
  cases he

/-- Sketches begin with a phrase if the first of them goes on with one. -/
lemma Leads.cons {sketch : Sketch} (h : ∀ e, sketch.Reads s e → Phrase.continues e.token = true)
    (rest : List Sketch) : Leads s (sketch :: rest) := by
  intro es hes e he
  obtain ⟨_, more, hfirst, -, rfl⟩ := List.forall₂_cons_left_iff.mp hes
  cases he
  exact h e hfirst

/-- What begins with a phrase does so whatever comes behind it. -/
lemma Leads.append {a : List Sketch} (h : Leads s a) (hne : a ≠ []) (b : List Sketch) :
    Leads s (a ++ b) := by
  intro es hes e he
  obtain ⟨es₁, es₂, rfl, h₁, -⟩ := Operator.readsAll_append hes
  rw [List.head?_append_of_ne_nil _ ?_] at he
  · exact h es₁ h₁ e he
  · rintro rfl
    exact hne (List.forall₂_nil_right_iff.mp h₁)

/-- Whether a sketch is a pair of parentheses with nothing in it, or with such a pair in it. -/
inductive Vacant : Sketch → Prop
  | empty : Vacant (.group [])
  | inside {sketch : Sketch} {contents : List Sketch} (mem : sketch ∈ contents)
      (vacant : sketch.Vacant) : Vacant (.group contents)

/-- Each sketch of a text is read as one of its elements. -/
lemma exists_reads_of_mem {sketches : List Sketch} {es : List Element}
    (h : ReadsAll s sketches es) {sketch : Sketch} (hmem : sketch ∈ sketches) :
    ∃ e ∈ es, sketch.Reads s e := by
  obtain ⟨i, hi, rfl⟩ := List.mem_iff_getElem.mp hmem
  exact ⟨_, List.get_mem _ _, (List.forall₂_iff_get.mp h).2 i hi (h.length_eq ▸ hi)⟩

/-- What is read as empty parentheses cannot be read. -/
lemma Vacant.isStuck {sketch : Sketch} (h : sketch.Vacant) :
    ∀ e, sketch.Reads s e → e.IsStuck := by
  induction h with
  | empty =>
    intro e he
    refine ⟨Phrase.continues_group he, ?_⟩
    cases he with
    | group reads item =>
      cases reads
      rw [item]
      exact Phrase.ensures_groupItem_stuck _ (.inl rfl)
  | inside mem _ ih =>
    intro e he
    refine ⟨Phrase.continues_group he, ?_⟩
    cases he with
    | group reads item =>
      obtain ⟨inside, hinside, hreads⟩ := exists_reads_of_mem reads mem
      rw [item]
      exact Phrase.ensures_groupItem_stuck _ (.inr ⟨inside, hinside, ih inside hreads⟩)

end Sketch

/-- A text with empty parentheses in it is no condition. -/
lemma Query.ofCondition_ne_ok_of_vacant {text : String} {registry : Registry} {ceilings : Ceilings}
    {n : Nat} {sketches : List Sketch} (hwrites : Sketch.Writes (fun _ => True) n text sketches)
    (hdepth : n ≤ ceilings.depth) (hleads : Sketch.Leads (.of text registry ceilings) sketches)
    {sketch : Sketch} (hmem : sketch ∈ sketches) (hvacant : sketch.Vacant) (q : Query) :
    ofCondition text registry ceilings ≠ .ok q := by
  obtain ⟨r, hstart, hreads⟩ : ∃ r, Reading.start text registry ceilings = .ok r ∧
      r.Begins (.of text registry ceilings) sketches :=
    Reading.exists_begins_of_writes hwrites (fun _ _ => trivial) hdepth
  obtain ⟨e, he, hread⟩ := Sketch.exists_reads_of_mem hreads.reads hmem
  have hfails : Ensures (fun _ => False) (Clause.readCondition r.setting r.elements) :=
    Clause.ensures_readCondition_stuck (hleads _ hreads.reads) he (hvacant.isStuck e hread)
  intro hq
  rw [ofCondition, hstart] at hq
  change r.compile (Clause.readCondition r.setting r.elements) = _ at hq
  rw [Reading.compile_eq] at hq
  rcases hrun : on (Clause.readCondition r.setting r.elements) r.notes with ⟨problem | done, notes⟩
  · rw [hrun] at hq
    cases hq
  · exact hfails _ _ _ hrun

end RecordQuery
