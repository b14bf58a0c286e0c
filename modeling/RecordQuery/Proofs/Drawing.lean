import RecordQuery.Proofs.Reducing
import RecordQuery.Proofs.Remainders

/-!
# What is drawn from a sequence is settled

The elements of a sequence lie one behind the other. Reading one fills its span: the phrases noted
meanwhile lie in its parentheses, so they are smaller than the span, and its item is a cell. So what
is drawn from the front of a sequence is settled, and the elements left are still unread. All
readers of this file and the next keep this up; `Drawn` says it of a part that was read.
-/

namespace RecordQuery

open Reader RecordQuery.Span

/-- The spans of some elements, with their parentheses. -/
def spansOf (es : List Element) : List Span := es.map fun e => e.token.fullSpan

@[simp] lemma spansOf_nil : spansOf [] = [] := rfl

@[simp] lemma spansOf_cons (e : Element) (es : List Element) :
    spansOf (e :: es) = e.token.fullSpan :: spansOf es := rfl

@[simp] lemma spansOf_append (es left : List Element) :
    spansOf (es ++ left) = spansOf es ++ spansOf left := List.map_append

/-! ## Filling a span -/

/-- Whether the phrases that a reading adds to phrases outside a span lie in it and are smaller. -/
def Reader.Fills {ε α : Type} (length : Nat) (span : Span) (reading : Reader ε α) : Prop :=
  ∀ old : List Phrase, (∀ p ∈ old, p.span.Apart span) →
    Builds length (fun phrases => phrases = old) reading fun _ phrases =>
      ∀ p ∈ phrases, p ∈ old ∨ span.encloses p.span = true ∧ p.span.encloses span = false

namespace Reader.Fills

variable {ε α : Type} {length : Nat} {span : Span} {reading : Reader ε α}

/-- A reading that notes no phrase fills nothing. -/
lemma of_quiet (h : Quiet reading) : Fills length span reading := fun _ _ =>
  (Builds.of_quiet h).mono (fun _ => id) fun _ _ hphrases _ hp => .inl (hphrases ▸ hp)

/-- A span that is filled is a cell. -/
lemma builds {r : Region} {mid : Nat} {as : List Cell} {rest : List Span}
    (h : Fills r.length span reading) :
    Builds r.length (Settled r mid as (span :: rest)) reading fun _ phrases =>
      ∀ isFree, Settled r span.stop (as ++ [⟨span, isFree⟩]) rest phrases := by
  intro notes hforest hsettled
  have hstop := hsettled.unread.2.2.le
  obtain ⟨hforest', hafter⟩ := h _ (fun p hp => hsettled.apart hsettled.unread.1 hstop hp)
    notes hforest rfl
  exact ⟨hforest', fun a ha isFree => hsettled.extend (hafter a ha)⟩

/-- What is settled behind the first character of a span fills it. -/
lemma of_builds {spans : List Span} (hlength : span.stop ≤ length)
    (horder : InOrder (span.start + 1) span.stop spans)
    (h : ∀ r : Region, r.length = length →
    Builds length (Settled r (span.start + 1) [] spans) reading
      fun _ phrases => ∃ mid cells rest, Settled r mid cells rest phrases) :
    Fills length span reading := by
  intro old hold notes hforest hnotes
  have hinner : ∀ p ∈ old, p.span.Apart ⟨span.start + 1, span.stop⟩ := fun p hp =>
    (hold p hp).mono (encloses_iff.mpr ⟨Nat.le_succ _, le_rfl⟩)
  have hsettled : Settled ⟨span.start + 1, span.stop, length, hlength, old, hinner⟩ (span.start + 1)
      [] spans notes.phrases.toList :=
    ⟨Nat.le_refl _, horder, fun p hp => .inl (hnotes ▸ hp), by simp⟩
  obtain ⟨hforest', hafter⟩ := h _ rfl notes hforest hsettled
  refine ⟨hforest', fun a ha p hp => ?_⟩
  obtain ⟨mid, cells, rest, hread⟩ := hafter a ha
  obtain hp | ⟨c, hc, hencloses⟩ := hread.inside p hp
  · exact .inl hp
  · obtain ⟨hstart, -, hstop⟩ := hread.read.of_mem (List.mem_map_of_mem hc)
    have hmid := hread.unread.le
    rw [encloses_iff] at hencloses
    dsimp only at hstart hmid
    refine .inr ⟨encloses_iff.mpr (by omega), ?_⟩
    by_contra houter
    rw [Bool.not_eq_false, encloses_iff] at houter
    omega

end Reader.Fills

/-- Whether what an element reads stays in its span. -/
structure Element.IsGrounded (length : Nat) (e : Element) : Prop where
  item : Fills length e.token.fullSpan e.item
  span : Ensures (fun item => item.span = e.token.fullSpan) e.item
  parameters : Fills length e.token.fullSpan e.parameters

/-- Whether a part of a sequence was read that came to some cells, and the rest of it is left. -/
def Drawn (r : Region) (mid : Nat) (as : List Cell) (es : List Element) (cells : List Cell)
    (left : List Element) (phrases : List Phrase) : Prop :=
  ∃ used, es = used ++ left ∧
    Settled r (stopOf mid (spansOf used)) (as ++ cells) (spansOf left) phrases

namespace Drawn

variable {r : Region} {mid : Nat} {as : List Cell} {es left : List Element} {cells more : List Cell}
  {phrases : List Phrase}

/-- Nothing was read yet. -/
lemma none (h : Settled r mid as (spansOf es) phrases) : Drawn r mid as es [] es phrases :=
  ⟨[], rfl, by simpa [stopOf] using h⟩

/-- What was read later comes behind what was read before. -/
lemma prepend {used : List Element}
    (h : Drawn r (stopOf mid (spansOf used)) (as ++ cells) es more left phrases) :
    Drawn r mid as (used ++ es) (cells ++ more) left phrases := by
  obtain ⟨used', rfl, hsettled⟩ := h
  refine ⟨used ++ used', (List.append_assoc _ _ _).symm, ?_⟩
  rw [spansOf_append, stopOf_append, ← List.append_assoc]
  exact hsettled

/-- Phrases that are drawn are settled. -/
lemma settled (h : Drawn r mid as es cells left phrases) :
    ∃ mid cells rest, Settled r mid cells rest phrases :=
  let ⟨_, _, hsettled⟩ := h
  ⟨_, _, _, hsettled⟩

end Drawn

namespace Phrase

variable {s : Setting} {r : Region} {mid : Nat} {as : List Cell} {es : List Element}

/-! ## One phrase -/

/-- The items of some elements are cells in their places. -/
lemma builds_readAll (es after : List Element) (hes : ∀ e ∈ es, e.IsGrounded r.length) :
    Builds r.length (Settled r mid as (spansOf (es ++ after))) (readAll es after)
      fun items => Settled r (stopOf mid (spansOf es)) (as ++ items.map Item.cell)
        (spansOf after) := by
  induction es generalizing mid as with
  | nil => exact .pure fun phrases h => by simpa [stopOf] using h
  | cons e rest ih =>
    rw [List.forall_mem_cons] at hes
    unfold readAll
    have hitem : Builds r.length (Settled r mid as (spansOf (e :: rest ++ after)))
        (e.item.leaving (e :: rest ++ after)) fun item =>
          Settled r e.token.fullSpan.stop (as ++ [item.cell]) (spansOf (rest ++ after)) := by
      refine ((hes.1.item.builds).ensures hes.1.span).adapt.mono (fun _ => id) ?_
      rintro item phrases ⟨hsettled, hspan⟩
      rw [Item.cell, hspan]
      exact hsettled item.isPending
    refine hitem.bind fun item => (ih hes.2).bind fun items => .pure fun phrases h => ?_
    simpa [stopOf] using h

/-- A phrase that is drawn is one cell in the place of its elements. -/
lemma builds_drawOne (hes : ∀ e ∈ es, e.IsGrounded r.length) :
    Builds r.length (Settled r mid as (spansOf es)) (drawOne s es)
      fun drawn => Settled r (stopOf mid (spansOf (run es))) (as ++ drawn.toList.map Item.cell)
        (spansOf (afterRun es)) := by
  have hall := run_append_afterRun es
  unfold drawOne
  split
  · rename_i hrun
    rw [hrun, List.nil_append] at hall
    refine .pure fun phrases h => ?_
    rw [hrun, hall]
    simpa [stopOf] using h
  · have hrun : ∀ e ∈ run es, e.IsGrounded r.length := fun e he =>
      hes e (hall ▸ List.mem_append_left _ he)
    have hread : Builds r.length (Settled r mid as (spansOf es)) (readAll (run es) (afterRun es))
        fun items => Settled r (stopOf mid (spansOf (run es))) (as ++ items.map Item.cell)
          (spansOf (afterRun es)) := by
      have hspans : spansOf es = spansOf (run es ++ afterRun es) := by rw [hall]
      rw [hspans]
      exact builds_readAll _ _ hrun
    refine hread.bind fun items => ?_
    refine Builds.bind (Builds.adapt ((builds_reduce items).mono ?_ fun _ _ => id))
      fun item => .pure fun _ => id
    exact fun phrases h => by simpa using h

/-! ## Phrases joined by connectives -/

/-- Drawing a term settles the first phrase of the elements. -/
lemma builds_drawTerm (budget : Nat) (hes : ∀ e ∈ es, e.IsGrounded r.length) :
    Builds r.length (Settled r mid as (spansOf es)) (drawTerm s budget es)
      fun drawn => Settled r (stopOf mid (spansOf (run es))) (as ++ drawn.toList.map Item.cell)
        (spansOf (afterRun es)) := by
  unfold drawTerm
  cases es with
  | nil =>
    dsimp only [List.head?_nil]
    split
    · exact .stop
    · exact builds_drawOne hes
  | cons e rest =>
    dsimp only [List.head?_cons]
    split
    · exact .stop
    · split
      · exact .stop
      · exact builds_drawOne hes

/-- The connectives and phrases behind a phrase are cells in a row. -/
lemma builds_drawLinks : (budget : Nat) → (es : List Element) → {mid : Nat} → {as : List Cell} →
    (∀ e ∈ es, e.IsGrounded r.length) →
      Builds r.length (Settled r mid as (spansOf es)) (drawLinks s budget es)
        fun drawn => Drawn r mid as es (linkCells drawn.1) drawn.2
  | _, [], _, _, _ => by
    unfold drawLinks
    exact .pure fun _ => .none
  | budget, e :: rest, mid, as, hes => by
    unfold drawLinks
    split
    · exact .pure fun _ => .none
    · have hrest : ∀ e ∈ rest, e.IsGrounded r.length :=
        fun e he => hes e (List.mem_cons_of_mem _ he)
      have hafter : ∀ e ∈ afterRun rest, e.IsGrounded r.length := fun e he =>
        hrest e ((afterRun_suffix rest).subset he)
      refine Builds.bind ((builds_drawTerm budget hrest).mono
        (fun _ h => h.keyword) fun _ _ => id) fun drawn => ?_
      cases drawn with
      | none => exact .throw
      | some item =>
        refine (builds_drawLinks (budget - 1) (afterRun rest) hafter).bind fun drawn => ?_
        obtain ⟨links, left⟩ := drawn
        refine .pure fun phrases h => ?_
        have hused : e :: rest = (e :: run rest) ++ afterRun rest := by
          rw [List.cons_append, run_append_afterRun]
        have hlinks : Drawn r (stopOf mid (spansOf (e :: run rest)))
            (as ++ [e.token.cell, item.cell]) (afterRun rest) (linkCells links) left phrases := by
          simpa [stopOf] using h
        rw [hused]
        exact hlinks.prepend
termination_by _ es => es.length
decreasing_by
  have := length_afterRun_le rest
  simp only [List.length_cons]
  omega

/-- What is drawn is one cell in the place of its elements. -/
lemma builds_drawGroup (hes : ∀ e ∈ es, e.IsGrounded r.length) :
    Builds r.length (Settled r mid as (spansOf es)) (drawGroup s es)
      fun drawn phrases => ∀ item, drawn.1 = some item →
        Drawn r mid as es [item.cell] drawn.2 phrases := by
  have hafter : ∀ e ∈ afterRun es, e.IsGrounded r.length := fun e he =>
    hes e ((afterRun_suffix es).subset he)
  rw [drawGroup_eq]
  refine (builds_drawTerm _ hes).bind fun drawn => ?_
  cases drawn with
  | none => exact .pure fun _ _ => nofun
  | some item =>
    refine (builds_drawLinks _ (afterRun es) hafter).bind fun drawn => ?_
    obtain ⟨links, left⟩ := drawn
    have hfold : Builds r.length
        (Drawn r (stopOf mid (spansOf (run es))) (as ++ [item.cell]) (afterRun es)
          (linkCells links) left)
        ((fold s ⟨item, links⟩).leaving left) fun item => Drawn r mid as es [item.cell] left := by
      intro notes hforest hbefore
      rw [← run_append_afterRun es]
      obtain ⟨used, hused, hsettled⟩ := hbefore.prepend
      have hrow : as ++ ([item.cell] ++ linkCells links) =
          as ++ (chainCells ⟨item, links⟩ ++ []) := by
        simp [chainCells]
      rw [hrow] at hsettled
      obtain ⟨hforest', hafter⟩ := (builds_fold ⟨item, links⟩).adapt notes hforest hsettled
      exact ⟨hforest', fun item' hitem' => ⟨used, hused, hafter item' hitem'⟩⟩
    refine hfold.bind fun folded => .pure fun phrases h item' hitem' => ?_
    cases hitem'
    exact h

/-! ## Parentheses -/

/-- The parameters of a list settle what is in it. -/
lemma builds_drawParameters (owner : Token) : (budget : Nat) → (es : List Element) →
    {mid : Nat} → {as : List Cell} → (∀ e ∈ es, e.IsGrounded r.length) →
      Builds r.length (Settled r mid as (spansOf es)) (drawParameters s owner budget es)
        fun _ phrases => ∃ mid cells rest, Settled r mid cells rest phrases
  | budget, es, mid, as, hes => by
    rw [drawParameters_eq]
    dsimp only
    by_cases hbudget : budget = 0
    · rw [if_pos hbudget]
      exact .stop
    · rw [if_neg hbudget]
      refine (builds_drawOne hes).adapt.bind fun drawn => ?_
      cases drawn with
      | none => exact .throw
      | some item =>
        cases hcons : afterRun es with
        | nil => exact .pure fun phrases h => ⟨_, _, _, h⟩
        | cons e rest =>
          dsimp only
          split
          · have hrest : ∀ e ∈ rest, e.IsGrounded r.length := fun e he =>
              hes e ((suffix_of_afterRun hcons).subset he)
            refine Builds.bind ((builds_drawParameters owner (budget - 1) rest hrest).mono
              (fun _ h => h.skip) fun _ _ => id) fun items => .pure fun _ => id
          · exact .throw
termination_by _ es => es.length
decreasing_by
  have := length_afterRun_le es
  rw [hcons] at this
  simp only [List.length_cons] at this
  omega

/-- Drawing the parameters of a token settles the phrases in its list. -/
lemma builds_parameters (owner : Token) (hes : ∀ e ∈ es, e.IsGrounded r.length) :
    Builds r.length (Settled r mid as (spansOf es)) (parameters s owner es)
      fun _ phrases => ∃ mid cells rest, Settled r mid cells rest phrases := by
  unfold parameters
  split
  · exact .pure fun phrases h => ⟨_, _, _, h⟩
  · exact builds_drawParameters owner _ es hes

/-- Reading a pair of parentheses settles the phrases in it. -/
lemma builds_groupItem (token : Token) (hes : ∀ e ∈ es, e.IsGrounded r.length) :
    Builds r.length (Settled r mid as (spansOf es)) (groupItem s token es)
      fun _ phrases => ∃ mid cells rest, Settled r mid cells rest phrases := by
  unfold groupItem
  refine (builds_drawGroup hes).adapt.bind fun drawn => ?_
  obtain ⟨item, left⟩ := drawn
  dsimp only
  split
  · exact .throw
  · refine .bind_quiet (Parse.quiet_markOpened _) fun _ => .pure fun phrases h => ?_
    exact (h _ rfl).settled
  · exact .throw

section Parentheses

variable {length : Nat} {token : Token}

/-- What is read of a token and of its list stays in its span. -/
lemma fills_parameters (hes : ∀ e ∈ es, e.IsGrounded length)
    (hlength : token.fullSpan.stop ≤ length)
    (horder : InOrder (token.fullSpan.start + 1) token.fullSpan.stop (spansOf es)) :
    Fills length token.fullSpan (parameters s token es) := by
  refine .of_builds hlength horder fun r hr => ?_
  subst hr
  exact builds_parameters token hes

/-- Reading a token with its list notes phrases inside the token only. -/
lemma fills_tokenItem (hes : ∀ e ∈ es, e.IsGrounded length) (hlength : token.fullSpan.stop ≤ length)
    (horder : InOrder (token.fullSpan.start + 1) token.fullSpan.stop (spansOf es)) :
    Fills length token.fullSpan (tokenItem s token es) := by
  unfold tokenItem
  split
  · refine .of_builds hlength horder fun r hr => ?_
    subst hr
    exact builds_groupItem token hes
  · split
    · split
      · intro old hold
        exact (fills_parameters hes hlength horder old hold).bind fun items => .pure fun _ => id
      · exact .of_quiet .pure
    · split
      · exact .of_quiet .throw
      · exact .of_quiet .pure

/-- The item of a token takes up its span. -/
lemma ensures_span_tokenItem :
    Ensures (fun item => item.span = token.fullSpan) (tokenItem s token es) := by
  unfold tokenItem
  split
  · unfold groupItem
    refine .bind .trivial fun drawn _ => ?_
    obtain ⟨item, left⟩ := drawn
    dsimp only
    split
    · exact .throw
    · exact .bind .trivial fun _ _ => .pure rfl
    · exact .throw
  · split
    · split
      · exact .bind .trivial fun _ _ => .pure rfl
      · exact .pure rfl
    · split
      · exact .throw
      · exact .pure rfl

end Parentheses

end Phrase

namespace TokenTree

variable {length : Nat}

/-- The elements of a nested sequence lie in order. -/
lemma inOrder_spansOf (s : Setting) {lo hi : Nat} {trees : List TokenTree}
    (h : NestedIn lo hi trees) : InOrder lo hi (spansOf (elements s trees)) := by
  induction trees generalizing lo with
  | nil =>
    rw [NestedIn] at h
    exact h
  | cons tree rest ih =>
    obtain ⟨token, children, absorbed⟩ := tree
    rw [NestedIn] at h
    obtain ⟨hlo, htree, hrest⟩ := h
    have hnonempty := htree.start_lt
    rw [← Token.start_fullSpan] at hlo hnonempty
    rw [elements, element, spansOf_cons]
    exact ⟨hlo, hnonempty, ih hrest⟩

mutual

/-- What a tree reads stays in its span. -/
lemma isGrounded_element (s : Setting) : (tree : TokenTree) → tree.IsNested →
    tree.token.fullSpan.stop ≤ length → (tree.element s).IsGrounded length
  | ⟨token, children, absorbed⟩, h, hlength => by
    rw [IsNested, ← Token.start_fullSpan] at h
    have hes := isGrounded_elements s children h.2.1 hlength
    have horder := inOrder_spansOf s h.2.1
    rw [element]
    exact ⟨Phrase.fills_tokenItem hes hlength horder, Phrase.ensures_span_tokenItem,
      Phrase.fills_parameters hes hlength horder⟩

/-- The elements of a nested sequence note phrases inside their tokens only. -/
lemma isGrounded_elements (s : Setting) : (trees : List TokenTree) → {lo hi : Nat} →
    NestedIn lo hi trees → hi ≤ length → ∀ e ∈ elements s trees, e.IsGrounded length
  | [], _, _, _, _ => by simp [elements]
  | tree :: rest, lo, hi, h, hlength => by
    rw [NestedIn] at h
    rw [elements, List.forall_mem_cons]
    exact ⟨isGrounded_element s tree h.2.1 (h.2.2.le.trans hlength),
      isGrounded_elements s rest h.2.2 hlength⟩

end

end TokenTree

end RecordQuery
