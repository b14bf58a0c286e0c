import RecordQuery.Proofs.Reader

/-!
# What readings leave behind

Drawing phrases and reading the bodies of clauses consume elements from the front: what is left is
an end of what there was.
-/

namespace RecordQuery

open Reader

namespace Phrase

variable {s : Setting} {es : List Element}

/-- A sequence is its first phrase and what is behind it. -/
lemma run_append_afterRun (es : List Element) : run es ++ afterRun es = es := by
  cases es with
  | nil => rfl
  | cons e rest =>
    rw [run, afterRun]
    split
    · rfl
    · rw [List.cons_append, List.takeWhile_append_dropWhile]

/-- What is behind a phrase is an end of the elements. -/
lemma afterRun_suffix (es : List Element) : afterRun es <:+ es :=
  ⟨run es, run_append_afterRun es⟩

/-- What is behind a phrase and a separator. -/
lemma suffix_of_afterRun {e : Element} {rest : List Element} (h : afterRun es = e :: rest) :
    rest <:+ es :=
  (List.suffix_cons e rest).trans (h ▸ afterRun_suffix es)

/-- Drawing further phrases leaves an end of the elements. -/
lemma ensures_drawLinks_suffix :
    (budget : Nat) → (es : List Element) →
      Ensures (fun drawn => drawn.2 <:+ es) (drawLinks s budget es)
  | _, [] => by
    unfold drawLinks
    exact Ensures.pure (List.suffix_refl _)
  | budget, e :: rest => by
    unfold drawLinks
    split
    · exact Ensures.pure (List.suffix_refl _)
    · refine Ensures.bind Ensures.trivial fun item _ => ?_
      cases item with
      | none => exact Ensures.throw
      | some item =>
        refine Ensures.bind (ensures_drawLinks_suffix (budget - 1) (afterRun rest))
          fun drawn hdrawn => ?_
        exact Ensures.pure ((hdrawn.trans (afterRun_suffix rest)).trans (List.suffix_cons e rest))
termination_by _ es => es.length
decreasing_by
  have := length_afterRun_le rest
  simp only [List.length_cons]
  omega

/-- Drawing a group leaves an end of the elements. -/
lemma ensures_drawGroup_suffix : Ensures (fun drawn => drawn.2 <:+ es) (drawGroup s es) := by
  rw [drawGroup_eq]
  refine Ensures.bind Ensures.trivial fun item _ => ?_
  cases item with
  | none => exact .pure (List.suffix_refl es)
  | some item =>
    refine Ensures.bind (ensures_drawLinks_suffix _ _) fun drawn hdrawn => ?_
    exact Ensures.bind Ensures.trivial fun _ _ => .pure (hdrawn.trans (afterRun_suffix es))

end Phrase

namespace Clause

open Phrase

/-- A sequence is its first entry and what is behind it. -/
lemma entry_append_afterEntry (es : List Element) : entry es ++ afterEntry es = es := by
  cases es with
  | nil => rfl
  | cons e rest =>
    rw [entry, afterEntry]
    split
    · rfl
    · rw [List.cons_append, List.takeWhile_append_dropWhile]

/-- What is behind an entry of an ordering is an end of the elements. -/
lemma afterEntry_suffix (es : List Element) : afterEntry es <:+ es :=
  ⟨entry es, entry_append_afterEntry es⟩

/-- Reading a list leaves an end of the elements. -/
lemma ensures_commaList_suffix (s : Setting) (kind : Kind) (token : Token) (es : List Element) :
    Ensures (fun made => made.2 <:+ es) (commaList s kind token es) := by
  rw [commaList_eq]
  refine Ensures.bind .trivial fun item _ => ?_
  cases item with
  | none => exact .throw
  | some item =>
    cases hcons : afterRun es with
    | nil => exact .pure (List.nil_suffix)
    | cons e rest =>
      dsimp only
      split
      · refine (ensures_commaList_suffix s kind token rest).bind fun made hmade => .pure ?_
        exact hmade.trans (suffix_of_afterRun hcons)
      · exact .pure (hcons ▸ afterRun_suffix es)
termination_by es.length
decreasing_by
  have := length_afterRun_le es
  rw [hcons] at this
  simp only [List.length_cons] at this
  omega

/-- Reading the entries of an ordering leaves an end of the elements. -/
lemma ensures_orderEntries_suffix (s : Setting) (token : Token) (es : List Element) :
    Ensures (fun made => made.2 <:+ es) (orderEntries s token es) := by
  rw [orderEntries_eq]
  refine Ensures.bind .trivial fun items _ => ?_
  cases items.getLast? with
  | none => exact .throw
  | some last =>
    refine Ensures.bind .trivial fun operands _ => ?_
    cases hcons : afterEntry es with
    | nil => exact .pure (List.nil_suffix)
    | cons e rest =>
      have hrest : rest <:+ es := (List.suffix_cons e rest).trans (hcons ▸ afterEntry_suffix es)
      dsimp only
      split
      · refine (ensures_orderEntries_suffix s token rest).bind fun made hmade => .pure ?_
        exact hmade.trans hrest
      · exact .pure (hcons ▸ afterEntry_suffix es)
termination_by es.length
decreasing_by
  have := length_afterEntry_le es
  rw [hcons] at this
  simp only [List.length_cons] at this
  omega

variable {s : Setting} {es : List Element}

/-- Reading a condition leaves an end of the elements. -/
lemma ensures_condition_suffix (kind : Kind) (token : Token) :
    Ensures (fun made => made.2 <:+ es) (condition s kind token es) := by
  unfold condition
  refine Ensures.bind (ensures_drawGroup_suffix.adapt) fun drawn hdrawn => ?_
  obtain ⟨item, left⟩ := drawn
  cases item with
  | none => exact .throw
  | some item =>
    dsimp only
    split
    · exact .pure hdrawn
    · exact .throw

/-- Reading a limit leaves an end of the elements. -/
lemma ensures_limit_suffix (token : Token) :
    Ensures (fun made => made.2 <:+ es) (limit s token es) := by
  unfold limit
  refine Ensures.bind .trivial fun item _ => ?_
  cases item with
  | none => exact .throw
  | some item =>
    refine Ensures.bind .trivial fun value _ => ?_
    split
    · exact .pure (afterRun_suffix es)
    · exact .throw

/-- A clause leaves an end of the elements behind its keyword. -/
lemma ensures_produce_suffix (family : Family) (kind : Kind) (keyword : Element) :
    Ensures (fun made => made.2 <:+ es) (produce s family kind keyword es) := by
  have hprojection : ∀ kind, Ensures (fun made => made.2 <:+ es)
      (projection s kind keyword.token es) := by
    intro kind
    unfold projection
    refine (ensures_commaList_suffix s kind keyword.token es).bind fun made hmade => ?_
    exact Ensures.bind .trivial fun _ _ => .pure hmade
  unfold produce
  split
  · split
    · exact hprojection _
    · exact hprojection _
    · exact hprojection _
    · exact ensures_condition_suffix _ _
    · exact ensures_condition_suffix _ _
    · exact (ensures_orderEntries_suffix s keyword.token es).bind fun made hmade => .pure hmade
    · exact ensures_limit_suffix _
    · exact Ensures.bind .trivial fun _ _ => .pure (List.suffix_refl es)
    · exact .throw
  · exact .throw

end Clause

end RecordQuery
