import RecordQuery.Proofs.Drawing
import RecordQuery.Proofs.NothingIgnored

/-!
# The phrases of a text form a forest

A clause is the last phrase to be noted of all that lie between its keyword and the next one. Its
keyword is a free cell, so the phrase of the clause, which covers the keyword and all elements of
the body, is larger than those. The clauses of a text are cells in a row, one behind the other.

So the phrases noted for a text form a forest in its source. This holds at every moment, whether the
reading goes on from there or fails.
-/

namespace RecordQuery

open Reader RecordQuery.Span

/-- Whether a part of a sequence was read, whatever cells it came to, and the rest is left. -/
def Passed (r : Region) (mid : Nat) (as : List Cell) (es left : List Element)
    (phrases : List Phrase) : Prop := ∃ cells, Drawn r mid as es cells left phrases

/-- What is passed behind other elements is passed with them. -/
lemma Passed.prepend {r : Region} {mid : Nat} {as : List Cell} {used es left : List Element}
    {phrases : List Phrase} (cells : List Cell)
    (h : Passed r (stopOf mid (spansOf used)) (as ++ cells) es left phrases) :
    Passed r mid as (used ++ es) left phrases :=
  let ⟨_, hdrawn⟩ := h
  ⟨_, hdrawn.prepend⟩

namespace Clause

open Phrase

variable {s : Setting} {r : Region} {mid : Nat} {as : List Cell} {es : List Element}

/-! ## The bodies of clauses -/

/-- A phrase that was drawn is a part that was read. -/
lemma passed_drawOne {cells : List Cell} {phrases : List Phrase}
    (h : Settled r (stopOf mid (spansOf (run es))) (as ++ cells) (spansOf (afterRun es)) phrases) :
    Passed r mid as es (afterRun es) phrases := ⟨cells, run es, (run_append_afterRun es).symm, h⟩

/-- A phrase and a comma are a part that was read, and so is what was read behind them. -/
lemma passed_comma {cells : List Cell} {used rest left : List Element} {e : Element}
    {phrases : List Phrase} (hes : used ++ e :: rest = es)
    (h : Passed r e.token.fullSpan.stop (as ++ cells) rest left phrases) :
    Passed r mid as es left phrases := by
  have hall : es = (used ++ [e]) ++ rest := by simp [← hes]
  rw [hall]
  refine Passed.prepend cells ?_
  simpa [stopOf_append, stopOf] using h

/-- Reading a list passes its elements. -/
lemma passes_commaList (kind : Kind) (token : Token) : (es : List Element) → {mid : Nat} →
    {as : List Cell} → (∀ e ∈ es, e.IsGrounded r.length) →
      Builds r.length (Settled r mid as (spansOf es)) (commaList s kind token es)
        fun made => Passed r mid as es made.2
  | es, mid, as, hes => by
    rw [commaList_eq]
    refine (builds_drawOne hes).adapt.bind fun drawn => ?_
    cases drawn with
    | none => exact .throw
    | some item =>
      cases hcons : afterRun es with
      | nil => exact .pure fun phrases h => hcons ▸ passed_drawOne (hcons ▸ h)
      | cons e rest =>
        dsimp only
        split
        · have hrest : ∀ e ∈ rest, e.IsGrounded r.length := fun e he =>
            hes e ((suffix_of_afterRun hcons).subset he)
          refine Builds.bind ((passes_commaList kind token rest hrest).mono
            (fun _ h => h.skip) fun _ _ => id) fun made => .pure fun phrases h => ?_
          exact passed_comma (hcons ▸ run_append_afterRun es) h
        · exact .pure fun phrases h => hcons ▸ passed_drawOne (hcons ▸ h)
termination_by es => es.length
decreasing_by
  have := length_afterRun_le es
  rw [hcons] at this
  simp only [List.length_cons] at this
  omega

/-- Reading a clause that lists operands passes its elements. -/
lemma passes_projection (kind : Kind) (token : Token) (hes : ∀ e ∈ es, e.IsGrounded r.length) :
    Builds r.length (Settled r mid as (spansOf es)) (projection s kind token es)
      fun made => Passed r mid as es made.2 := by
  unfold projection
  refine (passes_commaList kind token es hes).bind fun made => ?_
  exact .bind_quiet (quiet_expressions _) fun _ => .pure fun _ => id

/-- Reading a clause with a condition passes its elements. -/
lemma passes_condition (kind : Kind) (token : Token) (hes : ∀ e ∈ es, e.IsGrounded r.length) :
    Builds r.length (Settled r mid as (spansOf es)) (condition s kind token es)
      fun made => Passed r mid as es made.2 := by
  unfold condition
  refine (builds_drawGroup hes).adapt.bind fun drawn => ?_
  obtain ⟨item, left⟩ := drawn
  cases item with
  | none => exact .throw
  | some item =>
    dsimp only
    split
    · exact .pure fun phrases h => ⟨_, h item rfl⟩
    · exact .throw

/-- Reading a limit passes its elements. -/
lemma passes_limit (token : Token) (hes : ∀ e ∈ es, e.IsGrounded r.length) :
    Builds r.length (Settled r mid as (spansOf es)) (limit s token es)
      fun made => Passed r mid as es made.2 := by
  unfold limit
  refine (builds_drawOne hes).adapt.bind fun drawn => ?_
  cases drawn with
  | none => exact .throw
  | some item =>
    refine .bind_quiet (item.quiet_value _) fun value => ?_
    split
    · exact .pure fun phrases h => passed_drawOne h
    · exact .throw

/-- The expression of an entry is one cell, and its direction stays another. -/
lemma builds_orderEntry {rest : List Span} (items : List Item) (last : Item) :
    Builds r.length (Settled r mid (as ++ (items ++ [last]).map Item.cell) rest)
      (orderEntry s items last) fun _ phrases =>
        ∃ cells, Settled r mid (as ++ cells) rest phrases := by
  unfold orderEntry
  cases direction items last with
  | none => exact .throw
  | some word =>
    refine .bind_quiet (last.quiet_word _) fun _ => ?_
    rw [List.map_append]
    refine (builds_reduce items).bind fun subject => ?_
    exact .bind_quiet subject.quiet_expression fun _ => .pure fun phrases h => ⟨_, h⟩

/-- Reading the entries of an ordering passes their elements. -/
lemma passes_orderEntries (token : Token) : (es : List Element) → {mid : Nat} →
    {as : List Cell} → (∀ e ∈ es, e.IsGrounded r.length) →
      Builds r.length (Settled r mid as (spansOf es)) (orderEntries s token es)
        fun made => Passed r mid as es made.2
  | es, mid, as, hes => by
    have hall := entry_append_afterEntry es
    rw [orderEntries_eq]
    have hread : Builds r.length (Settled r mid as (spansOf es))
        (Phrase.readAll (entry es) (afterEntry es)) fun items =>
          Settled r (stopOf mid (spansOf (entry es))) (as ++ items.map Item.cell)
            (spansOf (afterEntry es)) := by
      have hspans : spansOf es = spansOf (entry es ++ afterEntry es) := by rw [hall]
      rw [hspans]
      exact builds_readAll _ _ fun e he => hes e (hall ▸ List.mem_append_left _ he)
    refine hread.adapt.bind fun items => ?_
    cases hlast : items.getLast? with
    | none => exact .throw
    | some last =>
      dsimp only
      have hitems := List.dropLast_append_getLast? last hlast
      refine Builds.bind ((builds_orderEntry items.dropLast last).mono
        (fun phrases h => by rwa [hitems]) fun _ _ => id) fun operands => ?_
      cases hcons : afterEntry es with
      | nil => exact .pure fun phrases ⟨cells, h⟩ => ⟨cells, entry es, by rw [← hcons, hall], h⟩
      | cons e rest =>
        dsimp only
        split
        · have hrest : ∀ e ∈ rest, e.IsGrounded r.length := fun e he =>
            hes e ((List.suffix_cons _ rest).trans (hcons ▸ afterEntry_suffix es) |>.subset he)
          refine .of_exists fun cells => ?_
          refine Builds.bind ((passes_orderEntries token rest hrest).mono
            (fun _ h => h.skip) fun _ _ => id) fun made => .pure fun phrases h => ?_
          exact passed_comma (hcons ▸ hall) h
        · exact .pure fun phrases ⟨cells, h⟩ => ⟨cells, entry es, by rw [← hcons, hall], h⟩
termination_by es => es.length
decreasing_by
  have := length_afterEntry_le es
  rw [hcons] at this
  simp only [List.length_cons] at this
  omega

/-- The bounds of a range lie in the parentheses of its keyword. -/
lemma builds_timeRange {rest : List Span} {keyword : Element}
    (hkeyword : keyword.IsGrounded r.length) :
    Builds r.length (Settled r mid as (keyword.token.fullSpan :: rest)) (timeRange s keyword)
      fun _ => Settled r keyword.token.fullSpan.stop (as ++ [keyword.token.cell]) rest := by
  have hcell :
    Builds r.length (Settled r mid as (keyword.token.fullSpan :: rest)) keyword.parameters
      fun _ => Settled r keyword.token.fullSpan.stop (as ++ [keyword.token.cell]) rest :=
    hkeyword.parameters.builds.mono (fun _ => id) fun _ _ h => h true
  have hskip : Builds r.length (Settled r mid as (keyword.token.fullSpan :: rest))
      (pure none : Parse (Option (List Item)))
      fun _ => Settled r keyword.token.fullSpan.stop (as ++ [keyword.token.cell]) rest :=
    .pure fun phrases h => h.keyword
  unfold timeRange
  split
  · rw [map_eq_pure_bind, bind_assoc]
    refine hcell.bind fun items => .of_quiet (.bind .pure fun items => ?_)
    exact (Claim.quiet_exactParameters _ _).bind fun _ => (Claim.quiet_values _ _).bind fun _ =>
      .pure
  · refine hskip.bind fun items => .of_quiet ?_
    exact (Claim.quiet_exactParameters _ _).bind fun _ => (Claim.quiet_values _ _).bind fun _ =>
      .pure

/-- The body of a clause is a part that was read, behind the cell of the keyword. -/
lemma passes_produce (family : Family) (kind : Kind) {keyword : Element}
    (hkeyword : keyword.IsGrounded r.length) (hes : ∀ e ∈ es, e.IsGrounded r.length) :
    Builds r.length (Settled r mid as (spansOf (keyword :: es)))
      (produce s family kind keyword es) fun made =>
        Passed r keyword.token.fullSpan.stop (as ++ [keyword.token.cell]) es made.2 := by
  have hskip : ∀ phrases, Settled r mid as (spansOf (keyword :: es)) phrases →
      Settled r keyword.token.fullSpan.stop (as ++ [keyword.token.cell]) (spansOf es) phrases :=
    fun phrases h => h.keyword
  unfold produce
  split
  · split
    · exact (passes_projection _ _ hes).mono hskip fun _ _ => id
    · exact (passes_projection _ _ hes).mono hskip fun _ _ => id
    · exact (passes_projection _ _ hes).mono hskip fun _ _ => id
    · exact (passes_condition _ _ hes).mono hskip fun _ _ => id
    · exact (passes_condition _ _ hes).mono hskip fun _ _ => id
    · exact ((passes_orderEntries _ es hes).mono hskip fun _ _ => id).bind fun made =>
        .pure fun _ => id
    · exact (passes_limit _ hes).mono hskip fun _ _ => id
    · exact (builds_timeRange hkeyword).bind fun made => .pure fun phrases h => ⟨_, .none h⟩
    · exact .throw
  · exact .throw

/-! ## The clauses of a text -/

/-- Where elements lie in a row, what encloses them reaches to the end of the last. -/
lemma stopOf_le_of_encloses {t : Span} {lo : Nat} {spans : List Span} (hlo : lo ≤ t.stop)
    (h : ∀ span ∈ spans, t.encloses span = true) : stopOf lo spans ≤ t.stop := by
  induction spans generalizing lo with
  | nil => exact hlo
  | cons span rest ih =>
    rw [List.forall_mem_cons] at h
    exact ih (encloses_iff.mp h.1).2 h.2

/-- What lies in a row lies between where it begins and where the last of it ends. -/
lemma within_stopOf {lo hi : Nat} {spans : List Span} (h : InOrder lo hi spans) :
    lo ≤ stopOf lo spans ∧
      ∀ span ∈ spans, lo ≤ span.start ∧ span.stop ≤ stopOf lo spans := by
  induction spans generalizing lo with
  | nil => exact ⟨le_rfl, by simp⟩
  | cons span rest ih =>
    obtain ⟨hlo, hnonempty, hrest⟩ := h
    obtain ⟨hle, hall⟩ := ih hrest
    rw [stopOf, List.forall_mem_cons]
    refine ⟨by omega, ⟨hlo, hle⟩, fun s hs => ?_⟩
    obtain ⟨hstart, hstop⟩ := hall s hs
    exact ⟨by omega, hstop⟩

/-- The phrase of a clause makes one cell of its keyword and its body. -/
lemma builds_recordClause {token : Token} {used : List Element} {cells : List Cell}
    {rest : List Span} (clause : Operator)
    (horder : InOrder token.fullSpan.stop r.hi (spansOf used)) :
    Builds r.length
      (Settled r (stopOf token.fullSpan.stop (spansOf used)) (as ++ [token.cell] ++ cells) rest)
      (Parse.recordPhrase token
        (used.foldl (fun span e => span.cover e.token.fullSpan) token.fullSpan) clause)
      fun _ phrases => ∃ cell,
        Settled r (stopOf token.fullSpan.stop (spansOf used)) (as ++ [cell]) rest phrases := by
  obtain ⟨htoken, hused, hleast⟩ :=
    foldl_cover (fun e : Element => e.token.fullSpan) used token.fullSpan
  set span := used.foldl (fun span e => span.cover e.token.fullSpan) token.fullSpan
  obtain ⟨hle, hwithin⟩ := within_stopOf horder
  refine Parse.builds_recordPhrase _ _ _ fun phrases hforest h => ?_
  rw [List.append_assoc, List.singleton_append] at h
  have hread := h.read
  rw [List.map_append] at hread
  obtain ⟨l, has, hcells⟩ := inOrder_append.mp hread
  obtain ⟨hstart, hnonempty, hbody⟩ := hcells
  -- the phrase begins with the keyword and ends with the last element of the body
  have hspan : (⟨token.fullSpan.start, stopOf token.fullSpan.stop (spansOf used)⟩ : Span).encloses
      span = true := by
    refine hleast _ (encloses_iff.mpr ⟨le_rfl, hle⟩) fun e he => encloses_iff.mpr ?_
    obtain ⟨hefirst, helast⟩ := hwithin _ (List.mem_map_of_mem he)
    dsimp only at hnonempty ⊢
    exact ⟨hnonempty.le.trans hefirst, helast⟩
  have hstop : stopOf token.fullSpan.stop (spansOf used) ≤ span.stop := by
    refine stopOf_le_of_encloses (encloses_iff.mp htoken).2 ?_
    rw [spansOf, List.forall_mem_map]
    exact hused
  have hcovers : ∀ m ∈ token.cell :: cells, span.encloses m.span = true := by
    rw [List.forall_mem_cons]
    refine ⟨htoken, fun m hm => encloses_iff.mpr ?_⟩
    obtain ⟨hmstart, -, hmstop⟩ := hbody.of_mem (List.mem_map_of_mem hm)
    have htokenstart := (encloses_iff.mp htoken).1
    exact ⟨htokenstart.trans (hnonempty.le.trans hmstart), hmstop.trans hstop⟩
  rw [← List.append_nil (as ++ token.cell :: cells)] at h
  have hwithin : (⟨l, stopOf token.fullSpan.stop (spansOf used)⟩ : Span).encloses span = true := by
    rw [encloses_iff] at hspan ⊢
    exact ⟨hstart.trans hspan.1, hspan.2⟩
  obtain ⟨hforest', hsettled⟩ := h.cover
    (p := ⟨clause.kind, token.id, span, clause.withSpan span⟩) has ⟨hstart, hnonempty, hbody⟩ le_rfl
    (List.mem_cons_self ..) rfl hcovers hwithin hforest
  exact ⟨hforest', _, hsettled⟩

/-- Noting a clause whose body was read settles it. -/
lemma builds_noteClause {keyword : Element} {left : List Element} (kind : Kind) (clause : Operator)
    (horder : InOrder mid r.hi (spansOf (keyword :: es))) :
    Builds r.length
      (Passed r keyword.token.fullSpan.stop (as ++ [keyword.token.cell]) es left)
      (do
        let used := es.length - left.length
        let span := (es.take used).foldl (fun span e => span.cover e.token.fullSpan)
          keyword.token.fullSpan
        Parse.recordPhrase keyword.token span clause
        Parse.recordClause kind (clause.withSpan span)
        return used)
      fun used phrases => ∃ mid as, Settled r mid as (spansOf (es.drop used)) phrases := by
  refine .of_exists fun cells => .of_exists fun used => .assuming (fun _ h => h.1) ?_
  rintro rfl
  have hbody : InOrder keyword.token.fullSpan.stop r.hi (spansOf used) := by
    rw [spansOf_cons, spansOf_append] at horder
    obtain ⟨-, -, horder⟩ := horder
    obtain ⟨hi, hused, hleft⟩ := inOrder_append.mp horder
    exact hused.mono le_rfl hleft.le
  have hcount : (used ++ left).length - left.length = used.length := by simp
  dsimp only
  rw [hcount, List.take_left]
  refine Builds.mono ?_ (fun _ h => h.2) fun _ _ => id
  refine (builds_recordClause clause hbody).bind fun _ => ?_
  refine .bind_quiet (Parse.quiet_recordClause _ _) fun _ => .pure ?_
  rintro phrases ⟨cell, h⟩
  rw [List.drop_left]
  exact ⟨_, _, h⟩

/-- A clause is one cell in the place of its keyword and its body. -/
lemma builds_read (kind : Kind) {keyword : Element} (hkeyword : keyword.IsGrounded r.length)
    (hes : ∀ e ∈ es, e.IsGrounded r.length) :
    Builds r.length (Settled r mid as (spansOf (keyword :: es))) (read s kind keyword es)
      fun used phrases => ∃ mid as, Settled r mid as (spansOf (es.drop used)) phrases := by
  unfold read
  refine .bind_quiet .get fun notes => ?_
  dsimp only
  split
  · exact .stop
  · split
    · exact .bind_quiet (Parse.quiet_warn _) fun _ => .pure fun phrases h => ⟨_, _, h.skip⟩
    · refine .assuming (fun phrases h => h.unread) fun horder => ?_
      refine (passes_produce _ _ hkeyword hes).bind fun made => ?_
      obtain ⟨clause, left⟩ := made
      dsimp only
      split
      · split
        · exact .stop
        · exact builds_noteClause kind clause horder
      · exact builds_noteClause kind clause horder

/-- All clauses of a text are settled. -/
lemma builds_readAll : (es : List Element) → {mid : Nat} → {as : List Cell} →
    (∀ e ∈ es, e.IsGrounded r.length) →
      Builds r.length (Settled r mid as (spansOf es)) (readAll s es) fun _ _ => True
  | [], _, _, _ => by
    unfold readAll
    exact .pure fun _ _ => trivial
  | e :: rest, mid, as, hes => by
    obtain ⟨he, hrest⟩ := List.forall_mem_cons.mp hes
    unfold readAll
    split
    · exact (builds_readAll rest hrest).mono (fun _ h => h.skip) fun _ _ => id
    · split
      · split
        · refine (builds_read _ he hrest).bind fun used => .of_exists fun mid =>
            .of_exists fun as => ?_
          exact builds_readAll (rest.drop used) fun e he => hrest e (List.mem_of_mem_drop he)
        · exact .throw
      · exact .throw
termination_by es => es.length
decreasing_by
  all_goals
    simp only [List.length_drop, List.length_cons]
    omega

end Clause

namespace Reading

variable {text : String} {registry : Registry} {ceilings : Ceilings}

/-- Before anything is read, there are no phrases. -/
lemma phrases_of_start {r : Reading} (h : start text registry ceilings = .ok r) :
    r.notes.phrases = #[] := by
  unfold start at h
  cases hforest : TokenForest.ofText text ceilings with
  | error e =>
    rw [hforest] at h
    cases h
  | ok forest =>
    rw [hforest] at h
    cases h
    rfl

/-- Whether the reading succeeds or fails, the phrases are those that reading the clauses notes. -/
lemma phrases_evaluate (r : Reading) :
    r.evaluate.2.notes.phrases = (on (Clause.readAll r.setting r.elements) r.notes).2.phrases := by
  unfold evaluate resume
  rcases hread : on (Clause.readAll r.setting r.elements) r.notes with ⟨problem | u, notes⟩
  · have hrun : ((Clause.readAll r.setting r.elements).run.run r.notes).run =
        (.error problem, notes) := hread
    rw [hrun]
  · have hrun : ((Clause.readAll r.setting r.elements).run.run r.notes).run = (.ok u, notes) :=
      hread
    rw [hrun]

/-- The merged trees of a text are nested in its source. -/
lemma nestedIn_trees {r : Reading} (h : start text registry ceilings = .ok r) :
    TokenTree.NestedIn 0 (text.toList.map Text.straightenChar).length r.forest.trees := by
  obtain ⟨forest, hforest, htrees⟩ := trees_of_start h
  obtain ⟨next, htiles⟩ := TokenForest.exists_tiles hforest
  rw [TokenForest.source_eq hforest] at htiles
  rw [htrees]
  exact TokenTree.nestedIn_mergeAll forest.trees 0 (TokenTree.nestedIn_of_tiles htiles)

/-- The phrases noted while the clauses of a text are read form a forest in its source. -/
lemma isForest_phrases {r : Reading} (h : start text registry ceilings = .ok r) :
    Phrase.IsForest (text.toList.map Text.straightenChar).length
      r.evaluate.2.notes.phrases.toList := by
  have hnested := nestedIn_trees h
  set length := (text.toList.map Text.straightenChar).length
  have hes := TokenTree.isGrounded_elements r.setting r.forest.trees hnested le_rfl
  have horder := TokenTree.inOrder_spansOf r.setting hnested
  let whole : Region := ⟨0, length, length, le_rfl, [], by simp⟩
  have hsettled : Settled whole 0 [] (spansOf r.elements) r.notes.phrases.toList := by
    rw [phrases_of_start h]
    exact ⟨Nat.le_refl 0, horder, by simp, by simp⟩
  have hforest : Phrase.IsForest length r.notes.phrases.toList := by
    rw [phrases_of_start h]
    exact .nil length
  rw [phrases_evaluate]
  have hbuilds : Builds length (Settled whole 0 [] (spansOf r.elements))
      (Clause.readAll r.setting r.elements) fun _ _ => True :=
    Clause.builds_readAll (r := whole) r.elements hes
  exact (hbuilds r.notes hforest hsettled).1

/-- Every token of a text holds a character. -/
lemma nonempty_tokens {r : Reading} (h : start text registry ceilings = .ok r) :
    ∀ token ∈ r.tokens, token.fullSpan.start < token.fullSpan.stop := by
  intro token htoken
  have hnonempty := TokenTree.nonempty_of_nestedIn r.forest.trees (nestedIn_trees h) token htoken
  rw [token.start_fullSpan]
  exact hnonempty.trans_le token.stop_span_le_fullSpan

/-- When a text has been read, with or without success, its phrases lie in the source as a forest
does, the parent of a phrase is the smallest phrase around it, and the owner of a token the smallest
around the token. -/
theorem isForest_of_evaluate {r : Reading} (h : start text registry ceilings = .ok r) :
    r.evaluate.2.notes.IsForest (text.toList.map Text.straightenChar) r.tokens :=
  Notes.isForest_of_phrases (isForest_phrases h) (nonempty_tokens h)

/-- Two conditions in parentheses, joined with a third one. The phrase of the group lies in that of
the condition, and the phrase of the condition in the clause. -/
theorem isForest_of_evaluate_sample : ∃ r : Reading,
    start "WHERE (a = 'b' AND c = 'd') OR NOT EXISTS e LIMIT x" .empty {} = .ok r ∧
      r.evaluate.1 = false ∧ r.evaluate.2.notes.phrases.size = 7 ∧
      r.evaluate.2.notes.parent? 0 = some 2 ∧ r.evaluate.2.notes.parent? 2 = some 5 ∧
      r.evaluate.2.notes.IsForest
        ("WHERE (a = 'b' AND c = 'd') OR NOT EXISTS e LIMIT x".toList.map Text.straightenChar)
        r.tokens := by
  have hsample :
    (start "WHERE (a = 'b' AND c = 'd') OR NOT EXISTS e LIMIT x" .empty {}).toOption.any
      (fun r => !r.evaluate.1 && r.evaluate.2.notes.phrases.size == 7 &&
        r.evaluate.2.notes.parent? 0 == some 2 && r.evaluate.2.notes.parent? 2 == some 5) =
          true := by
    decide +kernel
  cases hstart : start "WHERE (a = 'b' AND c = 'd') OR NOT EXISTS e LIMIT x" .empty {} with
  | error problem =>
    rw [hstart] at hsample
    cases hsample
  | ok r =>
    rw [hstart] at hsample
    simp only [Except.toOption, Option.any_some, Bool.and_eq_true, beq_iff_eq,
      Bool.not_eq_true'] at hsample
    obtain ⟨⟨⟨hfails, hsize⟩, hinner⟩, houter⟩ := hsample
    exact ⟨r, rfl, hfails, hsize, hinner, houter, isForest_of_evaluate hstart⟩

end Reading

end RecordQuery
