import RecordQuery.Proofs.ComparedGroups

/-!
# Clauses side by side

Every comparison is kept by all clauses: a clause ends in the second reading where it ends in the
first, as what stands behind it begins another clause or is a semicolon. So whatever holds of two
readings of a text, or of one, is shown of the steps that readings are made of; `holds_readAll` and
`holds_readCondition` tell it of the texts.
-/

namespace RecordQuery

open Reader Phrase

variable {s s' : Setting} {C : Comparison s s'}

/-! ## Readings that fail

Where the first of two sequences has no elements left, the second may have some that begin another
clause. These readings fail on the first.
-/

namespace Clause

variable {es : List Element}

/-- Where there is nothing, no list is read. -/
lemma isOk_commaList_nil (s : Setting) (kind : Kind) (token : Token) (n : Notes) :
    (on (commaList s kind token []) n).1.isOk = false := by
  rw [commaList_eq]
  rfl

/-- Where there is nothing, there is no condition. -/
lemma isOk_condition_nil (s : Setting) (kind : Kind) (token : Token) (n : Notes) :
    (on (condition s kind token []) n).1.isOk = false := by
  unfold condition drawGroup Draw.forget
  rw [on_bind, on_adapt, on_bind, Comparison.on_drawTerm_nil]
  by_cases hsteps : s.ceilings.steps = 0
  · rw [if_pos hsteps]
    rfl
  · rw [if_neg hsteps]
    rfl

/-- Where there is nothing, there is no ordering. -/
lemma isOk_orderEntries_nil (s : Setting) (token : Token) (n : Notes) :
    (on (orderEntries s token []) n).1.isOk = false := by
  rw [orderEntries_eq]
  rfl

/-- Where there is nothing, there is no limit. -/
lemma isOk_limit_nil (s : Setting) (token : Token) (n : Notes) :
    (on (limit s token []) n).1.isOk = false := rfl

/-! ## Reading one clause -/

/-- Notes a clause and the phrase it is, with all elements it has used. -/
def noteClause (kind : Kind) (token : Token) (es : List Element)
    (made : Operator × List Element) : Parse Nat := do
  let used := es.length - made.2.length
  let span := (es.take used).foldl (fun span e => span.cover e.token.fullSpan) token.fullSpan
  Parse.recordPhrase token span made.1
  Parse.recordClause kind (made.1.withSpan span)
  return used

/-- The end of reading a clause: nothing may be left over, and the clause is noted. -/
def close (s : Setting) (kind : Kind) (token : Token) (es : List Element)
    (made : Operator × List Element) : Parse Nat := do
  if let some next := made.2.head? then
    if !atEnd made.2 then
      Parse.failAt s (.leftoverInClause (s.describe next.token) kind) next.token
  noteClause kind token es made

/-- Reads and notes the clause behind a keyword, if none that competes with it was noted before. -/
def readOnce (s : Setting) (kind : Kind) (keyword : Element) (es : List Element) : Parse Nat := do
  if !keyword.token.hasChildren && atEnd es then
    Parse.warn (s.problemAt (.emptyClause kind) keyword.token)
    return 0
  produce s kind.family kind keyword es >>= close s kind keyword.token es

/-- Reading a clause is reading its body, unless there is one of its kind already. -/
lemma read_eq (s : Setting) (kind : Kind) (keyword : Element) (es : List Element) :
    read s kind keyword es = unlessRepeated s kind keyword.token (readOnce s kind keyword es) := rfl

/-- A repeated clause stops the reading; any other is read as it is. -/
lemma on_unlessRepeated {α : Type} (kind : Kind) (token : Token) (reading : Parse α) (n : Notes) :
    on (unlessRepeated s kind token reading) n =
      if n.draft.clauses.any (fun entry => entry.1.competes kind) then
        (.error (s.problemAt (.repeatedClause kind) token), n)
      else on reading n := by
  unfold unlessRepeated
  simp only [on_bind, on_get, goOn_ok]
  split <;> rfl

/-- A clause is read on notes that have none of its kind as it would be alone. -/
lemma on_read_eq (kind : Kind) (keyword : Element) (n : Notes) :
    on (read s kind keyword es) n =
      if n.draft.clauses.any (fun entry => entry.1.competes kind) then
        (.error (s.problemAt (.repeatedClause kind) keyword.token), n)
      else on (readOnce s kind keyword es) n := by
  rw [read_eq, on_unlessRepeated]

/-- A clause that is at its end is noted. -/
lemma close_of_atEnd {kind : Kind} {token : Token} {made : Operator × List Element}
    (h : atEnd made.2 = true) : close s kind token es made = noteClause kind token es made := by
  unfold close
  cases hleft : made.2.head? with
  | none => rfl
  | some next => simp [h]

/-- A clause that something follows is refused. -/
lemma isOk_close {kind : Kind} {token : Token} {made : Operator × List Element}
    (h : atEnd made.2 = false) (n : Notes) :
    (on (close s kind token es made) n).1.isOk = false := by
  obtain ⟨clause, left⟩ := made
  cases left with
  | nil => cases h
  | cons e left =>
    unfold close
    simp only [List.head?_cons, h, Bool.not_false, if_true]
    rfl

/-- The kinds of the clauses noted are those before and the one that is noted. -/
lemma kinds_recordIn (kind : Kind) (clause : Operator) (clauses : List (Kind × Operator)) :
    kind ∈ (Draft.recordIn kind clause clauses).map Prod.fst ∧
      clauses.map Prod.fst ⊆ (Draft.recordIn kind clause clauses).map Prod.fst := by
  induction clauses with
  | nil => simp [Draft.recordIn]
  | cons entry rest ih =>
    rw [Draft.recordIn]
    split
    · rename_i hkind
      simp [hkind]
    · rw [List.map_cons, List.map_cons]
      exact ⟨List.mem_cons_of_mem _ ih.1, List.cons_subset_cons _ ih.2⟩

/-- Closing a clause notes nothing but a clause of its kind. -/
lemma notes_close (kind : Kind) (token : Token) (made : Operator × List Element) :
    Clause.NotesKind kind (close s kind token es made) := by
  intro n used n' h _
  cases hend : atEnd made.2 with
  | false =>
    have hfails : (on (close s kind token es made) n).1.isOk = false := isOk_close hend n
    rw [h] at hfails
    cases hfails
  | true =>
    rw [close_of_atEnd hend] at h
    cases h
    exact (kinds_recordIn kind _ _).1

/-- Reading a clause notes nothing but a clause of its kind. -/
lemma notes_readOnce (kind : Kind) (keyword : Element) :
    Clause.NotesKind kind (readOnce s kind keyword es) := by
  intro n used n' h hproblems
  unfold readOnce at h
  split at h
  · cases h
    simp [Draft.note] at hproblems
  · obtain ⟨made, n₁, -, hclose⟩ := exists_of_on_bind h
    exact notes_close kind _ _ _ _ _ hclose hproblems

end Clause

namespace Comparison

open Clause

variable {es fs rest : List Element} {t u : Token} {is js : List Item} {i j : Item}

/-! ## Lists and conditions -/

/-- Lists of comparable elements are read alike. -/
lemma holds_commaList (hrest : C.Ends rest) (kind : Kind) (htu : C.Tokens t u) :
    (es fs : List Element) → C.Sequences rest es fs → C.Fits es →
      C.Holds (C.Left (fun is js => C.AllItems is js ∧ 1 ≤ is.length) rest)
        (commaList s kind t es) (commaList s' kind u fs)
  | es, fs, h, hfits => by
    by_cases hne : es = [] → rest = []
    · rw [commaList_eq, commaList_eq]
      refine C.bind (C.forget (holds_drawOne h hrest hne hfits)) fun i j hij => ?_
      cases hij with
      | none => exact C.failAt (.refl nofun) (h.place hne htu)
      | some hij =>
        have hafter := (h.run hrest hne).2
        have hsuffix := afterRun_suffix es
        generalize afterRun es = left at hafter hsuffix ⊢
        generalize afterRun fs = left' at hafter ⊢
        cases hafter with
        | nil =>
          -- in the second reading the list ends before what ends the clause
          cases rest with
          | nil => exact C.pure ⟨⟨.cons hij .nil, by simp⟩, .nil⟩
          | cons e more =>
            dsimp only
            rw [(endsClause_of_atEnd hrest.atEnd e rfl).isComma]
            exact C.pure ⟨⟨.cons hij .nil, by simp⟩, .nil⟩
        | @cons e f left left' hef hmore =>
          have hlt : left.length < es.length := hsuffix.length_le
          dsimp only
          rw [(C.signs hef.token).isComma]
          split
          · refine C.bind (holds_commaList hrest kind htu _ _ hmore
              (hfits.suffix ((List.suffix_cons e left).trans hsuffix))) ?_
            rintro ⟨items, behind⟩ ⟨items', behind'⟩ ⟨⟨hitems, -⟩, hbehind⟩
            exact C.pure ⟨⟨.cons hij hitems, by simp⟩, hbehind⟩
          · exact C.pure ⟨⟨.cons hij .nil, by simp⟩, .cons hef hmore⟩
    · obtain ⟨rfl, hbehind⟩ := Classical.not_imp.mp hne
      exact C.of_fails (hrest.oneSided hbehind) (isOk_commaList_nil s kind t)
termination_by es => es.length

/-- Comparable items are read alike as operands of a listing. -/
lemma holds_expressions (h : C.AllItems is js) :
    C.Holds (fun as bs =>
        List.Forall₂ (C.Operands (ShapeRules.ofText C.vocabulary).listed) as bs ∧
          as.length = is.length)
      (expressions s is) (expressions s' js) := by
  induction h with
  | nil => exact C.pure ⟨.nil, rfl⟩
  | cons hij _ ih =>
    unfold expressions
    refine C.bind (holds_expression hij) fun a b hab => ?_
    refine C.bind ih ?_
    rintro as bs ⟨hoperands, hlength⟩
    exact C.pure ⟨.cons hab hoperands, by simp [hlength]⟩

/-- What holds of every operand of the first of two lists that are made alike. -/
lemma holds_of_forall₂ {P : Operand → Prop} {as bs : List Operand}
    (h : List.Forall₂ (C.Operands P) as bs) :
    ∀ a ∈ as, P a ∧
      ∀ op, a = .operator op → op.Everywhere (Operator.Shaped (.ofText C.vocabulary)) :=
  ((List.forall₂_and_left _ _).mp
    (h.imp fun _ _ hab => ⟨⟨hab.alike.holds, hab.alike.shaped⟩, hab⟩)).1

/-- Operators of one kind out of operands that are made alike are made alike, if the first has the
shape of its kind. -/
lemma operators_of_operands {P : Operand → Prop} {kind : Kind} {as bs : List Operand}
    (h : List.Forall₂ (C.Operands P) as bs)
    (hshape : Operator.Shaped (.ofText C.vocabulary) { kind, operands := as }) :
    C.Operators { kind, operands := as } { kind, operands := bs } := by
  refine ⟨⟨Operator.core_eq_iff.mpr ⟨rfl, rfl, ?_⟩, ?_⟩, fun hexact => ?_⟩
  · dsimp only
    clear hshape
    induction h with
    | nil => rfl
    | cons hab _ ih => rw [List.map_cons, List.map_cons, hab.alike.core, ih]
  · exact Operator.everywhere_iff.mpr
      ⟨hshape, fun child hchild => (holds_of_forall₂ h _ hchild).2 child rfl⟩
  · have hsame : as = bs := List.forall₂_eq_eq_eq ▸ h.imp fun _ _ hab => hab.same hexact
    rw [hsame]

/-- What two readings of a clause come to. -/
abbrev Made (C : Comparison s s') (kind : Kind) (rest : List Element) :
    Operator × List Element → Operator × List Element → Prop :=
  C.Left (fun a b => C.Operators a b ∧ a.kind = kind) rest

/-- Clauses that list comparable elements are read alike. -/
lemma holds_projection (hrest : C.Ends rest) {kind : Kind}
    (lists : kind = .select ∨ kind = .groupBy ∨ kind = .groupByPermuted) (htu : C.Tokens t u)
    (h : C.Sequences rest es fs) (hfits : C.Fits es) :
    C.Holds (C.Made kind rest) (projection s kind t es) (projection s' kind u fs) := by
  unfold projection
  refine C.bind (holds_commaList hrest kind htu _ _ h hfits) ?_
  rintro ⟨is, left⟩ ⟨js, left'⟩ ⟨⟨hitems, size⟩, hleft⟩
  refine C.bind (holds_expressions hitems) ?_
  rintro as bs ⟨hoperands, hlength⟩
  refine C.pure ⟨⟨operators_of_operands hoperands ?_, rfl⟩, hleft⟩
  exact .listing lists (fun a ha => (holds_of_forall₂ hoperands a ha).1)
    (by rw [hlength]; exact size)

/-- A clause that holds a condition. -/
lemma operators_filter {kind : Kind} (filters : kind = .whereClause ∨ kind = .having)
    {a b : Operator} (hab : C.Operators a b) (hcondition : a.isCondition = true) :
    C.Operators { kind, operands := [.operator a] } { kind, operands := [.operator b] } :=
  operators_of_operands (P := fun _ => True) (.cons (hab.operand trivial) .nil)
    (.filter filters hcondition)

/-- Clauses with conditions of comparable elements are read alike. -/
lemma holds_filter (hrest : C.Ends rest) {kind : Kind}
    (filters : kind = .whereClause ∨ kind = .having) (htu : C.Tokens t u)
    (h : C.Sequences rest es fs) (hfits : C.Fits es) :
    C.Holds (C.Made kind rest) (condition s kind t es) (condition s' kind u fs) := by
  by_cases hne : es = [] → rest = []
  · unfold condition
    refine C.bind (C.forget (holds_drawGroup h hrest hne hfits)) ?_
    rintro ⟨item, left⟩ ⟨item', left'⟩ ⟨hitem, hleft⟩
    cases hitem with
    | none => exact C.failAt (.refl nofun) htu
    | some hij =>
      dsimp only
      obtain ⟨hi, hj⟩ | ⟨a, b, hi, hj, hab, hcondition⟩ := hij.condition
      · rw [hi, hj]
        exact C.failAt (faults_slice _ hij.span nofun fun _ => rfl) htu
      · rw [hi, hj]
        exact C.pure ⟨⟨operators_filter filters hab hcondition, rfl⟩, hleft⟩
  · obtain ⟨rfl, hbehind⟩ := Classical.not_imp.mp hne
    exact C.of_fails (hrest.oneSided hbehind) (isOk_condition_nil s kind t)

/-! ## Orderings -/

/-- The first entry of two orderings, and what is behind it. -/
lemma Sequences.entry (h : C.Sequences rest es fs) (hrest : C.Ends rest)
    (hne : es = [] → rest = []) :
    List.Forall₂ C.Elements (Clause.entry es) (Clause.entry fs) ∧
      C.Sequences rest (afterEntry es) (afterEntry fs) := by
  cases h with
  | nil =>
    rw [hne rfl]
    exact ⟨.nil, .nil⟩
  | cons hef hmore =>
    obtain ⟨htake, hdrop⟩ := hmore.takeWhile_dropWhile (fun htu => (C.signs htu).continuesEntry)
      fun e he => (endsClause_of_atEnd hrest.atEnd e he).continuesEntry
    rw [Clause.entry, Clause.entry, afterEntry, afterEntry, (C.signs hef.token).isDelimiter]
    split
    · exact ⟨.nil, .cons hef hmore⟩
    · exact ⟨.cons hef htake, hdrop⟩

/-- The last items of two entries are the same direction, or none is a direction. -/
lemma direction_eq (h : C.AllItems is js) (hij : C.Items i j) :
    Clause.direction js j = Clause.direction is i := by
  have hempty : js.isEmpty = is.isEmpty := by cases h <;> rfl
  cases hij with
  | raw htu =>
    dsimp only [Clause.direction]
    rw [hempty, (C.signs htu).direction]
  | pending | call | node => rfl

/-- What the last item of an entry is, if there is a direction: there is something to order by, and
the direction is kept in small letters. -/
lemma direction_cases {word : String} (h : Clause.direction is i = some word) :
    is ≠ [] ∧ (word = "asc" ∨ word = "desc") := by
  unfold Clause.direction at h
  split at h
  · split at h
    · cases h
    · rename_i hempty
      exact ⟨by rintro rfl; exact hempty rfl, Operator.direction?_cases h⟩
  · cases h

/-- Two entries of an ordering that are made alike. -/
structure Entries (C : Comparison s s') (a b : Operand × String) : Prop where
  operand : C.Operands (ShapeRules.ofText C.vocabulary).listed a.1 b.1
  direction_eq : b.2 = a.2
  direction : a.2 = "asc" ∨ a.2 = "desc"

/-- Comparable entries of an ordering are read alike, up to their directions. -/
lemma holds_orderEntry (h : C.AllItems is js) (hij : C.Items i j)
    (hfits : C.fits → is.length ≤ s.ceilings.steps) :
    C.Holds (fun as bs => ∃ a b, C.Entries a b ∧ as = Operator.orderOperands [a] ∧
        bs = Operator.orderOperands [b])
      (orderEntry s is i) (orderEntry s' js j) := by
  unfold orderEntry
  rw [direction_eq h hij]
  cases hword : Clause.direction is i with
  | none => exact C.failAt (faults_slice _ hij.span nofun fun _ => rfl) hij.token
  | some word =>
    obtain ⟨hne, hdirection⟩ := direction_cases hword
    dsimp only
    refine C.bind (holds_direction hij) fun _ _ _ => ?_
    refine C.bind (holds_reduce h hne hfits) fun i j hij => ?_
    refine C.bind (holds_expression hij) fun a b hab => ?_
    exact C.pure ⟨(a, word), (b, word), ⟨hab, rfl, hdirection⟩, rfl, rfl⟩

/-- The ends of two lists that are related. -/
lemma forall₂_getLast? {α β : Type} {R : α → β → Prop} {l : List α} {m : List β}
    (h : List.Forall₂ R l m) :
    Option.Rel R l.getLast? m.getLast? ∧ List.Forall₂ R l.dropLast m.dropLast := by
  induction h with
  | nil => exact ⟨.none, .nil⟩
  | cons hab hrest ih =>
    cases hrest with
    | nil => exact ⟨.some hab, .nil⟩
    | cons hcd hrest =>
      rw [List.getLast?_cons_cons, List.getLast?_cons_cons]
      exact ⟨ih.1, .cons hab ih.2⟩

/-- What the entries of two orderings come to. -/
def Ordered (C : Comparison s s') (xs ys : List Operand) : Prop :=
  ∃ as bs, List.Forall₂ C.Entries as bs ∧ 1 ≤ as.length ∧ xs = Operator.orderOperands as ∧
    ys = Operator.orderOperands bs

/-- The entries of comparable orderings are read alike one by one. -/
lemma holds_orderEntries (hrest : C.Ends rest) (htu : C.Tokens t u) :
    (es fs : List Element) → C.Sequences rest es fs → C.Fits es →
      C.Holds (C.Left C.Ordered rest) (orderEntries s t es) (orderEntries s' u fs)
  | es, fs, h, hfits => by
    by_cases hne : es = [] → rest = []
    · obtain ⟨hentry, hafter⟩ := h.entry hrest hne
      have hlength := congrArg List.length (entry_append_afterEntry es)
      rw [List.length_append] at hlength
      rw [orderEntries_eq, orderEntries_eq]
      refine C.bind (C.forget (holds_readAll_phrase hentry _ _)) ?_
      rintro is js ⟨hitems, hcount⟩
      obtain ⟨hlast, hinit⟩ := forall₂_getLast? hitems
      have hrounds (h : C.fits) : is.dropLast.length ≤ s.ceilings.steps := by
        have := hfits h
        rw [List.length_dropLast]
        omega
      generalize is.getLast? = last at hlast ⊢
      generalize js.getLast? = last' at hlast ⊢
      -- the last phrase of an entry is the direction or what is ordered by
      cases hlast with
      | none => exact C.failAt (.refl nofun) (h.place hne htu)
      | some hij =>
        refine C.bind (holds_orderEntry hinit hij hrounds) ?_
        rintro _ _ ⟨a, b, hab, rfl, rfl⟩
        have hsuffix := afterEntry_suffix es
        generalize afterEntry es = left at hafter hsuffix ⊢
        generalize afterEntry fs = left' at hafter ⊢
        cases hafter with
        -- the first sequence ends here; the second may go on with what ends a clause
        | nil =>
          cases rest with
          | nil => exact C.pure ⟨⟨[a], [b], .cons hab .nil, by simp, rfl, rfl⟩, .nil⟩
          | cons e more =>
            dsimp only
            rw [(endsClause_of_atEnd hrest.atEnd e rfl).isComma]
            exact C.pure ⟨⟨[a], [b], .cons hab .nil, by simp, rfl, rfl⟩, .nil⟩
        | @cons e f left left' hef hmore =>
          have hlt : left.length < es.length := hsuffix.length_le
          dsimp only
          rw [(C.signs hef.token).isComma]
          split
          · refine C.bind (holds_orderEntries hrest htu _ _ hmore
              (hfits.suffix ((List.suffix_cons e left).trans hsuffix))) ?_
            rintro ⟨_, behind⟩ ⟨_, behind'⟩ ⟨⟨as, bs, hentries, -, rfl, rfl⟩, hbehind⟩
            exact C.pure ⟨⟨a :: as, b :: bs, .cons hab hentries, by simp, rfl, rfl⟩, hbehind⟩
          · exact C.pure ⟨⟨[a], [b], .cons hab .nil, by simp, rfl, rfl⟩, .cons hef hmore⟩
    -- the first sequence is empty and the second is not, so the reading of the first fails
    · obtain ⟨rfl, hbehind⟩ := Classical.not_imp.mp hne
      exact C.of_fails (hrest.oneSided hbehind) (isOk_orderEntries_nil s t)
termination_by es => es.length

/-- The operands of two orderings are made alike. -/
lemma operands_of_entries {as bs : List (Operand × String)} (h : List.Forall₂ C.Entries as bs) :
    List.Forall₂ (C.Operands fun _ => True) (Operator.orderOperands as)
      (Operator.orderOperands bs) := by
  induction h with
  | nil => exact .nil
  | cons hab _ ih =>
    refine .cons (hab.operand.mono fun _ => trivial) (.cons ?_ ih)
    rw [hab.direction_eq]
    exact ⟨⟨rfl, trivial, nofun⟩, fun _ => rfl⟩

/-- Comparable orderings are read alike. -/
lemma holds_ordering (hrest : C.Ends rest) (htu : C.Tokens t u) (h : C.Sequences rest es fs)
    (hfits : C.Fits es) :
    C.Holds (C.Made .orderBy rest)
      (do
        let (operands, left) ← orderEntries s t es
        return ({ kind := .orderBy, operands }, left))
      (do
        let (operands, left) ← orderEntries s' u fs
        return ({ kind := .orderBy, operands }, left)) := by
  refine C.bind (holds_orderEntries hrest htu _ _ h hfits) ?_
  rintro ⟨_, left⟩ ⟨_, left'⟩ ⟨⟨as, bs, hentries, size, rfl, rfl⟩, hleft⟩
  have hholds : ∀ a ∈ as, (ShapeRules.ofText C.vocabulary).listed a.1 ∧
      (a.2 = "asc" ∨ a.2 = "desc") :=
    ((List.forall₂_and_left _ _).mp
      (hentries.imp fun _ _ hab => ⟨⟨hab.operand.alike.holds, hab.direction⟩, hab⟩)).1
  dsimp only at hleft ⊢
  refine C.pure ⟨⟨operators_of_operands (operands_of_entries hentries) ?_, rfl⟩, hleft⟩
  exact .ordering (fun a ha => (hholds a ha).1) (fun a ha => (hholds a ha).2) size

/-! ## Limits and ranges -/

/-- Comparable limits are read alike. -/
lemma holds_limit (hrest : C.Ends rest) (htu : C.Tokens t u) (h : C.Sequences rest es fs)
    (hfits : C.Fits es) : C.Holds (C.Made .limit rest) (limit s t es) (limit s' u fs) := by
  by_cases hne : es = [] → rest = []
  · unfold limit
    refine C.bind (C.forget (holds_drawOne h hrest hne hfits)) fun i j hij => ?_
    cases hij with
    | none => exact C.failAt (.refl nofun) htu
    | some hij =>
      refine C.bind (holds_value hij _) ?_
      rintro v _ ⟨rfl, hv, -⟩
      split
      · rename_i isCount
        refine C.pure ⟨⟨⟨⟨rfl, ?_⟩, fun _ => rfl⟩, rfl⟩, (h.run hrest hne).2⟩
        exact Operator.everywhere_iff.mpr ⟨.limit hv isCount, by simp⟩
      · exact C.failAt (.refl nofun) hij.token
  · obtain ⟨rfl, hbehind⟩ := Classical.not_imp.mp hne
    exact C.of_fails (hrest.oneSided hbehind) (isOk_limit_nil s t)

/-- Comparable ranges of time are read alike. -/
lemma holds_timeRange {e f : Element} (h : C.Elements e f) :
    C.Holds (fun a b => C.Operators a b ∧ a.kind = .timeRange) (timeRange s e)
      (timeRange s' f) := by
  have hbounds {items items' : Option (List Item)} (hitems : Option.Rel C.AllItems items items') :
      C.Holds (fun a b : Operator => C.Operators a b ∧ a.kind = .timeRange)
        (do
          let bounds ← Claim.exactParameters s ⟨.timeRange, e.token, items, none, none⟩ 2
          let operands ← Claim.values s [.string, .number] bounds
          return { kind := .timeRange, operands })
        (do
          let bounds ← Claim.exactParameters s' ⟨.timeRange, f.token, items', none, none⟩ 2
          let operands ← Claim.values s' [.string, .number] bounds
          return { kind := .timeRange, operands }) := by
    have hclaim : C.Claims ⟨.timeRange, e.token, items, none, none⟩
        ⟨.timeRange, f.token, items', none, none⟩ := ⟨rfl, h.token, hitems, .none, .none⟩
    refine C.bind (holds_exactParameters hclaim 2) ?_
    rintro is js ⟨hitems, htwo⟩
    refine C.bind (holds_values _ hitems) ?_
    rintro _ _ ⟨rfl, vs, rfl, hlength, hvs⟩
    obtain ⟨first, last, rfl⟩ : ∃ first last, vs = [first, last] :=
      List.length_eq_two.mp (hlength.trans htwo)
    have types : ∀ v ∈ [first, last], v.type = .string ∨ v.type = .number := fun v hv => by
      simpa [ScalarValue.allows] using (hvs v hv).2
    refine C.pure ⟨⟨⟨rfl, Operator.everywhere_iff.mpr ⟨?_, by simp⟩⟩, fun _ => rfl⟩, rfl⟩
    exact .timeRange (hvs first (by simp)).1 (hvs last (by simp)).1 (types first (by simp))
      (types last (by simp))
  unfold timeRange
  rw [(C.signs h.token).hasChildren]
  dsimp only
  split
  · exact C.bind (C.map h.parameters fun _ _ => .some) fun _ _ hitems => hbounds hitems
  · exact hbounds .none

/-! ## Any clause -/

/-- Every clause has its way to be read. -/
lemma holds_produceClause (hrest : C.Ends rest) {kind : Kind} (hkind : kind.isClause = true)
    {e f : Element} (hef : C.Elements e f) (h : C.Sequences rest es fs) (hfits : C.Fits es) :
    C.Holds (C.Made kind rest) (produce s kind.family kind e es)
      (produce s' kind.family kind f fs) := by
  cases kind with
  | select => exact holds_projection hrest (.inl rfl) hef.token h hfits
  | groupBy => exact holds_projection hrest (.inr (.inl rfl)) hef.token h hfits
  | groupByPermuted => exact holds_projection hrest (.inr (.inr rfl)) hef.token h hfits
  | whereClause => exact holds_filter hrest (.inl rfl) hef.token h hfits
  | having => exact holds_filter hrest (.inr rfl) hef.token h hfits
  | orderBy => exact holds_ordering hrest hef.token h hfits
  | limit => exact holds_limit hrest hef.token h hfits
  | timeRange => exact C.bind (holds_timeRange hef) fun a b hab => C.pure ⟨hab, h⟩
  | _ => cases hkind

namespace Sequences

/-- Of comparable sequences both are at the end of a clause or none is. -/
lemma atEnd_eq (h : C.Sequences rest es fs) (hrest : C.Ends rest) : atEnd fs = atEnd es := by
  cases h with
  | nil => exact hrest.atEnd
  | cons hef _ =>
    rw [atEnd, atEnd, (C.signs hef.token).isClause, (C.signs hef.token).isSemicolon]

/-- The second of two comparable sequences is longer by what it goes on with. -/
lemma length_eq (h : C.Sequences rest es fs) : fs.length = es.length + rest.length := by
  induction h with
  | nil => rw [List.length_nil, Nat.zero_add]
  | cons _ _ ih => rw [List.length_cons, List.length_cons, ih, Nat.add_right_comm]

/-- What is behind the first elements of two sequences. -/
lemma drop (h : C.Sequences rest es fs) {count : Nat} (hle : count ≤ es.length) :
    C.Sequences rest (es.drop count) (fs.drop count) := by
  induction h generalizing count with
  | nil =>
    obtain rfl : count = 0 := Nat.le_zero.mp hle
    exact .nil
  | cons hef hmore ih =>
    cases count with
    | zero => exact .cons hef hmore
    | succ count => exact ih (Nat.le_of_succ_le_succ hle)

/-- The first elements of two sequences cover the same span. -/
lemma cover_eq (h : C.Sequences rest es fs) {count : Nat} (hle : count ≤ es.length)
    (hexact : C.exact) (span : Span) :
    (fs.take count).foldl (fun span e => span.cover e.token.fullSpan) span =
      (es.take count).foldl (fun span e => span.cover e.token.fullSpan) span := by
  induction h generalizing count span with
  | nil =>
    obtain rfl : count = 0 := Nat.le_zero.mp hle
    rfl
  | cons hef _ ih =>
    cases count with
    | zero => rfl
    | succ count =>
      rw [List.take_succ_cons, List.take_succ_cons, List.foldl_cons, List.foldl_cons,
        C.fullSpan_eq hexact hef.token]
      exact ih (Nat.le_of_succ_le_succ hle) _

end Sequences

/-- A clause ends in the second reading where it ends in the first. -/
lemma holds_close (hrest : C.Ends rest) {kind : Kind} (hkind : kind.isClause = true)
    (htu : C.Tokens t u) (h : C.Sequences rest es fs) {made made' : Operator × List Element}
    (hmade : C.Made kind rest made made') :
    C.Holds (Same fun used => used ≤ es.length) (close s kind t es made)
      (close s' kind u fs made') := by
  obtain ⟨a, left⟩ := made
  obtain ⟨b, left'⟩ := made'
  obtain ⟨⟨hab, rfl⟩, hleft⟩ := hmade
  have hend := hleft.atEnd_eq hrest
  cases hmore : atEnd left with
  | true =>
    rw [close_of_atEnd hmore, close_of_atEnd (hend.trans hmore)]
    have hused : fs.length - left'.length = es.length - left.length := by
      rw [h.length_eq, hleft.length_eq, Nat.add_sub_add_right]
    have hle : es.length - left.length ≤ es.length := Nat.sub_le _ _
    have hspan (hexact : C.exact) :
        (es.take (es.length - left.length)).foldl (fun span e => span.cover e.token.fullSpan)
            t.fullSpan =
          (fs.take (es.length - left.length)).foldl (fun span e => span.cover e.token.fullSpan)
            u.fullSpan := by
      rw [C.fullSpan_eq hexact htu, h.cover_eq hle hexact]
    unfold noteClause
    dsimp only at hused hspan ⊢
    rw [hused]
    refine C.bind (C.recordPhrase htu hspan hab) fun _ _ _ => ?_
    refine C.bind (C.recordClause hkind rfl (hab.withSpan hspan))
      fun _ _ _ => ?_
    exact C.pure ⟨rfl, hle⟩
  | false =>
    cases hleft with
    | nil => cases hmore
    | cons hnext _ =>
      unfold close
      rw [hend]
      dsimp only [List.head?_cons] at hmore ⊢
      rw [hmore]
      refine C.stopAt ⟨rfl, nofun, fun hfaithful => ?_⟩ hnext.token
      rw [describe_eq hfaithful hnext.token]

/-- Comparable clauses are read alike, using up as many elements. -/
lemma holds_readOnce (hrest : C.Ends rest) {kind : Kind} (hkind : kind.isClause = true)
    {e f : Element} (hef : C.Elements e f) (h : C.Sequences rest es fs) (hfits : C.Fits es) :
    C.Holds (Same fun used => used ≤ es.length) (readOnce s kind e es) (readOnce s' kind f fs) := by
  unfold readOnce
  rw [(C.signs hef.token).hasChildren, h.atEnd_eq hrest]
  split
  · exact C.warn nofun hef.token ⟨rfl, Nat.zero_le _⟩
  · exact C.bind (holds_produceClause hrest hkind hef h hfits) fun made made' hmade =>
      holds_close hrest hkind hef.token h hmade

/-- Comparable clauses are read alike, also where one of their kind is there already. -/
lemma holds_read (hrest : C.Ends rest) {kind : Kind} (hkind : kind.isClause = true)
    {e f : Element} (hef : C.Elements e f) (h : C.Sequences rest es fs) (hfits : C.Fits es) :
    C.Holds (Same fun used => used ≤ es.length) (read s kind e es) (read s' kind f fs) := by
  rw [read_eq, read_eq]
  exact C.unlessRepeated hef.token (holds_readOnce hrest hkind hef h hfits) (notes_readOnce kind e)

/-- A word that begins a clause is the keyword of one. -/
lemma isClause_of_rule {kind : Kind} (hrule : t.rule = some kind) (hclause : t.isClause = true) :
    kind.isClause = true := by
  rw [Token.isClause, hrule] at hclause
  exact (Bool.and_eq_true_iff.mp hclause).2

/-- The clauses of two texts are read alike. -/
lemma holds_readAll : (es fs : List Element) → C.Sequences [] es fs → C.Fits es →
    C.Holds (fun _ _ => True) (readAll s es) (readAll s' fs)
  | [], _, .nil, _ => by
    unfold Clause.readAll
    exact C.pure trivial
  | e :: es, f :: fs, .cons hef hmore, hfits => by
    have hsigns := C.signs hef.token
    have hfits' : C.Fits es := hfits.suffix (List.suffix_cons e es)
    unfold Clause.readAll
    rw [hsigns.isSemicolon, hsigns.rule, hsigns.isClause]
    split
    · exact holds_readAll es fs hmore hfits'
    · split
      · rename_i kind hrule
        split
        · rename_i hclause
          refine C.bind (holds_read ends_nil (isClause_of_rule hrule hclause) hef hmore hfits') ?_
          rintro used _ ⟨rfl, hused⟩
          exact holds_readAll _ _ (hmore.drop hused) (hfits'.suffix (List.drop_suffix used es))
        · exact C.failAt (faults_word _ hef.token (by decide) fun _ => rfl) hef.token
      · exact C.failAt (faults_word _ hef.token (by decide) fun _ => rfl) hef.token
termination_by es => es.length
decreasing_by
  · simp only [List.length_drop, List.length_cons]
    omega
  · simp

/-- Two conditions without keywords are read alike. -/
lemma holds_readCondition (h : C.Sequences [] es fs) (hfits : C.Fits es) :
    C.Holds (fun _ _ => True) (readCondition s es) (readCondition s' fs) := by
  unfold readCondition
  refine C.bind (C.forget (holds_drawGroup h ends_nil (fun _ => rfl) hfits)) ?_
  rintro ⟨drawn, left⟩ ⟨drawn', left'⟩ ⟨hdrawn, hleft⟩
  cases hdrawn with
  | none => exact C.pure trivial
  | some hij =>
    dsimp only
    cases hleft with
    | nil =>
      refine C.bind (holds_condition hij) ?_
      rintro a b ⟨hab, hcondition⟩
      exact C.recordClause rfl rfl ((operators_filter (.inl rfl) hab hcondition).withSpan hij.span)
    | cons hef _ =>
      dsimp only [List.head?_cons]
      refine C.stopAt ⟨rfl, nofun, fun hfaithful => ?_⟩ hef.token
      rw [describe_eq hfaithful hef.token]

end Comparison

end RecordQuery
