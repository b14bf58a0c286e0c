import RecordQuery.Proofs.ComparedPhrases

/-!
# Groups side by side

Phrases are drawn from two sequences of elements that are read alike. The second may go on behind
the first with elements that begin another clause, or with a semicolon. There a phrase of the second
ends as one of the first ends with the sequence, unless the first has no elements left at all.
-/

namespace RecordQuery

open Reader Phrase

variable {s s' : Setting} {C : Comparison s s'}

/-! ## Sequences -/

/-- What is known of a token that ends a clause: nothing goes on with it. -/
structure Token.EndsClause (t : Token) : Prop where
  continues : Phrase.continues t = false
  continuesEntry : Clause.continuesEntry t = false
  isConnective : t.isConnective = false
  isComma : t.isComma = false

/-- What follows a clause begins with a token that ends it. -/
lemma Clause.endsClause_of_atEnd {rest : List Element} (h : Clause.atEnd rest = true) :
    ∀ e ∈ rest.head?, e.token.EndsClause := by
  intro e he
  cases rest with
  | nil => cases he
  | cons e rest =>
    cases he
    simp only [Clause.atEnd, Bool.or_eq_true] at h
    obtain hclause | hsemicolon := h
    · obtain ⟨hkind, hrule⟩ : e.token.kind = .word ∧ e.token.rule.any Kind.isClause = true := by
        simpa [Token.isClause] using hclause
      obtain ⟨kind, hkeyword⟩ : ∃ kind, e.token.rule = some kind := by
        cases hkeyword : e.token.rule with
        | none =>
          rw [hkeyword] at hrule
          cases hrule
        | some kind => exact ⟨kind, rfl⟩
      have hconnective : kind.isConnective = false := by
        rw [hkeyword, Option.any_some] at hrule
        cases kind <;> first | rfl | cases hrule
      constructor
      · simp [Phrase.continues, hclause]
      · simp [Clause.continuesEntry, hrule]
      · simp [Token.isConnective, hkeyword, hconnective]
      · simp [Token.isComma, Token.isDelimiter, hkind]
    · obtain ⟨hkind, htext⟩ : e.token.kind = .delimiter ∧ e.token.text = ";" := by
        simpa [Token.isSemicolon, Token.isDelimiter] using hsemicolon
      constructor
      · simp [Phrase.continues, Phrase.separates, Token.isDelimiter, hkind]
      · simp [Clause.continuesEntry, Token.isDelimiter, hkind]
      · simp [Token.isConnective, hkind]
      · simp [Token.isComma, htext]

namespace Comparison

section

variable (C)

/-- Two elements that are read alike. -/
structure Elements (e f : Element) : Prop where
  token : C.Tokens e.token f.token
  item : C.Holds C.Items e.item f.item
  parameters : C.Holds C.AllItems e.parameters f.parameters

/-- Two sequences of elements that are read alike, where the second has more behind it. -/
inductive Sequences (rest : List Element) : List Element → List Element → Prop
  | nil : Sequences rest [] rest
  | cons {e f : Element} {es fs : List Element} (head : C.Elements e f)
      (tail : Sequences rest es fs) : Sequences rest (e :: es) (f :: fs)

/-- What may stand behind the second of two sequences: nothing that its phrases go on with, and
nothing at all if both readings are to fail together. -/
structure Ends (rest : List Element) : Prop where
  atEnd : Clause.atEnd rest = true
  oneSided : rest ≠ [] → C.oneSided

/-- Whether loops over some elements have rounds enough. -/
def Fits (es : List Element) : Prop := C.fits → es.length < s.ceilings.steps

/-- What two readings come to and leave behind it. -/
def Left (R : α → β → Prop) (rest : List Element) (a : α × List Element) (b : β × List Element) :
    Prop := R a.1 b.1 ∧ C.Sequences rest a.2 b.2

end

variable {es fs rest : List Element}

/-- Nothing ends every sequence. -/
lemma ends_nil : C.Ends [] := ⟨rfl, fun h => absurd rfl h⟩

/-- What is left of elements that fit fits. -/
lemma Fits.suffix (h : C.Fits es) {left : List Element} (hsuffix : left <:+ es) : C.Fits left :=
  fun hfits => Nat.lt_of_le_of_lt hsuffix.length_le (h hfits)

namespace Sequences

/-- The second of two sequences may go on with what ends the first. -/
lemma append (h : C.Sequences [] es fs) : C.Sequences rest es (fs ++ rest) := by
  induction h with
  | nil => exact .nil
  | cons hef _ ih => exact .cons hef ih

/-- What two sequences start with and go on with after that, as long as a property holds that more
behind them lacks. -/
lemma takeWhile_dropWhile (h : C.Sequences rest es fs) {p : Token → Bool}
    (hp : ∀ {t u}, C.Tokens t u → p u = p t) (hrest : ∀ e ∈ rest.head?, p e.token = false) :
    List.Forall₂ C.Elements (es.takeWhile fun e => p e.token) (fs.takeWhile fun e => p e.token) ∧
      C.Sequences rest (es.dropWhile fun e => p e.token) (fs.dropWhile fun e => p e.token) := by
  induction h with
  | nil =>
    cases rest with
    | nil => exact ⟨.nil, .nil⟩
    | cons e more =>
      rw [List.takeWhile_cons, List.dropWhile_cons, hrest e rfl]
      exact ⟨.nil, .nil⟩
  | cons hef hmore ih =>
    rw [List.takeWhile_cons, List.takeWhile_cons, List.dropWhile_cons, List.dropWhile_cons,
      hp hef.token]
    split
    · exact ⟨.cons hef ih.1, ih.2⟩
    · exact ⟨.nil, .cons hef hmore⟩

/-- The first phrase of two sequences, and what is behind it. -/
lemma run (h : C.Sequences rest es fs) (hrest : C.Ends rest) (hne : es = [] → rest = []) :
    List.Forall₂ C.Elements (Phrase.run es) (Phrase.run fs) ∧
      C.Sequences rest (afterRun es) (afterRun fs) := by
  cases h with
  | nil =>
    rw [hne rfl]
    exact ⟨.nil, .nil⟩
  | cons hef hmore =>
    obtain ⟨htake, hdrop⟩ := hmore.takeWhile_dropWhile (fun htu => (C.signs htu).continues)
      fun e he => (Clause.endsClause_of_atEnd hrest.atEnd e he).continues
    rw [Phrase.run, Phrase.run, afterRun, afterRun, (C.signs hef.token).separates]
    split
    · exact ⟨.nil, .cons hef hmore⟩
    · exact ⟨.cons hef htake, hdrop⟩

/-- The place that a problem in front of some elements is told of. -/
lemma place (h : C.Sequences rest es fs) (hne : es = [] → rest = []) {t u : Token}
    (htu : C.Tokens t u) :
    C.Tokens ((es.head?.map Element.token).getD t) ((fs.head?.map Element.token).getD u) := by
  cases h with
  | nil =>
    rw [hne rfl]
    exact htu
  | cons hef _ => exact hef.token

end Sequences

/-! ## Drawing phrases -/

/-- Comparable elements are read alike as items, as many as there are. -/
lemma holds_readAll_phrase (h : List.Forall₂ C.Elements es fs) (after after' : List Element) :
    C.Holds (fun is js => C.AllItems is js ∧ is.length = es.length) (Phrase.readAll es after)
      (Phrase.readAll fs after') := by
  induction h with
  | nil => exact C.pure ⟨.nil, rfl⟩
  | cons hef _ ih =>
    unfold Phrase.readAll
    refine C.bind (C.leaving hef.item) fun i j hij => ?_
    refine C.bind ih ?_
    rintro is js ⟨hitems, hlength⟩
    exact C.pure ⟨.cons hij hitems, by rw [List.length_cons, List.length_cons, hlength]⟩

/-- One phrase is drawn alike from comparable sequences. -/
lemma holds_drawOne (h : C.Sequences rest es fs) (hrest : C.Ends rest) (hne : es = [] → rest = [])
    (hfits : C.Fits es) : C.Holds (Option.Rel C.Items) (drawOne s es) (drawOne s' fs) := by
  have hrun := (h.run hrest hne).1
  have hlength := congrArg List.length (run_append_afterRun es)
  rw [List.length_append] at hlength
  unfold drawOne
  generalize Phrase.run es = phrase at hrun hlength ⊢
  generalize Phrase.run fs = phrase' at hrun ⊢
  cases hrun with
  | nil => exact C.pure .none
  | cons hef hmore =>
    refine C.bind (holds_readAll_phrase (.cons hef hmore) _ _) ?_
    rintro is js ⟨hitems, hcount⟩
    have hsome : is ≠ [] := List.ne_nil_of_length_eq_add_one hcount
    have hreduce := holds_reduce hitems hsome fun h => by
      have := hfits h
      omega
    exact C.bind (C.leaving hreduce) fun i j hij => C.pure (.some hij)

/-! ## Phrases joined by connectives -/

section

variable (C)

/-- Two links of a chain that are read alike. -/
def Links (a b : Token × Item) : Prop := C.Tokens a.1 b.1 ∧ C.Items a.2 b.2

/-- Two chains that are read alike. -/
structure Chains (a b : Chain Item) : Prop where
  first : C.Items a.first b.first
  more : List.Forall₂ C.Links a.more b.more

end

/-- The runs of two chains that are read alike. -/
lemma andRuns_chains {more more' : List (Token × Item)} (h : List.Forall₂ C.Links more more')
    {i j : Item} (hij : C.Items i j) :
    C.Chains (andRuns i more).first (andRuns j more').first ∧
      List.Forall₂ (fun a b => C.Tokens a.1 b.1 ∧ C.Chains a.2 b.2) (andRuns i more).more
        (andRuns j more').more := by
  induction h generalizing i j with
  | nil => exact ⟨⟨hij, .nil⟩, .nil⟩
  | @cons a b more more' hab _ ih =>
    obtain ⟨hfirst, hmore⟩ := ih hab.2
    simp only [andRuns, (C.signs hab.1).rule]
    split
    · exact ⟨⟨hij, .cons ⟨hab.1, hfirst.first⟩ hfirst.more⟩, hmore⟩
    · exact ⟨⟨hij, .nil⟩, .cons ⟨hab.1, hfirst⟩ hmore⟩

/-- Comparable items are read alike as conditions of a group. -/
lemma holds_conditions (connective : Connective) {is js : List Item} (h : C.AllItems is js) :
    C.Holds (fun as bs => List.Forall₂ C.Operators as bs ∧ as.length = is.length ∧
        ∀ a ∈ as, a.isCondition = true)
      (conditions s connective is) (conditions s' connective js) := by
  induction h with
  | nil => exact C.pure ⟨.nil, rfl, by simp⟩
  | cons hij _ ih =>
    unfold conditions
    obtain ⟨hi, hj⟩ | ⟨a, b, hi, hj, hab, hcondition⟩ := hij.condition
    · rw [hi, hj]
      exact C.failAt (faults_slice _ hij.span nofun fun _ => rfl) hij.token
    · rw [hi, hj]
      refine C.bind ih ?_
      rintro as bs ⟨hoperators, hlength, hconditions⟩
      exact C.pure
        ⟨.cons hab hoperators, by simp [hlength], by simpa using ⟨hcondition, hconditions⟩⟩

/-- Groups of conditions that are made alike are made alike. -/
lemma operators_group (connective : Connective) {as bs : List Operator}
    (h : List.Forall₂ C.Operators as bs) (size : 2 ≤ as.length)
    (hconditions : ∀ a ∈ as, a.isCondition = true) :
    C.Operators (.group connective as) (.group connective bs) := by
  refine ⟨⟨Operator.core_eq_iff.mpr ⟨rfl, rfl, ?_⟩, ?_⟩, fun hexact => ?_⟩
  · simp only [Operator.group, List.map_map]
    clear size hconditions
    induction h with
    | nil => rfl
    | cons hab _ ih => simp [Operand.core, hab.alike.core, ih]
  · refine Operator.everywhere_iff.mpr ⟨.group size hconditions, fun child hchild => ?_⟩
    obtain ⟨a, ha, rfl⟩ : ∃ a ∈ as, a = child := by simpa [Operator.group] using hchild
    clear size hconditions hchild
    induction h with
    | nil => simp at ha
    | cons hab _ ih =>
      obtain rfl | ha := List.mem_cons.mp ha
      · exact hab.alike.shaped
      · exact ih ha
  · have hsame : as = bs := List.forall₂_eq_eq_eq ▸ h.imp fun _ _ hab => hab.same hexact
    rw [hsame]

/-- Comparable chains are joined alike. -/
lemma holds_join (connective : Connective) {a b : Chain Item} (h : C.Chains a b) :
    C.Holds C.Items (join s connective a) (join s' connective b) := by
  obtain ⟨first, more⟩ := a
  obtain ⟨first', more'⟩ := b
  obtain ⟨hfirst, hmore⟩ := h
  unfold join
  cases hmore with
  | nil => exact C.pure hfirst
  | @cons link link' rest rest' hlink hrest =>
    have hitems : C.AllItems (first :: (link :: rest).map Prod.snd)
        (first' :: (link' :: rest').map Prod.snd) := by
      refine .cons hfirst ?_
      rw [List.forall₂_map_left_iff, List.forall₂_map_right_iff]
      exact (List.Forall₂.cons hlink hrest).imp fun _ _ hlink => hlink.2
    have hspan (hexact : C.exact) :
        (first :: (link :: rest).map Prod.snd).foldl (fun span item => span.cover item.span)
            link.1.span =
          (first' :: (link' :: rest').map Prod.snd).foldl (fun span item => span.cover item.span)
            link'.1.span := by
      rw [Likeness.Items.cover_eq hitems hexact, C.span_eq hexact hlink.1]
    dsimp only
    refine C.bind (holds_conditions connective hitems) ?_
    rintro as bs ⟨hoperators, hlength, hconditions⟩
    have hgroup := operators_group connective hoperators (by rw [hlength]; simp) hconditions
    refine C.bind (C.recordPhrase hlink.1 hspan hgroup) fun _ _ _ => C.pure ?_
    exact .node hlink.1 hspan (hgroup.withSpan hspan) (by cases connective <;> rfl)

/-- Comparable runs are joined alike one by one. -/
lemma holds_joinRuns {runs runs' : List (Token × Chain Item)}
    (h : List.Forall₂ (fun a b => C.Tokens a.1 b.1 ∧ C.Chains a.2 b.2) runs runs') :
    C.Holds (List.Forall₂ C.Links) (joinRuns s runs) (joinRuns s' runs') := by
  induction h with
  | nil => exact C.pure .nil
  | cons hab _ ih =>
    unfold joinRuns
    refine C.bind (holds_join .and hab.2) fun i j hij => ?_
    exact C.bind ih fun links links' hlinks => C.pure (.cons ⟨hab.1, hij⟩ hlinks)

/-- Comparable chains are folded alike. -/
lemma holds_fold {a b : Chain Item} (h : C.Chains a b) :
    C.Holds C.Items (fold s a) (fold s' b) := by
  obtain ⟨hfirst, hmore⟩ := andRuns_chains h.more h.first
  unfold fold
  refine C.bind (holds_join .and hfirst) fun i j hij => ?_
  exact C.bind (holds_joinRuns hmore) fun links links' hlinks => holds_join .or ⟨hij, hlinks⟩

/-- A term is drawn alike from comparable sequences. -/
lemma holds_drawTerm (h : C.Sequences rest es fs) (hrest : C.Ends rest)
    (hne : es = [] → rest = []) (hfits : C.Fits es) {budget budget' : Nat}
    (hbudget : C.Budgets budget budget') (hrounds : C.fits → budget ≠ 0) :
    C.Holds (Option.Rel C.Items) (drawTerm s budget es) (drawTerm s' budget' fs) := by
  have hone := holds_drawOne h hrest hne hfits
  unfold drawTerm
  dsimp only
  refine C.counted hbudget hrounds rfl rfl fun _ => ?_
  cases h with
  | nil =>
    obtain rfl := hne rfl
    exact hone
  | cons hef _ =>
    dsimp only [List.head?_cons]
    rw [(C.signs hef.token).isConnective]
    split
    · exact C.stop (faults_word .conditionOnBothSides hef.token nofun fun _ => rfl)
        hef.token rfl rfl
    · exact hone

/-- No phrase is drawn where there is nothing. -/
lemma on_drawTerm_nil (s : Setting) (budget : Nat) (n : Notes) :
    on (drawTerm s budget []) n =
      if budget = 0 then (.error ⟨s.exhausted, []⟩, n) else (.ok none, n) := by
  unfold drawTerm
  dsimp only
  split <;> rfl

/-- Every link takes a connective away from the sequence, so there are rounds enough for those that
are left. -/
lemma holds_drawLinks (hrest : C.Ends rest) :
    (budget budget' : Nat) → C.Budgets budget budget' → (es fs : List Element) →
      C.Sequences rest es fs → C.Fits es → (C.fits → es.length ≤ budget) →
      C.Holds (C.Left (List.Forall₂ C.Links) rest) (drawLinks s budget es)
        (drawLinks s' budget' fs)
  | budget, budget', _, [], _, .nil, _, _ => by
    -- no connective begins what ends the clause
    have hnone : drawLinks s' budget' rest = Pure.pure ([], rest) := by
      cases rest with
      | nil => unfold drawLinks; rfl
      | cons e rest =>
        have hconnective := (Clause.endsClause_of_atEnd hrest.atEnd e rfl).isConnective
        unfold drawLinks
        rw [hconnective]
        rfl
    rw [hnone]
    unfold drawLinks
    exact C.pure ⟨.nil, .nil⟩
  | budget, budget', hbudget, e :: es, f :: fs, .cons hef hmore, hfits, hrounds => by
    rw [List.length_cons] at hrounds
    have hafter := length_afterRun_le es
    have hfits' : C.Fits es := hfits.suffix (List.suffix_cons e es)
    unfold drawLinks
    rw [(C.signs hef.token).isConnective]
    split
    · exact C.pure ⟨.nil, .cons hef hmore⟩
    · by_cases hne : es = [] → rest = []
      · refine C.bind (holds_drawTerm hmore hrest hne hfits' hbudget
          fun h => by have := hrounds h; omega) fun i j hij => ?_
        cases hij with
        | none =>
          exact C.throw (faults_word .conditionExpectedAfter hef.token nofun
            fun _ => rfl) hef.token rfl rfl
        | some hij =>
          refine C.bind (holds_drawLinks hrest _ _ (C.pred hbudget) _ _ (hmore.run hrest hne).2
            (hfits'.suffix (afterRun_suffix es)) fun h => by have := hrounds h; omega) ?_
          rintro ⟨links, left⟩ ⟨links', left'⟩ ⟨hlinks, hleft⟩
          exact C.pure ⟨.cons ⟨hef.token, hij⟩ hlinks, hleft⟩
      · -- the first sequence ends behind the connective, so its reading fails
        obtain ⟨rfl, hbehind⟩ := Classical.not_imp.mp hne
        refine C.of_fails (hrest.oneSided hbehind) fun n => ?_
        rw [on_bind, on_drawTerm_nil]
        split <;> rfl
termination_by _ _ _ es => es.length
decreasing_by
  simp only [List.length_cons]
  omega

/-- A group is drawn alike from comparable sequences. -/
lemma holds_drawGroup (h : C.Sequences rest es fs) (hrest : C.Ends rest)
    (hne : es = [] → rest = []) (hfits : C.Fits es) :
    C.Holds (C.Left (Option.Rel C.Items) rest) (drawGroup s es) (drawGroup s' fs) := by
  have hafter := length_afterRun_le es
  rw [drawGroup_eq, drawGroup_eq]
  refine C.bind (holds_drawTerm h hrest hne hfits C.steps fun h => by have := hfits h; omega)
    fun i j hij => ?_
  cases hij with
  | none => exact C.pure ⟨.none, h⟩
  | some hij =>
    refine C.bind (holds_drawLinks hrest _ _ (C.pred C.steps) _ _ (h.run hrest hne).2
      (hfits.suffix (afterRun_suffix es)) fun h => by have := hfits h; omega) ?_
    rintro ⟨links, left⟩ ⟨links', left'⟩ ⟨hlinks, hleft⟩
    refine C.bind (C.leaving (holds_fold ⟨hij, hlinks⟩)) fun folded folded' hfolded => ?_
    exact C.pure ⟨.some hfolded, hleft⟩

/-! ## Parentheses

What stands in parentheses has nothing more behind it.
-/

/-- Every parameter but the first takes a comma away from the sequence. -/
lemma holds_drawParameters {owner owner' : Token} (howner : C.Tokens owner owner') :
    (budget budget' : Nat) → C.Budgets budget budget' → (es fs : List Element) →
      C.Sequences [] es fs → C.Fits es → (C.fits → es.length < budget) →
      C.Holds C.AllItems (drawParameters s owner budget es) (drawParameters s' owner' budget' fs)
  | budget, budget', hbudget, es, fs, h, hfits, hrounds => by
    rw [drawParameters_eq, drawParameters_eq]
    dsimp only
    refine C.counted hbudget (fun h => by have := hrounds h; omega) rfl rfl fun _ => ?_
    refine C.bind (C.forget (holds_drawOne h ends_nil (fun _ => rfl) hfits)) fun i j hij => ?_
    cases hij with
    | none =>
      exact C.failAt (faults_word _ howner nofun fun _ => rfl)
        (h.place (fun _ => rfl) howner)
    | some hij =>
      have hafter := (h.run ends_nil fun _ => rfl).2
      have hsuffix := afterRun_suffix es
      generalize afterRun es = left at hafter hsuffix ⊢
      generalize afterRun fs = left' at hafter ⊢
      cases hafter with
      | nil => exact C.pure (.cons hij .nil)
      | @cons e f left left' hef hmore =>
        have hlt : left.length < es.length := hsuffix.length_le
        dsimp only
        rw [(C.signs hef.token).isComma]
        split
        · refine C.bind (holds_drawParameters howner _ _ (C.pred hbudget) _ _ hmore
            (hfits.suffix ((List.suffix_cons e left).trans hsuffix))
            fun h => by have := hrounds h; omega) fun is js hitems => ?_
          exact C.pure (.cons hij hitems)
        · refine C.failAt ⟨rfl, nofun, fun hfaithful => ?_⟩ hef.token
          rw [describe_eq hfaithful hef.token, C.token_eq hfaithful howner]
termination_by _ _ _ es => es.length

/-- The parameters of comparable tokens are drawn alike. -/
lemma holds_parameters {owner owner' : Token} (howner : C.Tokens owner owner')
    (h : C.Sequences [] es fs) (hfits : C.Fits es) :
    C.Holds C.AllItems (parameters s owner es) (parameters s' owner' fs) := by
  unfold parameters
  cases h with
  | nil => exact C.pure .nil
  | cons hef hmore =>
    exact holds_drawParameters howner _ _ C.steps _ _ (.cons hef hmore) hfits hfits

/-- Comparable pairs of parentheses are read alike. -/
lemma holds_groupItem (htu : C.Tokens t u) (h : C.Sequences [] es fs) (hfits : C.Fits es) :
    C.Holds C.Items (groupItem s t es) (groupItem s' u fs) := by
  unfold groupItem
  refine C.bind (C.forget (holds_drawGroup h ends_nil (fun _ => rfl) hfits)) ?_
  rintro ⟨drawn, left⟩ ⟨drawn', left'⟩ ⟨hdrawn, hleft⟩
  cases hdrawn with
  | none => exact C.failAt (.refl nofun) htu
  | some hij =>
    cases hleft with
    | nil =>
      exact C.bind (C.markOpened htu) fun _ _ _ =>
        C.pure (hij.moved fun hexact => C.fullSpan_eq hexact htu)
    | cons hef _ =>
      refine C.failAt ⟨rfl, nofun, fun hfaithful => ?_⟩ hef.token
      rw [describe_eq hfaithful hef.token]

/-- Comparable tokens with their lists are read alike as items. -/
lemma holds_tokenItem (htu : C.Tokens t u) (h : C.Sequences [] es fs) (hfits : C.Fits es) :
    C.Holds C.Items (tokenItem s t es) (tokenItem s' u fs) := by
  have hsigns := C.signs htu
  have hspan (hexact : C.exact) : t.fullSpan = u.fullSpan := C.fullSpan_eq hexact htu
  unfold tokenItem
  rw [hsigns.kind, hsigns.rule, hsigns.hasChildren]
  split
  · exact holds_groupItem htu h hfits
  · split
    · split
      · refine C.bind (holds_parameters htu h hfits) fun is js hitems => ?_
        exact C.pure (.call htu hspan hitems)
      · exact C.pure (.pending htu hspan)
    · split
      · exact C.failAt (faults_word _ htu (by decide) fun _ => rfl) htu
      · exact C.pure (.raw htu hspan)

end Comparison

/-! ## Token trees -/

namespace TokenTree

/-- Two token trees whose tokens are read alike. What a keyword has absorbed is not read. -/
inductive Corresponds (R : Token → Token → Prop) : TokenTree → TokenTree → Prop
  | intro {t u : Token} {ts us as bs : List TokenTree} (token : R t u)
      (children : List.Forall₂ (Corresponds R) ts us) : Corresponds R ⟨t, ts, as⟩ ⟨u, us, bs⟩

/-- Two lists of token trees whose tokens are read alike. -/
abbrev AllCorrespond (R : Token → Token → Prop) (as bs : List TokenTree) : Prop :=
  List.Forall₂ (Corresponds R) as bs

/-- Trees that correspond have tokens that do. -/
lemma Corresponds.root {R : Token → Token → Prop} {a b : TokenTree} (h : Corresponds R a b) :
    R a.token b.token := by
  cases h with
  | intro token _ => exact token

mutual

/-- A tree is read as itself if its tokens are. -/
lemma Corresponds.refl {R : Token → Token → Prop} : (tree : TokenTree) →
    (∀ token ∈ tree.reachable, R token token) → Corresponds R tree tree
  | ⟨token, children, _⟩, h => by
    rw [reachable, List.forall_mem_cons] at h
    exact .intro h.1 (AllCorrespond.refl children h.2)

/-- Trees correspond to themselves if all tokens that can be reached do. -/
lemma AllCorrespond.refl {R : Token → Token → Prop} : (trees : List TokenTree) →
    (∀ token ∈ reachableOf trees, R token token) → AllCorrespond R trees trees
  | [], _ => .nil
  | tree :: rest, h => by
    rw [reachableOf, List.forall_mem_append] at h
    exact .cons (Corresponds.refl tree h.1) (AllCorrespond.refl rest h.2)

end

/-- A sequence has an element for each of its trees. -/
lemma length_elements (trees : List TokenTree) : (elements s trees).length = trees.length := by
  induction trees with
  | nil => rfl
  | cons tree rest ih => rw [elements, List.length_cons, List.length_cons, ih]

/-- A sequence has no more trees than tokens that are read. -/
lemma length_le_reachableOf (trees : List TokenTree) :
    trees.length ≤ (reachableOf trees).length := by
  induction trees with
  | nil => exact Nat.le_refl _
  | cons tree rest ih =>
    obtain ⟨token, children, absorbed⟩ := tree
    rw [reachableOf, reachable, List.length_append, List.length_cons, List.length_cons]
    omega

/-- A sequence fits if no more tokens can be reached in it than there are steps. -/
lemma fits_elements {trees : List TokenTree}
    (h : C.fits → (reachableOf trees).length < s.ceilings.steps) : C.Fits (elements s trees) := by
  intro hfits
  have hlt := h hfits
  have hle := length_le_reachableOf trees
  rw [length_elements]
  omega

mutual

/-- Trees whose tokens are read alike are read alike, and no loop gives up if the tokens are no more
than the ceiling. -/
lemma Corresponds.elements : (a b : TokenTree) → Corresponds C.Tokens a b →
    (C.fits → (reachable a).length ≤ s.ceilings.steps) → C.Elements (a.element s) (b.element s')
  | ⟨t, ts, _⟩, ⟨u, us, _⟩, .intro htu hchildren, hfits => by
    rw [reachable, List.length_cons] at hfits
    have hsequences := AllCorrespond.sequences ts us hchildren fun h => by
      have := hfits h
      omega
    have hrounds : C.Fits (TokenTree.elements s ts) := fits_elements fun h => by
      have := hfits h
      omega
    rw [element, element]
    exact ⟨htu, Comparison.holds_tokenItem htu hsequences hrounds,
      Comparison.holds_parameters htu hsequences hrounds⟩

/-- Trees that correspond are comparable sequences of elements. -/
lemma AllCorrespond.sequences : (as bs : List TokenTree) → AllCorrespond C.Tokens as bs →
    (C.fits → (reachableOf as).length ≤ s.ceilings.steps) →
      C.Sequences [] (elements s as) (elements s' bs)
  | [], [], .nil, _ => .nil
  | a :: as, b :: bs, .cons hab hrest, hfits => by
    rw [reachableOf, List.length_append] at hfits
    rw [elements, elements]
    refine .cons (Corresponds.elements a b hab fun h => ?_)
      (AllCorrespond.sequences as bs hrest fun h => ?_)
    · have := hfits h
      omega
    · have := hfits h
      omega

end

end TokenTree

end RecordQuery
