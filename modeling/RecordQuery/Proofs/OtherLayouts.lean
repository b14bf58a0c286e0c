import RecordQuery.Proofs.BareCondition
import RecordQuery.Proofs.Following
import RecordQuery.Proofs.Ownership
import RecordQuery.Proofs.Recasing

/-!
# Layout and the case of keywords do not matter

A text says the same when its spaces are other blanks, and when its keywords and the directions of
its orderings are written in another case. Keywords are told in upper case, so what is left are the
directions. Between the readings of both texts stands a third one: it is that of the first text, but
with the directions spelled as in the second. It follows the first reading, as the words that are
spelled otherwise are read as directions and, since no token is read twice, as nothing else. And it
agrees with the second one, as the tokens of both say the same.
-/

namespace RecordQuery

open Reader

/-! ## Loose tokens -/

/-- Whether a token carries a rule, or is the word of a direction and was read as one. -/
def Reading.IsLoose (r : Reading) (notes : Notes) (id : Nat) : Prop :=
  ∃ t ∈ r.tokens, t.id = id ∧ (t.rule.isSome = true ∨
    ((direction? t.text).isSome = true ∧ notes.role? t = some .direction))

instance (r : Reading) (notes : Notes) (id : Nat) : Decidable (r.IsLoose notes id) :=
  inferInstanceAs (Decidable (∃ t ∈ r.tokens, _))

/-- The second reading may differ in the words that the first reads as directions. -/
def Leeway.ofDirections (notes : Notes) : Leeway :=
  ⟨fun id => (id, Role.direction) ∈ notes.roles, False⟩

/-- A word that is read as a direction is read as nothing else. -/
lemma Leeway.not_spoils_ofDirections {notes : Notes} (h : (notes.roles.map Prod.fst).Nodup) :
    ¬ (ofDirections notes).Spoils notes := by
  rintro ⟨entry, hentry, hloose, hspoils⟩
  have hdirection := List.inj_on_of_nodup_map h hentry hloose rfl
  exact hspoils (congrArg Prod.snd hdirection)

/-! ## Between two readings -/

namespace TokenTree

variable {loose : Nat → Prop} {L : Leeway} {registry : Registry}

mutual

/-- A tree whose directions are spelled as in another one. -/
lemma Recased.exists_respelled : (a b : TokenTree) → TokenTree.Recased loose a b →
    (∀ t ∈ a.reachable, t.rule = none → loose t.id → L.loose t.id ∧ (direction? t.text).isSome) →
    ∃ c, TokenTree.Respelled L a c ∧ TokenTree.Alike .all registry c b
  | ⟨t, ts, as⟩, ⟨u, us, bs⟩, .intro token children, hloose => by
    rw [reachable, List.forall_mem_cons] at hloose
    obtain ⟨cs, hspelled, halike⟩ := AllRecased.exists_respelled ts us children hloose.2
    refine ⟨⟨{ t with text := u.text }, cs, as⟩, .intro ⟨rfl, ?_⟩ hspelled, .intro ?_ halike⟩
    · refine token.text.imp_right fun ⟨hrule, hid, hupper⟩ => ?_
      exact ⟨(hloose.1 hrule hid).1, hupper, (hloose.1 hrule hid).2⟩
    · exact ⟨token.kind.symm, rfl, token.rule.symm, token.hasChildren.symm,
        Vocabulary.covers_all _ _⟩

/-- Trees that differ in case are spelled otherwise in the directions only, up to what is alike. -/
lemma AllRecased.exists_respelled : (as bs : List TokenTree) → TokenTree.AllRecased loose as bs →
    (∀ t ∈ reachableOf as, t.rule = none → loose t.id → L.loose t.id ∧ (direction? t.text).isSome) →
    ∃ cs, TokenTree.AllRespelled L as cs ∧ TokenTree.AllAlike .all registry cs bs
  | [], [], .nil, _ => ⟨[], .nil, .nil⟩
  | a :: as, b :: bs, .cons hab hrest, hloose => by
    rw [reachableOf, List.forall_mem_append] at hloose
    obtain ⟨c, hspelled, halike⟩ := Recased.exists_respelled a b hab hloose.1
    obtain ⟨cs, hspelledRest, halikeRest⟩ := AllRecased.exists_respelled as bs hrest hloose.2
    exact ⟨c :: cs, .cons hspelled hspelledRest, .cons halike halikeRest⟩

end

end TokenTree

namespace Reading

variable {text : String} {registry : Registry} {ceilings : Ceilings} {r : Reading}

/-- A token that is read and has no rule is loose only as the word of a direction. -/
lemma IsLoose.isDirection {notes : Notes} (hnodup : (r.tokens.map Token.id).Nodup) {t : Token}
    (ht : t ∈ r.tokens) (hrule : t.rule = none) (h : r.IsLoose notes t.id) :
    (Leeway.ofDirections notes).loose t.id ∧ (direction? t.text).isSome = true := by
  obtain ⟨u, hu, hid, hloose⟩ := h
  obtain rfl : u = t := List.inj_on_of_nodup_map hnodup hu ht hid
  rcases hloose with hsome | ⟨hdirection, hread⟩
  · rw [hrule] at hsome
    cases hsome
  · obtain ⟨before, after, hroles, -⟩ := List.lookup_eq_some_iff.mp hread
    have hnoted : (u.id, Role.direction) ∈ notes.roles := by
      rw [hroles]
      exact List.mem_append_right _ List.mem_cons_self
    exact ⟨hnoted, hdirection⟩

end Reading

namespace Mode

variable {s s' : Setting}

/-- Elements that say the same are read as the same, in either mode. -/
lemma agree_body (mode : Mode) {V : Vocabulary} (hs : Setting.Alike s s') {es fs : List Element}
    (h : (Comparison.agreeing V hs).Sequences [] es fs) :
    Agree V (fun _ _ => True) (mode.body s es) (mode.body s' fs) := by
  cases mode with
  | clauses => exact Clause.agree_readAll h
  | condition => exact Clause.agree_readCondition h

/-- Two readings between which a third one stands, which follows the first one and agrees with the
second one, compile to the same. -/
lemma sameOutcome_compile {r r' : Reading} {p q p' : Parse Unit} {L : Leeway} {V : Vocabulary}
    (hspoils : ¬ L.Spoils (on p r.notes).2) (hcut : ¬ L.mayBeCut)
    (hfollows : Follows L (fun _ _ => True) p q) (hagree : Agree V (fun _ _ => True) q p')
    (hnotes : Notes.Alike V r.notes r'.notes) :
    SameOutcome (r.compile p) (r'.compile p') ∧
      ∀ x y, r.compile p = .ok x → r'.compile p' = .ok y →
        x.aliases.map Prod.fst = y.aliases.map Prod.fst := by
  have hfirst := (hfollows r.notes).2
  have hsecond := hagree r.notes r'.notes hnotes
  rw [Reading.compile_eq, Reading.compile_eq]
  generalize on p r.notes = first, on q r.notes = second, on p' r'.notes = third
    at hspoils hfirst hsecond ⊢
  obtain ⟨result, m⟩ := third
  cases hfirst with
  | ok =>
    cases result with
    | error => exact hsecond.1.elim
    | ok =>
      refine ⟨Query.toJson_ofDraft_eq hsecond.2.clauses, ?_⟩
      rintro x y ⟨⟩ ⟨⟩
      rw [Query.aliases_ofDraft, Query.aliases_ofDraft]
      exact hsecond.2.names
  | error hkind =>
    cases result with
    | ok => exact hsecond.1.elim
    | error =>
      refine ⟨?_, fun x y hx => by cases hx⟩
      simp only [SameOutcome, Problem.kind_inExpression]
      exact hkind.1.trans hsecond.1
  | cut allowed => exact absurd allowed hcut
  | spoiled spoils | spoiledError spoils => exact absurd spoils hspoils

/-- A text and its other layouts lead to queries of one JSON form with the same aliases, or to
faults of one class. -/
theorem query_of_relayout (mode : Mode) {text text' : String} {registry : Registry}
    {ceilings : Ceilings} {r : Reading} (hstart : Reading.start text registry ceilings = .ok r)
    (hlayout : Relayout (r.IsLoose (mode.notes r)) text.toList r.forest.slots text'.toList) :
    SameOutcome (mode.query text registry ceilings) (mode.query text' registry ceilings) ∧
      ∀ q q', mode.query text registry ceilings = .ok q →
        mode.query text' registry ceilings = .ok q' →
          q.aliases.map Prod.fst = q'.aliases.map Prod.fst := by
  obtain ⟨forest, hforest, hr⟩ := Reading.exists_forest hstart
  have hmerge : r.forest = forest.merge := by rw [hr]
  rw [hmerge] at hlayout
  obtain ⟨forest', hforest', hrecased, hproblems⟩ :=
    TokenForest.exists_recased hforest (Relayout.of_mapOwner hlayout)
  obtain ⟨trees, hspelled, halike⟩ : ∃ trees,
      TokenTree.AllRespelled (.ofDirections (mode.notes r)) forest.merge.trees trees ∧
        TokenTree.AllAlike .all registry trees forest'.merge.trees := by
    refine TokenTree.AllRecased.exists_respelled _ _ (TokenTree.AllRecased.mergeAll _ _ hrecased) ?_
    intro t ht hrule hloose
    rw [TokenForest.owner_of_reachable hforest ht] at hloose
    refine hloose.isDirection ?_ ?_ hrule
    · rw [Reading.tokens, hmerge]
      exact TokenForest.nodup_ids_merge hforest
    · rw [Reading.tokens, hmerge]
      exact TokenTree.reachableOf_subset _ ht
  have hstart' : Reading.start text' registry ceilings =
      .ok ⟨⟨forest'.source, registry, ceilings⟩, forest'.merge,
        { draft := { problems := forest'.problems } }⟩ := by
    rw [Reading.start, hforest']
    rfl
  have hnodup := mode.nodup_notes hstart
  have hs :
      Setting.Alike ⟨forest.source, registry, ceilings⟩ ⟨forest'.source, registry, ceilings⟩ :=
    ⟨rfl, rfl⟩
  rw [mode.query_eq, mode.query_eq, hstart, hstart']
  subst hr
  exact sameOutcome_compile (Leeway.not_spoils_ofDirections hnodup) id
    (mode.follows_body (.inl rfl) (TokenTree.AllRespelled.follows (.inl rfl) _ _ hspelled))
    (mode.agree_body hs (TokenTree.AllAlike.elements hs _ _ halike))
    ⟨rfl, .nil, hproblems.symm⟩

/-- A keyword of two words and a direction in other letters, behind other blanks. -/
theorem query_of_relayout_sample : ∃ r,
    Reading.start "ORDER BY a asc" .empty {} = .ok r ∧
      Relayout (r.IsLoose (Mode.clauses.notes r)) "ORDER BY a asc".toList r.forest.slots
        "order\t\nBy a  ASC".toList ∧
      SameOutcome (Mode.clauses.query "ORDER BY a asc" .empty {})
        (Mode.clauses.query "order\t\nBy a  ASC" .empty {}) := by
  have hcheck : (Reading.start "ORDER BY a asc" .empty {}).toOption.map (fun r =>
      (r.forest.slots, decide (r.IsLoose (Mode.clauses.notes r) 0),
        decide (r.IsLoose (Mode.clauses.notes r) 3))) =
      some (List.replicate 5 (.token 0) ++
        (List.replicate 1 .space ++ (List.replicate 2 (.token 0) ++
        (List.replicate 1 .space ++ (List.replicate 1 (.token 2) ++ (List.replicate 1 .space ++
          (List.replicate 3 (.token 3) ++ [])))))), true, true) := by
    decide +kernel
  cases hstart : Reading.start "ORDER BY a asc" .empty {} with
  | error e =>
    rw [hstart] at hcheck
    cases hcheck
  | ok r =>
    rw [hstart] at hcheck
    obtain ⟨hslots, horder, hasc⟩ : r.forest.slots = _ ∧
        decide (r.IsLoose (Mode.clauses.notes r) 0) = true ∧
          decide (r.IsLoose (Mode.clauses.notes r) 3) = true := by
      simpa only [Except.toOption, Option.map_some, Option.some.injEq, Prod.mk.injEq] using hcheck
    have hlayout :
      Relayout (r.IsLoose (Mode.clauses.notes r)) "ORDER BY a asc".toList r.forest.slots
        "order\t\nBy a  ASC".toList := by
      rw [hslots]
      refine .word "ORDER".toList "order".toList (.inr ⟨of_decide_eq_true horder, by decide⟩) ?_
      refine @Relayout.blanks _ [' '] ['\t', '\n'] _ _ _ (by simp) (by simp) (by decide)
        (by decide) ?_
      refine .word "BY".toList "By".toList (.inr ⟨of_decide_eq_true horder, by decide⟩) ?_
      refine @Relayout.blanks _ [' '] [' '] _ _ _ (by simp) (by simp) (by decide) (by decide) ?_
      refine .word "a".toList "a".toList (.inl rfl) ?_
      refine @Relayout.blanks _ [' '] [' ', ' '] _ _ _ (by simp) (by simp) (by decide)
        (by decide) ?_
      exact .word "asc".toList "ASC".toList (.inr ⟨of_decide_eq_true hasc, by decide⟩) .nil
    exact ⟨r, rfl, hlayout, (query_of_relayout .clauses hstart hlayout).1⟩

end Mode

end RecordQuery
