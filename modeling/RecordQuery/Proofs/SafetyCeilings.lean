import RecordQuery.Proofs.KeywordWalk
import RecordQuery.Proofs.Blaming
import RecordQuery.Proofs.Following

/-!
# What safety ceilings do

Ceilings on the nesting of parentheses and on the rounds of loops are there for safety only. Where
they are high enough for a text, they are as good as none: what the text is read as does not depend
on them, and no internal problem is met. Where they are too low, reading gives up, and that is the
only way to meet an internal problem.

How high is high enough can be told from the text: as high as its parentheses are nested, and higher
than the number of its tokens.
-/

namespace RecordQuery

open Reader

/-! ## Nesting -/

/-- The deepest nesting of parentheses in some lexemes, with so many parentheses
open before them. -/
def Lexeme.nesting : (opened : Nat) → List Lexeme → Nat
  | opened, [] => opened
  | opened, .opening :: rest => nesting (opened + 1) rest
  | opened, .closing :: rest => max opened (nesting (opened - 1) rest)
  | opened, _ :: rest => nesting opened rest

/-- The deepest nesting of parentheses in a text. -/
def deepestNesting (text : String) : Nat :=
  Lexeme.nesting 0 (Lexeme.scan (text.toList.map Text.straightenChar))

namespace Lexeme

/-- Parentheses that are open count. -/
lemma le_nesting (opened : Nat) (lexemes : List Lexeme) : opened ≤ nesting opened lexemes := by
  induction lexemes generalizing opened with
  | nil => exact Nat.le_refl _
  | cons lexeme rest ih =>
    cases lexeme with
    | opening => exact Nat.le_trans (Nat.le_succ opened) (ih (opened + 1))
    | closing => exact Nat.le_max_left _ _
    | _ => exact ih opened

end Lexeme

/-- Whether a result is an internal problem. -/
def FailsInternally {α : Type} (result : Except Problem α) : Prop :=
  ∃ problem, result = .error problem ∧ problem.kind = .internal

/-- To have reached a ceiling is an internal problem. -/
lemma Problem.kind_of_isOfCeiling {problem : Problem} (h : problem.isOfCeiling = true) :
    problem.kind = .internal := by
  unfold isOfCeiling at h
  split at h
  · rename_i hfault
    rw [kind, hfault]
    rfl
  · rename_i hfault
    rw [kind, hfault]
    rfl
  · cases h

/-- A result that was cut off is an internal failure. -/
lemma FailsInternally.of_isCut {α : Type} {result : Except Problem α} (h : IsCut result) :
    FailsInternally result := by
  obtain ⟨problem, hproblem, hceiling⟩ := h
  exact ⟨problem, hproblem, Problem.kind_of_isOfCeiling hceiling⟩

namespace TreeBuilder

variable {c : Ceilings} {b b' : TreeBuilder} {lexeme : Lexeme} {rest : List Lexeme}

/-- What is nested behind a lexeme that was read is no deeper than with the lexeme. -/
lemma nesting_le_of_reads {source : List Char} (h : Reads c source b lexeme b') :
    Lexeme.nesting b'.frames.length rest ≤ Lexeme.nesting b.frames.length (lexeme :: rest) := by
  cases h with
  | blank => exact Nat.le_refl _
  | token made =>
    cases lexeme with
    | opening => cases made
    | closing => cases made
    | _ => exact Nat.le_refl _
  | claim | group => exact Nat.le_refl _
  | close frames_eq =>
    rw [Lexeme.nesting, frames_eq]
    exact Nat.le_max_right _ _

/-- A parenthesis that is not nested too deep is opened. -/
lemma not_failsInternally_step (source : List Char)
    (h : Lexeme.nesting b.frames.length (lexeme :: rest) ≤ c.depth) :
    ¬ FailsInternally (step c source b lexeme) := by
  rintro ⟨problem, hproblem, hkind⟩
  cases lexeme with
  | opening =>
    have hdepth := Nat.le_trans (Lexeme.le_nesting _ rest) h
    have hopens : ¬ c.depth < b.frames.length + 1 := by omega
    dsimp only [step] at hproblem
    rw [if_neg hopens] at hproblem
    cases hproblem
  | closing =>
    dsimp only [step] at hproblem
    split at hproblem
    · cases hproblem
      cases hkind
    · cases hproblem
  | blank => cases hproblem
  | _ =>
    dsimp only [step] at hproblem
    split at hproblem
    · cases hproblem
    · cases hproblem

/-- Building trees does not reach a ceiling that is as high as the parentheses are nested. -/
lemma not_failsInternally (source : List Char) (lexemes : List Lexeme)
    (h : Lexeme.nesting b.frames.length lexemes ≤ c.depth) :
    ¬ FailsInternally (lexemes.foldlM (step c source) b) := by
  induction lexemes generalizing b with
  | nil =>
    rw [List.foldlM_nil]
    rintro ⟨problem, hproblem, -⟩
    cases hproblem
  | cons lexeme rest ih =>
    have hstep := not_failsInternally_step source h
    rw [List.foldlM_cons]
    cases hb : step c source b lexeme with
    | error problem =>
      rw [hb] at hstep
      exact hstep
    | ok b' => exact ih (Nat.le_trans (nesting_le_of_reads (reads_of_step hb)) h)

end TreeBuilder

/-- Two readings of the same words, the second under ceilings no lower than the first. -/
def Leeway.ofCeilings : Leeway := ⟨fun _ => False, True⟩

/-- Ceilings spoil no notes. -/
lemma Leeway.not_spoils_ofCeilings {notes : Notes} : ¬ ofCeilings.Spoils notes :=
  fun ⟨_, _, hloose, _⟩ => hloose

namespace Reading

/-- Whether a problem is one of a ceiling does not depend on the text it quotes. -/
lemma isOfCeiling_inExpression (problem : Problem) (expression : String) :
    (problem.inExpression expression).isOfCeiling = problem.isOfCeiling := by
  unfold Problem.inExpression
  split <;> rfl

/-- Readings of which one, unless it is cut off, does what the other does, compile alike. -/
lemma compile_follows {r r' : Reading} {p q : Parse Unit} (hnotes : r.notes = r'.notes)
    (htext : r.setting.text = r'.setting.text)
    (h : Follows .ofCeilings (fun _ _ => True) p q) :
    IsCut (r.compile p) ∨ r.compile p = r'.compile q := by
  have hpq := (h r.notes).2
  rw [compile_eq, compile_eq, ← hnotes, ← htext]
  generalize on p r.notes = first at hpq ⊢
  generalize on q r.notes = second at hpq ⊢
  cases hpq with
  | ok => exact .inr rfl
  | @error e f _ hproblem =>
    have hsame : e = f := hproblem.2 fun _ => id
    rw [hsame]
    exact .inr rfl
  | cut _ hceiling => exact .inl ⟨_, rfl, by rwa [← isOfCeiling_inExpression] at hceiling⟩
  | spoiled hspoils => exact absurd hspoils Leeway.not_spoils_ofCeilings
  | spoiledError hspoils => exact absurd hspoils Leeway.not_spoils_ofCeilings

/-- A reading whose loops do not go on for too long compiles without internal problems. -/
lemma not_failsInternally_compile (r : Reading) {tokens : List Token} {p : Parse Unit}
    (h : BlamesOnly r.setting tokens True p) : ¬ FailsInternally (r.compile p) := by
  obtain ⟨-, hp⟩ := h r.notes
  rw [compile_eq]
  rintro ⟨problem, hproblem, hkind⟩
  rcases hr : on p r.notes with ⟨e | a, n⟩ <;> rw [hr] at hp hproblem
  · cases hproblem
    rw [Problem.kind_inExpression] at hkind
    exact hp.kind_ne trivial hkind
  · cases hproblem

end Reading

/-! ## Trees of tokens -/

namespace TreeBuilder

variable {c d : Ceilings}

/-- A step under lower ceilings is cut off, or the step that it is under higher ones. -/
lemma step_ceilings (hdepth : c.depth ≤ d.depth) (source : List Char) (b : TreeBuilder)
    (lexeme : Lexeme) :
    IsCut (step c source b lexeme) ∨ step c source b lexeme = step d source b lexeme := by
  cases lexeme with
  | opening =>
    by_cases hlow : c.depth < b.frames.length + 1
    · exact .inl ⟨_, if_pos hlow, rfl⟩
    · have hhigh : ¬ d.depth < b.frames.length + 1 := by omega
      refine .inr ?_
      dsimp only [step]
      rw [if_neg hlow, if_neg hhigh]
  | blank | closing | delimiter | quoted | block | bracketed | run => exact .inr rfl

/-- A higher ceiling of depth lets the machine do what it did, unless this was cut off. -/
lemma foldlM_ceilings (hdepth : c.depth ≤ d.depth) (source : List Char) (b : TreeBuilder)
    (lexemes : List Lexeme) :
    IsCut (lexemes.foldlM (step c source) b) ∨
      lexemes.foldlM (step c source) b = lexemes.foldlM (step d source) b := by
  induction lexemes generalizing b with
  | nil => exact .inr rfl
  | cons lexeme rest ih =>
    rw [List.foldlM_cons, List.foldlM_cons]
    obtain ⟨e, he, hceiling⟩ | hstep := step_ceilings hdepth source b lexeme
    · rw [he]
      exact .inl ⟨e, rfl, hceiling⟩
    · rw [← hstep]
      cases step c source b lexeme with
      | error e => exact .inr rfl
      | ok b' => exact ih b'

end TreeBuilder

/-- Cutting a text into tokens under lower ceilings is cut off, or does what it does under higher
ones. -/
lemma TokenForest.ofText_ceilings {c d : Ceilings} (hdepth : c.depth ≤ d.depth) (text : String) :
    IsCut (ofText text c) ∨ ofText text c = ofText text d := by
  unfold ofText
  dsimp only
  obtain ⟨e, he, hceiling⟩ | hfold := TreeBuilder.foldlM_ceilings hdepth
    (text.toList.map Text.straightenChar) {} (Lexeme.scan (text.toList.map Text.straightenChar))
  · rw [he]
    exact .inl ⟨e, rfl, hceiling⟩
  · rw [hfold]
    exact .inr rfl

namespace TokenTree

/-- Becoming a keyword makes no more tokens reachable. -/
lemma length_reachable_becomeKeyword (tree : TokenTree) (kind : Kind) (words : List TokenTree) :
    (reachable (tree.becomeKeyword kind words)).length = (reachable tree).length := by
  obtain ⟨token, children, absorbed⟩ := tree
  rw [becomeKeyword, reachable, reachable, List.length_cons, List.length_cons]

/-- Fewer trees have fewer tokens that can be reached. -/
lemma length_reachableOf_drop_le (trees : List TokenTree) (count : Nat) :
    (reachableOf (trees.drop count)).length ≤ (reachableOf trees).length := by
  induction trees generalizing count with
  | nil => exact Nat.le_of_eq (by rw [List.drop_nil])
  | cons tree rest ih =>
    cases count with
    | zero => exact Nat.le_refl _
    | succ count =>
      have := ih count
      rw [List.drop_succ_cons, reachableOf, List.length_append]
      omega

mutual

/-- Merging keywords leaves no more tokens to read than there were. -/
lemma length_reachable_merge_le : (tree : TokenTree) →
    (reachable tree.merge).length ≤ tree.tokens.length
  | ⟨token, children, _⟩ => by
    have := length_reachableOf_mergeAll_le children
    rw [merge_mk, reachable, tokens, List.length_cons, List.length_cons, List.length_append]
    omega

/-- After merging no more tokens can be reached than there were. -/
lemma length_reachableOf_mergeAll_le : (trees : List TokenTree) →
    (reachableOf (mergeAll trees)).length ≤ (tokensOf trees).length
  | [] => by
    rw [mergeAll_nil]
    exact Nat.le_refl _
  | tree :: rest => by
    have htree := length_reachable_merge_le tree
    have hrest := length_reachableOf_mergeAll_le rest
    rw [mergeAll_cons, tokensOf, List.length_append]
    split
    · rename_i kind more _
      have hdrop := length_reachableOf_drop_le (mergeAll rest) more
      rw [reachableOf, List.length_append, length_reachable_becomeKeyword]
      omega
    · rw [reachableOf, List.length_append]
      omega

end

end TokenTree

/-! ## Readings -/

namespace Mode

variable (mode : Mode)

/-- A reading under some ceilings is the same under higher ones, unless it is cut off. -/
lemma query_ceilings {c d : Ceilings} (hdepth : c.depth ≤ d.depth) (hsteps : c.steps ≤ d.steps)
    (text : String) (registry : Registry) :
    IsCut (mode.query text registry c) ∨
      mode.query text registry c = mode.query text registry d := by
  rw [query_eq, query_eq]
  unfold Reading.start
  obtain ⟨problem, hproblem, hceiling⟩ | hforest := TokenForest.ofText_ceilings hdepth text
  · rw [hproblem]
    exact .inl ⟨problem, rfl, hceiling⟩
  · rw [← hforest]
    cases TokenForest.ofText text c with
    | error problem => exact .inr rfl
    | ok forest =>
      let s : Setting := ⟨forest.source, registry, c⟩
      have haffords : Leeway.ofCeilings.Affords s.ceilings.steps d.steps := .inr ⟨trivial, hsteps⟩
      exact Reading.compile_follows rfl rfl (mode.follows_body haffords
        (TokenTree.AllRespelled.follows haffords _ _ (TokenTree.AllRespelled.refl _)))

/-- Ceilings that a text fits in are not reached. -/
lemma not_failsInternally_query {c : Ceilings} {text : String} (registry : Registry)
    (hdepth : deepestNesting text ≤ c.depth)
    (hsteps : ∀ forest, TokenForest.ofText text c = .ok forest →
      forest.tokens.length < c.steps) :
    ¬ FailsInternally (mode.query text registry c) := by
  have hforest : ¬ FailsInternally (TokenForest.ofText text c) := by
    have hfold := TreeBuilder.not_failsInternally (b := {})
      (text.toList.map Text.straightenChar) _ hdepth
    unfold TokenForest.ofText
    dsimp only
    cases hb : (Lexeme.scan (text.toList.map Text.straightenChar)).foldlM
        (TreeBuilder.step c (text.toList.map Text.straightenChar)) {} with
    | error problem =>
      rw [hb] at hfold
      rintro ⟨_, ⟨⟩, hkind⟩
      exact hfold ⟨problem, rfl, hkind⟩
    | ok b =>
      rintro ⟨problem, hproblem, -⟩
      cases hproblem
  rw [query_eq]
  unfold Reading.start
  cases hcut : TokenForest.ofText text c with
  | error problem =>
    rw [hcut] at hforest
    rintro ⟨_, ⟨⟩, hkind⟩
    exact hforest ⟨problem, rfl, hkind⟩
  | ok forest =>
    have hlength := hsteps forest hcut
    have hmerged := TokenTree.length_reachableOf_mergeAll_le forest.trees
    let r : Reading :=
      { setting := ⟨forest.source, registry, c⟩
        forest := forest.merge
        notes := { draft := { problems := forest.problems } } }
    exact r.not_failsInternally_compile (mode.blames_trees (List.Subset.refl _) fun _ =>
      Nat.lt_of_le_of_lt hmerged hlength)

end Mode

/-- Safety ceilings only cut readings off. Whatever two ceilings a text is read under, it is read as
the same unless an internal problem is met under one of them. None is met under ceilings that are as
high as the parentheses are nested and higher than the number of tokens, and where one is met, it is
that a ceiling was reached. -/
theorem Mode.ceilings_only_cut_off (mode : Mode) (text : String) (registry : Registry) :
    (∀ c d, ¬ FailsInternally (mode.query text registry c) →
      ¬ FailsInternally (mode.query text registry d) →
        mode.query text registry c = mode.query text registry d) ∧
    (∀ c, deepestNesting text ≤ c.depth →
      (∀ forest, TokenForest.ofText text c = .ok forest → forest.tokens.length < c.steps) →
        ¬ FailsInternally (mode.query text registry c)) ∧
    (∀ c problem, mode.query text registry c = .error problem → problem.kind = .internal →
      problem.isOfCeiling = true) := by
  refine ⟨fun c d hc hd => ?_, fun c => mode.not_failsInternally_query registry,
    fun c problem hproblem hkind => ?_⟩
  · let top : Ceilings := ⟨max c.depth d.depth, max c.steps d.steps⟩
    have hctop := mode.query_ceilings (d := top) (Nat.le_max_left c.depth d.depth)
      (Nat.le_max_left c.steps d.steps) text registry
    have hdtop := mode.query_ceilings (d := top) (Nat.le_max_right c.depth d.depth)
      (Nat.le_max_right c.steps d.steps) text registry
    have hcsame := hctop.resolve_left fun hcut => hc (.of_isCut hcut)
    have hdsame := hdtop.resolve_left fun hcut => hd (.of_isCut hcut)
    exact hcsame.trans hdsame.symm
  · -- Under ceilings that are high enough, the text is read without internal problems.
    let depth := max c.depth (deepestNesting text)
    let tokens := ((TokenForest.ofText text ⟨depth, 0⟩).toOption.map (·.tokens.length)).getD 0
    let top : Ceilings := ⟨depth, max c.steps (tokens + 1)⟩
    have hfits : ¬ FailsInternally (mode.query text registry top) := by
      refine mode.not_failsInternally_query registry (Nat.le_max_right _ _) fun forest hforest => ?_
      have hsame : TokenForest.ofText text ⟨depth, 0⟩ = .ok forest := hforest
      have htokens : tokens = forest.tokens.length := by
        unfold tokens
        rw [hsame]
        rfl
      show forest.tokens.length < max c.steps (tokens + 1)
      omega
    have hctop := mode.query_ceilings (d := top) (Nat.le_max_left _ _) (Nat.le_max_left _ _)
      text registry
    obtain ⟨problem', hproblem', hceiling⟩ | hsame := hctop
    · rw [hproblem] at hproblem'
      cases hproblem'
      exact hceiling
    · exact absurd ⟨problem, hsame ▸ hproblem, hkind⟩ hfits

/-- A condition of twelve tokens with one level of parentheses is read the same under ceilings of 1
and 13 as under the usual ones, and not at all under ceilings of 0 and 13. -/
theorem Mode.ceilings_sample :
    condition.query "(a = 1 OR b = 2) AND c = 3" .empty ⟨1, 13⟩ =
        condition.query "(a = 1 OR b = 2) AND c = 3" .empty {} ∧
      ¬ FailsInternally (condition.query "(a = 1 OR b = 2) AND c = 3" .empty ⟨1, 13⟩) ∧
      ∃ problem, condition.query "(a = 1 OR b = 2) AND c = 3" .empty ⟨0, 13⟩ = .error problem ∧
        problem.isOfCeiling = true := by
  obtain ⟨same, fits, ceiling⟩ :=
    ceilings_only_cut_off condition "(a = 1 OR b = 2) AND c = 3" .empty
  have hfits (c : Ceilings) (hdepth : 1 ≤ c.depth) (hsteps : 12 < c.steps)
      (htokens : (TokenForest.ofText "(a = 1 OR b = 2) AND c = 3" c).map
        (fun forest => forest.tokens.length) = .ok 12) :
      ¬ FailsInternally (condition.query "(a = 1 OR b = 2) AND c = 3" .empty c) := by
    refine fits c ?_ fun forest hforest => ?_
    · have hnesting : deepestNesting "(a = 1 OR b = 2) AND c = 3" = 1 := by decide +kernel
      rwa [hnesting]
    · rw [hforest] at htokens
      have hlength : forest.tokens.length = 12 := Except.ok.inj htokens
      rwa [hlength]
  have hlow := hfits ⟨1, 13⟩ (by decide) (by decide) (by decide +kernel)
  have husual := hfits {} (by decide) (by decide) (by decide +kernel)
  refine ⟨same _ _ hlow husual, hlow, ?_⟩
  have hkind : (match condition.query "(a = 1 OR b = 2) AND c = 3" .empty ⟨0, 13⟩ with
      | .ok _ => none
      | .error problem => some problem.kind) = some .internal := by decide +kernel
  cases hcut : condition.query "(a = 1 OR b = 2) AND c = 3" .empty ⟨0, 13⟩ with
  | ok q =>
    rw [hcut] at hkind
    cases hkind
  | error problem =>
    rw [hcut] at hkind
    exact ⟨problem, rfl, ceiling _ problem hcut (Option.some.inj hkind)⟩

end RecordQuery
