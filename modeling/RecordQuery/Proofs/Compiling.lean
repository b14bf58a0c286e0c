import RecordQuery.Proofs.Building
import RecordQuery.Proofs.Agreement
import RecordQuery.Proofs.QueryForm
import RecordQuery.Reading

/-!
# What a text compiles to

A reading ends with notes, and the clauses noted become the clauses of a query. The lemmas of this
file carry what is known of readings over to queries: readings that agree lead to one JSON form, and
every query has its clauses in order, each of them in a shape that texts denote.
-/

namespace RecordQuery

open Reader

namespace Query

/-- The query of a draft depends on the cores of its clauses only. -/
lemma toJson_ofDraft_eq {V : Vocabulary} {c d : Draft}
    (h : List.Forall₂ (Clause.Alike V) c.clauses d.clauses) :
    (ofDraft c).toJson = (ofDraft d).toJson := by
  have hfold : ∀ {as bs : List (Kind × Operator)},
      List.Forall₂ (Clause.Alike V) as bs →
      ∀ {p q : Query}, List.Forall₂ SameCore p.clauses q.clauses →
        List.Forall₂ SameCore (as.foldl (fun q entry => q.setClause entry.2) p).clauses
          (bs.foldl (fun q entry => q.setClause entry.2) q).clauses := by
    intro as bs hclauses
    induction hclauses with
    | nil => exact fun hpq => hpq
    | cons hab _ ih => exact fun hpq => ih (setClause_rel hab.operator.core hpq)
  exact toJson_eq (hfold h .nil)

end Query

/-- The source text that a problem is given does not change its class. -/
lemma Problem.kind_inExpression (problem : Problem) (expression : String) :
    (problem.inExpression expression).kind = problem.kind := by
  unfold inExpression
  split <;> rfl

namespace Reading

/-- What a reading of a text compiles to, told by what the reading comes to. -/
lemma compile_eq (r : Reading) (reading : Parse Unit) :
    r.compile reading =
      match on reading r.notes with
      | (.ok _, notes) => .ok (.ofDraft notes.draft)
      | (.error problem, _) => .error (problem.inExpression r.setting.text) := by
  unfold compile resume
  rcases h : on reading r.notes with ⟨a | e, notes⟩
  · have hrun : (reading.run.run r.notes).run = (.error a, notes) := h
    rw [hrun]
  · have hrun : (reading.run.run r.notes).run = (.ok e, notes) := h
    rw [hrun]

/-- What a reading that fails nowhere leaves noted is what the query is made of. -/
lemma compile_of_on (r : Reading) {reading : Parse Unit} {notes : Notes}
    (h : on reading r.notes = (.ok (), notes)) :
    r.compile reading = .ok (.ofDraft notes.draft) := by
  rw [compile_eq, h]

end Reading

/-! ## The clauses of a text -/

/-- Trees whose tokens are covered say the same as themselves. -/
lemma TokenTree.allAlike_self {V : Vocabulary} {registry : Registry} (trees : List TokenTree)
    (hcovers : AllOf (V.Covers registry) trees) : TokenTree.AllAlike V registry trees trees :=
  AllCorrespond.refl trees fun token htoken =>
    ⟨rfl, rfl, rfl, rfl, (allOf_iff_reachable trees).mp hcovers token htoken⟩

/-- Whether the clauses of a query are in order, and each has one of the shapes
that texts denote. -/
structure Query.IsOfText (V : Vocabulary) (q : Query) : Prop where
  inOrder : Query.InOrder q.clauses
  shaped : ∀ clause ∈ q.clauses, clause.Everywhere (Operator.Shaped (.ofText V))

namespace Query

/-- A query made of notes that are alike with themselves is one of a text. -/
lemma isOfText_ofDraft {V : Vocabulary} {n : Notes} (h : Notes.Alike V n n) :
    (ofDraft n.draft).IsOfText V := by
  have hfold : ∀ {as bs : List (Kind × Operator)}, List.Forall₂ (Clause.Alike V) as bs →
      ∀ q : Query, q.IsOfText V → (as.foldl (fun q entry => q.setClause entry.2) q).IsOfText V := by
    intro as bs hclauses
    induction hclauses with
    | nil => exact fun _ hq => hq
    | @cons a b as bs hab _ ih =>
      refine fun q hq =>
        ih _ ⟨hq.inOrder.setClause (hab.kind ▸ hab.isClause), fun other hother => ?_⟩
      obtain rfl | hother := mem_setClause hother
      · exact hab.operator.shaped
      · exact hq.shaped other hother
  exact hfold h.clauses _ ⟨.nil, by simp⟩

variable {V : Vocabulary} {text : String} {registry : Registry} {ceilings : Ceilings} {q : Query}

/-- A reading that agrees with itself leads to clauses of the shapes that texts denote. -/
lemma isOfText_of_compile (reading : Setting → List Element → Parse Unit)
    (hcovers : ∀ forest, TokenForest.ofText text ceilings = .ok forest →
      TokenTree.AllOf (V.Covers registry) forest.merge.trees)
    (hreading : ∀ (s : Setting) (hs : Setting.Alike s s) (es : List Element),
      (Comparison.agreeing V hs).Sequences [] es es →
        Agree V (fun _ _ => True) (reading s es) (reading s es))
    (h : (do
      let r ← Reading.start text registry ceilings
      r.compile (reading r.setting r.elements)) = .ok q) : q.IsOfText V := by
  unfold Reading.start at h
  cases hforest : TokenForest.ofText text ceilings with
  | error e => rw [hforest] at h; cases h
  | ok forest =>
    rw [hforest] at h
    generalize hr : (⟨⟨forest.source, registry, ceilings⟩, forest.merge,
      { draft := { problems := forest.problems } }⟩ : Reading) = r
    have hcompile : r.compile (reading r.setting r.elements) = .ok q := by rw [← hr]; exact h
    have hregistry : r.setting.registry = registry := by rw [← hr]
    have hnotes : Notes.Alike V r.notes r.notes := by rw [← hr]; exact ⟨rfl, .nil, rfl⟩
    have htrees : TokenTree.AllAlike V r.setting.registry r.forest.trees r.forest.trees := by
      have hmerged : r.forest = forest.merge := by rw [← hr]
      rw [hregistry, hmerged]
      exact TokenTree.allAlike_self _ (hcovers forest hforest)
    have hs : Setting.Alike r.setting r.setting := ⟨rfl, rfl⟩
    have hagree := hreading r.setting hs r.elements (TokenTree.AllAlike.elements hs _ _ htrees)
      r.notes r.notes hnotes
    rw [Reading.compile_eq] at hcompile
    rcases hrun : on (reading r.setting r.elements) r.notes with ⟨e | _, n⟩ <;>
      rw [hrun] at hcompile hagree
    · cases hcompile
    · cases hcompile
      exact isOfText_ofDraft hagree.2

/-- A text has the vocabulary that covers its tokens. -/
lemma isOfText_ofText_of_allOf (hcovers : ∀ forest, TokenForest.ofText text ceilings = .ok forest →
      TokenTree.AllOf (V.Covers registry) forest.merge.trees)
    (h : ofText text registry ceilings = .ok q) : q.IsOfText V :=
  isOfText_of_compile Clause.readAll hcovers
    (fun _ _ _ hes => Clause.agree_readAll hes) h

/-- A query that is compiled is one of a text. -/
lemma isOfText_ofText (hcovers : ∀ token, V.Covers registry token)
    (h : ofText text registry ceilings = .ok q) : q.IsOfText V :=
  isOfText_ofText_of_allOf
    (fun _ _ => (TokenTree.allOf_iff_reachable _).mpr fun token _ => hcovers token) h

/-- A condition has the vocabulary that covers its tokens. -/
lemma isOfText_ofCondition_of_allOf
    (hcovers : ∀ forest, TokenForest.ofText text ceilings = .ok forest →
      TokenTree.AllOf (V.Covers registry) forest.merge.trees)
    (h : ofCondition text registry ceilings = .ok q) : q.IsOfText V :=
  isOfText_of_compile Clause.readCondition hcovers
    (fun _ _ _ hes => Clause.agree_readCondition hes) h

/-- A query that is compiled from a condition is one of a text. -/
lemma isOfText_ofCondition (hcovers : ∀ token, V.Covers registry token)
    (h : ofCondition text registry ceilings = .ok q) : q.IsOfText V :=
  isOfText_ofCondition_of_allOf
    (fun _ _ => (TokenTree.allOf_iff_reachable _).mpr fun token _ => hcovers token) h

end Query

/-! ## The ways to read a text -/

/-- Whether a text is read as the clauses of a query or as a condition. -/
inductive Mode where
  | clauses
  | condition

namespace Mode

/-- How the elements of a text are read. -/
def body (mode : Mode) (setting : Setting) (elements : List Element) : Parse Unit :=
  match mode with
  | clauses => Clause.readAll setting elements
  | condition => Clause.readCondition setting elements

/-- The query that a text is read as. -/
def query (mode : Mode) (text : String) (registry : Registry) (ceilings : Ceilings) :
    Except Problem Query :=
  match mode with
  | clauses => Query.ofText text registry ceilings
  | condition => Query.ofCondition text registry ceilings

/-- A query is compiled by cutting the text into trees and reading these in its mode. -/
lemma query_eq (mode : Mode) (text : String) (registry : Registry) (ceilings : Ceilings) :
    mode.query text registry ceilings =
      (Reading.start text registry ceilings >>= fun r =>
        r.compile (mode.body r.setting r.elements)) := by
  cases mode <;> rfl

end Mode

end RecordQuery
