import Mathlib.Order.WellFounded
import Mathlib.Data.List.Basic
import RecordQuery.Phrase.Basic

/-!
# Phrases that form a forest

Neither the owner of a token nor the parent of a phrase is stored: both are the first phrase, of all
or of the later ones, that encloses the span in question. That the first phrase is also the smallest
rests on the order in which phrases are noted. A phrase is noted after everything inside it, and
with nothing but whole phrases inside it. So of two phrases the later one lies apart from the
earlier one, or encloses it and is larger. Lists of phrases with this property are called forests
here, and everything about owners and parents follows from it.
-/

namespace RecordQuery

namespace Span

/-- Whether two spans have no offset in common, one of them ending before the other begins. -/
def Apart (s t : Span) : Prop := s.stop ≤ t.start ∨ t.stop ≤ s.start

instance (s t : Span) : Decidable (s.Apart t) := inferInstanceAs (Decidable (_ ∨ _))

/-- A span encloses another one that starts no earlier and stops no later. -/
lemma encloses_iff {s t : Span} : s.encloses t = true ↔ s.start ≤ t.start ∧ t.stop ≤ s.stop := by
  simp [encloses]

@[simp] lemma encloses_self (s : Span) : s.encloses s = true := by simp [encloses]

/-- What is enclosed by an enclosed span is enclosed. -/
lemma encloses_trans {s t u : Span} (hst : s.encloses t = true) (htu : t.encloses u = true) :
    s.encloses u = true := by
  rw [encloses_iff] at *
  omega

/-- If a span is apart from another one, so is the other from it. -/
lemma Apart.symm {s t : Span} (h : s.Apart t) : t.Apart s := Or.symm h

/-- What lies apart from a span lies apart from all that the span encloses. -/
lemma Apart.mono {s t u : Span} (h : s.Apart t) (htu : t.encloses u = true) : s.Apart u := by
  rw [encloses_iff] at htu
  unfold Apart at *
  omega

/-- Spans that enclose one offset do not lie apart. -/
lemma not_apart_of_encloses {s t u : Span} (hu : u.start < u.stop) (hs : s.encloses u = true)
    (ht : t.encloses u = true) : ¬ s.Apart t := by
  rw [encloses_iff] at hs ht
  unfold Apart
  omega

end Span

namespace Phrase

/-- How an earlier phrase lies to a later one: apart from it, or inside it and smaller. -/
def Below (p q : Phrase) : Prop :=
  p.span.Apart q.span ∨ q.span.encloses p.span = true ∧ p.span.encloses q.span = false

/-- Whether a list of phrases is a forest in a source of some length: every phrase holds a character
of the source, and lies apart from the later ones or inside them. -/
structure IsForest (length : Nat) (phrases : List Phrase) : Prop where
  inSource : ∀ p ∈ phrases, p.span.start < p.span.stop ∧ p.span.stop ≤ length
  below : phrases.Pairwise Below

/-- No phrases are a forest. -/
lemma IsForest.nil (length : Nat) : IsForest length [] := ⟨by simp, .nil⟩

/-- A forest with another phrase that holds all of the earlier ones it meets. -/
lemma IsForest.concat {length : Nat} {phrases : List Phrase} {p : Phrase}
    (h : IsForest length phrases) (hstart : p.span.start < p.span.stop)
    (hstop : p.span.stop ≤ length) (hbelow : ∀ q ∈ phrases, Below q p) :
    IsForest length (phrases ++ [p]) where
  inSource := by
    rw [List.forall_mem_append, List.forall_mem_singleton]
    exact ⟨h.inSource, hstart, hstop⟩
  below := by
    rw [List.pairwise_append]
    refine ⟨h.below, List.pairwise_singleton _ _, fun q hq r hr => ?_⟩
    obtain rfl := List.mem_singleton.mp hr
    exact hbelow q hq

end Phrase

/-! ## The first phrase around a span -/

namespace Phrase

variable {length : Nat} {phrases : List Phrase} {span : Span}

/-- Of the phrases of a forest that enclose a span, the earlier ones lie in the later ones. -/
lemma IsForest.encloses_of_le (h : IsForest length phrases) (hspan : span.start < span.stop)
    {i j : Nat} {p q : Phrase} (hij : i ≤ j) (hp : phrases[i]? = some p) (hq : phrases[j]? = some q)
    (hpspan : p.span.encloses span = true) (hqspan : q.span.encloses span = true) :
    q.span.encloses p.span = true := by
  obtain rfl | hlt := Nat.eq_or_lt_of_le hij
  · obtain rfl : p = q := Option.some.inj (hp.symm.trans hq)
    exact Span.encloses_self _
  · obtain ⟨hi, rfl⟩ := List.getElem?_eq_some_iff.mp hp
    obtain ⟨hj, rfl⟩ := List.getElem?_eq_some_iff.mp hq
    obtain hapart | ⟨hencloses, -⟩ := List.pairwise_iff_getElem.mp h.below i j hi hj hlt
    · exact absurd hapart (Span.not_apart_of_encloses hspan hpspan hqspan)
    · exact hencloses

/-- Of two phrases of a forest, the later one does not lie in the earlier one. -/
lemma IsForest.encloses_eq_false (h : IsForest length phrases) {i j : Nat} {p q : Phrase}
    (hij : i < j) (hp : phrases[i]? = some p) (hq : phrases[j]? = some q) :
    p.span.encloses q.span = false := by
  obtain ⟨hi, rfl⟩ := List.getElem?_eq_some_iff.mp hp
  obtain ⟨hj, rfl⟩ := List.getElem?_eq_some_iff.mp hq
  obtain hapart | ⟨-, hencloses⟩ := List.pairwise_iff_getElem.mp h.below i j hi hj hij
  · by_contra hencloses
    have hspan := h.inSource _ (List.getElem_mem hj)
    exact Span.not_apart_of_encloses hspan.1 (by simpa using hencloses)
      (Span.encloses_self _) hapart
  · exact hencloses

end Phrase

/-- The place of the first entry of a list with a property. -/
lemma findIdx?_eq_some_iff {α : Type} {l : List α} {P : α → Bool} {i : Nat} :
    l.findIdx? P = some i ↔
      (∃ a, l[i]? = some a ∧ P a = true) ∧ ∀ k b, k < i → l[k]? = some b → P b = false := by
  rw [List.findIdx?_eq_some_iff_getElem]
  constructor
  · rintro ⟨hi, hP, hfirst⟩
    refine ⟨⟨_, List.getElem?_eq_getElem hi, hP⟩, fun k b hk hb => ?_⟩
    obtain ⟨hlt, rfl⟩ := List.getElem?_eq_some_iff.mp hb
    simpa using hfirst k hk
  · rintro ⟨⟨a, ha, hP⟩, hfirst⟩
    obtain ⟨hi, rfl⟩ := List.getElem?_eq_some_iff.mp ha
    exact ⟨hi, hP, fun k hk => by
      simpa using hfirst k _ hk (List.getElem?_eq_getElem (hk.trans hi))⟩

namespace Notes

variable {notes : Notes} {token : Token} {i j : Nat} {p : Phrase}

/-- The owner of a token is the first phrase that encloses it. -/
lemma owner?_eq_some_iff :
    notes.owner? token = some i ↔
      (∃ p, notes.phrases[i]? = some p ∧ p.span.encloses token.fullSpan = true) ∧
        ∀ k q, k < i → notes.phrases[k]? = some q → q.span.encloses token.fullSpan = false := by
  unfold owner?
  obtain ⟨phrases⟩ := notes.phrases
  rw [List.findIdx?_toArray, findIdx?_eq_some_iff]
  simp

/-- A token has no owner if no phrase encloses it. -/
lemma owner?_eq_none_iff :
    notes.owner? token = none ↔
      ∀ (k : Nat) (q : Phrase), notes.phrases[k]? = some q →
        q.span.encloses token.fullSpan = false := by
  unfold owner?
  rw [Array.findIdx?_eq_none_iff]
  constructor
  · exact fun h k q hq => h q (Array.mem_of_getElem? hq)
  · intro h q hq
    obtain ⟨k, hk⟩ := Array.mem_iff_getElem?.mp hq
    exact h k q hk

/-- The parent of a phrase is the first later one that encloses it. -/
lemma parent?_eq_some_iff (hp : notes.phrases[i]? = some p) :
    notes.parent? i = some j ↔
      i < j ∧ (∃ q, notes.phrases[j]? = some q ∧ q.span.encloses p.span = true) ∧
        ∀ k q, i < k → k < j → notes.phrases[k]? = some q → q.span.encloses p.span = false := by
  unfold parent?
  rw [hp]
  obtain ⟨phrases⟩ := notes.phrases
  simp only [Option.bind_eq_bind, Option.bind_some, Option.pure_def, Option.bind_eq_some_iff,
    findIdx?_eq_some_iff, List.getElem?_drop, List.getElem?_toArray, Option.some.injEq]
  constructor
  · rintro ⟨place, ⟨hq, hfirst⟩, rfl⟩
    refine ⟨by omega, hq, fun k q hik hkj hk => ?_⟩
    obtain ⟨d, rfl⟩ : ∃ d, k = i + 1 + d := ⟨k - (i + 1), by omega⟩
    exact hfirst d q (by omega) hk
  · rintro ⟨hij, hq, hfirst⟩
    obtain ⟨d, rfl⟩ : ∃ d, j = i + 1 + d := ⟨j - (i + 1), by omega⟩
    exact ⟨d, ⟨hq, fun k q hk hkq => hfirst _ q (by omega) (by omega) hkq⟩, rfl⟩

/-- A phrase has no parent if no later one encloses it. -/
lemma parent?_eq_none_iff (hp : notes.phrases[i]? = some p) :
    notes.parent? i = none ↔
      ∀ k q, i < k → notes.phrases[k]? = some q → q.span.encloses p.span = false := by
  unfold parent?
  rw [hp]
  obtain ⟨phrases⟩ := notes.phrases
  simp only [Option.bind_eq_bind, Option.bind_some, Option.pure_def, Option.bind_eq_none_iff,
    List.getElem?_toArray, reduceCtorEq, imp_false, ← Option.eq_none_iff_forall_ne_some,
    List.findIdx?_eq_none_iff]
  constructor
  · intro h k q hik hk
    obtain ⟨d, rfl⟩ : ∃ d, k = i + 1 + d := ⟨k - (i + 1), by omega⟩
    exact h q (List.mem_of_getElem? ((List.getElem?_drop).trans hk))
  · intro h q hq
    obtain ⟨d, hd⟩ := List.mem_iff_getElem?.mp hq
    rw [List.getElem?_drop] at hd
    exact h _ q (by omega) hd

/-- Only phrases have parents. -/
lemma isSome_of_parent? (h : notes.parent? i = some j) : ∃ p, notes.phrases[i]? = some p := by
  cases hp : notes.phrases[i]? with
  | some p => exact ⟨p, rfl⟩
  | none =>
    rw [parent?, hp] at h
    cases h

end Notes

/-! ## What a forest of phrases says about owners and parents -/

/-- Whether the phrases that were noted lie in a source as a forest does, and parents and owners are
the smallest phrases around. -/
structure Notes.IsForest (notes : Notes) (source : List Char) (tokens : List Token) : Prop where
  /-- Every phrase holds a character, and lies in the source. -/
  inSource : ∀ p ∈ notes.phrases, p.span.start < p.span.stop ∧ p.span.stop ≤ source.length
  /-- Two phrases lie apart from one another, or one in the other. -/
  nested : ∀ p ∈ notes.phrases, ∀ q ∈ notes.phrases,
    p.span.Apart q.span ∨ p.span.encloses q.span = true ∨ q.span.encloses p.span = true
  /-- The parent of a phrase comes after it and encloses it, and no other phrase that encloses it is
  smaller. -/
  parent : ∀ i j p, notes.phrases[i]? = some p → notes.parent? i = some j →
    i < j ∧ ∃ q, notes.phrases[j]? = some q ∧ q.span.encloses p.span = true ∧
      ∀ k r, k ≠ i → notes.phrases[k]? = some r → r.span.encloses p.span = true →
        r.span.encloses q.span = true
  /-- No other phrase encloses a phrase without a parent. -/
  orphan : ∀ i p, notes.phrases[i]? = some p → notes.parent? i = none →
    ∀ k r, k ≠ i → notes.phrases[k]? = some r → r.span.encloses p.span = false
  /-- The owner of a token encloses it, and no other phrase that encloses it is smaller. -/
  owner : ∀ token ∈ tokens, ∀ i, notes.owner? token = some i →
    ∃ p, notes.phrases[i]? = some p ∧ p.span.encloses token.fullSpan = true ∧
      ∀ q ∈ notes.phrases, q.span.encloses token.fullSpan = true → q.span.encloses p.span = true
  /-- No phrase encloses a token without an owner. -/
  unowned : ∀ token ∈ tokens, notes.owner? token = none →
    ∀ p ∈ notes.phrases, p.span.encloses token.fullSpan = false
  /-- From any phrase, going from parent to parent comes to an end. -/
  climbs : WellFounded fun j i => notes.parent? i = some j

namespace Notes

variable {notes : Notes} {source : List Char} {tokens : List Token}

/-- In a forest of phrases, the first phrase around a span is the smallest. -/
theorem isForest_of_phrases (h : Phrase.IsForest source.length notes.phrases.toList)
    (htokens : ∀ token ∈ tokens, token.fullSpan.start < token.fullSpan.stop) :
    notes.IsForest source tokens := by
  have hget : ∀ i : Nat, notes.phrases[i]? = notes.phrases.toList[i]? := fun i => by simp
  have hspan : ∀ (i : Nat) (p : Phrase), notes.phrases[i]? = some p →
      p.span.start < p.span.stop := fun i p hp =>
    (h.inSource p (Array.mem_toList_iff.mpr (Array.mem_of_getElem? hp))).1
  -- a phrase that encloses another one is not before it
  have hafter : ∀ (i k : Nat) (p r : Phrase), k ≠ i → notes.phrases[i]? = some p →
      notes.phrases[k]? = some r → r.span.encloses p.span = true → i < k := by
    intro i k p r hne hp hr hencloses
    by_contra hle
    have hlt : k < i := by omega
    rw [h.encloses_eq_false hlt (hget k ▸ hr) (hget i ▸ hp)] at hencloses
    cases hencloses
  refine ⟨fun p hp => h.inSource p (Array.mem_toList_iff.mpr hp), ?_, ?_, ?_, ?_, ?_, ?_⟩
  · have hnested : notes.phrases.toList.Pairwise fun p q => p.span.Apart q.span ∨
        p.span.encloses q.span = true ∨ q.span.encloses p.span = true := by
      refine h.below.imp fun {p q} hbelow => ?_
      obtain hapart | ⟨hencloses, -⟩ := hbelow
      · exact .inl hapart
      · exact .inr (.inr hencloses)
    have hflip : notes.phrases.toList.Pairwise fun p q => q.span.Apart p.span ∨
        q.span.encloses p.span = true ∨ p.span.encloses q.span = true :=
      hnested.imp fun {p q} hpq => by
        obtain hapart | hencloses | hencloses := hpq
        · exact .inl hapart.symm
        · exact .inr (.inr hencloses)
        · exact .inr (.inl hencloses)
    intro p hp q hq
    exact hnested.forall_of_forall_of_flip (fun p _ => .inr (.inl p.span.encloses_self)) hflip
      (Array.mem_toList_iff.mpr hp) (Array.mem_toList_iff.mpr hq)
  · intro i j p hp hparent
    obtain ⟨hij, ⟨q, hq, hencloses⟩, hfirst⟩ := (parent?_eq_some_iff hp).mp hparent
    refine ⟨hij, q, hq, hencloses, fun k r hne hr hrp => ?_⟩
    have hik := hafter i k p r hne hp hr hrp
    have hjk : j ≤ k := by
      by_contra hlt
      rw [hfirst k r hik (by omega) hr] at hrp
      cases hrp
    exact h.encloses_of_le (hspan i p hp) hjk (hget j ▸ hq) (hget k ▸ hr) hencloses hrp
  · intro i p hp hparent k r hne hr
    by_contra hencloses
    rw [Bool.not_eq_false] at hencloses
    have hik := hafter i k p r hne hp hr hencloses
    rw [(parent?_eq_none_iff hp).mp hparent k r hik hr] at hencloses
    cases hencloses
  · intro token htoken i howner
    obtain ⟨⟨p, hp, hencloses⟩, hfirst⟩ := owner?_eq_some_iff.mp howner
    refine ⟨p, hp, hencloses, fun q hq hqtoken => ?_⟩
    obtain ⟨k, hk⟩ := Array.mem_iff_getElem?.mp hq
    have hik : i ≤ k := by
      by_contra hlt
      rw [hfirst k q (by omega) hk] at hqtoken
      cases hqtoken
    exact h.encloses_of_le (htokens token htoken) hik (hget i ▸ hp) (hget k ▸ hk) hencloses hqtoken
  · intro token _ howner p hp
    obtain ⟨k, hk⟩ := Array.mem_iff_getElem?.mp hp
    exact owner?_eq_none_iff.mp howner k p hk
  · refine Subrelation.wf (r := fun j i => notes.phrases.size - j < notes.phrases.size - i) ?_
      (measure fun i => notes.phrases.size - i).wf
    intro j i hparent
    obtain ⟨p, hp⟩ := isSome_of_parent? hparent
    have hi := (Array.getElem?_eq_some_iff.mp hp).1
    have hij := ((parent?_eq_some_iff hp).mp hparent).1
    omega

end Notes

end RecordQuery
