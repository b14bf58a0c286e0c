import Mathlib.Logic.Relation
import RecordQuery.Caret
import RecordQuery.Proofs.Ownership
import RecordQuery.Proofs.SourceForest

/-!
# What the caret finds, and what it edits

The caret goes from an offset to a character, from the character to the token that owns it, from the
token to the smallest phrase around it, and from there outwards as long as no clause and no group of
conditions is entered. Each of these steps leads somewhere, whether the text could be read to its
end or not: characters have owners after keywords are merged (`TokenForest.exists_owner`), and the
phrases noted up to a fault form a forest as all others do. So the phrase under the caret lies in
the source, and what an edit leaves alone is the source before the phrase and behind it.
-/

namespace RecordQuery

/-! ## Going outwards -/

namespace Notes

variable {notes : Notes} {i j k : Nat} {p q : Phrase}

/-- Whether the phrase at one place lies in that at another one, its parent, and the latter is no
clause and no group of conditions. -/
def Enters (notes : Notes) (i j : Nat) : Prop :=
  notes.parent? i = some j ∧ ∃ p, notes.phrases[j]? = some p ∧ Caret.isBoundary p = false

/-- Whether one phrase is reached from another by going outwards, without entering a clause or a
group of conditions. -/
def Reaches (notes : Notes) : Nat → Nat → Prop := Relation.ReflTransGen notes.Enters

/-- A phrase is entered from one other at most. -/
lemma Enters.unique (hj : notes.Enters i j) (hk : notes.Enters i k) : j = k :=
  Option.some.inj (hj.1.symm.trans hk.1)

/-- A phrase that is reached encloses the one it is reached from. -/
lemma Reaches.encloses (h : notes.Reaches i j) (hp : notes.phrases[i]? = some p)
    (hq : notes.phrases[j]? = some q) : q.span.encloses p.span = true := by
  induction h generalizing q with
  | refl =>
    obtain rfl : p = q := Option.some.inj (hp.symm.trans hq)
    exact Span.encloses_self _
  | tail _ hlast ih =>
    obtain ⟨inner, hinner⟩ := isSome_of_parent? hlast.1
    obtain ⟨-, ⟨outer, houter, hencloses⟩, -⟩ := (parent?_eq_some_iff hinner).mp hlast.1
    obtain rfl : outer = q := Option.some.inj (houter.symm.trans hq)
    exact Span.encloses_trans hencloses (ih hinner)

/-- Where no phrase is entered any more, all phrases reached on the way lie in the last one. -/
lemma Reaches.encloses_of_ends (hj : notes.Reaches i j) (hends : ∀ k, ¬ notes.Enters j k)
    (hk : notes.Reaches i k) (hp : notes.phrases[k]? = some p) (hq : notes.phrases[j]? = some q) :
    q.span.encloses p.span = true := by
  have hunique : Relator.RightUnique notes.Enters := fun _ _ _ hb hc => hb.unique hc
  obtain hjk | hkj := Relation.ReflTransGen.total_of_right_unique hunique hj hk
  · obtain rfl | ⟨next, hnext, -⟩ := hjk.cases_head
    · obtain rfl : p = q := Option.some.inj (hp.symm.trans hq)
      exact Span.encloses_self _
    · exact absurd hnext (hends next)
  · exact Reaches.encloses hkj hp hq

/-- Climbing ends at a phrase that is reached, and from which no other one is. -/
lemma exists_climb (steps : Nat) (hp : notes.phrases[i]? = some p)
    (hsteps : notes.phrases.size ≤ i + steps) :
    ∃ j, notes.Reaches i j ∧ (∀ k, ¬ notes.Enters j k) ∧
      notes.phrases[j]? = some (Caret.climb notes steps p i) := by
  induction steps generalizing i p with
  | zero =>
    obtain ⟨hi, -⟩ := Array.getElem?_eq_some_iff.mp hp
    omega
  | succ steps ih =>
    rw [Caret.climb]
    cases hparent : notes.parent? i with
    | none => exact ⟨i, .refl, fun k hk => by simp [hk.1] at hparent, hp⟩
    | some outer =>
      obtain ⟨hlt, ⟨parent, hget, -⟩, -⟩ := (parent?_eq_some_iff hp).mp hparent
      simp only [hget]
      split
      · rename_i hboundary
        refine ⟨i, .refl, fun k hk => ?_, hp⟩
        obtain ⟨hk, q, hq, hinside⟩ := hk
        obtain rfl : outer = k := Option.some.inj (hparent.symm.trans hk)
        obtain rfl : parent = q := Option.some.inj (hget.symm.trans hq)
        rw [hboundary] at hinside
        cases hinside
      · rename_i hboundary
        rw [Bool.not_eq_true] at hboundary
        obtain ⟨j, hreaches, hends, hj⟩ := ih hget (by omega)
        exact ⟨j, .head ⟨hparent, parent, hget, hboundary⟩ hreaches, hends, hj⟩

/-- Whether a phrase is the innermost one around a token. -/
def IsInnermost (notes : Notes) (token : Token) (i : Nat) : Prop :=
  ∃ p, notes.phrases[i]? = some p ∧ p.span.encloses token.fullSpan = true ∧
    ∀ q ∈ notes.phrases, q.span.encloses token.fullSpan = true → q.span.encloses p.span = true

/-- Whether a span is that of the phrase that the caret reports for a token: the largest phrase that
is reached from the innermost one around the token. -/
def IsAround (notes : Notes) (token : Token) (span : Span) : Prop :=
  ∃ i j q, notes.IsInnermost token i ∧ notes.Reaches i j ∧ notes.phrases[j]? = some q ∧
    q.span = span ∧ ∀ k p, notes.Reaches i k → notes.phrases[k]? = some p →
    span.encloses p.span = true

variable {source : List Char} {tokens : List Token} {token : Token} {span : Span}

/-- The phrase that is reported is the one around the token. -/
lemma isAround_of_phraseAround (h : notes.IsForest source tokens) (htoken : token ∈ tokens)
    (hphrase : (Caret.phraseAround notes token).map Phrase.span = some span) :
    notes.IsAround token span := by
  obtain ⟨phrase, hfound, rfl⟩ := Option.map_eq_some_iff.mp hphrase
  rw [Caret.phraseAround, Option.bind_eq_bind, Option.bind_eq_some_iff] at hfound
  obtain ⟨i, howner, hfound⟩ := hfound
  rw [Option.bind_eq_bind, Option.bind_eq_some_iff] at hfound
  obtain ⟨p, hp, ⟨⟩⟩ := hfound
  obtain ⟨inner, hinner, hencloses, hsmallest⟩ := h.owner token htoken i howner
  obtain ⟨j, hreaches, hends, hj⟩ := exists_climb notes.phrases.size hp (by omega)
  exact ⟨i, j, _, ⟨inner, hinner, hencloses, hsmallest⟩, hreaches, hj, rfl,
    fun k q hk hq => hreaches.encloses_of_ends hends hk hq hj⟩

/-- A phrase is reported if there is one around the token. -/
lemma isSome_phraseAround (h : notes.IsForest source tokens) (htoken : token ∈ tokens)
    (hp : p ∈ notes.phrases) (hencloses : p.span.encloses token.fullSpan = true) :
    (Caret.phraseAround notes token).isSome = true := by
  cases howner : notes.owner? token with
  | none =>
    rw [h.unowned token htoken howner p hp] at hencloses
    cases hencloses
  | some i =>
    obtain ⟨inner, hinner, -⟩ := h.owner token htoken i howner
    simp [Caret.phraseAround, howner, hinner]

/-- A phrase around a token encloses it, and is one of those that were noted. -/
lemma IsAround.encloses (h : notes.IsAround token span) :
    span.encloses token.fullSpan = true ∧ ∃ q ∈ notes.phrases, q.span = span := by
  obtain ⟨i, j, q, ⟨p, hp, hencloses, -⟩, hreaches, hq, rfl, -⟩ := h
  exact ⟨Span.encloses_trans (hreaches.encloses hp hq) hencloses, q, Array.mem_of_getElem? hq, rfl⟩

end Notes

/-! ## Edits -/

namespace Span

/-- Where a span lies in a text, replacing it keeps what is before it and behind it. -/
lemma splice_eq {s : Span} {source : List Char} (hle : s.start ≤ s.stop)
    (hstop : s.stop ≤ source.length) (replacement : List Char) :
    s.splice source replacement = source.take s.start ++ replacement ++ source.drop s.stop := by
  rw [splice, Nat.min_eq_left (hle.trans hstop), Nat.max_eq_left hle, Nat.min_eq_left hstop]

/-- Replacing a span by the text it holds changes nothing. -/
lemma take_append_slice_append_drop {s : Span} {source : List Char} (hle : s.start ≤ s.stop) :
    source.take s.start ++ s.slice source ++ source.drop s.stop = source := by
  have hstop : s.stop = s.start + s.length := by
    rw [length]
    omega
  rw [slice, hstop, ← List.drop_drop, List.append_assoc, List.take_append_drop,
    List.take_append_drop]

end Span

/-! ## The token under the caret -/

/-- The last entry of a list that a function is defined on. -/
lemma findSome?_reverse_eq_some_iff {α β : Type} {l : List α} {f : α → Option β} {b : β} :
    l.reverse.findSome? f = some b ↔
      ∃ (i : Nat) (a : α), l[i]? = some a ∧ f a = some b ∧
        ∀ (j : Nat) (c : α), i < j → l[j]? = some c → f c = none := by
  rw [List.findSome?_eq_some_iff]
  constructor
  · rintro ⟨behind, a, before, hl, ha, hnone⟩
    have hsplit : l = before.reverse ++ a :: behind.reverse := by
      rw [← List.reverse_reverse l, hl]
      simp
    refine ⟨before.length, a, by simp [hsplit], ha, fun j c hj hc => hnone c ?_⟩
    obtain ⟨d, rfl⟩ : ∃ d, j = before.reverse.length + (d + 1) :=
      ⟨j - (before.length + 1), by rw [List.length_reverse]; omega⟩
    rw [hsplit, List.getElem?_append_right (Nat.le_add_right _ _), Nat.add_sub_cancel_left,
      List.getElem?_cons_succ] at hc
    exact List.mem_reverse.mp (List.mem_of_getElem? hc)
  · rintro ⟨i, a, hget, ha, hnone⟩
    obtain ⟨hi, rfl⟩ := List.getElem?_eq_some_iff.mp hget
    refine ⟨(l.drop (i + 1)).reverse, l[i], (l.take i).reverse, ?_, ha, fun c hc => ?_⟩
    · rw [← List.reverse_concat, ← List.reverse_append, List.append_assoc,
        List.singleton_append, ← List.drop_eq_getElem_cons, List.take_append_drop]
    · obtain ⟨d, hd⟩ := List.mem_iff_getElem?.mp (List.mem_reverse.mp hc)
      rw [List.getElem?_drop] at hd
      exact hnone _ c (by omega) hd

namespace Reading

/-- Whether the character at an offset belongs to a token that the caret may stop at: to any one, or
to any but a comma. -/
def Shows (r : Reading) (skipCommas : Bool) (offset : Nat) (token : Token) : Prop :=
  token ∈ r.tokens ∧ (skipCommas && token.isComma) = false ∧
    ∃ slot, r.forest.slots[offset]? = some slot ∧ slot ≠ .space ∧ slot.owner? = some token.id

/-- Whether the numbers of the tokens of a reading tell them apart, and every character that is no
space belongs to one of them. -/
structure IsOwned (r : Reading) : Prop where
  nodup : (r.tokens.map Token.id).Nodup
  owner : ∀ (offset : Nat) (slot : Slot), r.forest.slots[offset]? = some slot → slot ≠ .space →
    ∃ token ∈ r.tokens, slot.owner? = some token.id

variable {r : Reading} {skipCommas : Bool} {offset : Nat} {token : Token}

/-- A token is found under its number. -/
lemma tokenOf?_eq_some (h : r.IsOwned) (htoken : token ∈ r.tokens) :
    Caret.tokenOf? r token.id = some token := by
  rw [Caret.tokenOf?]
  cases hfind : r.tokens.find? fun other => other.id == token.id with
  | none => simpa using List.find?_eq_none.mp hfind token htoken
  | some other =>
    have hid : other.id = token.id := by simpa using List.find?_some hfind
    exact congrArg some
      (List.inj_on_of_nodup_map h.nodup (List.mem_of_find?_eq_some hfind) htoken hid)

/-- What the character at an offset shows, as it is looked up. -/
def shown (r : Reading) (skipCommas : Bool) (slot : Slot) : Option Token := do
  let token ← Caret.tokenOf? r (← slot.owner?)
  if skipCommas && token.isComma then none else some token

/-- What a character shows is the token it belongs to, unless commas are skipped and it is one. -/
lemma shown_eq_some_iff (h : r.IsOwned) {slot : Slot}
    (hslot : r.forest.slots[offset]? = some slot) :
    r.shown skipCommas slot = some token ↔ r.Shows skipCommas offset token := by
  unfold Shows shown
  simp only [hslot, Option.some_inj, exists_eq_left', Option.bind_eq_bind, Option.bind_eq_some_iff]
  constructor
  · rintro ⟨id, howner, other, hother, hshown⟩
    split at hshown
    · cases hshown
    · rename_i hskip
      obtain rfl : other = token := Option.some.inj hshown
      have hid : other.id = id := by simpa using List.find?_some hother
      refine ⟨List.mem_of_find?_eq_some hother, by simpa using hskip, ?_, by rw [howner, hid]⟩
      rintro rfl
      cases howner
  · rintro ⟨htoken, hskip, -, howner⟩
    exact ⟨token.id, howner, token, tokenOf?_eq_some h htoken, by simp [hskip]⟩

/-- The caret stops at the last offset that shows a token. -/
lemma locate_eq_some_iff (h : r.IsOwned) :
    Caret.locate r offset skipCommas = some token ↔
      ∃ i ≤ offset, r.Shows skipCommas i token ∧
        ∀ j other, i < j → j ≤ offset → ¬ r.Shows skipCommas j other := by
  have hlocate : Caret.locate r offset skipCommas =
      (r.forest.slots.take (offset + 1)).reverse.findSome? (r.shown skipCommas) := rfl
  rw [hlocate, findSome?_reverse_eq_some_iff]
  simp only [List.getElem?_take]
  constructor
  · rintro ⟨i, slot, hslot, hshown, hbehind⟩
    split at hslot
    · rename_i hi
      refine ⟨i, by omega, (shown_eq_some_iff h hslot).mp hshown, fun j other hij hj hshows => ?_⟩
      obtain ⟨-, -, behind, hget, -⟩ := id hshows
      have hnone := hbehind j behind hij (by rw [if_pos (by omega), hget])
      rw [(shown_eq_some_iff h hget).mpr hshows] at hnone
      cases hnone
    · cases hslot
  · rintro ⟨i, hi, hshows, hbehind⟩
    obtain ⟨-, -, slot, hslot, -⟩ := id hshows
    refine ⟨i, slot, by rw [if_pos (by omega), hslot], (shown_eq_some_iff h hslot).mpr hshows, ?_⟩
    intro j behind hij hget
    split at hget
    · rename_i hj
      cases hshown : r.shown skipCommas behind with
      | none => rfl
      | some other =>
          exact absurd ((shown_eq_some_iff h hget).mp hshown) (hbehind j other hij (by omega))
    · cases hget

end Reading

/-! ## The caret -/

/-- What is true of a caret and the reading it was found in. -/
structure Caret.IsSound (caret : Caret) (r : Reading) (skipCommas : Bool) : Prop where
  /-- A token is reported exactly if some character up to the offset shows one. -/
  isSome_token : caret.token.isSome = true ↔
    ∃ i ≤ min caret.offset (r.setting.source.length - 1), ∃ token, r.Shows skipCommas i token
  /-- The token is the one that is shown last. -/
  token : ∀ token, caret.token = some token → ∃ i ≤ caret.offset, r.Shows skipCommas i token ∧
    ∀ j other, i < j → j ≤ caret.offset → ¬ r.Shows skipCommas j other
  /-- A phrase is reported exactly if one was noted that encloses the token. -/
  isSome_phrase : caret.phrase.isSome = true ↔ ∃ token, caret.token = some token ∧
    ∃ p ∈ r.notes.phrases, p.span.encloses token.fullSpan = true
  /-- The phrase encloses the token, and is the one around it. -/
  phrase : ∀ span, caret.phrase = some span → ∃ token, caret.token = some token ∧
    span.encloses token.span = true ∧ r.notes.IsAround token span
  /-- The phrase is one of those that were noted, and lies in the source. -/
  noted : ∀ span, caret.phrase = some span → (∃ p ∈ r.notes.phrases, p.span = span) ∧
    span.start < span.stop ∧ span.stop ≤ r.setting.source.length
  /-- Replacing the phrase keeps what is before it and behind it. -/
  replace : ∀ span, caret.phrase = some span → ∀ replacement, caret.replace replacement =
    String.ofList (r.setting.source.take span.start ++ replacement.toList ++
      r.setting.source.drop span.stop)
  /-- Replacing the phrase by its own text changes nothing. -/
  replace_self : ∀ span, caret.phrase = some span →
    caret.replace (r.setting.slice span) = r.setting.text
  /-- Appending a condition keeps what is before the end of the phrase and behind it. -/
  append : ∀ span, caret.phrase = some span → ∀ connective addition,
    caret.append connective addition = String.ofList (r.setting.source.take span.stop ++
      (" " ++ connective.keyword ++ " " ++ addition).toList ++ r.setting.source.drop span.stop)

namespace Reading

variable {text : String} {registry : Registry} {ceilings : Ceilings} {forest : TokenForest}

/-- Reading the clauses changes the notes only. -/
lemma evaluate_eq (r : Reading) : r.evaluate.2 = { r with notes := r.evaluate.2.notes } := by
  unfold evaluate resume
  rcases hread : Reader.on (Clause.readAll r.setting r.elements) r.notes with ⟨problem | u, notes⟩
  · have hrun : ((Clause.readAll r.setting r.elements).run.run r.notes).run =
        (.error problem, notes) := hread
    rw [hrun]
  · have hrun : ((Clause.readAll r.setting r.elements).run.run r.notes).run = (.ok u, notes) :=
      hread
    rw [hrun]

/-- A caret stands in the source at its offset. -/
lemma source_caretAt (r : Reading) (offset : Nat) (skipCommas : Bool) :
    (r.caretAt offset skipCommas).source = r.setting.source ∧
      (r.caretAt offset skipCommas).offset = offset := by
  unfold caretAt
  split <;> exact ⟨rfl, rfl⟩

/-- A token is found for the caret if some character up to it shows one. -/
lemma isSome_locate (h : r.IsOwned) {i : Nat} (hi : i ≤ offset)
    (hshows : r.Shows skipCommas i token) : (Caret.locate r offset skipCommas).isSome = true := by
  obtain ⟨-, -, slot, hslot, -⟩ := id hshows
  have hmem : slot ∈ r.forest.slots.take (offset + 1) :=
    List.mem_of_getElem? (i := i) (by rw [List.getElem?_take, if_pos (by omega), hslot])
  have hlocate : Caret.locate r offset skipCommas =
      (r.forest.slots.take (offset + 1)).reverse.findSome? (r.shown skipCommas) := rfl
  rw [hlocate, List.findSome?_isSome_iff]
  exact ⟨slot, List.mem_reverse.mpr hmem, by rw [(shown_eq_some_iff h hslot).mpr hshows]; rfl⟩

/-- The token under the caret is the one that is located. -/
lemma token_caretAt (r : Reading) (offset : Nat) (skipCommas : Bool) :
    (r.caretAt offset skipCommas).token = Caret.locate r offset skipCommas := by
  unfold caretAt
  split
  · rename_i token hlocate
    rw [hlocate]
    rfl
  · rename_i hlocate
    rw [hlocate]

/-- The phrase under the caret is the one around the token that is located. -/
lemma phrase_caretAt (r : Reading) (offset : Nat) (skipCommas : Bool) :
    (r.caretAt offset skipCommas).phrase =
      (Caret.locate r offset skipCommas).bind fun token =>
        (Caret.phraseAround r.notes token).map Phrase.span := by
  unfold caretAt
  split
  · rename_i token hlocate
    rw [hlocate]
    rfl
  · rename_i hlocate
    rw [hlocate]
    rfl

/-- An edit works on the phrase, where there is one. -/
lemma edits_of_phrase {caret : Caret} {source : List Char} {span : Span}
    (hsource : caret.source = source) (hphrase : caret.phrase = some span)
    (hle : span.start ≤ span.stop) (hstop : span.stop ≤ source.length) :
    (∀ replacement, caret.replace replacement = String.ofList
        (source.take span.start ++ replacement.toList ++ source.drop span.stop)) ∧
      ∀ connective addition, caret.append connective addition = String.ofList
        (source.take span.stop ++ (" " ++ connective.keyword ++ " " ++ addition).toList ++
          source.drop span.stop) := by
  have htarget : caret.target = span := by rw [Caret.target, hphrase]; rfl
  refine ⟨fun replacement => ?_, fun connective addition => ?_⟩
  · rw [Caret.replace, htarget, hsource, Span.splice_eq hle hstop]
  · rw [Caret.append, htarget, hsource, Span.splice_eq (s := ⟨span.stop, span.stop⟩) le_rfl hstop]

/-- The caret is sound in every reading whose characters have owners and whose phrases form a
forest. -/
lemma isSound_caretAt {r : Reading} (howned : r.IsOwned)
    (hlength : r.forest.slots.length = r.setting.source.length)
    (hforest : r.notes.IsForest r.setting.source r.tokens) (offset : Nat) (skipCommas : Bool) :
    (r.caretAt offset skipCommas).IsSound r skipCommas := by
  obtain ⟨hsource, hoffset⟩ := source_caretAt r offset skipCommas
  have htoken := token_caretAt r offset skipCommas
  have hphrase := phrase_caretAt r offset skipCommas
  have hlocated : ∀ token, Caret.locate r offset skipCommas = some token → token ∈ r.tokens := by
    intro token hlocate
    obtain ⟨-, -, ⟨hmem, -⟩, -⟩ := (locate_eq_some_iff howned).mp hlocate
    exact hmem
  -- the phrase, where one is reported, is the one around the token that was located
  have haround : ∀ span, (r.caretAt offset skipCommas).phrase = some span →
      ∃ token, (r.caretAt offset skipCommas).token = some token ∧ r.notes.IsAround token span := by
    intro span hspan
    rw [hphrase, Option.bind_eq_some_iff] at hspan
    obtain ⟨token, hlocate, hspan⟩ := hspan
    exact ⟨token, htoken.trans hlocate,
      Notes.isAround_of_phraseAround hforest (hlocated token hlocate) hspan⟩
  have hnoted : ∀ span, (r.caretAt offset skipCommas).phrase = some span →
      (∃ p ∈ r.notes.phrases, p.span = span) ∧
        span.start < span.stop ∧ span.stop ≤ r.setting.source.length := by
    intro span hspan
    obtain ⟨token, -, hspan⟩ := haround span hspan
    obtain ⟨-, p, hp, rfl⟩ := hspan.encloses
    exact ⟨⟨p, hp, rfl⟩, hforest.inSource p hp⟩
  have hedits : ∀ span, (r.caretAt offset skipCommas).phrase = some span → _ := fun span hspan =>
    edits_of_phrase hsource hspan (hnoted span hspan).2.1.le (hnoted span hspan).2.2
  refine ⟨?_, ?_, ?_, ?_, hnoted, fun span hspan => (hedits span hspan).1, ?_,
    fun span hspan => (hedits span hspan).2⟩
  · rw [htoken, hoffset]
    constructor
    · intro hsome
      obtain ⟨token, hlocate⟩ := Option.isSome_iff_exists.mp hsome
      obtain ⟨i, hi, hshows, -⟩ := (locate_eq_some_iff howned).mp hlocate
      obtain ⟨-, -, slot, hslot, -⟩ := id hshows
      have hlt := (List.getElem?_eq_some_iff.mp hslot).1
      exact ⟨i, by omega, token, hshows⟩
    · rintro ⟨i, hi, token, hshows⟩
      exact isSome_locate howned (by omega) hshows
  · intro token hlocate
    rw [htoken, locate_eq_some_iff howned] at hlocate
    rwa [hoffset]
  · rw [hphrase]
    simp only [htoken]
    constructor
    · intro hsome
      obtain ⟨span, hspan⟩ := Option.isSome_iff_exists.mp hsome
      obtain ⟨token, hlocate, hspan⟩ := Option.bind_eq_some_iff.mp hspan
      obtain ⟨hencloses, p, hp, rfl⟩ :=
        (Notes.isAround_of_phraseAround hforest (hlocated token hlocate) hspan).encloses
      exact ⟨token, hlocate, p, hp, hencloses⟩
    · rintro ⟨token, hlocate, p, hp, hencloses⟩
      rw [hlocate, Option.bind_some, Option.isSome_map]
      exact Notes.isSome_phraseAround hforest (hlocated token hlocate) hp hencloses
  · intro span hspan
    obtain ⟨token, hlocate, hspan⟩ := haround span hspan
    refine ⟨token, hlocate, Span.encloses_trans hspan.encloses.1 ?_, hspan⟩
    rw [Span.encloses_iff, token.start_fullSpan]
    exact ⟨le_rfl, token.stop_span_le_fullSpan⟩
  · intro span hspan
    rw [(hedits span hspan).1, Setting.slice, String.toList_ofList,
      Span.take_append_slice_append_drop (hnoted span hspan).2.1.le]
    rfl

/-- At every offset of a text that can be cut into tokens, the caret is sound, whether the clauses
of the text could be read or not. -/
theorem exists_caretAt_isSound (registry : Registry)
    (h : TokenForest.ofText text ceilings = .ok forest) (offset : Nat) (skipCommas : Bool) :
    ∃ r, start text registry ceilings = .ok r ∧
      r.setting.source = text.toList.map Text.straightenChar ∧ r.forest = forest.merge ∧
      r.evaluate.2.setting = r.setting ∧ r.evaluate.2.forest = r.forest ∧ r.evaluate.2.IsOwned ∧
      (r.evaluate.2.caretAt offset skipCommas).offset = offset ∧
      (r.evaluate.2.caretAt offset skipCommas).IsSound r.evaluate.2 skipCommas := by
  have hstart : start text registry ceilings = .ok
      ⟨⟨forest.source, registry, ceilings⟩, forest.merge,
        { draft := { problems := forest.problems } }⟩ := by
    unfold start
    rw [h]
    rfl
  refine ⟨_, hstart, TokenForest.source_eq h, rfl, ?_⟩
  set r : Reading := ⟨⟨forest.source, registry, ceilings⟩, forest.merge,
    { draft := { problems := forest.problems } }⟩
  have hsetting : r.evaluate.2.setting = r.setting := by rw [evaluate_eq r]
  have hmerged : r.evaluate.2.forest = r.forest := by rw [evaluate_eq r]
  have htokens : r.evaluate.2.tokens = r.tokens := congrArg TokenForest.tokens hmerged
  have howned : r.evaluate.2.IsOwned := by
    refine ⟨?_, fun offset slot => ?_⟩
    · rw [htokens]
      exact TokenForest.nodup_ids_merge h
    · rw [htokens, hmerged]
      exact TokenForest.exists_owner h
  have hlength : r.evaluate.2.forest.slots.length = r.evaluate.2.setting.source.length := by
    obtain ⟨next, htiles⟩ := TokenForest.exists_tiles h
    rw [hmerged, hsetting]
    exact (List.length_map _).trans ((Nat.zero_add _).symm.trans htiles.length_slots)
  have hforest : r.evaluate.2.notes.IsForest r.evaluate.2.setting.source r.evaluate.2.tokens := by
    have hsource : r.setting.source = text.toList.map Text.straightenChar := TokenForest.source_eq h
    rw [htokens, hsetting, hsource]
    exact Notes.isForest_of_phrases (isForest_phrases hstart) (nonempty_tokens hstart)
  refine ⟨hsetting, hmerged, howned, (source_caretAt _ _ _).2, ?_⟩
  exact isSound_caretAt howned hlength hforest offset skipCommas

/-- The caret on a comma that is skipped, inside a negated condition, of a text that is not read to
its end. It stops at the value before the comma, and its phrase is the negation. -/
theorem exists_caretAt_isSound_comma : ∃ forest r,
    TokenForest.ofText "SELECT a WHERE b = 1 AND NOT c IN (2, 3) LIMIT x" {} = .ok forest ∧
      start "SELECT a WHERE b = 1 AND NOT c IN (2, 3) LIMIT x" .empty {} = .ok r ∧
      r.evaluate.1 = false ∧
      (r.evaluate.2.caretAt 36 true).token.map Token.text = some "2" ∧
      (r.evaluate.2.caretAt 36 true).phrase = some ⟨25, 40⟩ ∧
      (r.evaluate.2.caretAt 36 true).replace "d = 4" =
        "SELECT a WHERE b = 1 AND d = 4 LIMIT x" ∧
      (r.evaluate.2.caretAt 36 true).IsSound r.evaluate.2 true := by
  have hsample : (start "SELECT a WHERE b = 1 AND NOT c IN (2, 3) LIMIT x" .empty {}).toOption.any
      (fun r => !r.evaluate.1 &&
        (r.evaluate.2.caretAt 36 true).token.map Token.text == some "2" &&
        (r.evaluate.2.caretAt 36 true).phrase == some ⟨25, 40⟩ &&
        (r.evaluate.2.caretAt 36 true).replace "d = 4" ==
          "SELECT a WHERE b = 1 AND d = 4 LIMIT x") = true := by
    decide +kernel
  cases hforest : TokenForest.ofText "SELECT a WHERE b = 1 AND NOT c IN (2, 3) LIMIT x" {} with
  | error problem =>
    rw [start, hforest] at hsample
    cases hsample
  | ok forest =>
    obtain ⟨r, hstart, -, -, -, -, -, -, hsound⟩ := exists_caretAt_isSound .empty hforest 36 true
    rw [hstart] at hsample
    simp only [Except.toOption, Option.any_some, Bool.and_eq_true, beq_iff_eq,
      Bool.not_eq_true'] at hsample
    obtain ⟨⟨⟨hfails, htoken⟩, hphrase⟩, hreplace⟩ := hsample
    exact ⟨forest, r, rfl, hstart, hfails, htoken, hphrase, hreplace, hsound⟩

end Reading

end RecordQuery
