import RecordQuery.Proofs.Recording

/-!
# How phrases come to cover a stretch of the source

While a sequence is read, the part of it that was read consists of *cells*: the items that were made
of it, and the keywords between them. A phrase that was noted lies in one of the cells, or was there
before and lies outside the sequence altogether. An operator that still waits for its neighbours,
and a keyword, are *free* cells: no phrase encloses them.

Noting a phrase makes one cell of some cells in a row. The new phrase encloses those cells, and with
them all phrases in them; it lies apart from all other cells; and it is larger than every phrase in
it, since it encloses a free cell and they do not. That is `Settled.cover`, the one step that lets a
forest of phrases grow. All that comes after it only says which cells there are: an operator covers
itself and its neighbours, a connective the conditions of a run, and a clause its keyword and body.
-/

namespace RecordQuery

/-! ## Spans in a row -/

namespace Span

/-- Whether spans lie one behind the other between two offsets, none of them empty. -/
def InOrder (lo hi : Nat) : List Span → Prop
  | [] => lo ≤ hi
  | s :: rest => lo ≤ s.start ∧ s.start < s.stop ∧ InOrder s.stop hi rest

/-- Where the last of some spans ends, or an offset if there is none. -/
def stopOf (lo : Nat) : List Span → Nat
  | [] => lo
  | s :: rest => stopOf s.stop rest

variable {lo hi : Nat} {as bs : List Span}

/-- A stretch with spans in order does not end before it starts. -/
lemma InOrder.le (h : InOrder lo hi as) : lo ≤ hi := by
  induction as generalizing lo with
  | nil => exact h
  | cons s rest ih =>
    have := ih h.2.2
    have := h.1
    have := h.2.1
    omega

/-- Spans in order are so in a longer stretch. -/
lemma InOrder.mono {lo' hi' : Nat} (h : InOrder lo hi as) (hlo : lo' ≤ lo) (hhi : hi ≤ hi') :
    InOrder lo' hi' as := by
  induction as generalizing lo lo' with
  | nil => exact hlo.trans (h.trans hhi)
  | cons s rest ih => exact ⟨hlo.trans h.1, h.2.1, ih h.2.2 le_rfl⟩

/-- Spans are in order one behind the other if there is a place between them. -/
lemma inOrder_append :
    InOrder lo hi (as ++ bs) ↔ ∃ mid, InOrder lo mid as ∧ InOrder mid hi bs := by
  induction as generalizing lo with
  | nil => exact ⟨fun h => ⟨lo, Nat.le_refl lo, h⟩, fun ⟨_, hmid, h⟩ => h.mono hmid le_rfl⟩
  | cons s rest ih =>
    simp only [List.cons_append, InOrder, ih]
    constructor
    · rintro ⟨hlo, hs, mid, hrest, hbs⟩
      exact ⟨mid, ⟨hlo, hs, hrest⟩, hbs⟩
    · rintro ⟨mid, ⟨hlo, hs, hrest⟩, hbs⟩
      exact ⟨hlo, hs, mid, hrest, hbs⟩

/-- A span in order is not empty and lies in the stretch. -/
lemma InOrder.of_mem {s : Span} (h : InOrder lo hi as) (hs : s ∈ as) :
    lo ≤ s.start ∧ s.start < s.stop ∧ s.stop ≤ hi := by
  induction as generalizing lo with
  | nil => cases hs
  | cons t rest ih =>
    obtain ⟨hlo, ht, hrest⟩ := h
    obtain rfl | hs := List.mem_cons.mp hs
    · exact ⟨hlo, ht, hrest.le⟩
    · obtain ⟨hstart, hstop⟩ := ih hrest hs
      exact ⟨by omega, hstop⟩

/-- The end of spans in two parts is the end of the second, from where the first ends. -/
lemma stopOf_append (lo : Nat) (as bs : List Span) :
    stopOf lo (as ++ bs) = stopOf (stopOf lo as) bs := by
  induction as generalizing lo with
  | nil => rfl
  | cons s rest ih => exact ih s.stop

/-- What a fold covers lies in every span that holds all its parts, and holds all of them. -/
lemma foldl_cover {α : Type} (f : α → Span) (items : List α) (own : Span) :
    (items.foldl (fun span item => span.cover (f item)) own).encloses own = true ∧
      (∀ item ∈ items,
        (items.foldl (fun span item => span.cover (f item)) own).encloses (f item) = true) ∧
      ∀ r : Span, r.encloses own = true → (∀ item ∈ items, r.encloses (f item) = true) →
        r.encloses (items.foldl (fun span item => span.cover (f item)) own) = true := by
  induction items generalizing own with
  | nil => exact ⟨encloses_self own, by simp, fun r hr _ => hr⟩
  | cons item rest ih =>
    rw [List.foldl_cons]
    obtain ⟨hown, hitems, hall⟩ := ih (own.cover (f item))
    have hcover : (own.cover (f item)).encloses own = true ∧
        (own.cover (f item)).encloses (f item) = true := by
      simp only [cover, encloses_iff]
      omega
    refine ⟨encloses_trans hown hcover.1, ?_, fun r hr hrest => ?_⟩
    · rw [List.forall_mem_cons]
      exact ⟨encloses_trans hown hcover.2, hitems⟩
    · rw [List.forall_mem_cons] at hrest
      refine hall r ?_ hrest.2
      have hitem := hrest.1
      simp only [cover, encloses_iff] at *
      omega

end Span

open RecordQuery.Span

/-! ## Cells -/

/-- A stretch of what was read, and whether it is known that no phrase encloses it. -/
structure Cell where
  span : Span
  isFree : Bool

/-- Whether an item is an operator that has not claimed its neighbours. -/
def Item.isPending (item : Item) : Bool :=
  match item.term with
  | .pending _ _ => true
  | _ => false

/-- The cell of an item. -/
def Item.cell (item : Item) : Cell := ⟨item.span, item.isPending⟩

/-- The cell of a keyword. -/
def Token.cell (token : Token) : Cell := ⟨token.fullSpan, true⟩

/-- A stretch of the source that a sequence takes up, and the phrases that were there before the
sequence was read. -/
structure Region where
  lo : Nat
  hi : Nat
  /-- The length of the source. -/
  length : Nat
  le_length : hi ≤ length
  old : List Phrase
  apart : ∀ p ∈ old, p.span.Apart ⟨lo, hi⟩

/-- What is known while a sequence is read: its cells lie in a row before `mid` and what is left of
it lies in a row behind; new phrases lie in the cells; and no phrase encloses a free one. -/
structure Settled (r : Region) (mid : Nat) (cells : List Cell) (rest : List Span)
    (phrases : List Phrase) : Prop where
  read : InOrder r.lo mid (cells.map Cell.span)
  unread : InOrder mid r.hi rest
  inside : ∀ p ∈ phrases, p ∈ r.old ∨ ∃ c ∈ cells, c.span.encloses p.span = true
  free : ∀ c ∈ cells, c.isFree = true → ∀ p ∈ phrases, p.span.encloses c.span = false

namespace Settled

variable {r : Region} {mid : Nat} {as ms bs : List Cell} {rest : List Span} {phrases : List Phrase}

/-- Phrases lie apart from what is not read yet. -/
lemma apart {s : Span} (h : Settled r mid as rest phrases) (hlo : mid ≤ s.start)
    (hhi : s.stop ≤ r.hi) {p : Phrase} (hp : p ∈ phrases) : p.span.Apart s := by
  have hmid := h.read.le
  obtain hold | ⟨c, hc, hencloses⟩ := h.inside p hp
  · refine (r.apart p hold).mono ?_
    rw [encloses_iff]
    exact ⟨hmid.trans hlo, hhi⟩
  · obtain ⟨-, -, hstop⟩ := h.read.of_mem (List.mem_map_of_mem hc)
    rw [encloses_iff] at hencloses
    exact .inl (by omega)

/-- A span that is passed over. -/
lemma skip {s : Span} (h : Settled r mid as (s :: rest) phrases) :
    Settled r s.stop as rest phrases where
  read := h.read.mono le_rfl (h.unread.1.trans h.unread.2.1.le)
  unread := h.unread.2.2
  inside := h.inside
  free := h.free

/-- The cell of a span that is read, with the phrases noted meanwhile strictly inside it. -/
lemma extend {s : Span} {isFree : Bool} {phrases' : List Phrase}
    (h : Settled r mid as (s :: rest) phrases)
    (hphrases : ∀ p ∈ phrases', p ∈ phrases ∨ s.encloses p.span = true ∧
    p.span.encloses s = false) : Settled r s.stop (as ++ [⟨s, isFree⟩]) rest phrases' where
  read := by
    rw [List.map_append, List.map_singleton]
    exact inOrder_append.mpr ⟨mid, h.read, h.unread.1, h.unread.2.1, Nat.le_refl _⟩
  unread := h.unread.2.2
  inside p hp := by
    obtain hp | ⟨hencloses, -⟩ := hphrases p hp
    · obtain hold | ⟨c, hc, hencloses⟩ := h.inside p hp
      · exact .inl hold
      · exact .inr ⟨c, List.mem_append_left _ hc, hencloses⟩
    · exact .inr ⟨⟨s, isFree⟩, by simp, hencloses⟩
  free c hc hfree p hp := by
    have hs := h.unread.2.1
    have hstop := h.unread.2.2.le
    obtain hc | hc := List.mem_append.mp hc
    · obtain hp | ⟨hencloses, -⟩ := hphrases p hp
      · exact h.free c hc hfree p hp
      · -- a phrase in the new cell lies apart from the others
        obtain ⟨-, hnonempty, hbefore⟩ := h.read.of_mem (List.mem_map_of_mem hc)
        have hstart := h.unread.1
        by_contra hp
        rw [Bool.not_eq_false] at hp
        rw [encloses_iff] at hp hencloses
        omega
    · obtain rfl := List.mem_singleton.mp hc
      obtain hp | ⟨-, hsmaller⟩ := hphrases p hp
      · by_contra hencloses
        rw [Bool.not_eq_false] at hencloses
        exact not_apart_of_encloses hs hencloses (encloses_self s) (h.apart h.unread.1 hstop hp)
      · exact hsmaller

/-- The cell of a keyword that is read. -/
lemma keyword {token : Token} (h : Settled r mid as (token.fullSpan :: rest) phrases) :
    Settled r token.fullSpan.stop (as ++ [token.cell]) rest phrases :=
  h.extend fun _ hp => .inl hp

/-- A phrase over some cells in a row, of which one is free, makes one cell of them, and is noted
after all phrases in it. -/
lemma cover {l s : Nat} {c : Cell} {p : Phrase}
    (h : Settled r mid (as ++ ms ++ bs) rest phrases)
    (has : InOrder r.lo l (as.map Cell.span)) (hms : InOrder l s (ms.map Cell.span))
    (hbs : InOrder s mid (bs.map Cell.span)) (hcell : c ∈ ms) (hfree : c.isFree = true)
    (hcovers : ∀ m ∈ ms, p.span.encloses m.span = true)
    (hwithin : (⟨l, s⟩ : Span).encloses p.span = true)
    (hforest : Phrase.IsForest r.length phrases) : Phrase.IsForest r.length (phrases ++ [p]) ∧
      Settled r mid (as ++ ⟨p.span, false⟩ :: bs) rest (phrases ++ [p]) := by
  obtain ⟨-, hnonempty, -⟩ := hms.of_mem (List.mem_map_of_mem hcell)
  have hc := encloses_iff.mp (hcovers c hcell)
  have hwithin' := encloses_iff.mp hwithin
  have hl := has.le
  have hs := hbs.le
  have hrest := h.unread.le
  have hlength := r.le_length
  dsimp only at hwithin'
  -- the cells on either side lie apart from the phrase
  have houter : ∀ m ∈ as ++ bs, m.span.Apart p.span ∧ m.span.start < m.span.stop := by
    intro m hm
    obtain hm | hm := List.mem_append.mp hm
    · obtain ⟨-, hm, hstop⟩ := has.of_mem (List.mem_map_of_mem hm)
      exact ⟨.inl (by omega), hm⟩
    · obtain ⟨hstart, hm, -⟩ := hbs.of_mem (List.mem_map_of_mem hm)
      exact ⟨.inr (by omega), hm⟩
  have hcells : ∀ m, m ∈ as ++ ms ++ bs ↔ m ∈ ms ∨ m ∈ as ++ bs := by
    intro m
    simp only [List.mem_append]
    tauto
  refine ⟨hforest.concat (by omega) (by omega) fun q hq => ?_, ?_, h.unread, fun q hq => ?_,
    fun m hm hmfree q hq => ?_⟩
  · obtain hold | ⟨m, hm, hencloses⟩ := h.inside q hq
    · refine .inl ((r.apart q hold).mono ?_)
      rw [encloses_iff]
      dsimp only
      omega
    · obtain hm | hm := (hcells m).mp hm
      · refine .inr ⟨encloses_trans (hcovers m hm) hencloses, ?_⟩
        by_contra hlarger
        rw [Bool.not_eq_false] at hlarger
        have := h.free c ((hcells c).mpr (.inl hcell)) hfree q hq
        rw [encloses_trans hlarger (hcovers c hcell)] at this
        cases this
      · exact .inl ((houter m hm).1.symm.mono hencloses).symm
  · rw [List.map_append, List.map_cons]
    have hnonempty : p.span.start < p.span.stop := by omega
    exact inOrder_append.mpr ⟨l, has, hwithin'.1, hnonempty, hbs.mono hwithin'.2 le_rfl⟩
  · obtain hq | hq := List.mem_append.mp hq
    · obtain hold | ⟨m, hm, hencloses⟩ := h.inside q hq
      · exact .inl hold
      · obtain hm | hm := (hcells m).mp hm
        · exact .inr ⟨⟨p.span, false⟩, by simp, encloses_trans (hcovers m hm) hencloses⟩
        · exact .inr ⟨m, by simp only [List.mem_append, List.mem_cons] at hm ⊢; tauto, hencloses⟩
    · obtain rfl := List.mem_singleton.mp hq
      exact .inr ⟨⟨q.span, false⟩, by simp, encloses_self _⟩
  · replace hm : m ∈ as ++ bs := by
      simp only [List.mem_append, List.mem_cons] at hm ⊢
      obtain hm | rfl | hm := hm
      · exact .inl hm
      · cases hmfree
      · exact .inr hm
    obtain hq | hq := List.mem_append.mp hq
    · exact h.free m ((hcells m).mpr (.inr hm)) hmfree q hq
    · obtain rfl := List.mem_singleton.mp hq
      obtain ⟨hapart, hnonempty⟩ := houter m hm
      by_contra hencloses
      rw [Bool.not_eq_false] at hencloses
      exact not_apart_of_encloses hnonempty (encloses_self _) hencloses hapart

/-- A phrase that is the least cover of some cells in a row, of which one is free, makes one cell of
them. -/
lemma cover_least {c : Cell} {p : Phrase} (h : Settled r mid (as ++ ms ++ bs) rest phrases)
    (hcell : c ∈ ms) (hfree : c.isFree = true)
    (hcovers : ∀ m ∈ ms, p.span.encloses m.span = true)
    (hleast : ∀ t : Span, (∀ m ∈ ms, t.encloses m.span = true) → t.encloses p.span = true)
    (hforest : Phrase.IsForest r.length phrases) :
    Phrase.IsForest r.length (phrases ++ [p]) ∧
      Settled r mid (as ++ ⟨p.span, false⟩ :: bs) rest (phrases ++ [p]) := by
  have hread := h.read
  rw [List.map_append, List.map_append] at hread
  obtain ⟨s, hread, hbs⟩ := inOrder_append.mp hread
  obtain ⟨l, has, hms⟩ := inOrder_append.mp hread
  refine h.cover has hms hbs hcell hfree hcovers (hleast ⟨l, s⟩ fun m hm => ?_) hforest
  obtain ⟨hstart, -, hstop⟩ := hms.of_mem (List.mem_map_of_mem hm)
  exact encloses_iff.mpr ⟨hstart, hstop⟩

end Settled

end RecordQuery
