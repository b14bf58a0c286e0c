import RecordQuery.Proofs.Covering
import RecordQuery.Proofs.Nesting

/-!
# Operators and connectives cover what they join

Before the tiers of a phrase are settled, each of its items is a cell, and the operators among them
are free. An operator that is settled makes one cell of its own and those of its neighbours, which
stand beside it, so the items that are left are still cells in a row. At the end of the tiers there
is one cell for the whole phrase.

A chain of such phrases has the connectives between them as free cells. The runs that `AND` joins
become one cell each, and the connectives between the runs stay free for `OR`.
-/

namespace RecordQuery

open Reader RecordQuery.Span

/-- A token with its list encloses the token alone. -/
lemma Token.encloses_fullSpan (token : Token) : token.fullSpan.encloses token.span = true := by
  rw [encloses_iff, token.start_fullSpan]
  exact ⟨le_rfl, token.stop_span_le_fullSpan⟩

/-! ## Noting a phrase -/

/-- Noting a phrase builds what the phrases then are. -/
lemma Parse.builds_recordPhrase {length : Nat} {before after : List Phrase → Prop} (anchor : Token)
    (span : Span) (operator : Operator)
    (h : ∀ phrases, Phrase.IsForest length phrases → before phrases →
      Phrase.IsForest length
          (phrases ++ [⟨operator.kind, anchor.id, span, operator.withSpan span⟩]) ∧
        after (phrases ++ [⟨operator.kind, anchor.id, span, operator.withSpan span⟩])) :
    Builds length before (recordPhrase anchor span operator) fun _ => after := by
  intro notes hforest hbefore
  have hafter := h _ hforest hbefore
  rw [← Array.toList_push] at hafter
  refine ⟨hafter.1, ?_⟩
  rintro _ ⟨⟩
  exact hafter.2

namespace Phrase

variable {s : Setting} {r : Region} {mid : Nat} {as bs : List Cell} {rest : List Span}

/-! ## Settling the operators of a phrase -/

/-- The cells that a claim covers. -/
def claimCells (own : Span) (claim : Claim) : List Cell :=
  claim.left.toList.map Item.cell ++ ⟨own, true⟩ :: claim.right.toList.map Item.cell

/-- A settled operator is one cell in place of those it claims. -/
lemma builds_settle (own : Span) (claim : Claim) :
    Builds r.length (Settled r mid (as ++ claimCells own claim ++ bs) rest) (settle s own claim)
      fun item => Settled r mid (as ++ item.cell :: bs) rest := by
  unfold settle
  refine .bind_quiet (claim.quiet_produce _) fun operator => ?_
  have hfold := foldl_cover Item.span (claim.left.toList ++ claim.right.toList) own
  obtain ⟨hown, hitems, hleast⟩ := hfold
  have hcells : ∀ t : Span, (∀ m ∈ claimCells own claim, t.encloses m.span = true) ↔
      t.encloses own = true ∧
        ∀ item ∈ claim.left.toList ++ claim.right.toList, t.encloses item.span = true := by
    intro t
    simp only [claimCells, List.forall_mem_append, List.forall_mem_cons, List.forall_mem_map,
      Item.cell]
    tauto
  have hrecord : Builds r.length (Settled r mid (as ++ claimCells own claim ++ bs) rest)
      (Parse.recordPhrase claim.token (claim.span own) operator)
      fun _ => Settled r mid (as ++ ⟨claim.span own, false⟩ :: bs) rest := by
    refine Parse.builds_recordPhrase _ _ _ fun phrases hforest h => ?_
    refine h.cover_least (c := ⟨own, true⟩) (by simp [claimCells]) rfl ?_ (fun t ht => ?_) hforest
    · exact (hcells _).mpr ⟨hown, hitems⟩
    · obtain ⟨htown, htitems⟩ := (hcells t).mp ht
      exact hleast t htown htitems
  exact hrecord.bind fun _ => .pure fun _ => id

/-- What an operator claims and what it leaves is all there was. -/
lemma toList_append_tail (claims : Bool) (items : List Item) :
    (if claims then items.head? else none).toList ++ (if claims then items.tail else items) =
      items := by
  cases claims <;> cases items <;> rfl

/-- An item that waits to be an operator is a free cell. -/
lemma cell_of_pendingAt? {tier : Nat} {item : Item} {waiting : Kind × Option (List Item)}
    (h : pendingAt? tier item = some waiting) : item.cell = ⟨item.span, true⟩ := by
  obtain ⟨token, span, term⟩ := item
  obtain ⟨rfl, -⟩ := term_of_pendingAt? h
  rfl

/-- Going over the items from left to right leaves cells in a row. -/
lemma builds_passForward (tier : Nat) : (budget : Nat) → (before after : List Item) →
    Builds r.length
      (Settled r mid (as ++ ((before.reverse ++ after).map Item.cell ++ bs)) rest)
      (passForward s tier budget before after)
      fun made => Settled r mid (as ++ (made.1.map Item.cell ++ bs)) rest
  | budget, before, [] => by
    unfold passForward
    rw [List.append_nil]
    exact .pure fun _ => id
  | budget, before, item :: after => by
    rw [passForward_cons]
    cases hpending : pendingAt? tier item with
    | none =>
      refine (builds_passForward tier budget (item :: before) after).mono ?_ fun _ _ => id
      rw [List.reverse_cons, List.append_assoc, List.singleton_append]
      exact fun _ => id
    | some waiting =>
      obtain ⟨kind, parameters⟩ := waiting
      dsimp only
      split
      · exact .stop
      · have hbefore := toList_append_tail kind.claimsLeft before
        have hafter := toList_append_tail kind.claimsRight after
        set left := if kind.claimsLeft then before.head? else none
        set right := if kind.claimsRight then after.head? else none
        set before' := if kind.claimsLeft then before.tail else before
        set after' := if kind.claimsRight then after.tail else after
        -- the row of cells, with the claim of the item and its neighbours in the middle
        have hrow : as ++ ((before.reverse ++ item :: after).map Item.cell ++ bs) =
            (as ++ before'.reverse.map Item.cell) ++
              claimCells item.span ⟨kind, item.token, parameters, left, right⟩ ++
              (after'.map Item.cell ++ bs) := by
          rw [← hbefore, ← hafter, claimCells]
          cases left <;> simp [cell_of_pendingAt? hpending]
        rw [hrow]
        refine .bind (builds_settle _ _) fun node => ?_
        refine (builds_passForward tier (budget - 1) (node :: before') after').mono ?_ fun _ _ => id
        intro phrases h
        simpa using h
termination_by _ _ after => after.length
decreasing_by
  · simp
  · simp only [List.length_cons]
    split
    · rw [List.length_tail]
      omega
    · omega

/-- Going over the items from right to left leaves cells in a row. -/
lemma builds_passBackward (tier budget : Nat) (items : List Item) :
    Builds r.length (Settled r mid (as ++ (items.map Item.cell ++ bs)) rest)
      (passBackward s tier budget items)
      fun made => Settled r mid (as ++ (made.1.map Item.cell ++ bs)) rest := by
  induction items generalizing as with
  | nil => exact .pure fun _ => id
  | cons item items ih =>
    rw [passBackward_cons]
    have hcons : ∀ items : List Item, as ++ ((item :: items).map Item.cell ++ bs) =
        as ++ [item.cell] ++ (items.map Item.cell ++ bs) := by simp
    rw [hcons]
    refine ih.bind fun made => ?_
    obtain ⟨after, budget⟩ := made
    dsimp only
    cases hpending : pendingAt? tier item with
    | none => exact .pure fun phrases h => by simpa using h
    | some waiting =>
      obtain ⟨kind, parameters⟩ := waiting
      dsimp only
      split
      · exact .stop
      · have hafter := toList_append_tail kind.claimsRight after
        set right := if kind.claimsRight then after.head? else none
        set after' := if kind.claimsRight then after.tail else after
        have hrow : as ++ [item.cell] ++ (after.map Item.cell ++ bs) =
            as ++ claimCells item.span ⟨kind, item.token, parameters, none, right⟩ ++
              (after'.map Item.cell ++ bs) := by
          rw [← hafter, claimCells]
          simp [cell_of_pendingAt? hpending]
        rw [hrow]
        exact (builds_settle _ _).bind fun node => .pure fun _ => id

/-- All passes together keep the cells of the items settled. -/
lemma builds_passes (items : List Item) :
    Builds r.length (Settled r mid (as ++ (items.map Item.cell ++ bs)) rest) (passes s items)
      fun made => Settled r mid (as ++ (made.map Item.cell ++ bs)) rest := by
  unfold passes
  refine (builds_passForward 1 _ [] items).bind fun made => ?_
  obtain ⟨items, budget⟩ := made
  refine (builds_passForward 2 budget [] items).bind fun made => ?_
  obtain ⟨items, budget⟩ := made
  refine (builds_passBackward 3 budget items).bind fun made => ?_
  obtain ⟨items, budget⟩ := made
  refine (builds_passBackward 4 budget items).bind fun made => ?_
  obtain ⟨items, budget⟩ := made
  exact (builds_passForward 5 budget [] items).bind fun made => .pure fun _ => id

/-- A phrase that is reduced is one cell. -/
lemma builds_reduce (items : List Item) :
    Builds r.length (Settled r mid (as ++ (items.map Item.cell ++ bs)) rest) (reduce s items)
      fun item => Settled r mid (as ++ item.cell :: bs) rest := by
  unfold reduce
  refine (builds_passes items).bind fun settled => ?_
  cases settled.find? fun item => (pendingAt? 0 item).isSome with
  | some item => exact .stop
  | none =>
    dsimp only
    split
    · exact .pure fun _ => id
    · exact .throw
    · exact .throw

/-! ## Joining conditions -/

/-- The cells of the connectives of a chain and of what stands behind each. -/
def linkCells : List (Token × Item) → List Cell
  | [] => []
  | (token, item) :: more => token.cell :: item.cell :: linkCells more

/-- The cells of a chain. -/
def chainCells (chain : Chain Item) : List Cell := chain.first.cell :: linkCells chain.more

/-- The cells of runs and of the connectives before them. -/
def runCells : List (Token × Chain Item) → List Cell
  | [] => []
  | (token, chain) :: more => token.cell :: (chainCells chain ++ runCells more)

/-- Cutting a chain into runs leaves its cells as they are. -/
lemma cells_andRuns (first : Item) (more : List (Token × Item)) :
    chainCells (andRuns first more).first ++ runCells (andRuns first more).more =
      chainCells ⟨first, more⟩ := by
  induction more generalizing first with
  | nil => rfl
  | cons link more ih =>
    obtain ⟨token, next⟩ := link
    rw [andRuns]
    split
    · have := ih next
      simp_all [chainCells, linkCells]
    · have := ih next
      simp_all [chainCells, linkCells, runCells]

/-- What encloses the items of a chain encloses the connectives between them. -/
lemma encloses_linkCells {t : Span} {lo hi : Nat} {more : List (Token × Item)} (hlo : t.start ≤ lo)
    (horder : InOrder lo hi ((linkCells more).map Cell.span))
    (hitems : ∀ link ∈ more, t.encloses link.2.span = true) :
    ∀ c ∈ linkCells more, t.encloses c.span = true := by
  induction more generalizing lo with
  | nil => simp [linkCells]
  | cons link more ih =>
    obtain ⟨token, item⟩ := link
    obtain ⟨htoken, -, hitem, hnonempty, horder⟩ := horder
    rw [List.forall_mem_cons] at hitems
    have hencloses := encloses_iff.mp hitems.1
    simp only [linkCells, List.forall_mem_cons]
    refine ⟨?_, hitems.1, ih ?_ horder hitems.2⟩
    · exact encloses_iff.mpr ⟨hlo.trans htoken, hitem.trans (hnonempty.le.trans hencloses.2)⟩
    · exact hencloses.1.trans hnonempty.le

/-- A span that encloses the cells of some links encloses their items. -/
lemma encloses_items_of_linkCells {t : Span} {more : List (Token × Item)}
    (h : ∀ c ∈ linkCells more, t.encloses c.span = true) :
    ∀ link ∈ more, t.encloses link.2.span = true := by
  induction more with
  | nil => simp
  | cons link more ih =>
    obtain ⟨token, item⟩ := link
    simp only [linkCells, List.forall_mem_cons] at h ⊢
    exact ⟨h.2.1, ih h.2.2⟩

/-- The items of a chain and the connectives between them become one cell. -/
lemma builds_join (connective : Connective) (chain : Chain Item) :
    Builds r.length (Settled r mid (as ++ chainCells chain ++ bs) rest)
      (join s connective chain) fun item => Settled r mid (as ++ item.cell :: bs) rest := by
  obtain ⟨first, more⟩ := chain
  unfold join
  cases more with
  | nil => exact .pure fun phrases h => by simpa [chainCells, linkCells] using h
  | cons link more =>
    obtain ⟨anchor, next⟩ := link
    dsimp only
    refine .bind_quiet (quiet_conditions _ _) fun operators => ?_
    have hfold := foldl_cover Item.span (first :: ((anchor, next) :: more).map Prod.snd) anchor.span
    set span := (first :: ((anchor, next) :: more).map Prod.snd).foldl
      (fun span item => span.cover item.span) anchor.span
    obtain ⟨-, hitems, hleast⟩ := hfold
    rw [List.forall_mem_cons, List.forall_mem_map] at hitems
    have hrecord : ∀ group : Operator,
        Builds r.length
          (Settled r mid (as ++ chainCells ⟨first, (anchor, next) :: more⟩ ++ bs) rest)
          (Parse.recordPhrase anchor span group)
          fun _ => Settled r mid (as ++ ⟨span, false⟩ :: bs) rest := by
      refine fun group => Parse.builds_recordPhrase _ _ _ fun phrases hforest h => ?_
      refine h.cover_least (c := anchor.cell) (by simp [chainCells, linkCells]) rfl ?_
        (fun t ht => ?_) hforest
      · have horder := h.read
        rw [List.append_assoc, List.map_append, inOrder_append] at horder
        obtain ⟨lo, -, horder⟩ := horder
        rw [List.map_append, inOrder_append] at horder
        obtain ⟨hi, ⟨-, hnonempty, horder⟩, -⟩ := horder
        rw [chainCells, List.forall_mem_cons]
        refine ⟨hitems.1, encloses_linkCells ?_ horder hitems.2⟩
        exact (encloses_iff.mp hitems.1).1.trans hnonempty.le
      · rw [chainCells, List.forall_mem_cons] at ht
        refine hleast t
          (encloses_trans (ht.2 anchor.cell (by simp [linkCells])) anchor.encloses_fullSpan) ?_
        rw [List.forall_mem_cons, List.forall_mem_map]
        exact ⟨ht.1, encloses_items_of_linkCells ht.2⟩
    exact (hrecord _).bind fun _ => .pure fun _ => id

/-- Joining several chains keeps their cells settled. -/
lemma builds_joinRuns (runs : List (Token × Chain Item)) :
    Builds r.length (Settled r mid (as ++ (runCells runs ++ bs)) rest) (joinRuns s runs)
      fun links => Settled r mid (as ++ (linkCells links ++ bs)) rest := by
  induction runs generalizing as with
  | nil => exact .pure fun _ => id
  | cons run runs ih =>
    obtain ⟨token, chain⟩ := run
    unfold joinRuns
    have hrow : as ++ (runCells ((token, chain) :: runs) ++ bs) =
        as ++ [token.cell] ++ chainCells chain ++ (runCells runs ++ bs) := by simp [runCells]
    rw [hrow]
    refine (builds_join .and chain).bind fun item => ?_
    have hrow : as ++ [token.cell] ++ item.cell :: (runCells runs ++ bs) =
        as ++ [token.cell, item.cell] ++ (runCells runs ++ bs) := by simp
    rw [hrow]
    exact ih.bind fun links => .pure fun phrases h => by simpa [linkCells] using h

/-- A chain that is folded is one cell. -/
lemma builds_fold (chain : Chain Item) :
    Builds r.length (Settled r mid (as ++ (chainCells chain ++ bs)) rest) (fold s chain)
      fun item => Settled r mid (as ++ item.cell :: bs) rest := by
  obtain ⟨first, more⟩ := chain
  unfold fold
  rw [← cells_andRuns]
  set runs := andRuns first more
  have hrow : as ++ (chainCells runs.first ++ runCells runs.more ++ bs) =
      as ++ chainCells runs.first ++ (runCells runs.more ++ bs) := by simp
  dsimp only
  rw [hrow]
  refine (builds_join .and runs.first).bind fun first => ?_
  have hrow : as ++ first.cell :: (runCells runs.more ++ bs) =
      as ++ [first.cell] ++ (runCells runs.more ++ bs) := by simp
  rw [hrow]
  refine (builds_joinRuns runs.more).bind fun links => ?_
  refine (builds_join .or ⟨first, links⟩).mono ?_ fun _ _ => id
  intro phrases h
  simpa [chainCells] using h

end Phrase

end RecordQuery
