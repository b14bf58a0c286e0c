import Mathlib.Tactic.Common
import RecordQuery.Proofs.Guards
import RecordQuery.Reading

/-!
# Readings as functions of notes

A reading takes notes and leaves notes, whether it succeeds or fails. `Reader.on` runs a reading on
given notes, and the lemmas of this file say what the building blocks of readings do to them. All
that is proved about readings elsewhere goes through these lemmas; the layers of the monad are not
opened again. The equations at the end leave proofs out of definitions, and tell where a clause is
noted.
-/

namespace RecordQuery

namespace Reader

variable {ε δ α β : Type}

/-- What a reading comes to on given notes, and the notes it leaves. -/
def on (reading : Reader ε α) (notes : Notes) : Except ε α × Notes :=
  (ExceptT.run reading).run notes

/-- Going on with a reading that has succeeded or failed. -/
def goOn (outcome : Except ε α × Notes) (next : α → Reader ε β) : Except ε β × Notes :=
  match outcome with
  | (.ok a, notes) => on (next a) notes
  | (.error e, notes) => (.error e, notes)

@[simp] lemma goOn_ok (a : α) (notes : Notes) (next : α → Reader ε β) :
    goOn (.ok a, notes) next = on (next a) notes := rfl

@[simp] lemma goOn_error (e : ε) (notes : Notes) (next : α → Reader ε β) :
    goOn (.error e, notes) next = (.error e, notes) := rfl

@[simp] lemma on_pure (a : α) (notes : Notes) :
    on (pure a : Reader ε α) notes = (.ok a, notes) := rfl

@[simp] lemma on_throw (e : ε) (notes : Notes) :
    on (throw e : Reader ε α) notes = (.error e, notes) := rfl

@[simp] lemma on_bind (reading : Reader ε α) (next : α → Reader ε β) (notes : Notes) :
    on (reading >>= next) notes = goOn (on reading notes) next := by
  rcases h : on reading notes with ⟨a | e, notes'⟩ <;>
    simp_all [on, goOn, bind, ExceptT.bind, ExceptT.bindCont, ExceptT.mk, ExceptT.run, StateT.run,
      StateT.bind]
  all_goals rfl

@[simp] lemma on_map (f : α → β) (reading : Reader ε α) (notes : Notes) :
    on (f <$> reading) notes = goOn (on reading notes) fun a => pure (f a) := by
  rw [map_eq_pure_bind, on_bind]

@[simp] lemma on_get (notes : Notes) : on (get : Reader ε Notes) notes = (.ok notes, notes) := rfl

@[simp] lemma on_modify (f : Notes → Notes) (notes : Notes) :
    on (modify f : Reader ε Unit) notes = (.ok (), f notes) := rfl

@[simp] lemma on_adapt (f : ε → δ) (reading : Reader ε α) (notes : Notes) :
    on (ExceptT.adapt f reading) notes =
      match on reading notes with
      | (.ok a, notes') => (.ok a, notes')
      | (.error e, notes') => (.error (f e), notes') := by
  have hadapt : ExceptT.adapt f reading = ExceptT.mk (Except.mapError f <$> reading.run) := rfl
  rw [hadapt]
  rcases h : on reading notes with ⟨a | e, notes'⟩ <;>
    simp_all [on, ExceptT.mk, ExceptT.run, StateT.run, StateT.map, Functor.map, Except.mapError]

/-! ## Readings that succeed -/

/-- If the first step succeeds, the second one goes on from its notes. -/
lemma on_bind_of_ok {reading : Reader ε α} {notes notes' : Notes} {a : α}
    (h : on reading notes = (.ok a, notes')) (next : α → Reader ε β) :
    on (reading >>= next) notes = on (next a) notes' := by
  rw [on_bind, h, goOn_ok]

/-- The steps of a reading that succeeds. -/
lemma exists_of_on_bind {reading : Reader ε α} {notes notes' : Notes} {next : α → Reader ε β}
    {b : β} (h : on (reading >>= next) notes = (.ok b, notes')) :
    ∃ a middle, on reading notes = (.ok a, middle) ∧ on (next a) middle = (.ok b, notes') := by
  rw [on_bind] at h
  rcases hreading : on reading notes with ⟨e | a, middle⟩
  · rw [hreading] at h
    cases h
  · rw [hreading, goOn_ok] at h
    exact ⟨a, middle, rfl, h⟩

/-- A reading whose failures are wrapped succeeds where the reading does. -/
lemma on_adapt_eq_ok {f : ε → δ} {reading : Reader ε α} {notes notes' : Notes} {a : α} :
    on (ExceptT.adapt f reading) notes = (.ok a, notes') ↔ on reading notes = (.ok a, notes') := by
  rw [on_adapt]
  rcases on reading notes with ⟨e | b, middle⟩ <;> simp

/-! ## What a reading ensures -/

/-- Whether everything that a reading can come to has a property. -/
def Ensures (P : α → Prop) (reading : Reader ε α) : Prop :=
  ∀ notes a notes', on reading notes = (.ok a, notes') → P a

/-- A result ensures what holds of it. -/
lemma Ensures.pure {P : α → Prop} {a : α} (h : P a) : Ensures P (pure a : Reader ε α) := by
  rintro notes _ _ ⟨⟩
  exact h

/-- A failure ensures anything. -/
lemma Ensures.throw {P : α → Prop} {e : ε} : Ensures P (throw e : Reader ε α) := by
  rintro notes _ _ ⟨⟩

/-- A reading that fails ensures anything, whatever was to come after it. -/
lemma Ensures.stop {P : β → Prop} {e : ε} {next : α → Reader ε β} :
    Ensures P (MonadExcept.throw e >>= next) := by
  intro notes b notes' hb
  rw [on_bind, on_throw, goOn_error] at hb
  cases hb

/-- What the second step ensures, given what the first one does, both together ensure. -/
lemma Ensures.bind {P : α → Prop} {Q : β → Prop} {reading : Reader ε α} {next : α → Reader ε β}
    (h : Ensures P reading) (hnext : ∀ a, P a → Ensures Q (next a)) :
    Ensures Q (reading >>= next) := by
  intro notes b notes' hb
  rw [on_bind] at hb
  rcases ha : on reading notes with ⟨a | a, _⟩ <;> rw [ha] at hb
  · cases hb
  · exact hnext a (h _ _ _ ha) _ _ _ hb

/-- What a reading ensures has nothing to do with how failures are reported. -/
lemma Ensures.adapt {P : α → Prop} {f : ε → δ} {reading : Reader ε α} (h : Ensures P reading) :
    Ensures P (ExceptT.adapt f reading) := by
  intro notes a notes' ha
  rw [on_adapt] at ha
  rcases hr : on reading notes with ⟨b | b, _⟩ <;> rw [hr] at ha
  · cases ha
  · cases ha
    exact h _ _ _ hr

/-- Every reading comes to something, if to anything. -/
lemma Ensures.trivial {reading : Reader ε α} : Ensures (fun _ => True) reading :=
  fun _ _ _ _ => True.intro

end Reader

/-! ## Equations

Drawing lists with commas in them looks at what is behind a phrase together with a proof that it is
shorter. These equations leave the proof out.
-/

namespace Phrase

/-- Drawing parameters is drawing one, and the others behind a comma. -/
lemma drawParameters_eq (setting : Setting) (owner : Token) (budget : Nat)
    (elements : List Element) : drawParameters setting owner budget elements = (do
      if budget = 0 then throw setting.exhausted
      match ← (drawOne setting elements).forget with
      | none =>
        Parse.failAt setting (.parameterExpected owner.text)
          ((elements.head?.map Element.token).getD owner)
      | some item =>
        match afterRun elements with
        | [] => return [item]
        | e :: rest =>
          if e.token.isComma then
            return item :: (← drawParameters setting owner (budget - 1) rest)
          else
            Parse.failAt setting
              (.leftoverInParameters (setting.describe e.token) owner.text) e.token) := by
  rw [drawParameters]
  dsimp only
  congr 1
  refine bind_congr fun item => ?_
  cases item with
  | none => rfl
  | some item =>
    dsimp only
    split <;> rename_i h <;> simp only [h]

end Phrase

namespace Clause

open Phrase

/-- Reading a list is reading one phrase, and the others behind a comma. -/
lemma commaList_eq (setting : Setting) (kind : Kind) (token : Token) (elements : List Element) :
    commaList setting kind token elements = (do
      match ← (drawOne setting elements).forget with
      | none =>
        Parse.failAt setting (.expressionExpected kind)
          ((elements.head?.map Element.token).getD token)
      | some item =>
        match afterRun elements with
        | [] => return ([item], [])
        | e :: rest =>
          if e.token.isComma then do
            let (items, left) ← commaList setting kind token rest
            return (item :: items, left)
          else return ([item], e :: rest)) := by
  rw [commaList]
  refine bind_congr fun item => ?_
  cases item with
  | none => rfl
  | some item =>
    dsimp only
    split <;> rename_i h <;> simp only [h]

/-- Reading the entries of an ordering is reading one, and the others behind a comma. -/
lemma orderEntries_eq (setting : Setting) (token : Token) (elements : List Element) :
    orderEntries setting token elements = (do
      let items ← (Phrase.readAll (entry elements) (afterEntry elements)).forget
      match items.getLast? with
      | none =>
        Parse.failAt setting (.expressionExpected .orderBy)
          ((elements.head?.map Element.token).getD token)
      | some last => do
        let operands ← orderEntry setting items.dropLast last
        match afterEntry elements with
        | [] => return (operands, [])
        | e :: rest =>
          if e.token.isComma then do
            let (more, left) ← orderEntries setting token rest
            return (operands ++ more, left)
          else return (operands, e :: rest)) := by
  rw [orderEntries]
  refine bind_congr fun items => ?_
  cases items.getLast? with
  | none => rfl
  | some last =>
    dsimp only
    refine bind_congr fun operands => ?_
    split <;> rename_i h <;> simp only [h]

/-! ## Noting clauses -/

/-- A clause that competes with none of those that come first is noted behind them. -/
lemma recordIn_append {before after : List (Kind × Operator)} {kind : Kind}
    (h : ∀ entry ∈ before, entry.1.competes kind = false) (clause : Operator) :
    Draft.recordIn kind clause (before ++ after) = before ++ Draft.recordIn kind clause after := by
  induction before with
  | nil => rfl
  | cons entry before ih =>
    obtain ⟨hentry, hbefore⟩ := List.forall_mem_cons.mp h
    have hne : entry.1 ≠ kind := by
      rintro rfl
      rw [Kind.competes, beq_self_eq_true] at hentry
      cases hentry
    rw [List.cons_append, Draft.recordIn, if_neg hne, ih hbefore, List.cons_append]

/-- A clause that competes with none that was noted is noted behind them. -/
lemma recordIn_eq_append {kind : Kind} {clauses : List (Kind × Operator)} (clause : Operator)
    (h : ∀ entry ∈ clauses, entry.1.competes kind = false) :
    Draft.recordIn kind clause clauses = clauses ++ [(kind, clause)] := by
  have hrecord : Draft.recordIn kind clause (clauses ++ []) =
      clauses ++ Draft.recordIn kind clause [] := recordIn_append h clause
  rwa [List.append_nil] at hrecord

end Clause

end RecordQuery
