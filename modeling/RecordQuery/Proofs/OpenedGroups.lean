import Mathlib.Data.List.Nodup
import Mathlib.Data.List.Range
import RecordQuery.Builder

/-!
# Groups that are opened and closed

What a sequence of calls of a builder asks for can be told without any tree: every condition that is
added comes with the groups that are open at that time (`Builder.Call.additions`). Groups are
numbered in the order in which they are opened, so that two of one sort are kept apart.

`Contents` are the conditions and groups that stand in a group, with what they hold, and the same
list can be read off them. An `Outline` is what the calls have made so far: contents, and at their
end the group that is open, which has an outline of its own. All calls work at its innermost end.
Adding a condition puts one entry behind the list, opening and closing leave it as it is, so that
the list of an outline is always that of the calls (`Outline.additions_run`).

Groups that never received a condition are no entries of the list. Dropping them, which
`Contents.trim` does, leaves the list as it is, too.
-/

namespace RecordQuery

/-- How an opened group holds its conditions: a connective joins them, or they are not all to
hold. -/
inductive GroupSort where
  | joined (connective : Connective)
  | negated
deriving DecidableEq, Repr

namespace GroupSort

/-- The connective between the conditions of a group. -/
def connective : GroupSort → Connective
  | joined connective => connective
  | negated => .and

/-- The condition that a group makes of the operator that joins its conditions. -/
def wrap : GroupSort → Operator → Operator
  | joined _, inner => inner
  | negated, inner => { kind := .not, operands := [.operator inner] }

/-- The group of some conditions. -/
def condition (sort : GroupSort) (conditions : List Operator) : Operator :=
  sort.wrap (.group sort.connective conditions)

/-- The operands that lead from a group to the operator that joins its conditions. -/
def steps : GroupSort → List Nat
  | joined _ => []
  | negated => [0]

end GroupSort

/-- A group that was opened. -/
structure OpenedGroup where
  number : Nat
  sort : GroupSort
deriving DecidableEq, Repr

/-! ## Calls -/

namespace Builder

/-- The calls that a builder is filled with. -/
inductive Call where
  | equals (property : PropertyRef) (value : ScalarValue)
  | notEquals (property : PropertyRef) (value : ScalarValue)
  | isIn (property : PropertyRef) (values : List ScalarValue)
  | openNegation
  | openGroup (connective : Connective)
  | close

/-- Makes a call. -/
def call (b : Builder) : Call → Builder
  | .equals property value => b.equals property value
  | .notEquals property value => b.notEquals property value
  | .isIn property values => b.isIn property values
  | .openNegation => b.openNegation
  | .openGroup connective => b.openGroup connective
  | .close => b.close

/-- Makes calls, one after the other. -/
def run (b : Builder) (calls : List Call) : Builder := calls.foldl call b

namespace Call

/-- What a call does. -/
inductive Effect where
  | adds (condition : Operator)
  | opens (sort : GroupSort)
  | closes

/-- What a call does. -/
def effect : Call → Effect
  | equals property value => .adds (leaf .equals property [value])
  | notEquals property value => .adds (leaf .notEquals property [value])
  | isIn property values => .adds (leaf .isIn property values)
  | openNegation => .opens .negated
  | openGroup connective => .opens (.joined connective)
  | close => .closes

/-- The condition that a call adds. -/
def condition? (call : Call) : Option Operator :=
  match call.effect with
  | .adds condition => some condition
  | _ => none

/-- The conditions that calls add, each with the groups that are open then, the outermost first.
Some groups are open at the start, and the next one to be opened gets a given number. -/
def additions (number : Nat) (opened : List OpenedGroup) :
    List Call → List (List OpenedGroup × Operator)
  | [] => []
  | call :: rest =>
    match call.effect with
    | .adds condition => (opened, condition) :: additions number opened rest
    | .opens sort => additions (number + 1) (opened ++ [⟨number, sort⟩]) rest
    | .closes => additions number opened.dropLast rest

/-- The conditions that are added are those of the calls. -/
lemma map_snd_additions (number : Nat) (opened : List OpenedGroup) (calls : List Call) :
    (additions number opened calls).map Prod.snd = calls.filterMap condition? := by
  induction calls generalizing number opened with
  | nil => rfl
  | cons call rest ih =>
    rcases heffect : call.effect with condition | sort | _ <;>
      simp [additions, condition?, heffect, ih]

/-- Only one call closes a group. -/
lemma effect_eq_closes_iff (call : Call) : call.effect = .closes ↔ call = .close := by
  cases call <;> simp [effect]

end Call

end Builder

/-! ## Contents of groups -/

/-- The conditions and groups that stand in a group, one after the other. -/
inductive Contents where
  | nil
  | condition (condition : Operator) (rest : Contents)
  | group (opened : OpenedGroup) (inside rest : Contents)

namespace Contents

/-- The operators that the conditions and groups are. -/
def operators : Contents → List Operator
  | nil => []
  | condition added rest => added :: rest.operators
  | group opened inside rest => opened.sort.condition inside.operators :: rest.operators

/-- The conditions, each with the groups it stands in, the outermost first. The contents stand in
some groups themselves. -/
def additions (around : List OpenedGroup) : Contents → List (List OpenedGroup × Operator)
  | nil => []
  | condition added rest => (around, added) :: rest.additions around
  | group opened inside rest => inside.additions (around ++ [opened]) ++ rest.additions around

/-- The numbers of the groups. -/
def numbers : Contents → List Nat
  | nil => []
  | condition _ rest => rest.numbers
  | group opened inside rest => opened.number :: (inside.numbers ++ rest.numbers)

/-- Contents with others behind them. -/
def append : Contents → Contents → Contents
  | nil, more => more
  | condition added rest, more => .condition added (rest.append more)
  | group opened inside rest, more => .group opened inside (rest.append more)

/-- Contents without the groups that hold no condition. -/
def trim : Contents → Contents
  | nil => nil
  | condition added rest => .condition added rest.trim
  | group opened inside rest =>
    match inside.trim with
    | nil => rest.trim
    | inside => .group opened inside rest.trim

/-- Whether every group holds something. -/
def IsFilled : Contents → Prop
  | nil => True
  | condition _ rest => rest.IsFilled
  | group _ inside rest => inside ≠ nil ∧ inside.IsFilled ∧ rest.IsFilled

variable (contents more : Contents)

@[simp] lemma operators_append :
    (contents.append more).operators = contents.operators ++ more.operators := by
  induction contents with
  | nil => rfl
  | condition added rest ih => rw [append, operators, operators, ih, List.cons_append]
  | group opened inside rest _ ih => rw [append, operators, operators, ih, List.cons_append]

@[simp] lemma additions_append (around : List OpenedGroup) :
    (contents.append more).additions around =
    contents.additions around ++ more.additions around := by
  induction contents with
  | nil => rfl
  | condition added rest ih => rw [append, additions, additions, ih, List.cons_append]
  | group opened inside rest _ ih => rw [append, additions, additions, ih, List.append_assoc]

@[simp] lemma numbers_append :
    (contents.append more).numbers = contents.numbers ++ more.numbers := by
  induction contents with
  | nil => rfl
  | condition added rest ih => rw [append, numbers, numbers, ih]
  | group opened inside rest _ ih =>
    rw [append, numbers, numbers, ih, List.cons_append, List.append_assoc]

/-- Contents make no operators exactly if there are none. -/
lemma operators_eq_nil_iff : contents.operators = [] ↔ contents = nil := by
  cases contents <;> simp [operators]

/-! ### Groups without conditions -/

/-- A group is left out if nothing remains of what it holds. -/
lemma trim_group (opened : OpenedGroup) (inside rest : Contents) :
    (inside.trim = nil ∧ (group opened inside rest).trim = rest.trim) ∨
      (inside.trim ≠ nil ∧
        (group opened inside rest).trim = .group opened inside.trim rest.trim) := by
  rw [trim]
  rcases inside.trim with _ | _ | _
  · exact .inl ⟨rfl, rfl⟩
  · exact .inr ⟨by simp, rfl⟩
  · exact .inr ⟨by simp, rfl⟩

/-- Trimmed contents hold no empty group. -/
lemma isFilled_trim : contents.trim.IsFilled := by
  induction contents with
  | nil => trivial
  | condition added rest ih => exact ih
  | group opened inside rest ihinside ihrest =>
    rcases trim_group opened inside rest with ⟨-, h⟩ | ⟨hinside, h⟩
    · rw [h]
      exact ihrest
    · rw [h]
      exact ⟨hinside, ihinside, ihrest⟩

@[simp] lemma additions_trim (around : List OpenedGroup) :
    contents.trim.additions around = contents.additions around := by
  induction contents generalizing around with
  | nil => rfl
  | condition added rest ih => rw [trim, additions, additions, ih]
  | group opened inside rest ihinside ihrest =>
    rw [additions, ← ihinside, ← ihrest]
    rcases trim_group opened inside rest with ⟨hinside, h⟩ | ⟨-, h⟩
    · rw [h, hinside, additions, List.nil_append]
    · rw [h, additions]

/-- Trimming leaves some of the groups, in order. -/
lemma numbers_trim_sublist : contents.trim.numbers.Sublist contents.numbers := by
  induction contents with
  | nil => exact .slnil
  | condition added rest ih => exact ih
  | group opened inside rest ihinside ihrest =>
    rw [numbers]
    rcases trim_group opened inside rest with ⟨-, h⟩ | ⟨-, h⟩
    · rw [h]
      exact (ihrest.trans (List.sublist_append_right _ _)).cons _
    · rw [h, numbers]
      exact (ihinside.append ihrest).cons_cons _

/-- Where every group holds something, some condition is there unless nothing is. -/
lemma IsFilled.additions_ne_nil {contents : Contents} (h : contents.IsFilled)
    (hne : contents ≠ nil) (around : List OpenedGroup) : contents.additions around ≠ [] := by
  induction contents generalizing around with
  | nil => exact absurd rfl hne
  | condition added rest ih => exact List.cons_ne_nil _ _
  | group opened inside rest ihinside ihrest =>
    obtain ⟨hinside, hfilled, -⟩ := h
    exact List.append_ne_nil_of_left_ne_nil (ihinside hfilled hinside _) _

end Contents

/-! ## What calls have made -/

/-- What the calls have made so far: contents, and behind them the group that is open, if there is
one, with an outline of its own. -/
inductive Outline where
  | here (contents : Contents)
  | within (contents : Contents) (opened : OpenedGroup) (inner : Outline)

namespace Outline

/-- The contents, once all groups are closed. -/
def closed : Outline → Contents
  | here contents => contents
  | within contents opened inner => contents.append (.group opened inner.closed .nil)

/-- The groups that are open, the outermost first. -/
def opened : Outline → List OpenedGroup
  | here _ => []
  | within _ opened inner => opened :: inner.opened

/-- An outline with a condition added to the innermost open group. -/
def add (condition : Operator) : Outline → Outline
  | here contents => here (contents.append (.condition condition .nil))
  | within contents opened inner => within contents opened (inner.add condition)

/-- An outline with a group opened in the innermost open one. -/
def enter (group : OpenedGroup) : Outline → Outline
  | here contents => within contents group (here .nil)
  | within contents opened inner => within contents opened (inner.enter group)

/-- An outline with the innermost open group closed. -/
def close : Outline → Outline
  | here contents => here contents
  | within contents opened (here inside) => here (contents.append (.group opened inside .nil))
  | within contents opened inner => within contents opened inner.close

/-- What calls make of an outline. The next group to be opened gets a given number. -/
def run (number : Nat) (outline : Outline) : List Builder.Call → Outline
  | [] => outline
  | call :: rest =>
    match call.effect with
    | .adds condition => (outline.add condition).run number rest
    | .opens sort => (outline.enter ⟨number, sort⟩).run (number + 1) rest
    | .closes => outline.close.run number rest

variable (outline : Outline)

/-! ### The innermost end -/

@[simp] lemma opened_add (condition : Operator) :
    (outline.add condition).opened = outline.opened := by
  induction outline with
  | here contents => rfl
  | within contents opened inner ih => rw [add, Outline.opened, ih, Outline.opened]

/-- Adding a condition puts one entry behind the list, with the groups that are open. -/
lemma additions_add (condition : Operator) (around : List OpenedGroup) :
    (outline.add condition).closed.additions around =
      outline.closed.additions around ++ [(around ++ outline.opened, condition)] := by
  induction outline generalizing around with
  | here contents => simp [add, closed, Outline.opened, Contents.additions]
  | within contents opened inner ih =>
    simp [add, closed, Outline.opened, Contents.additions, ih]

/-- Adding a condition opens no group. -/
lemma numbers_add (condition : Operator) :
    (outline.add condition).closed.numbers = outline.closed.numbers := by
  induction outline with
  | here contents => simp [add, closed, Contents.numbers]
  | within contents opened inner ih => simp [add, closed, Contents.numbers, ih]

@[simp] lemma opened_enter (group : OpenedGroup) :
    (outline.enter group).opened = outline.opened ++ [group] := by
  induction outline with
  | here contents => rfl
  | within contents opened inner ih =>
      rw [enter, Outline.opened, ih, Outline.opened, List.cons_append]

/-- Opening a group adds nothing. -/
lemma additions_enter (group : OpenedGroup) (around : List OpenedGroup) :
    (outline.enter group).closed.additions around = outline.closed.additions around := by
  induction outline generalizing around with
  | here contents => simp [enter, closed, Contents.additions]
  | within contents opened inner ih => simp [enter, closed, Contents.additions, ih]

/-- Opening a group puts its number behind the others. -/
lemma numbers_enter (group : OpenedGroup) :
    (outline.enter group).closed.numbers = outline.closed.numbers ++ [group.number] := by
  induction outline with
  | here contents => simp [enter, closed, Contents.numbers]
  | within contents opened inner ih => simp [enter, closed, Contents.numbers, ih]

/-- A group that was just opened is an empty one, as if that had been added. -/
lemma operators_enter (group : OpenedGroup) :
    (outline.enter group).closed.operators =
      (outline.add (group.sort.condition [])).closed.operators := by
  induction outline with
  | here contents => simp [enter, add, closed, Contents.operators]
  | within contents opened inner ih => simp [enter, add, closed, Contents.operators, ih]

@[simp] lemma opened_close : outline.close.opened = outline.opened.dropLast := by
  induction outline using close.induct with
  | case1 contents => rfl
  | case2 contents opened inside => rfl
  | case3 contents opened inner hinner ih =>
    rw [close, Outline.opened, Outline.opened, ih]
    · cases inner with
      | here inside => exact absurd rfl (hinner inside)
      | within _ _ _ => rfl
    · exact hinner

@[simp] lemma closed_close : outline.close.closed = outline.closed := by
  induction outline using close.induct with
  | case1 contents => rfl
  | case2 contents opened inside => rfl
  | case3 contents opened inner hinner ih =>
    rw [close, closed, ih, closed]
    exact hinner

/-- Something is there once a condition was added. -/
lemma operators_add_ne_nil (condition : Operator) :
    (outline.add condition).closed.operators ≠ [] := by
  cases outline <;> simp [add, closed, Contents.operators]

/-- Nothing is there only where no group is open. -/
lemma eq_here_of_operators_eq_nil {outline : Outline} (h : outline.closed.operators = []) :
    outline = here .nil := by
  cases outline with
  | here contents => rw [(Contents.operators_eq_nil_iff contents).mp h]
  | within contents opened inner => simp [closed, Contents.operators] at h

/-! ### Runs -/

/-- The conditions in an outline are those that the calls have added, each in the groups that were
open then. -/
lemma additions_run (number : Nat) (calls : List Builder.Call) :
    (outline.run number calls).closed.additions [] =
      outline.closed.additions [] ++ Builder.Call.additions number outline.opened calls := by
  induction calls generalizing number outline with
  | nil => rw [run, Builder.Call.additions, List.append_nil]
  | cons call rest ih =>
    rw [run, Builder.Call.additions]
    split
    · rw [ih, additions_add, opened_add, List.append_assoc, List.nil_append, List.singleton_append]
    · rw [ih, additions_enter, opened_enter]
    · rw [ih, closed_close, opened_close]

/-- No number is given to two groups. -/
lemma nodup_numbers_run (number : Nat) (calls : List Builder.Call)
    (h : outline.closed.numbers = List.range number) :
    (outline.run number calls).closed.numbers.Nodup := by
  induction calls generalizing number outline with
  | nil =>
    rw [run, h]
    exact List.nodup_range
  | cons call rest ih =>
    rw [run]
    split
    · exact ih _ _ (by rw [numbers_add, h])
    · exact ih _ _ (by rw [numbers_enter, h, List.range_succ])
    · exact ih _ _ (by rw [closed_close, h])

/-- Nothing is there only where nothing was there and all calls have closed groups. -/
lemma operators_run_eq_nil_iff (number : Nat) (calls : List Builder.Call) :
    (outline.run number calls).closed.operators = [] ↔
      outline.closed.operators = [] ∧ ∀ call ∈ calls, call = .close := by
  induction calls generalizing number outline with
  | nil => simp [run]
  | cons call rest ih =>
    rw [run, List.forall_mem_cons, ← Builder.Call.effect_eq_closes_iff]
    split
    · rename_i heffect
      simp [ih, heffect, operators_add_ne_nil]
    · rename_i heffect
      simp [ih, heffect, operators_enter, operators_add_ne_nil]
    · rename_i heffect
      simp [ih, heffect, closed_close]

end Outline

end RecordQuery
