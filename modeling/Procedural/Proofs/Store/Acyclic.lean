import Mathlib.Data.Finset.Card
import Mathlib.Logic.Relation
import Procedural.Value

/-!
# Stores without cycles

One list holds another if that is one of its elements.  In a store in which no list holds
itself at any depth, values nest no more deeply than the number of cells.  So the bounds
on the depth of writing, comparing and searching never take effect: these functions
satisfy the equations of the unbounded recursion, which terminates.
-/

namespace Procedural

open Relation

theorem Datum.textList_eq_map (data : List Datum) : Datum.textList data = data.map Datum.text := by
  induction data with
  | nil => rfl
  | cons first rest induction => rw [Datum.textList, induction, List.map_cons]

namespace Store

variable {store : Store}

/-- The list in one cell is an element of the list in another one. -/
def Holds (store : Store) (outer inner : Nat) : Prop :=
  .list inner ∈ store.elements outer

/-- No list holds itself, be it through other lists. -/
def Acyclic (store : Store) : Prop :=
  ∀ cell, ¬ TransGen store.Holds cell cell

/-- There is no cycle if lists only hold older ones. -/
theorem acyclic_of_older (older : ∀ {outer inner : Nat}, store.Holds outer inner → inner < outer) :
    store.Acyclic := by
  intro cell path
  have descends : ∀ {inner : Nat}, TransGen store.Holds cell inner → inner < cell := by
    intro inner path
    induction path with
    | single holds => exact older holds
    | tail _ holds induction => exact (older holds).trans induction
  exact (descends path).ne rfl

/-- The list in a cell is the value itself or can be found among its elements. -/
inductive Reaches (store : Store) (target : Nat) : Value → Prop where
  | here : Reaches store target (.list target)
  | through {cell : Nat} {element : Value} :
      element ∈ store.elements cell → Reaches store target element →
      Reaches store target (.list cell)

theorem reaches_list_iff {target cell : Nat} :
    store.Reaches target (.list cell) ↔ ReflTransGen store.Holds cell target := by
  constructor
  · intro reaches
    generalize equal : Value.list cell = value at reaches
    induction reaches generalizing cell with
    | here =>
        cases equal
        exact .refl
    | @through outer element member reaches induction =>
        cases equal
        cases reaches with
        | here => exact .single member
        | @through inner _ _ _ => exact .head member (induction rfl)
  · intro path
    induction path using ReflTransGen.head_induction_on with
    | refl => exact .here
    | head first _ induction => exact .through first induction

/-- The value nests no more deeply than a depth. -/
def Shallow (store : Store) : Nat → Value → Prop
  | _, .scalar _ => True
  | 0, .list cell => store.elements cell = []
  | depth + 1, .list cell => ∀ element ∈ store.elements cell, store.Shallow depth element

theorem Shallow.elements {depth cell : Nat} (shallow : store.Shallow depth (.list cell)) :
    ∀ element ∈ store.elements cell,
      ∃ depth', depth = depth' + 1 ∧ store.Shallow depth' element := by
  intro element member
  cases depth with
  | zero =>
      rw [Shallow] at shallow
      rw [shallow] at member
      cases member
  | succ depth => exact ⟨depth, rfl, shallow element member⟩

section Depth

theorem elements_eq_nil {cell : Nat} (outside : store.cells.size ≤ cell) :
    store.elements cell = [] := by
  unfold Store.elements
  rw [Array.getElem?_eq_none outside]
  rfl

/-- Cells that lead to a list are different from its cell, so a path through all cells has come to
its end. -/
theorem Acyclic.shallow_of_visited (acyclic : store.Acyclic) {depth cell : Nat}
    (visited : Finset Nat) (leads : ∀ outer ∈ visited, TransGen store.Holds outer cell)
    (inside : visited ⊆ Finset.range store.cells.size)
    (enough : store.cells.size ≤ visited.card + depth) : store.Shallow depth (.list cell) := by
  induction depth generalizing cell visited with
  | zero =>
      have all : visited = Finset.range store.cells.size := by
        apply Finset.eq_of_subset_of_card_le inside
        rw [Finset.card_range]
        exact enough
      apply elements_eq_nil
      by_contra inRange
      apply acyclic cell
      apply leads cell
      rw [all, Finset.mem_range]
      exact Nat.lt_of_not_le inRange
  | succ depth induction =>
      intro element member
      cases element with
      | scalar value => cases depth <;> trivial
      | list inner =>
          have fresh : cell ∉ visited := fun visit => acyclic cell (leads cell visit)
          have inRange : cell < store.cells.size := by
            by_contra outside
            rw [elements_eq_nil (Nat.le_of_not_lt outside)] at member
            cases member
          refine induction (insert cell visited) ?_ ?_ ?_
          · intro outer visit
            rcases Finset.mem_insert.mp visit with rfl | earlier
            · exact .single member
            · exact .tail (leads outer earlier) member
          · exact Finset.insert_subset (Finset.mem_range.mpr inRange) inside
          · rw [Finset.card_insert_of_notMem fresh]
            omega

/-- No value nests more deeply than there are cells. -/
theorem Acyclic.shallow (acyclic : store.Acyclic) (value : Value) :
    store.Shallow store.cells.size value := by
  cases value with
  | scalar value => cases store.cells.size <;> trivial
  | list cell =>
      refine acyclic.shallow_of_visited ∅ ?_ (Finset.empty_subset _) ?_
      · intro outer visit
        cases Finset.notMem_empty outer visit
      · rw [Finset.card_empty, Nat.zero_add]

theorem Shallow.acc {depth cell : Nat} (shallow : store.Shallow depth (.list cell)) :
    Acc (fun inner outer => store.Holds outer inner) cell := by
  induction depth generalizing cell with
  | zero =>
      constructor
      intro inner holds
      obtain ⟨_, equal, _⟩ := shallow.elements _ holds
      cases equal
  | succ depth induction =>
      constructor
      intro inner holds
      exact induction (shallow _ holds)

theorem Acyclic.wellFounded (acyclic : store.Acyclic) :
    WellFounded fun inner outer => store.Holds outer inner :=
  ⟨fun cell => (acyclic.shallow (.list cell)).acc⟩

end Depth

section Equations

theorem Shallow.expand_succ {depth : Nat} {value : Value} (shallow : store.Shallow depth value) :
    store.expand (depth + 1) value = store.expand depth value := by
  induction depth generalizing value with
  | zero =>
      cases value with
      | scalar value => simp [expand]
      | list cell =>
          rw [Shallow] at shallow
          simp [expand, shallow]
  | succ depth induction =>
      cases value with
      | scalar value => simp [expand]
      | list cell =>
          rw [expand, expand]
          congr 1
          apply List.map_congr_left
          intro element member
          exact induction (shallow element member)

theorem Shallow.reachesWithin_succ {depth target : Nat} {value : Value}
    (shallow : store.Shallow depth value) :
    store.reachesWithin target (depth + 1) value = store.reachesWithin target depth value := by
  induction depth generalizing value with
  | zero =>
      cases value with
      | scalar value => simp [reachesWithin]
      | list cell =>
          rw [Shallow] at shallow
          simp [reachesWithin, shallow]
  | succ depth induction =>
      cases value with
      | scalar value => simp [reachesWithin]
      | list cell =>
          rw [reachesWithin, reachesWithin]
          congr 1
          rw [Bool.eq_iff_iff, List.any_eq_true, List.any_eq_true]
          apply exists_congr
          intro element
          apply and_congr_right
          intro member
          rw [induction (shallow element member)]

theorem Acyclic.datum_list (acyclic : store.Acyclic) (cell : Nat) :
    store.datum (.list cell) = .list ((store.elements cell).map store.datum) := by
  unfold datum
  rw [← (acyclic.shallow (.list cell)).expand_succ, expand]

theorem Acyclic.text_list (acyclic : store.Acyclic) (cell : Nat) :
    store.text (.list cell) =
      "[" ++ ", ".intercalate ((store.elements cell).map store.text) ++ "]" := by
  unfold text
  rw [acyclic.datum_list, Datum.text, Datum.textList_eq_map, List.map_map]
  rfl

theorem Acyclic.same_list (acyclic : store.Acyclic) (left right : Nat) :
    store.same (.list left) (.list right) =
      ((store.elements left).length == (store.elements right).length &&
        ((store.elements left).zip (store.elements right)).all fun (left, right) =>
          store.same left right) := by
  simp only [same_eq]
  rw [acyclic.datum_list, acyclic.datum_list, Datum.same, sameList_map]

theorem Acyclic.reaches_list (acyclic : store.Acyclic) (target cell : Nat) :
    store.reaches target (.list cell) =
      (cell == target || (store.elements cell).any (store.reaches target)) := by
  unfold reaches
  rw [← (acyclic.shallow (.list cell)).reachesWithin_succ, reachesWithin]

theorem reaches_of_reachesWithin {target depth : Nat} {value : Value}
    (found : store.reachesWithin target depth value = true) : store.Reaches target value := by
  induction depth generalizing value with
  | zero =>
      cases value with
      | scalar value => simp [reachesWithin] at found
      | list cell =>
          rw [reachesWithin] at found
          obtain rfl := eq_of_beq found
          exact .here
  | succ depth induction =>
      cases value with
      | scalar value => simp [reachesWithin] at found
      | list cell =>
          rw [reachesWithin, Bool.or_eq_true, List.any_eq_true] at found
          rcases found with here | ⟨element, member, found⟩
          · obtain rfl := eq_of_beq here
            exact .here
          · exact .through member (induction found)

theorem Shallow.reachesWithin_of_reaches {target depth : Nat} {value : Value}
    (shallow : store.Shallow depth value) (reaches : store.Reaches target value) :
    store.reachesWithin target depth value = true := by
  induction reaches generalizing depth with
  | here =>
      cases depth with
      | zero => simp [reachesWithin]
      | succ depth => simp [reachesWithin]
  | through member _ induction =>
      obtain ⟨depth', rfl, shallow'⟩ := shallow.elements _ member
      rw [reachesWithin, Bool.or_eq_true, List.any_eq_true]
      exact .inr ⟨_, member, induction shallow'⟩

/-- The search finds exactly what can be reached. -/
theorem Acyclic.reaches_iff (acyclic : store.Acyclic) (target : Nat) (value : Value) :
    store.reaches target value = true ↔ store.Reaches target value :=
  ⟨reaches_of_reachesWithin, (acyclic.shallow value).reachesWithin_of_reaches⟩

/-- Nothing is nested in itself, however deeply, so a recursion through the elements of lists comes
to an end.  Writing, comparing and searching satisfy the equations of that recursion. -/
structure Unfolds (store : Store) : Prop where
  nested : WellFounded fun inner outer => store.Holds outer inner
  text : ∀ value, store.text value =
    match value with
    | .scalar value => value.text
    | .list cell => "[" ++ ", ".intercalate ((store.elements cell).map store.text) ++ "]"
  same : ∀ left right, store.same left right =
    match left, right with
    | .scalar left, .scalar right => left.same right
    | .list left, .list right =>
        (store.elements left).length == (store.elements right).length &&
          ((store.elements left).zip (store.elements right)).all fun (left, right) =>
            store.same left right
    | _, _ => false
  reaches : ∀ target value, store.reaches target value =
    match value with
    | .scalar _ => false
    | .list cell => cell == target || (store.elements cell).any (store.reaches target)

theorem Acyclic.unfolds (acyclic : store.Acyclic) : store.Unfolds := by
  refine ⟨acyclic.wellFounded, ?_, ?_, ?_⟩
  · intro value
    cases value with
    | scalar value => simp [text, datum, expand, Datum.text]
    | list cell => exact acyclic.text_list cell
  · intro left right
    cases left with
    | scalar left => cases right <;> simp [same, sameWithin]
    | list left =>
        cases right with
        | scalar right => simp [same, sameWithin]
        | list right => exact acyclic.same_list left right
  · intro target value
    cases value with
    | scalar value => simp [reaches, reachesWithin]
    | list cell => exact acyclic.reaches_list target cell

end Equations

end Store

end Procedural
