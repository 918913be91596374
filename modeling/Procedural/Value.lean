import Procedural.Datum

/-!
# Values and the store

A value is a scalar or a reference to a list.  The elements of all lists stand in
the cells of a store, so two values that refer to one cell see the same elements.
A store without cycles nests no list more deeply than it has cells, which bounds
the depth to which values are written out, compared and searched.  Comparing two
values goes no further into their lists than the first difference; it agrees with
comparing the data that they stand for.
-/

namespace Procedural

/-- A scalar, or a list that is held in a cell of the store. -/
inductive Value where
  | scalar (value : Scalar)
  | list (cell : Nat)
  deriving DecidableEq, Repr, Inhabited

def Value.className : Value → String
  | scalar value => value.className
  | list _ => "List"

/-- The elements of all lists, by the numbers of their cells. -/
structure Store where
  cells : Array (List Value)

namespace Store

def empty : Store :=
  ⟨#[]⟩

def elements (store : Store) (cell : Nat) : List Value :=
  store.cells[cell]?.getD []

/-- A new list, and the store that holds it. -/
def allocate (store : Store) (elements : List Value) : Value × Store :=
  (.list store.cells.size, ⟨store.cells.push elements⟩)

/-- Replaces one element of a list. -/
def setElement (store : Store) (cell position : Nat) (value : Value) : Store :=
  ⟨store.cells.modify cell fun elements => elements.set position value⟩

/-- Writes a value out, down to a depth. -/
def expand (store : Store) : Nat → Value → Datum
  | _, .scalar value => .scalar value
  | 0, .list _ => .list []
  | depth + 1, .list cell => .list ((store.elements cell).map (store.expand depth))

def datum (store : Store) (value : Value) : Datum :=
  store.expand store.cells.size value

/-- A value as programs print it. -/
def text (store : Store) (value : Value) : String :=
  (store.datum value).text

/-- Two values stand for equal data, down to a depth; lists of different lengths differ whatever
their elements are. -/
def sameWithin (store : Store) : Nat → Value → Value → Bool
  | _, .scalar left, .scalar right => left.same right
  | 0, .list _, .list _ => true
  | depth + 1, .list left, .list right =>
      (store.elements left).length == (store.elements right).length &&
        ((store.elements left).zip (store.elements right)).all fun (left, right) =>
          store.sameWithin depth left right
  | _, _, _ => false

def same (store : Store) (left right : Value) : Bool :=
  store.sameWithin store.cells.size left right

/-- The list in `target` can be found from a value, down to a depth. -/
def reachesWithin (store : Store) (target : Nat) : Nat → Value → Bool
  | _, .scalar _ => false
  | 0, .list cell => cell == target
  | depth + 1, .list cell =>
      cell == target || (store.elements cell).any (store.reachesWithin target depth)

/-- The list in `target` is the value itself or can be found among its elements. -/
def reaches (store : Store) (target : Nat) (value : Value) : Bool :=
  store.reachesWithin target store.cells.size value

/-- Lists of data agree if they have one length and agree position by position. -/
theorem sameList_map (expand : Value → Datum) (left right : List Value) :
    Datum.sameList (left.map expand) (right.map expand) =
      (left.length == right.length &&
        (left.zip right).all fun (left, right) => (expand left).same (expand right)) := by
  induction left generalizing right with
  | nil => cases right <;> simp [Datum.sameList]
  | cons first rest induction =>
      cases right with
      | nil => simp [Datum.sameList]
      | cons first' rest' =>
          simp only [List.map_cons, Datum.sameList, induction, List.length_cons, List.zip_cons_cons,
            List.all_cons]
          cases (expand first).same (expand first') <;> simp

/-- Values are compared as the data that they are written out as. -/
theorem sameWithin_eq (store : Store) (depth : Nat) (left right : Value) :
    store.sameWithin depth left right =
      (store.expand depth left).same (store.expand depth right) := by
  induction depth generalizing left right with
  | zero => cases left <;> cases right <;> simp [sameWithin, expand, Datum.same, Datum.sameList]
  | succ depth induction =>
      cases left <;> cases right <;>
        simp [sameWithin, expand, Datum.same, sameList_map, induction]

/-- Two values are the same exactly if their data are. -/
theorem same_eq (store : Store) (left right : Value) :
    store.same left right = (store.datum left).same (store.datum right) :=
  sameWithin_eq store store.cells.size left right

end Store

end Procedural
