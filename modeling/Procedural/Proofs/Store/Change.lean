import Procedural.Proofs.Store.Acyclic

/-!
# Changes to stores without cycles

A new list cannot be found in older ones, so making one closes no cycle.  Storing a value
in a list closes a cycle exactly if the list can be reached from the value, and it does
not matter which element is replaced.
-/

namespace Procedural

open Relation

/-- The value refers to cells below a bound only. -/
def Value.Below (value : Value) (bound : Nat) : Prop :=
  ∀ cell, value = .list cell → cell < bound

theorem Value.Below.mono {value : Value} {bound bound' : Nat} (below : value.Below bound)
    (grows : bound ≤ bound') : value.Below bound' :=
  fun cell equal => Nat.lt_of_lt_of_le (below cell equal) grows

theorem Value.below_scalar (value : Scalar) (bound : Nat) : (Value.scalar value).Below bound := by
  intro cell equal
  cases equal

namespace Store

variable {store : Store}

/-- No list holds itself, and lists refer to cells of the store only. -/
structure WellFormed (store : Store) : Prop where
  acyclic : store.Acyclic
  closed : ∀ cell, ∀ value ∈ store.elements cell, value.Below store.cells.size

theorem wellFormed_empty : empty.WellFormed := by
  have nothing (cell : Nat) : empty.elements cell = [] := elements_eq_nil (Nat.zero_le cell)
  constructor
  · intro cell cycle
    obtain ⟨inner, holds, _⟩ := TransGen.head'_iff.mp cycle
    rw [Holds, nothing] at holds
    cases holds
  · intro cell value member
    rw [nothing] at member
    cases member

section Allocation

variable {elements : List Value}

theorem elements_allocate (cell : Nat) :
    (store.allocate elements).2.elements cell =
      if cell = store.cells.size then elements else store.elements cell := by
  simp only [allocate, Store.elements, Array.getElem?_push]
  split <;> rfl

theorem size_allocate : (store.allocate elements).2.cells.size = store.cells.size + 1 := by
  simp [allocate]

variable (wellFormed : store.WellFormed)
variable (below : ∀ value ∈ elements, value.Below store.cells.size)

include wellFormed below

theorem below_of_holds_allocate {outer : Nat} {value : Value}
    (member : value ∈ (store.allocate elements).2.elements outer) :
    value.Below store.cells.size := by
  rw [elements_allocate] at member
  split at member
  · exact below value member
  · exact wellFormed.closed outer value member

/-- From an old list the graph is the old one. -/
theorem transGen_of_allocate {outer inner : Nat} (inside : outer < store.cells.size)
    (path : TransGen (store.allocate elements).2.Holds outer inner) :
    TransGen store.Holds outer inner ∧ inner < store.cells.size := by
  have old {outer inner : Nat} (inside : outer < store.cells.size)
      (holds : (store.allocate elements).2.Holds outer inner) :
      store.Holds outer inner ∧ inner < store.cells.size := by
    refine ⟨?_, below_of_holds_allocate wellFormed below holds inner rfl⟩
    rw [Holds, elements_allocate, if_neg (Nat.ne_of_lt inside)] at holds
    exact holds
  induction path with
  | single holds =>
      obtain ⟨holds, inside'⟩ := old inside holds
      exact ⟨.single holds, inside'⟩
  | tail _ holds induction =>
      obtain ⟨path, inside'⟩ := induction
      obtain ⟨holds, inside''⟩ := old inside' holds
      exact ⟨.tail path holds, inside''⟩

theorem WellFormed.allocate : (store.allocate elements).2.WellFormed := by
  constructor
  · intro cell cycle
    obtain ⟨last, _, holds⟩ := TransGen.tail'_iff.mp cycle
    have inside := below_of_holds_allocate wellFormed below holds cell rfl
    exact wellFormed.acyclic cell (transGen_of_allocate wellFormed below inside cycle).1
  · intro cell value member
    apply (below_of_holds_allocate wellFormed below member).mono
    rw [size_allocate]
    exact Nat.le_succ _

end Allocation

section Storing

variable {cell position : Nat} {value : Value}

/-- What the list in one cell holds if it holds a value besides. -/
def HoldsWith (store : Store) (cell : Nat) (value : Value) (outer inner : Nat) : Prop :=
  store.Holds outer inner ∨ outer = cell ∧ value = .list inner

/-- Some list would hold itself if the list in one cell held a value besides. -/
def Closes (store : Store) (cell : Nat) (value : Value) : Prop :=
  ∃ start, TransGen (store.HoldsWith cell value) start start

theorem elements_setElement (other : Nat) :
    (store.setElement cell position value).elements other =
      if other = cell then (store.elements cell).set position value else store.elements other := by
  simp only [setElement, Store.elements, Array.getElem?_modify]
  by_cases here : other = cell
  · subst here
    cases store.cells[other]? <;> simp
  · simp [here, Ne.symm here]

theorem size_setElement :
    (store.setElement cell position value).cells.size = store.cells.size := by
  simp [setElement]

theorem holdsWith_of_setElement {outer inner : Nat}
    (holds : (store.setElement cell position value).Holds outer inner) :
    store.HoldsWith cell value outer inner := by
  rw [Holds, elements_setElement] at holds
  split at holds
  next here =>
    subst here
    rcases List.mem_or_eq_of_mem_set holds with old | new
    · exact .inl old
    · exact .inr ⟨rfl, new.symm⟩
  · exact .inl holds

/-- A path with the additional edge goes without it, or up to the edge and on from its end. -/
theorem transGen_of_holdsWith (apart : ¬ store.Reaches cell value) {outer inner : Nat}
    (path : TransGen (store.HoldsWith cell value) outer inner) :
    TransGen store.Holds outer inner ∨
      ReflTransGen store.Holds outer cell ∧
        ∃ held, value = .list held ∧ ReflTransGen store.Holds held inner := by
  induction path with
  | single holds =>
      rcases holds with holds | ⟨rfl, equal⟩
      · exact .inl (.single holds)
      · exact .inr ⟨.refl, _, equal, .refl⟩
  | tail _ holds induction =>
      rcases induction with path | ⟨start, held, equal, path⟩
      · rcases holds with holds | ⟨rfl, equal⟩
        · exact .inl (.tail path holds)
        · exact .inr ⟨path.to_reflTransGen, _, equal, .refl⟩
      · rcases holds with holds | ⟨rfl, _⟩
        · exact .inr ⟨start, held, equal, path.tail holds⟩
        · subst equal
          exact absurd (reaches_list_iff.mpr path) apart

/-- The additional edge closes a cycle exactly if its end leads back to its start. -/
theorem Acyclic.closes_iff (acyclic : store.Acyclic) :
    store.Closes cell value ↔ store.Reaches cell value := by
  constructor
  · rintro ⟨start, cycle⟩
    by_contra apart
    rcases transGen_of_holdsWith apart cycle with path | ⟨path, held, rfl, path'⟩
    · exact acyclic start path
    · exact apart (reaches_list_iff.mpr (path'.trans path))
  · intro reaches
    cases value with
    | scalar value => cases reaches
    | list held =>
        have path := reaches_list_iff.mp reaches
        refine ⟨cell, TransGen.head' (.inr ⟨rfl, rfl⟩) ?_⟩
        exact ReflTransGen.mono (fun _ _ => .inl) _ _ path

theorem Acyclic.setElement (acyclic : store.Acyclic) (apart : ¬ store.Reaches cell value) :
    (store.setElement cell position value).Acyclic := by
  intro start cycle
  apply apart
  apply acyclic.closes_iff.mp
  exact ⟨start, TransGen.mono (fun _ _ => holdsWith_of_setElement) _ _ cycle⟩

/-- The first part of a path to a list does not go through that list. -/
theorem Acyclic.reflTransGen_setElement (acyclic : store.Acyclic) {start : Nat}
    (path : ReflTransGen store.Holds start cell) :
    ReflTransGen (store.setElement cell position value).Holds start cell := by
  induction path using ReflTransGen.head_induction_on with
  | refl => exact .refl
  | @head outer inner holds later induction =>
      apply ReflTransGen.head _ induction
      have other : outer ≠ cell := by
        rintro rfl
        exact acyclic outer (TransGen.head' holds later)
      rw [Holds, elements_setElement, if_neg other]
      exact holds

/-- Whatever element is replaced, the new store has a cycle exactly if the value led to its list. -/
theorem Acyclic.setElement_iff (acyclic : store.Acyclic)
    (inside : position < (store.elements cell).length) :
    (store.setElement cell position value).Acyclic ↔ ¬ store.Reaches cell value := by
  refine ⟨fun acyclic' reaches => ?_, acyclic.setElement⟩
  cases value with
  | scalar value => cases reaches
  | list held =>
      apply acyclic' cell
      apply TransGen.head' _ (acyclic.reflTransGen_setElement (reaches_list_iff.mp reaches))
      rw [Holds, elements_setElement, if_pos rfl]
      exact List.mem_set inside (.list held)

theorem WellFormed.setElement (wellFormed : store.WellFormed) (position : Nat)
    (below : value.Below store.cells.size) (apart : ¬ store.Reaches cell value) :
    (store.setElement cell position value).WellFormed := by
  refine ⟨wellFormed.acyclic.setElement apart, ?_⟩
  intro other element member
  rw [size_setElement]
  rw [elements_setElement] at member
  split at member
  · rcases List.mem_or_eq_of_mem_set member with old | rfl
    · exact wellFormed.closed cell element old
    · exact below
  · exact wellFormed.closed other element member

end Storing

end Store

end Procedural
