import Procedural.Proofs.Execution.Classes
import Procedural.Proofs.Typing.Decision

/-!
# Lists keep their element types

Lists are only made for global variables, so the declared types tell the element type of
each cell for a whole run, whatever names refer to it.  What is stored in a list through
a variable of its element type fits by typing.  A variable of type `Any` or `Comparable`
takes every list and every value, so through it anything can be stored; as long as no
list loses its element type in this way, all lists keep theirs at every depth.
-/

namespace Procedural

/-- The type names one class of values. -/
def Ty.NamesClass (ty : Ty) : Prop :=
  ty ≠ .any ∧ ty ≠ .comparable

instance (ty : Ty) : Decidable ty.NamesClass :=
  inferInstanceAs (Decidable (ty ≠ .any ∧ ty ≠ .comparable))

theorem Ty.eq_of_accepts {expected found : Ty} (accepts : expected.accepts found = true)
    (namesClass : expected.NamesClass) : expected = found := by
  rcases accepts_iff.mp accepts with same | isAny | isComparable
  · exact same
  · exact absurd isAny namesClass.1
  · exact absurd isComparable namesClass.2

/-- The value is nil or of the class that the type names, or a list that was made for the type;
cells are typed by their numbers. -/
def Value.Suits (types : List Ty) (ty : Ty) : Value → Prop
  | .scalar value => ty.NamesClass → value = .nil ∨ value.className = ty.name
  | .list cell => ty.NamesClass → types[cell]? = some ty

namespace Value.Suits

variable {types : List Ty} {ty : Ty} {value : Value}

instance : Decidable (value.Suits types ty) :=
  match value with
  | .scalar value =>
      inferInstanceAs (Decidable (ty.NamesClass → value = .nil ∨ value.className = ty.name))
  | .list cell => inferInstanceAs (Decidable (ty.NamesClass → types[cell]? = some ty))

theorem of_not_namesClass (namesNone : ¬ ty.NamesClass) (value : Value) : value.Suits types ty := by
  cases value with
  | scalar => exact fun namesClass => absurd namesClass namesNone
  | list => exact fun namesClass => absurd namesClass namesNone

theorem of_accepts {expected found : Ty} (accepts : expected.accepts found = true)
    (suits : value.Suits types found) : value.Suits types expected := by
  by_cases namesClass : expected.NamesClass
  · rw [Ty.eq_of_accepts accepts namesClass]
    exact suits
  · exact of_not_namesClass namesClass value

theorem of_conforms (conforms : value.Conforms ty) : value.Suits types ty := by
  obtain ⟨scalar, rfl, rfl | accepts⟩ := conforms
  · exact fun _ => .inl rfl
  · intro namesClass
    rw [Ty.eq_of_accepts accepts namesClass]
    exact .inr rfl

theorem complies (suits : value.Suits types ty) : value.Complies ty := by
  rintro scalar rfl
  by_cases namesClass : ty.NamesClass
  · refine (suits namesClass).imp_right fun sameClass => ?_
    exact Ty.accepts_iff.mpr (.inl (Ty.name_injective sameClass).symm)
  · apply Or.inr
    rw [Ty.NamesClass, not_and_or, not_not, not_not] at namesClass
    exact Ty.accepts_iff.mpr (.inr namesClass)

end Value.Suits

namespace Store

variable {types : List Ty} {store : Store} {cell : Nat} {ty : Ty}

/-- Each element of a list suits the element type that the list was made with. -/
def KeepsElementTypes (store : Store) (types : List Ty) : Prop :=
  ∀ cell ty, types[cell]? = some ty → ∀ element ∈ store.elements cell, element.Suits types ty

theorem keepsElementTypes_empty : KeepsElementTypes .empty types := by
  intro cell ty _ element member
  rw [elements_eq_nil (Nat.zero_le cell)] at member
  cases member

namespace KeepsElementTypes

variable (keeps : store.KeepsElementTypes types)

include keeps

theorem suits {element : Value} (suits : (Value.list cell).Suits types ty)
    (member : element ∈ store.elements cell) : element.Suits types ty := by
  by_cases namesClass : ty.NamesClass
  · exact keeps cell ty (suits namesClass) element member
  · exact .of_not_namesClass namesClass element

theorem allocate {elements : List Value} (declared : types[store.cells.size]? = some ty)
    (suit : ∀ element ∈ elements, element.Suits types ty) :
    (store.allocate elements).2.KeepsElementTypes types := by
  intro cell ty' declared' element member
  rw [elements_allocate] at member
  split at member
  next here =>
    rw [here, declared] at declared'
    obtain rfl := Option.some.inj declared'
    exact suit element member
  · exact keeps cell ty' declared' element member

/-- The value suits the type of the variable that the list is reached by, which is the element type
of the list if it names a class. -/
theorem setElement {position : Nat} {value : Value} (suitsList : (Value.list cell).Suits types ty)
    (suits : value.Suits types ty)
    (allowed : ¬ ty.NamesClass → ∀ elementType ∈ types[cell]?, value.Suits types elementType) :
    (store.setElement cell position value).KeepsElementTypes types := by
  intro other elementType declared element member
  rw [elements_setElement] at member
  split at member
  next here =>
    subst here
    rcases List.mem_or_eq_of_mem_set member with old | rfl
    · exact keeps other elementType declared element old
    · by_cases namesClass : ty.NamesClass
      · rw [suitsList namesClass] at declared
        obtain rfl := Option.some.inj declared
        exact suits
      · exact allowed namesClass elementType declared
  · exact keeps other elementType declared element member

/-- A list that can be found in a list was made for the same type. -/
theorem elementType_of_reaches {value : Value} {inner : Nat} (namesClass : ty.NamesClass)
    (reaches : store.Reaches inner value) (suits : value.Suits types ty) :
    types[inner]? = some ty := by
  induction reaches with
  | here => exact suits namesClass
  | @through cell element member _ induction =>
      exact induction (keeps cell ty (suits namesClass) element member)

end KeepsElementTypes

end Store

/-- Types promise classes and element types; the element types of all lists are given. -/
def Discipline.elementTypes (types : List Ty) : Discipline where
  marked := true
  Fits value ty := value.Suits types ty
  Lists cell ty := types[cell]? = some ty
  Keeps store := store.KeepsElementTypes types
  Allows ty cell value :=
    ¬ ty.NamesClass → ∀ elementType ∈ types[cell]?, value.Suits types elementType
  fits_of_unmarked unmarked := by cases unmarked
  fits_nil _ _ := .inl rfl
  fits_scalar scalar := .of_conforms (.scalar scalar)
  fits_accepted := .of_accepts
  fits_operator typed suits suits' defined :=
    .of_conforms (Value.applyOperator_conforms typed suits.complies suits'.complies defined)
  fits_list declared _ := declared
  fits_element keeps suits member := keeps.suits suits member
  keeps_empty := Store.keepsElementTypes_empty
  keeps_allocate keeps declared suit := keeps.allocate declared suit
  keeps_setElement _ keeps suitsList suits allowed := keeps.setElement suitsList suits allowed

namespace Moment

/-- If a value is to be stored through a variable whose type names no class, it suits the element
type of the list. -/
def RespectsElementTypes (types : List Ty) (moment : Moment) : Prop :=
  match moment.event with
  | .assigning receiver cell value => ∀ ty ∈ receiver.note.ty, ¬ ty.NamesClass →
      ∀ elementType ∈ types[cell]?, value.Suits types elementType
  | _ => True

instance (types : List Ty) (moment : Moment) : Decidable (moment.RespectsElementTypes types) :=
  match moment with
  | ⟨_, .assigning receiver cell value⟩ =>
      inferInstanceAs (Decidable (∀ ty ∈ receiver.note.ty, ¬ ty.NamesClass →
        ∀ elementType ∈ types[cell]?, value.Suits types elementType))
  | ⟨_, .acted⟩ | ⟨_, .evaluated _ _⟩ | ⟨_, .returned _ _⟩ => inferInstanceAs (Decidable True)

theorem RespectsElementTypes.permits {types : List Ty} {moment : Moment}
    (respects : moment.RespectsElementTypes types) :
    (Discipline.elementTypes types).Permits moment := by
  intro receiver cell value happens ty noted
  rw [RespectsElementTypes, happens] at respects
  exact respects ty (noted rfl)

/-- A list has the element type that its literal was marked with; whatever can be found in a list,
at any depth, suits the element type of the list, and an element that is read suits the type of the
variable. -/
structure KeepsElementTypes (types : List Ty) (moment : Moment) : Prop where
  made : ∀ note elements value, moment.event = .evaluated (.list note elements) value →
    ∃ cell ty, value = .list cell ∧ types[cell]? = some ty ∧ note.ty = some ty
  contents : ∀ cell ty inner element, types[cell]? = some ty → ty.NamesClass →
    moment.scene.machine.store.Reaches inner (.list cell) →
    element ∈ moment.scene.machine.store.elements inner → element.Suits types ty
  read : ∀ note name index value ty, moment.event = .evaluated (.element note name index) value →
    note.ty = some ty → value.Suits types ty

/-- An element has just been read, with this value, through a variable of this type. -/
def reads (ty : Ty) (value : Value) (moment : Moment) : Bool :=
  match moment.event with
  | .evaluated (.element note _ _) found => note.ty == some ty && found == value
  | _ => false

end Moment

theorem Discipline.Steady.keepsElementTypes {types : List Ty} {moment : Moment}
    (steady : (Discipline.elementTypes types).Steady moment) : moment.KeepsElementTypes types := by
  refine ⟨?_, ?_, ?_⟩
  · intro note elements value happened
    obtain ⟨cell, ty, isList, declared, noted⟩ := steady.made note elements value happened
    exact ⟨cell, ty, isList, declared, noted rfl⟩
  · intro cell ty inner element declared namesClass reaches member
    have keeps : moment.scene.machine.store.KeepsElementTypes types := steady.kept
    have same := keeps.elementType_of_reaches namesClass reaches fun _ => declared
    exact keeps inner ty same element member
  · intro note name index value ty happened noted
    exact steady.evaluated _ value happened ty fun _ => noted

/-- In the runs of an accepted program lists keep their element types, as long as what was stored
through variables of the types `Any` and `Comparable` suited them. -/
theorem Program.keepsElementTypes_of_moments {text : String} {given annotated : Program}
    (read : Program.ofText text = .ok given) (accepted : given.annotate = .ok annotated)
    {budget : Nat} {machine : Machine} {earlier later : List Moment} {moment : Moment}
    (occurs : annotated.moments budget machine = earlier ++ moment :: later)
    (respected : ∀ before ∈ earlier, before.RespectsElementTypes annotated.elementTypes) :
    moment.KeepsElementTypes annotated.elementTypes := by
  obtain ⟨passes, rfl⟩ := Program.annotate_eq_ok.mp accepted
  obtain ⟨between, after, typing⟩ :=
    Program.typing_of_ofText (Discipline.elementTypes given.check.tree.elementTypes) read passes
      fun _ _ => id
  have lasts : Lasts _ _ (given.check.tree.moments budget machine) :=
    (Program.watch_ensures typing budget machine).1
  rw [occurs] at lasts
  exact (lasts.of_append fun before member => (respected before member).permits).keepsElementTypes

theorem Program.keepsElementTypes_of_moments_alias :
    ∃ given annotated earlier moment later,
      Program.ofText ("LIST xs : Integer = [ 1 ] ; FUN main ( ) : Integer DO " ++
        "LET y : Any = xs ; y [ 0 ] = 2 ; RETURN xs [ 0 ] ; END") = .ok given ∧
      given.annotate = .ok annotated ∧ annotated.elementTypes = [.integer] ∧
      annotated.moments 0 (.start 1) = earlier ++ moment :: later ∧
      (∀ before ∈ earlier, before.RespectsElementTypes annotated.elementTypes) ∧
      moment.reads .integer (.scalar (.integer 2)) = true ∧
      moment.KeepsElementTypes annotated.elementTypes := by
  have happens : ((Program.ofText ("LIST xs : Integer = [ 1 ] ; FUN main ( ) : Integer DO " ++
      "LET y : Any = xs ; y [ 0 ] = 2 ; RETURN xs [ 0 ] ; END")).toOption.bind
      fun given => given.annotate.toOption.map fun annotated =>
        let moments := annotated.moments 0 (.start 1)
        annotated.elementTypes == [.integer] &&
          moments.all (fun moment => decide (moment.RespectsElementTypes annotated.elementTypes)) &&
          moments.any (Moment.reads .integer (.scalar (.integer 2)))) = some true := by
    decide +kernel
  obtain ⟨given, annotated, read, accepted, found⟩ := Program.exists_of_annotate happens
  simp only [Bool.and_eq_true, beq_iff_eq, List.all_eq_true, decide_eq_true_eq,
    List.any_eq_true] at found
  obtain ⟨⟨types, respected⟩, moment, member, reads⟩ := found
  obtain ⟨earlier, later, occurs⟩ := List.append_of_mem member
  have respected' : ∀ before ∈ earlier,
      before.RespectsElementTypes annotated.elementTypes := by
    intro before inside
    apply respected
    rw [occurs]
    exact List.mem_append_left _ inside
  exact ⟨given, annotated, earlier, moment, later, read, accepted, types, occurs, respected',
    reads, Program.keepsElementTypes_of_moments read accepted occurs respected'⟩

/-- Through a variable of type `Any` a list of integers comes to hold a string, which is then read
through a variable of type `Integer`. -/
theorem Program.exists_not_keepsElementTypes :
    ∃ given annotated moment,
      Program.ofText ("LIST xs : Integer = [ 1 ] ; FUN main ( ) : Integer DO " ++
        "LET y : Any = xs ; y [ 0 ] = \"a\" ; RETURN xs [ 0 ] ; END") = .ok given ∧
      given.annotate = .ok annotated ∧ annotated.elementTypes = [.integer] ∧
      moment ∈ annotated.moments 0 (.start 1) ∧
      .scalar (.string "a") ∈ moment.scene.machine.store.elements 0 ∧
      moment.reads .integer (.scalar (.string "a")) = true ∧
      ¬ moment.KeepsElementTypes annotated.elementTypes := by
  have happens : ((Program.ofText ("LIST xs : Integer = [ 1 ] ; FUN main ( ) : Integer DO " ++
      "LET y : Any = xs ; y [ 0 ] = \"a\" ; RETURN xs [ 0 ] ; END")).toOption.bind
      fun given => given.annotate.toOption.map fun annotated =>
        annotated.elementTypes == [.integer] &&
          (annotated.moments 0 (.start 1)).any fun moment =>
            moment.reads .integer (.scalar (.string "a")) &&
              decide (.scalar (.string "a") ∈ moment.scene.machine.store.elements 0)) =
      some true := by
    decide +kernel
  obtain ⟨given, annotated, read, accepted, found⟩ := Program.exists_of_annotate happens
  simp only [Bool.and_eq_true, beq_iff_eq, decide_eq_true_eq, List.any_eq_true] at found
  obtain ⟨types, moment, member, reads, inside⟩ := found
  refine ⟨given, annotated, moment, read, accepted, types, member, inside, reads, ?_⟩
  intro keeps
  rw [types] at keeps
  have suits := keeps.contents 0 .integer 0 _ rfl (by decide) .here inside
  exact absurd suits (by decide)

end Procedural
