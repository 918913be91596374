import Procedural.Proofs.Execution.Names

/-!
# Accepted programs without lists keep the classes of values

If a program declares no list, no list ever occurs in its runs.  Every value then belongs
to the class that its type names or is nil, whatever values flow through variables of
the types `Any` and `Comparable`.
-/

namespace Procedural

theorem Ty.accepts_iff {expected found : Ty} :
    expected.accepts found = true ↔
      expected = found ∨ expected = .any ∨ expected = .comparable := by
  simp [accepts, or_assoc]

theorem Ty.accepts_trans {expected middle found : Ty} (accepts : expected.accepts middle = true)
    (accepts' : middle.accepts found = true) : expected.accepts found = true := by
  rw [accepts_iff] at accepts accepts' ⊢
  rcases accepts with rfl | rest
  · exact accepts'
  · exact .inr rest

namespace Value

/-- The value belongs to the class that the type names, or it is nil; `Any` and `Comparable` name no
class. -/
def HasClass (value : Value) (ty : Ty) : Prop :=
  ty ≠ .any → ty ≠ .comparable → value.className = ty.name ∨ value = .scalar .nil

/-- A scalar of a class that the type accepts, or nil. -/
def Conforms (value : Value) (ty : Ty) : Prop :=
  ∃ scalar, value = .scalar scalar ∧ (scalar = .nil ∨ ty.accepts scalar.ty = true)

theorem Conforms.hasClass {value : Value} {ty : Ty} (conforms : value.Conforms ty) :
    value.HasClass ty := by
  obtain ⟨scalar, rfl, rfl | accepts⟩ := conforms
  · exact fun _ _ => .inr rfl
  · intro notAny notComparable
    rcases Ty.accepts_iff.mp accepts with same | isAny | isComparable
    · rw [same]
      exact .inl rfl
    · exact absurd isAny notAny
    · exact absurd isComparable notComparable

theorem Conforms.scalar (scalar : Scalar) : (Value.scalar scalar).Conforms scalar.ty :=
  ⟨scalar, rfl, .inr (Ty.accepts_iff.mpr (.inl rfl))⟩

theorem Conforms.of_ty {scalar : Scalar} {ty : Ty} (same : scalar.ty = ty) :
    (Value.scalar scalar).Conforms ty := by
  subst same
  exact .scalar scalar

/-- The value conforms to the type, unless it is a list. -/
def Complies (value : Value) (ty : Ty) : Prop :=
  ∀ scalar, value = .scalar scalar → scalar = .nil ∨ ty.accepts scalar.ty = true

theorem Conforms.complies {value : Value} {ty : Ty} (conforms : value.Conforms ty) :
    value.Complies ty := by
  obtain ⟨scalar, rfl, nilOrAccepts⟩ := conforms
  intro scalar' equal
  cases equal
  exact nilOrAccepts

theorem Complies.accepts {scalar : Scalar} {ty : Ty}
    (complies : (Value.scalar scalar).Complies ty) (notNil : scalar ≠ .nil) :
    ty.accepts scalar.ty = true :=
  (complies scalar rfl).resolve_left notNil

theorem ne_nil_of_numeric {scalar : Scalar} (numeric : Typing.isNumeric scalar.ty = true) :
    scalar ≠ .nil := by
  intro isNil
  rw [isNil] at numeric
  cases numeric

theorem isString_iff {value : Value} :
    value.isString = true ↔ ∃ text, value = .scalar (.string text) := by
  unfold isString
  split <;> simp_all

/-- An arithmetic operator is defined on numbers of one class and stays in it. -/
theorem arithmetic_class {onIntegers : Int → Int → Except RuntimeFault Int}
    {onDecimals : Decimal → Decimal → Except RuntimeFault Decimal} {left right : Value}
    {result : Scalar} (defined : arithmetic onIntegers onDecimals left right = .ok result) :
    ∃ left' right', left = .scalar left' ∧ right = .scalar right' ∧
      Typing.isNumeric result.ty = true ∧ left'.ty = result.ty ∧ right'.ty = result.ty := by
  unfold arithmetic at defined
  split at defined
  · obtain ⟨number, isNumber, rest⟩ := Typing.bind_eq_ok.mp defined
    obtain ⟨_, _, equal⟩ := Typing.bind_eq_ok.mp rest
    cases equal
    unfold toInteger at isNumber
    split at isNumber
    · exact ⟨_, _, rfl, rfl, rfl, rfl, rfl⟩
    · cases isNumber
  · obtain ⟨number, isNumber, rest⟩ := Typing.bind_eq_ok.mp defined
    obtain ⟨_, _, equal⟩ := Typing.bind_eq_ok.mp rest
    cases equal
    unfold toDecimal at isNumber
    split at isNumber
    · exact ⟨_, _, rfl, rfl, rfl, rfl, rfl⟩
    · cases isNumber
  · cases defined

theorem arithmetic_conforms {onIntegers : Int → Int → Except RuntimeFault Int}
    {onDecimals : Decimal → Decimal → Except RuntimeFault Decimal} {left right : Value}
    {result : Scalar} {leftType rightType ty : Ty} {offset : Nat} {fault : TypeFault}
    (typed : (if Typing.isNumeric leftType = true ∧ leftType = rightType then .ok leftType
      else Typing.fault fault offset) = .ok ty)
    (complies : left.Complies leftType)
    (defined : arithmetic onIntegers onDecimals left right = .ok result) :
    (Value.scalar result).Conforms ty := by
  split at typed
  next operands =>
    obtain rfl := Except.ok.inj typed
    obtain ⟨left', right', rfl, rfl, numeric, same, -⟩ := arithmetic_class defined
    apply Conforms.of_ty
    have accepts := complies.accepts (ne_nil_of_numeric (same ▸ numeric))
    rw [same] at accepts
    rcases Ty.accepts_iff.mp accepts with rfl | rfl | rfl
    · rfl
    · cases operands.1
    · cases operands.1
  · cases typed

/-- A sum is a string if one of its operands is; a numeric sum has no operand of a string's type. -/
theorem add_conforms {leftType rightType ty : Ty} {offset : Nat} {store : Store}
    {left right : Value} {result : Scalar}
    (typed : Typing.binaryType .add leftType rightType offset = .ok ty)
    (complies : left.Complies leftType) (complies' : right.Complies rightType)
    (defined : left.add store right = .ok result) : (Value.scalar result).Conforms ty := by
  simp only [Typing.binaryType] at typed
  unfold add at defined
  split at defined
  next joined =>
    obtain rfl := Except.ok.inj defined
    split at typed
    · exact .of_ty (Except.ok.inj typed)
    next noString =>
      -- An operand that is a string would have the type of strings or a type that names no class.
      split at typed
      next operands =>
        obtain ⟨numeric, rfl⟩ := operands
        have impossible {text : String} (string : (scalar (.string text)).Complies leftType) :
            False := by
          rcases Ty.accepts_iff.mp (string.accepts (by simp)) with isString | isAny | isComparable
          · exact noString (.inl isString)
          · rw [isAny] at numeric
            cases numeric
          · rw [isComparable] at numeric
            cases numeric
        rcases Bool.or_eq_true _ _ ▸ joined with isString | isString
        · obtain ⟨text, rfl⟩ := isString_iff.mp isString
          exact (impossible complies).elim
        · obtain ⟨text, rfl⟩ := isString_iff.mp isString
          exact (impossible complies').elim
      · cases typed
  · split at typed
    next isString =>
      obtain ⟨left', right', rfl, rfl, numeric, same, same'⟩ := arithmetic_class defined
      have impossible {scalar : Scalar} (same : scalar.ty = result.ty)
          (string : (Value.scalar scalar).Complies .string) : False := by
        rw [← same] at numeric
        rcases Ty.accepts_iff.mp (string.accepts (ne_nil_of_numeric numeric)) with
          isString | isAny | isComparable
        · rw [← isString] at numeric
          cases numeric
        · cases isAny
        · cases isComparable
      rcases isString with rfl | rfl
      · exact (impossible same complies).elim
      · exact (impossible same' complies').elim
    · exact arithmetic_conforms typed complies defined

theorem applyOperator_conforms {op : BinaryOp} {leftType rightType ty : Ty} {offset : Nat}
    {store : Store} {left right : Value} {result : Scalar}
    (typed : Typing.binaryType op leftType rightType offset = .ok ty)
    (complies : left.Complies leftType) (complies' : right.Complies rightType)
    (defined : applyOperator store op left right = .ok result) :
    (Value.scalar result).Conforms ty := by
  have comparison (accepts : Bool) (fault : TypeFault)
      (typed : (if accepts = true then .ok .boolean else Typing.fault fault offset) = .ok ty) :
      ty = .boolean := by
    split at typed
    · exact (Except.ok.inj typed).symm
    · cases typed
  cases op with
  | and => cases defined
  | or => cases defined
  | less =>
      obtain ⟨ordering, _, rfl⟩ := Typing.map_eq_ok.mp defined
      exact .of_ty (comparison _ _ typed).symm
  | greater =>
      obtain ⟨ordering, _, rfl⟩ := Typing.map_eq_ok.mp defined
      exact .of_ty (comparison _ _ typed).symm
  | equal =>
      obtain rfl := Except.ok.inj defined
      exact .of_ty (comparison _ _ typed).symm
  | unequal =>
      obtain rfl := Except.ok.inj defined
      exact .of_ty (comparison _ _ typed).symm
  | add => exact add_conforms typed complies complies' defined
  | subtract => exact arithmetic_conforms typed complies defined
  | multiply => exact arithmetic_conforms typed complies defined
  | divide => exact arithmetic_conforms typed complies defined
  | power =>
      obtain ⟨base, _, rest⟩ := Typing.bind_eq_ok.mp defined
      obtain ⟨exponent, _, rest⟩ := Typing.bind_eq_ok.mp rest
      split at rest
      · obtain rfl := Except.ok.inj rest
        simp only [Typing.binaryType] at typed
        split at typed
        · exact .of_ty (Except.ok.inj typed)
        · cases typed
      · cases rest

end Value

/-- Types promise classes, and there are no lists. -/
def Discipline.classes : Discipline where
  marked := true
  Fits := Value.Conforms
  Lists _ _ := False
  Keeps _ := True
  Allows _ _ _ := True
  fits_of_unmarked unmarked := by cases unmarked
  fits_nil _ := ⟨.nil, rfl, .inl rfl⟩
  fits_scalar := Value.Conforms.scalar
  fits_accepted := by
    rintro _ expected found accepts ⟨scalar, rfl, rfl | accepts'⟩
    · exact ⟨.nil, rfl, .inl rfl⟩
    · exact ⟨scalar, rfl, .inr (Ty.accepts_trans accepts accepts')⟩
  fits_operator typed conforms conforms' :=
    Value.applyOperator_conforms typed conforms.complies conforms'.complies
  fits_list := False.elim
  fits_element := by
    rintro store cell ty element - ⟨scalar, equal, _⟩
    cases equal
  keeps_empty := trivial
  keeps_allocate _ _ _ := trivial
  keeps_setElement _ _ _ _ _ := trivial

/-- What has just become known, and what all variables hold, belongs to the classes that the noted
types name. -/
structure Moment.KeepsClasses (moment : Moment) : Prop where
  bindings : moment.scene.types.Mirrors
    (fun variableType binding => binding.value.HasClass variableType.ty) (fun _ _ _ => True)
    moment.scene.machine.environment
  evaluated : ∀ expr value ty, moment.event = .evaluated expr value → expr.note.ty = some ty →
    value.HasClass ty
  returned : ∀ function value signature, moment.event = .returned function value →
    function.signature = some signature → value.HasClass signature.returns

theorem Discipline.Steady.keepsClasses {moment : Moment}
    (steady : Discipline.classes.Steady moment) : moment.KeepsClasses := by
  refine ⟨?_, ?_, ?_⟩
  · exact steady.bindings.imp (fun _ _ holds => holds.2.hasClass) fun _ _ _ => id
  · intro expr value ty happened noted
    exact (steady.evaluated expr value happened ty fun _ => noted).hasClass
  · intro function value signature happened noted
    exact (steady.returned function value happened signature fun _ => noted).hasClass

/-- In the runs of an accepted program without lists every expression, every variable and every call
keeps the class that its type names. -/
theorem Program.keepsClasses_of_moments {text : String} {given annotated : Program}
    (read : Program.ofText text = .ok given) (accepted : given.annotate = .ok annotated)
    (noLists : ∀ global ∈ given.globals, Java.isListValue global.value = false) {budget : Nat}
    {machine : Machine} {moment : Moment} (occurs : moment ∈ annotated.moments budget machine) :
    moment.KeepsClasses := by
  obtain ⟨passes, rfl⟩ := Program.annotate_eq_ok.mp accepted
  obtain ⟨between, after, typing⟩ :=
    Program.typing_of_ofText Discipline.classes read passes fun index ty found => by
      rw [Program.elementTypes_check_eq_nil noLists] at found
      cases found
  have permitted := Discipline.classes.permits_of_allows fun _ _ _ => trivial
  exact ((Program.watch_ensures typing budget machine).1.forall_mem permitted moment
    occurs).keepsClasses

theorem Program.keepsClasses_of_moments_sum :
    ∃ given annotated moment function,
      Program.ofText "FUN main ( ) : Integer DO LET x = 1 ; RETURN x + 1 ; END" = .ok given ∧
      given.annotate = .ok annotated ∧
      (∀ global ∈ given.globals, Java.isListValue global.value = false) ∧
      moment ∈ annotated.moments 0 (.start 1) ∧
      moment.event = .returned function (.scalar (.integer 2)) ∧ moment.KeepsClasses := by
  let returnsTwo (event : Event) : Bool :=
    match event with
    | .returned _ value => value == .scalar (.integer 2)
    | _ => false
  have happens : ((Program.ofText
      "FUN main ( ) : Integer DO LET x = 1 ; RETURN x + 1 ; END").toOption.bind
      fun given => given.annotate.toOption.map fun annotated =>
        (given.globals.all fun global => !Java.isListValue global.value) &&
          (annotated.moments 0 (.start 1)).any fun moment => returnsTwo moment.event) =
      some true := by
    decide +kernel
  cases read : Program.ofText "FUN main ( ) : Integer DO LET x = 1 ; RETURN x + 1 ; END" with
  | error problem =>
      rw [read] at happens
      cases happens
  | ok given =>
      cases accepted : given.annotate with
      | error problem =>
          simp only [read, Except.toOption, Option.bind_some, accepted] at happens
          cases happens
      | ok annotated =>
          simp only [read, Except.toOption, Option.bind_some, accepted, Option.map_some,
            Option.some.injEq, Bool.and_eq_true, List.all_eq_true, Bool.not_eq_true',
            List.any_eq_true] at happens
          obtain ⟨noLists, ⟨scene, event⟩, occurs, returns⟩ := happens
          have keeps := Program.keepsClasses_of_moments read accepted noLists occurs
          cases event with
          | returned function value =>
              obtain rfl := eq_of_beq returns
              exact ⟨given, annotated, _, function, rfl, accepted, noLists, occurs, rfl, keeps⟩
          | acted => cases returns
          | evaluated => cases returns
          | assigning => cases returns

end Procedural
