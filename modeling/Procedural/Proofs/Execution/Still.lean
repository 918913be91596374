import Procedural.Execution.Program
import Procedural.Proofs.Execution.Logic

/-!
# Actions that leave the machine alone

Faults about names, numbers of arguments and assignments depend on the program text
only.  Operations on values never raise them, and they change neither a variable nor a
list.
-/

namespace Procedural

/-- The fault is about the text of the program and not about the values that occur. -/
def RuntimeFault.isStatic : RuntimeFault → Bool
  | .undefinedVariable _ => true
  | .undefinedFunction _ _ => true
  | .alreadyDefined _ => true
  | .argumentCount _ _ _ => true
  | .immutableAssignment _ => true
  | .invalidTarget => true
  | .noMainFunction => true
  | _ => false

/-- The reason to stop is a fault about the text of the program. -/
def Stop.isStatic : Stop → Bool
  | .error found => found.fault.isStatic
  | .exhausted => false

/-- The outcome is not a fault about the text of the program. -/
def Benign {α : Type} (outcome : Except RuntimeFault α) : Prop :=
  ∀ fault, outcome = .error fault → fault.isStatic = false

namespace Benign

variable {α β : Type}

theorem ok (value : α) : Benign (.ok value) := by
  intro fault equal
  cases equal

theorem error {fault : RuntimeFault} (dynamic : fault.isStatic = false) :
    Benign (.error fault : Except RuntimeFault α) := by
  intro other equal
  cases equal
  exact dynamic

theorem wrongClass (expected : String) (found : Value) :
    Benign (Value.wrongClass expected found : Except RuntimeFault α) :=
  error rfl

theorem bind {outcome : Except RuntimeFault α} {next : α → Except RuntimeFault β}
    (first : Benign outcome) (later : ∀ value, Benign (next value)) :
    Benign (outcome >>= next) := by
  cases outcome with
  | ok value => exact later value
  | error fault => exact error (first fault rfl)

theorem map {outcome : Except RuntimeFault α} (change : α → β) (benign : Benign outcome) :
    Benign (outcome.map change) := by
  cases outcome with
  | ok value => exact ok (change value)
  | error fault => exact error (benign fault rfl)

end Benign

namespace Value

theorem benign_toInteger (value : Value) : Benign value.toInteger := by
  unfold toInteger
  split
  · exact .ok _
  · exact .wrongClass _ _

theorem benign_toDecimal (value : Value) : Benign value.toDecimal := by
  unfold toDecimal
  split
  · exact .ok _
  · exact .wrongClass _ _

theorem benign_toBoolean (value : Value) : Benign value.toBoolean := by
  unfold toBoolean
  split
  · exact .ok _
  · exact .wrongClass _ _

theorem benign_toCell (value : Value) : Benign value.toCell := by
  unfold toCell
  split
  · exact .ok _
  · exact .wrongClass _ _

theorem benign_order (left right : Value) : Benign (left.order right) := by
  unfold order
  split
  · split
    · exact .ok _
    · exact .wrongClass _ _
  · exact .wrongClass _ _

theorem benign_arithmetic {onIntegers : Int → Int → Except RuntimeFault Int}
    {onDecimals : Decimal → Decimal → Except RuntimeFault Decimal}
    (integers : ∀ left right, Benign (onIntegers left right))
    (decimals : ∀ left right, Benign (onDecimals left right)) (left right : Value) :
    Benign (arithmetic onIntegers onDecimals left right) := by
  unfold arithmetic
  split
  · exact (benign_toInteger right).bind fun _ => (integers _ _).bind fun _ => .ok _
  · exact (benign_toDecimal right).bind fun _ => (decimals _ _).bind fun _ => .ok _
  · exact .wrongClass _ _

theorem benign_add (store : Store) (left right : Value) : Benign (left.add store right) := by
  unfold add
  split
  · exact .ok _
  · exact benign_arithmetic (fun _ _ => .ok _) (fun _ _ => .ok _) left right

theorem benign_divideIntegers (left right : Int) : Benign (divideIntegers left right) := by
  unfold divideIntegers
  split
  · exact .error rfl
  · exact .ok _

theorem benign_divideDecimals (left right : Decimal) : Benign (divideDecimals left right) := by
  unfold divideDecimals
  split
  · exact .error rfl
  · exact .ok _

theorem benign_power (left right : Value) : Benign (left.power right) := by
  apply (benign_toInteger left).bind
  intro base
  apply (benign_toInteger right).bind
  intro exponent
  split
  · exact .ok _
  · exact .error rfl

theorem benign_applyOperator (store : Store) (op : BinaryOp) (left right : Value) :
    Benign (applyOperator store op left right) := by
  cases op with
  | and => exact .wrongClass _ _
  | or => exact .wrongClass _ _
  | less => exact (benign_order left right).map _
  | greater => exact (benign_order left right).map _
  | equal => exact .ok _
  | unequal => exact .ok _
  | add => exact benign_add store left right
  | subtract => exact benign_arithmetic (fun _ _ => .ok _) (fun _ _ => .ok _) left right
  | multiply => exact benign_arithmetic (fun _ _ => .ok _) (fun _ _ => .ok _) left right
  | divide => exact benign_arithmetic benign_divideIntegers benign_divideDecimals left right
  | power => exact benign_power left right

theorem benign_logarithm (argument : Value) : Benign (logarithm [argument]) := by
  apply (benign_toDecimal argument).bind
  intro number
  split
  · exact .ok _
  · exact .error rfl

end Value

namespace Exec

variable {α β : Type}

/-- From any machine with a given store the action leaves environment and store alone, raises no
fault about the text of the program, and ends in a value as required. -/
def Still (store : Store) (action : Exec α) (post : α → Prop) : Prop :=
  ∀ machine, machine.store = store → action.Ends machine
    (fun value after => after.environment = machine.environment ∧ after.store = store ∧ post value)
    fun stop after =>
      after.environment = machine.environment ∧ after.store = store ∧ stop.isStatic = false

namespace Still

variable {store : Store} {post : α → Prop}

protected theorem pure {value : α} (holds : post value) : Still store (pure value) post :=
  fun _ same => .pure ⟨rfl, same, holds⟩

protected theorem bind {action : Exec β} {next : β → Exec α} {middle : β → Prop}
    (first : Still store action middle)
    (later : ∀ value, middle value → Still store (next value) post) :
    Still store (action >>= next) post := by
  intro machine same
  apply Ends.bind
  apply (first machine same).imp
  · rintro value after ⟨sameEnvironment, sameStore, holds⟩
    rw [← sameEnvironment]
    exact later value holds after sameStore
  · exact fun _ _ => id

theorem look (view : Machine → α) :
    Still store (Exec.look view) fun value =>
      ∃ machine, machine.store = store ∧ value = view machine :=
  fun machine same => .look ⟨rfl, same, machine, same, rfl⟩

theorem raise {fault : RuntimeFault} {offset : Option Nat} (dynamic : fault.isStatic = false) :
    Still store (raise fault offset : Exec α) post :=
  fun _ same => .raise ⟨rfl, same, dynamic⟩

theorem liftAt {offset : Nat} {outcome : Except RuntimeFault α} (benign : Benign outcome)
    (holds : ∀ value, outcome = .ok value → post value) :
    Still store (liftAt offset outcome) post :=
  fun _ same => .liftAt (fun value equal => ⟨rfl, same, holds value equal⟩) fun fault equal =>
    ⟨rfl, same, benign fault equal⟩

end Still

variable (store : Store)

theorem still_truth (value : Value) (offset : Nat) :
    Still store (truth value offset) fun _ => True :=
  .liftAt value.benign_toBoolean fun _ _ => trivial

theorem still_integer (value : Value) (offset : Nat) :
    Still store (integer value offset) fun _ => True :=
  .liftAt value.benign_toInteger fun _ _ => trivial

theorem still_cell (value : Value) (offset : Nat) :
    Still store (cell value offset) fun found => value = .list found := by
  apply Still.liftAt value.benign_toCell
  intro found equal
  cases value with
  | list cell => exact congrArg Value.list (Except.ok.inj equal)
  | scalar => cases equal

theorem still_positionIn (index : Int) (length offset : Nat) :
    Still store (positionIn index length offset) fun _ => True := by
  unfold positionIn
  split
  · exact .pure trivial
  · exact .raise rfl

theorem still_element (cell : Nat) (index : Int) (offset : Nat) :
    Still store (element cell index offset) fun value =>
      value = .scalar .nil ∨ value ∈ store.elements cell := by
  apply (Still.look _).bind
  rintro elements ⟨machine, rfl, rfl⟩
  apply (still_positionIn _ _ _ _).bind
  intro position _
  apply Still.pure
  cases found : (machine.store.elements cell)[position]? with
  | none => exact .inl rfl
  | some value => exact .inr (List.mem_of_getElem? found)

theorem still_operator (op : BinaryOp) (left right : Value) (offset : Nat) :
    Still store (operator op left right offset) fun value =>
      ∃ result, Value.applyOperator store op left right = .ok result ∧
        value = .scalar result := by
  apply (Still.look _).bind
  rintro outcome ⟨machine, rfl, rfl⟩
  refine Still.bind (Still.liftAt (Value.benign_applyOperator _ _ _ _) fun _ => id) ?_
  intro result equal
  exact .pure ⟨result, equal, rfl⟩

theorem still_print (arguments : List Value) (offset : Nat) :
    Still store (print arguments offset) fun value => value = .scalar .nil := by
  apply (Still.look _).bind
  intro texts _ machine same
  exact ⟨rfl, same, rfl⟩

theorem still_logarithm (argument : Value) (offset : Nat) :
    Still store (Builtin.logarithm.call [argument] offset) fun value =>
      ∃ number, value = .scalar (.decimal number) := by
  refine Still.bind (Still.liftAt argument.benign_logarithm fun _ _ => trivial) ?_
  intro number _
  exact .pure ⟨number, rfl⟩

theorem still_refuseCall (callable : Callable) (arguments : List Value) (offset : Nat) :
    Still store (refuseCall callable arguments offset) fun _ => False :=
  (Still.look _).bind fun _ _ => .raise rfl

/-- A list is made in a new cell. -/
theorem ends_allocate {machine : Machine} {elements : List Value} {post : Value → Machine → Prop}
    {stopped : Stop → Machine → Prop}
    (holds : post (.list machine.store.cells.size)
      { machine with store := (machine.store.allocate elements).2 }) :
    (allocate elements).Ends machine post stopped :=
  holds

/-- An element is stored, unless the value leads back to the list or the index is out of range. -/
theorem ends_storeElement {machine : Machine} {cell : Nat} {index : Int} {indexOffset : Nat}
    {value : Value} {valueOffset : Nat} {post : Unit → Machine → Prop}
    {stopped : Stop → Machine → Prop}
    (holds : machine.store.reaches cell value = false → ∀ position,
      position? index (machine.store.elements cell).length = some position →
      post () { machine with store := machine.store.setElement cell position value })
    (cyclic : machine.store.reaches cell value = true →
      stopped (.error ⟨.cyclicList, some valueOffset⟩) machine)
    (outside : machine.store.reaches cell value = false →
      position? index (machine.store.elements cell).length = none →
      stopped (.error ⟨.indexOutOfBounds index (machine.store.elements cell).length,
        some indexOffset⟩) machine) :
    (storeElement cell index indexOffset value valueOffset).Ends machine post stopped := by
  apply Ends.bind
  apply Ends.look
  cases reaches : machine.store.reaches cell value with
  | true => exact cyclic reaches
  | false =>
      apply Ends.bind
      apply Ends.look
      apply Ends.bind
      unfold positionIn
      cases found : position? index (machine.store.elements cell).length with
      | none => exact outside reaches found
      | some position => exact holds reaches position found

end Exec

end Procedural
