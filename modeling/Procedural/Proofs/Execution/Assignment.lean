import Procedural.Proofs.Execution.Modest
import Procedural.Proofs.Execution.Still
import Procedural.Proofs.Scope.Refinement
import Procedural.Proofs.Store.Change
import Procedural.Typing.Stmt

/-!
# Assignments change one place

An assignment is refused before anything is evaluated, or its operands are evaluated.  From
then on it fails and leaves the machine as the operands left it, or it puts the new value in
one place: the variable that the name refers to by then, or an element of the list in that
variable.  Evaluation may have done anything in between.
-/

namespace Procedural

/-- Where a machine holds a value: in a variable of a frame or in an element of a list. -/
inductive Place where
  | ofFrame (id : Nat) (name : String)
  | ofList (cell position : Nat)
  deriving DecidableEq

namespace Machine

/-- What a frame itself binds a name to. -/
def bindingAt (machine : Machine) (id : Nat) (name : String) : Option Binding :=
  machine.environment.arena.answerAt (·.valueOf name) (some id)

/-- The value in a place. -/
def valueAt (machine : Machine) : Place → Option Value
  | .ofFrame id name => (machine.bindingAt id name).map Binding.value
  | .ofList cell position => (machine.store.elements cell)[position]?

/-- The place that a name refers to, with or without an index. -/
inductive Designates (machine : Machine) (name : String) : Option Int → Place → Prop where
  | ofFrame {id : Nat} :
      machine.environment.arena.Resolves (·.Binds name) machine.environment.current (some id) →
      Designates machine name none (.ofFrame id name)
  | ofList {binding : Binding} {cell position : Nat} :
      machine.environment.findVariable? name = some binding → binding.value = .list cell →
      position < (machine.store.elements cell).length →
      Designates machine name (some position) (.ofList cell position)

/-- One machine becomes the other when the value in one place is replaced. -/
structure DiffersAt (place : Place) (value : Value) (before after : Machine) : Prop where
  held : (before.valueAt place).isSome = true
  holds : after.valueAt place = some value
  elsewhere : ∀ other, other ≠ place → after.valueAt other = before.valueAt other
  mutability : ∀ id name, (after.bindingAt id name).map Binding.mutable =
    (before.bindingAt id name).map Binding.mutable
  links : after.environment.arena.map LinkedFrame.parent =
    before.environment.arena.map LinkedFrame.parent
  functions : after.environment.arena.map LinkedFrame.functionOf =
    before.environment.arena.map LinkedFrame.functionOf
  cells : after.store.cells.size = before.store.cells.size
  lengths : ∀ cell, (after.store.elements cell).length = (before.store.elements cell).length
  output : after.printed = before.printed
  depth : after.depth = before.depth
  limit : after.limit = before.limit

/-- Whatever variable holds the list, indexing it gives this value. -/
def Shows (machine : Machine) (cell position : Nat) (value : Value) : Prop :=
  ∀ (invoke : Invoker) (note note' : Note) (other : String) (binding : Binding),
    machine.environment.findVariable? other = some binding → binding.value = .list cell →
      (Expr.element note other (.literal note' (.integer position))).evaluate invoke machine =
        (.ok value, machine)

/-- A value was assigned to a name, with or without an index. -/
structure Assigned (name : String) (operands : Option Int × Value) (before after : Machine) :
    Prop where
  place : ∃ place, before.Designates name operands.1 place ∧
    before.DiffersAt place operands.2 after
  aliases : ∀ cell position, before.Designates name operands.1 (.ofList cell position) →
    after.Shows cell position operands.2

end Machine

namespace Arena

variable {V F : Type}

/-- Replacing the value of a variable in one frame. -/
theorem answerAt_updateAt (arena : Arena V F) (holder : Nat) (name : String) (change : V → V)
    (id : Nat) (other : String) :
    Arena.answerAt (arena.updateAt (some holder) name change) (·.valueOf other) (some id) =
      if id = holder ∧ other = name then
        (arena.answerAt (·.valueOf other) (some id)).map change
      else arena.answerAt (·.valueOf other) (some id) := by
  unfold answerAt updateAt
  rw [Option.bind_some, Option.bind_some, List.getElem?_modify]
  cases arena[id]? with
  | none => exact (ite_self _).symm
  | some frame =>
      change (if holder = id then frame.updateVariable name change else frame).valueOf other =
        if id = holder ∧ other = name then (frame.valueOf other).map change
        else frame.valueOf other
      by_cases here : holder = id
      · rw [if_pos here]
        change Function.update frame.valueOf name _ other = _
        rw [Function.update_apply]
        by_cases same : other = name
        · rw [if_pos same, if_pos ⟨here.symm, same⟩, same]
        · rw [if_neg same, if_neg fun both => same both.2]
      · rw [if_neg here, if_neg fun both => here both.1.symm]

end Arena

namespace Machine.DiffersAt

variable {machine : Machine}

/-- The value of a variable is replaced in one frame. -/
theorem updateVariable {id : Nat} {name : String} {binding : Binding}
    (there : machine.bindingAt id name = some binding) (value : Value)
    (updated : (machine.environment.updateVariable name fun binding =>
        { binding with value }).arena =
      machine.environment.arena.updateAt (some id) name fun binding => { binding with value }) :
    machine.DiffersAt (.ofFrame id name) value
      { machine with
        environment := machine.environment.updateVariable name fun binding =>
          { binding with value } } := by
  let change (binding : Binding) : Binding := { binding with value }
  generalize ended : ({ machine with
    environment := machine.environment.updateVariable name change } : Machine) = after
  have scope : after.environment.arena =
      machine.environment.arena.updateAt (some id) name change := by
    rw [← ended]
    exact updated
  have bindings (id' : Nat) (other : String) : after.bindingAt id' other =
      if id' = id ∧ other = name then (machine.bindingAt id' other).map change
      else machine.bindingAt id' other := by
    unfold bindingAt
    rw [scope, Arena.answerAt_updateAt]
  constructor
  case held =>
    rw [valueAt, there]
    rfl
  case holds =>
    rw [valueAt, bindings, if_pos ⟨rfl, rfl⟩, there]
    rfl
  case elsewhere =>
    intro other different
    cases other with
    | ofList => rw [← ended, valueAt, valueAt]
    | ofFrame id' other =>
        rw [valueAt, valueAt, bindings, if_neg]
        rintro ⟨rfl, rfl⟩
        exact different rfl
  case mutability =>
    intro id' other
    rw [bindings]
    split
    · rw [Option.map_map]
      rfl
    · rfl
  case links =>
    rw [scope]
    exact Arena.map_modify _ _ _ fun _ => rfl
  case functions =>
    rw [scope]
    exact Arena.map_modify _ _ _ fun _ => rfl
  all_goals
    rw [← ended]
  case lengths => exact fun _ => rfl

/-- An element of a list is replaced. -/
theorem setElement {cell position : Nat}
    (bound : position < (machine.store.elements cell).length) (value : Value) :
    machine.DiffersAt (.ofList cell position) value
      { machine with store := machine.store.setElement cell position value } := by
  have elements (other : Nat) : (machine.store.setElement cell position value).elements other =
      if other = cell then (machine.store.elements cell).set position value
      else machine.store.elements other :=
    Store.elements_setElement other
  constructor
  case held =>
    rw [valueAt, List.getElem?_eq_getElem bound]
    rfl
  case holds => rw [valueAt, elements, if_pos rfl, List.getElem?_set_self bound]
  case elsewhere =>
    intro other different
    cases other with
    | ofFrame => rfl
    | ofList cell' position' =>
        rw [valueAt, valueAt, elements]
        split
        next same =>
          subst same
          rw [List.getElem?_set_ne]
          rintro rfl
          exact different rfl
        · rfl
  case lengths =>
    intro other
    rw [elements]
    split
    next same => rw [same, List.length_set]
    · rfl
  case cells => exact Store.size_setElement
  case mutability => exact fun _ _ => rfl
  all_goals rfl

end Machine.DiffersAt

theorem position?_eq_some {index : Int} {length position : Nat} :
    position? index length = some position ↔ index = position ∧ position < length := by
  unfold position?
  split
  · rw [Option.some.injEq]
    omega
  · constructor
    · exact nofun
    · omega

namespace Exec

/-- How an action ends is known if all else is excluded. -/
theorem Ends.eq {α : Type} {action : Exec α} {machine after : Machine} {result : Except Stop α}
    (ends : Ends action machine (fun value after' => result = .ok value ∧ after' = after)
      fun stop after' => result = .error stop ∧ after' = after) :
    action machine = (result, after) := by
  unfold Ends at ends
  split at ends <;> rename_i ended <;> rw [ended, ends.1, ends.2]

/-- An element of a list in a variable is read. -/
theorem evaluate_indexed (invoke : Invoker) (note note' : Note) {machine : Machine} {name : String}
    {binding : Binding} {cell position : Nat} {value : Value}
    (found : machine.environment.findVariable? name = some binding)
    (holds : binding.value = .list cell)
    (there : (machine.store.elements cell)[position]? = some value) :
    (Expr.element note name (.literal note' (.integer position))).evaluate invoke machine =
      (.ok value, machine) := by
  have inside : position? position (machine.store.elements cell).length = some position :=
    position?_eq_some.mpr ⟨rfl, (List.getElem?_eq_some_iff.mp there).choose⟩
  apply Ends.eq
  rw [Expr.evaluate, Expr.evaluate]
  apply Ends.bind
  refine .findVariable (fun binding' found' => ?_) fun absent => ?_
  · obtain rfl := Option.some.inj (found.symm.trans found')
    rw [holds]
    refine Ends.bind (Ends.pure (Ends.bind (Ends.pure (Ends.bind (Ends.pure ?_)))))
    unfold Exec.element positionIn
    refine Ends.bind (Ends.look ?_)
    rw [inside]
    refine Ends.bind (Ends.pure ⟨?_, rfl⟩)
    rw [there]
    rfl
  · cases found.symm.trans absent

/-- A variable gets a value in the nearest frame that binds the name. -/
theorem ends_assignVariable (machine : Machine) (name : String) (offset : Nat) (value : Value) :
    (assignVariable name offset value).Ends machine
      (fun _ after => machine.Assigned name (none, value) after)
      fun _ after => after = machine := by
  apply Ends.bind
  refine Ends.findVariable (fun binding found => ?_) fun _ => rfl
  obtain ⟨holder, resolves, answers, updated⟩ := machine.environment.variable_resolves name
  cases holder with
  | none => cases found.symm.trans answers
  | some id =>
      have differs := Machine.DiffersAt.updateVariable (answers.symm.trans found) value (updated _)
      exact ⟨⟨_, .ofFrame resolves, differs⟩, nofun⟩

/-- An element of a list gets a value, and every variable that holds the list shows it. -/
theorem ends_assignElement (machine : Machine) (name : String) (offset : Nat) (index : Int)
    (indexOffset : Nat) (value : Value) (valueOffset : Nat) :
    Ends (do
        let binding ← findVariable name offset
        let cell ← cell binding.value offset
        storeElement cell index indexOffset value valueOffset) machine
      (fun _ after => machine.Assigned name (some index, value) after)
      fun _ after => after = machine := by
  apply Ends.bind
  refine Ends.findVariable (fun binding found => ?_) fun _ => rfl
  apply Ends.bind
  refine Ends.liftAt (fun cell isCell => ?_) fun _ _ => rfl
  have holds : binding.value = .list cell := by
    cases there : binding.value with
    | list cell' =>
        rw [there] at isCell
        exact congrArg Value.list (Except.ok.inj isCell)
    | scalar scalar =>
        rw [there] at isCell
        cases isCell
  refine ends_storeElement (fun _ position inside => ?_) (fun _ => rfl) fun _ _ => rfl
  obtain ⟨rfl, bound⟩ := position?_eq_some.mp inside
  have differs := Machine.DiffersAt.setElement bound value
  refine ⟨⟨_, .ofList found holds bound, differs⟩, ?_⟩
  intro cell' position' designates invoke note note' other binding' foundOther holdsOther
  cases designates with
  | ofList found' holds' _ =>
      obtain rfl := Option.some.inj (found.symm.trans found')
      obtain rfl := Value.list.inj (holds.symm.trans holds')
      exact evaluate_indexed invoke note note' foundOther holdsOther differs.holds

end Exec

/-- The index of the element that is assigned. -/
def Expr.index? : Expr → Option Expr
  | .element _ _ index => some index
  | _ => none

/-- Evaluates the index of an assignment, if there is one, and then the value. -/
def Exec.evaluateOperands (invoke : Invoker) (index : Option Expr) (value : Expr) :
    Exec (Option Int × Value) :=
  match index with
  | none => do
      let newValue ← value.evaluate invoke
      pure (none, newValue)
  | some index => do
      let position ← index.evaluateIndex invoke
      let newValue ← value.evaluate invoke
      pure (some position, newValue)

namespace Exec

/-- An assignment whose name refers to a variable that may change evaluates its operands; then it
assigns, or it fails and nothing else happens. -/
theorem ends_assign (invoke : Invoker) {receiver : Expr} (value : Expr) {machine : Machine}
    {name : String} {binding : Binding} (target : receiver.target? = some name)
    (found : machine.environment.findVariable? name = some binding)
    (mutable : binding.mutable = true) :
    (assign invoke receiver value).Ends machine
      (fun _ after => ∃ operands before,
        evaluateOperands invoke receiver.index? value machine = (.ok operands, before) ∧
          before.Assigned name operands after)
      fun stop after =>
        evaluateOperands invoke receiver.index? value machine = (.error stop, after) ∨
          ∃ operands,
            evaluateOperands invoke receiver.index? value machine = (.ok operands, after) := by
  have allowed {post : Unit → Machine → Prop} {stopped : Stop → Machine → Prop}
      {offset : Nat} (holds : post () machine) :
      Ends (requireMutable name offset) machine post stopped := by
    refine .requireMutable (fun _ _ _ => holds) (fun _ found' constant => ?_) fun absent => ?_
    · obtain rfl := Option.some.inj (found.symm.trans found')
      cases mutable.symm.trans constant
    · cases found.symm.trans absent
  cases receiver with
  | access note name' =>
      obtain rfl := Option.some.inj target
      apply Ends.bind
      apply allowed
      apply Ends.bind
      apply (Ends.self (value.evaluate invoke) machine).imp
      · intro newValue before evaluated
        have operands : evaluateOperands invoke none value machine =
            (.ok (none, newValue), before) :=
          bind_of_ok evaluated
        apply (ends_assignVariable before name' note.offset newValue).imp
        · exact fun _ _ assigned => ⟨_, before, operands, assigned⟩
        · rintro _ _ rfl
          exact .inr ⟨_, operands⟩
      · exact fun _ _ stopped => .inl (bind_of_error stopped)
  | element note name' index =>
      obtain rfl := Option.some.inj target
      apply Ends.bind
      apply allowed
      apply Ends.bind
      apply (Ends.self (index.evaluateIndex invoke) machine).imp
      · intro position between indexed
        have operands : evaluateOperands invoke (some index) value machine = _ :=
          bind_of_ok indexed
        apply Ends.bind
        apply (Ends.self (value.evaluate invoke) between).imp
        · intro newValue before evaluated
          rw [bind_of_ok evaluated] at operands
          apply (ends_assignElement before name' note.offset position index.offset newValue
            value.offset).imp
          · exact fun _ _ assigned => ⟨_, before, operands, assigned⟩
          · rintro _ _ rfl
            exact .inr ⟨_, operands⟩
        · intro _ _ stopped
          rw [bind_of_error stopped] at operands
          exact .inl operands
      · exact fun _ _ stopped => .inl (bind_of_error stopped)
  | _ => cases target

/-- Without a variable that may change, nothing is evaluated. -/
theorem assign_refused (invoke : Invoker) {receiver : Expr} (value : Expr) {machine : Machine}
    {name : String} {fault : RuntimeFault} (target : receiver.target? = some name)
    (refuses : requireMutable name receiver.offset machine =
      (.error (.error ⟨fault, some receiver.offset⟩), machine)) :
    assign invoke receiver value machine =
      (.error (.error ⟨fault, some receiver.offset⟩), machine) := by
  cases receiver with
  | access note name' | element note name' index =>
      obtain rfl := Option.some.inj target
      exact bind_of_error refuses
  | _ => cases target

end Exec

/-- An assignment to what is not a variable, or not one that may change, is refused at once.  Any
other assignment fails as its operands do, or fails and leaves all as they left it, or changes
one place. -/
theorem Stmt.assignment_atomic (invoke : Invoker) (budget : Nat) (receiver value : Expr)
    (machine : Machine) :
    let ended := (Stmt.assignment receiver value).execute invoke budget machine
    let evaluated := Exec.evaluateOperands invoke receiver.index? value machine
    let Refused (fault : RuntimeFault) :=
      ended = (.error (.error ⟨fault, some receiver.offset⟩), machine)
    (receiver.target? = none → Refused .invalidTarget) ∧
      ∀ name, receiver.target? = some name →
        (machine.environment.findVariable? name = none → Refused (.undefinedVariable name)) ∧
        ∀ binding, machine.environment.findVariable? name = some binding →
          (binding.mutable = false → Refused (.immutableAssignment name)) ∧
          (binding.mutable = true →
            (∀ stop, evaluated.1 = .error stop → ended = (.error stop, evaluated.2)) ∧
            (∀ stop, ended.1 = .error stop → ended.2 = evaluated.2) ∧
            ∀ flow, ended.1 = .ok flow → flow = .normal ∧
              ∃ operands, evaluated.1 = .ok operands ∧
                evaluated.2.Assigned name operands ended.2) := by
  intro ended evaluated Refused
  have stops {stop : Stop} {after : Machine}
      (stopped : Exec.assign invoke receiver value machine = (.error stop, after)) :
      ended = (.error stop, after) :=
    Exec.bind_of_error stopped
  refine ⟨fun other => stops ?_, fun name target => ⟨fun absent => ?_, fun binding found =>
    ⟨fun constant => ?_, fun mutable => ?_⟩⟩⟩
  · cases receiver with
    | access | element => cases other
    | _ => rfl
  · apply stops
    apply Exec.assign_refused invoke value target
    refine Exec.Ends.eq (.requireMutable (fun _ found _ => ?_) (fun _ found _ => ?_) fun _ => ?_)
    · cases absent.symm.trans found
    · cases absent.symm.trans found
    · exact ⟨rfl, rfl⟩
  · apply stops
    apply Exec.assign_refused invoke value target
    refine Exec.Ends.eq (.requireMutable (fun _ found' mutable => ?_) (fun _ _ _ => ?_)
      fun absent => ?_)
    · obtain rfl := Option.some.inj (found.symm.trans found')
      cases constant.symm.trans mutable
    · exact ⟨rfl, rfl⟩
    · cases found.symm.trans absent
  · have assigns := Exec.ends_assign invoke value target found mutable
    unfold Exec.Ends at assigns
    split at assigns
    next after ran =>
      obtain ⟨operands, before, operated, assigned⟩ := assigns
      have same : ended = (.ok .normal, after) := Exec.bind_of_ok ran
      have same' : evaluated = (.ok operands, before) := operated
      rw [same, same']
      refine ⟨nofun, nofun, fun flow normal => ?_⟩
      exact ⟨(Except.ok.inj normal).symm, operands, rfl, assigned⟩
    next stop after ran =>
      rw [stops ran]
      rcases assigns with stopped | ⟨operands, operated⟩
      · have same : evaluated = (.error stop, after) := stopped
        rw [same]
        refine ⟨fun stop' reason => ?_, fun _ _ => rfl, nofun⟩
        rw [Except.error.inj reason]
      · have same : evaluated = (.ok operands, after) := operated
        rw [same]
        exact ⟨nofun, fun _ _ => rfl, nofun⟩

/-- The call for the new value changes the list itself.  An index in range then changes one more
element, which another variable shows; an index out of range changes nothing more. -/
theorem Stmt.assignment_atomic_alias :
    let list : Binding := ⟨.list 0, true⟩
    let environment : Environment := ((Scope.empty.defineVariable "x" list).defineVariable "y"
      list).defineFunction "f" 0 (.builtin .print)
    let machine : Machine := ⟨environment, ⟨#[[.scalar .nil, .scalar .nil]]⟩, [], 0, 1⟩
    let invoke : Invoker := fun _ _ _ => do
      Exec.modify fun machine =>
        { machine with store := machine.store.setElement 0 0 (.scalar (.boolean true)) }
      pure (.scalar (.boolean false))
    let value : Expr := .call (.at 9) "f" []
    let assigned (index : Int) := (Stmt.assignment
      (.element (.at 0) "x" (.literal (.at 2) (.integer index))) value).execute invoke 0 machine
    machine.environment.findVariable? "x" = some list ∧
      (assigned 1).1 = .ok .normal ∧
      (assigned 1).2.store.elements 0 = [.scalar (.boolean true), .scalar (.boolean false)] ∧
      (assigned 1).2.Shows 0 1 (.scalar (.boolean false)) ∧
      (assigned 2).1 = .error (.error ⟨.indexOutOfBounds 2 2, some 2⟩) ∧
      (assigned 2).2.store.elements 0 = [.scalar (.boolean true), .scalar .nil] := by
  intro list environment machine invoke value assigned
  have atomic := (Stmt.assignment_atomic invoke 0
    (.element (.at 0) "x" (.literal (.at 2) (.integer 1))) value machine).2 "x" rfl
  have normal : (assigned 1).1 = .ok .normal := by rfl
  obtain ⟨-, operands, evaluated, assigns⟩ :=
    ((atomic.2 list (by rfl)).2 rfl).2.2 .normal normal
  refine ⟨by rfl, normal, by rfl, ?_, by rfl, by rfl⟩
  obtain rfl : (some 1, .scalar (.boolean false)) = operands := Except.ok.inj evaluated
  exact assigns.aliases 0 1 (.ofList (by rfl) rfl (by decide))

end Procedural
