import Procedural.Execution.Program

/-!
# Modest actions

A modest action is guided by what names refer to and by the lists, and by nothing else of
the machine.  It may change lists and print lines; frames, the number of active calls and
their limit stay as they are.  So what is said of runs needs to be shown for all modest
actions at once, and then for the few actions that are not modest.
-/

namespace Procedural

variable {α β : Type}

namespace Exec

variable {action : Exec α} {next : α → Exec β} {machine after : Machine}

theorem bind_of_ok {value : α} (ended : action machine = (.ok value, after)) :
    (action >>= next) machine = next value after := by
  change Exec.bind action next machine = _
  unfold Exec.bind
  rw [ended]

theorem bind_of_error {stop : Stop} (ended : action machine = (.error stop, after)) :
    (action >>= next) machine = (.error stop, after) := by
  change Exec.bind action next machine = _
  unfold Exec.bind
  rw [ended]

end Exec

/-- What names refer to, and the lists. -/
structure View where
  variableOf : String → Option Binding
  functionOf : String → Nat → Option Callable
  store : Store

def Machine.view (machine : Machine) : View :=
  ⟨machine.environment.findVariable?, machine.environment.findFunction?, machine.store⟩

/-- How an action ends, the lists afterwards and the lines that it prints, the latest first. -/
structure Deed (α : Type) where
  result : Except Stop α
  store : Store
  printed : List PrintedLine

/-- The machine that a deed leaves behind. -/
def Deed.after (deed : Deed α) (machine : Machine) : Machine :=
  { machine with store := deed.store, printed := deed.printed ++ machine.printed }

/-- The deeds of two actions in a row; the second is done if the first has a value. -/
def Deed.andThen (first : Deed α) (later : α → Store → Deed β) : Deed β :=
  match first with
  | ⟨.ok value, store, printed⟩ =>
      let second := later value store
      ⟨second.result, second.store, second.printed ++ printed⟩
  | ⟨.error stop, store, printed⟩ => ⟨.error stop, store, printed⟩

/-- The action does a deed that depends on the view of the machine only. -/
def Exec.Modest (action : Exec α) : Prop :=
  ∃ deed : View → Deed α, ∀ machine,
    action machine = ((deed machine.view).result, (deed machine.view).after machine)

namespace Exec.Modest

theorem environment {action : Exec α} (modest : action.Modest) (machine : Machine) :
    (action machine).2.environment = machine.environment := by
  obtain ⟨deed, does⟩ := modest
  rw [does]
  rfl

protected theorem pure (value : α) : Modest (pure value) :=
  ⟨fun view => ⟨.ok value, view.store, []⟩, fun _ => rfl⟩

protected theorem bind {action : Exec α} {next : α → Exec β} (first : action.Modest)
    (later : ∀ value, (next value).Modest) : (action >>= next).Modest := by
  obtain ⟨deed, does⟩ := first
  obtain ⟨deeds, doesLater⟩ := Classical.axiomOfChoice later
  refine ⟨fun view => (deed view).andThen fun value store => deeds value { view with store },
    fun machine => ?_⟩
  have ended := does machine
  dsimp only
  generalize deed machine.view = done at ended ⊢
  obtain ⟨result, store, printed⟩ := done
  cases result with
  | error stop => exact bind_of_error ended
  | ok value =>
      rw [bind_of_ok ended]
      simp only [doesLater, Deed.andThen, Deed.after, List.append_assoc]
      rfl

theorem stop (reason : Stop) : Modest (stop reason : Exec α) :=
  ⟨fun view => ⟨.error reason, view.store, []⟩, fun _ => rfl⟩

theorem raise (fault : RuntimeFault) (offset : Option Nat) :
    Modest (raise fault offset : Exec α) :=
  stop _

theorem liftAt (offset : Nat) (outcome : Except RuntimeFault α) :
    Modest (liftAt offset outcome) := by
  cases outcome with
  | ok value => exact .pure value
  | error fault => exact raise fault (some offset)

theorem look (see : View → α) : Modest (look fun machine => see machine.view) :=
  ⟨fun view => ⟨.ok (see view), view.store, []⟩, fun _ => rfl⟩

theorem lookStore (see : Store → α) : Modest (Exec.look fun machine => see machine.store) :=
  look fun view => see view.store

theorem truth (value : Value) (offset : Nat) : Modest (truth value offset) :=
  liftAt offset _

theorem integer (value : Value) (offset : Nat) : Modest (integer value offset) :=
  liftAt offset _

theorem cell (value : Value) (offset : Nat) : Modest (cell value offset) :=
  liftAt offset _

theorem allocate (elements : List Value) : Modest (allocate elements) :=
  ⟨fun view => ⟨.ok (view.store.allocate elements).1, (view.store.allocate elements).2, []⟩,
    fun _ => rfl⟩

theorem findVariable (name : String) (offset : Nat) : Modest (findVariable name offset) := by
  apply (look fun view => view.variableOf name).bind
  intro found
  cases found with
  | none => exact raise _ _
  | some binding => exact .pure binding

theorem findFunction (name : String) (arity offset : Nat) :
    Modest (findFunction name arity offset) := by
  apply (look fun view => view.functionOf name arity).bind
  intro found
  cases found with
  | none => exact raise _ _
  | some callable => exact .pure callable

theorem requireMutable (name : String) (offset : Nat) : Modest (requireMutable name offset) := by
  apply (findVariable name offset).bind
  intro binding
  split
  · exact .pure ()
  · exact raise _ _

theorem positionIn (index : Int) (length offset : Nat) :
    Modest (positionIn index length offset) := by
  unfold Exec.positionIn
  split
  · exact .pure _
  · exact raise _ _

theorem element (cell : Nat) (index : Int) (offset : Nat) : Modest (element cell index offset) :=
  (lookStore fun store => store.elements cell).bind fun _ =>
    (positionIn index _ offset).bind fun _ => .pure _

theorem operator (op : BinaryOp) (left right : Value) (offset : Nat) :
    Modest (operator op left right offset) :=
  (lookStore fun store => Value.applyOperator store op left right).bind fun _ =>
    (liftAt offset _).bind fun _ => .pure _

theorem storeElement (cell : Nat) (index : Int) (indexOffset : Nat) (value : Value)
    (valueOffset : Nat) : Modest (storeElement cell index indexOffset value valueOffset) := by
  apply (lookStore fun store => store.reaches cell value).bind
  intro cyclic
  split
  · exact raise _ _
  · apply (lookStore fun store => (store.elements cell).length).bind
    intro length
    apply (positionIn index length indexOffset).bind
    intro position
    exact ⟨fun view => ⟨.ok (), view.store.setElement cell position value, []⟩, fun _ => rfl⟩

theorem print (arguments : List Value) (offset : Nat) : Modest (print arguments offset) := by
  apply (lookStore fun store => arguments.map store.text).bind
  intro texts
  exact ⟨fun view => ⟨.ok (.scalar .nil), view.store, [⟨offset, " ".intercalate texts⟩]⟩,
    fun _ => rfl⟩

theorem builtin (builtin : Builtin) (arguments : List Value) (offset : Nat) :
    Modest (builtin.call arguments offset) := by
  cases builtin with
  | print => exact print arguments offset
  | logarithm => exact (liftAt offset _).bind fun _ => .pure _

end Exec.Modest

/-- The action depends on the scope and the lists only.  It may change both and print lines. -/
def Exec.Blind (action : Exec α) : Prop :=
  ∃ deed : Environment → Store → Environment × Deed α, ∀ machine,
    let done := deed machine.environment machine.store
    action machine = (done.2.result, { done.2.after machine with environment := done.1 })

namespace Exec.Blind

theorem modest {action : Exec α} (modest : action.Modest) : action.Blind := by
  obtain ⟨deed, does⟩ := modest
  exact ⟨fun environment store =>
    (environment, deed ⟨environment.findVariable?, environment.findFunction?, store⟩), does⟩

protected theorem bind {action : Exec α} {next : α → Exec β} (blind : action.Blind)
    (later : ∀ value, (next value).Blind) : (action >>= next).Blind := by
  obtain ⟨deed, does⟩ := blind
  obtain ⟨deeds, doesLater⟩ := Classical.axiomOfChoice later
  refine ⟨fun environment store =>
    match deed environment store with
    | (environment, ⟨.ok value, store, printed⟩) =>
        let second := deeds value environment store
        (second.1, ⟨second.2.result, second.2.store, second.2.printed ++ printed⟩)
    | (environment, ⟨.error stop, store, printed⟩) =>
        (environment, ⟨.error stop, store, printed⟩), fun machine => ?_⟩
  have ended := does machine
  dsimp only at ended ⊢
  generalize deed machine.environment machine.store = done at ended ⊢
  obtain ⟨environment, result, store, printed⟩ := done
  cases result with
  | error stop => exact bind_of_error ended
  | ok value =>
      rw [bind_of_ok ended]
      simp only [doesLater, Deed.after, List.append_assoc]

theorem lookEnvironment (see : Environment → α) :
    Blind (look fun machine => see machine.environment) :=
  ⟨fun environment store => (environment, ⟨.ok (see environment), store, []⟩), fun _ => rfl⟩

theorem modifyEnvironment (change : Environment → Environment) :
    Blind (modifyEnvironment change) :=
  ⟨fun environment store => (change environment, ⟨.ok (), store, []⟩), fun _ => rfl⟩

theorem assignVariable (name : String) (offset : Nat) (value : Value) :
    Blind (assignVariable name offset value) :=
  (modest (.findVariable name offset)).bind fun _ => modifyEnvironment _

theorem declare (name : String) (offset : Option Nat) (binding : Binding) :
    Blind (declare name offset binding) := by
  apply (lookEnvironment fun environment => environment.definesVariable name).bind
  intro bound
  split
  · exact modest (.raise _ _)
  · exact modifyEnvironment _

theorem bindParameters (bindings : List (String × Value)) : Blind (bindParameters bindings) := by
  induction bindings with
  | nil => exact modest (.pure ())
  | cons binding rest induction => exact (modifyEnvironment _).bind fun _ => induction

theorem defineFunction (function : Function) : Blind (defineFunction function) := by
  apply (lookEnvironment id).bind
  intro environment
  split
  · exact modest (.raise _ _)
  · exact modifyEnvironment _

end Exec.Blind

end Procedural
