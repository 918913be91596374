import Procedural.Proofs.Execution.Still
import Procedural.Proofs.Scope.Correspondence
import Procedural.Proofs.Store.Change
import Procedural.Proofs.Typing.Judgement

/-!
# Typed programs run soundly

At every moment of the run of a typed program the noted types mirror the environment of
the machine: frame by frame there are the same variables with values that fit, and the
functions are those whose bodies were typed.  What a statement sees of the noted types
agrees with the environment in which it was typed.  So every lookup succeeds, every
declaration is of a fresh name, and values fit the types of their expressions.  The store
keeps what the discipline promises of it as long as no value is stored that it does not
allow.
-/

namespace Procedural

open Watched

namespace Discipline

variable (discipline : Discipline)

def Holds (variableType : Typing.VariableType) (binding : Binding) : Prop :=
  variableType.mutable = binding.mutable ∧ discipline.Fits binding.value variableType.ty

/-- What was typed and what is noted of a variable agree. -/
def Agrees (typed noted : Typing.VariableType) : Prop :=
  typed.mutable = noted.mutable ∧ discipline.Same typed.ty noted.ty

/-- What was typed and what is noted of a function agree. -/
def AgreesOn (_ : String × Nat) (typed noted : Signature) : Prop :=
  discipline.marked = true → typed = noted

/-- How far a run has come: the root in view of which bodies of functions are typed, once all of
it is there, and the number of lists. -/
structure Phase where
  root : Option (Frame Typing.VariableType Signature)
  count : Nat

/-- What a call can refer to.  Functions of the program occur once their bodies can be typed in
view of the root. -/
inductive Linked (phase : Phase) : String × Nat → Signature → Callable → Prop where
  | print {name : String} {signature : Signature} :
      Linked phase (name, 1) signature (.builtin .print)
  | logarithm {name : String} {signature : Signature} :
      discipline.Same .decimal signature.returns →
      Linked phase (name, 1) signature (.builtin .logarithm)
  | user {name : String} {arity : Nat} {signature typed : Signature} {function : Function}
      {root : Frame Typing.VariableType Signature} :
      root ∈ phase.root → BodyTyping discipline root function typed → function.arity = arity →
      (discipline.marked = true → typed = signature) →
      Linked phase (name, arity) signature (.user function 0)

/-- The types are noted in the scene and mirror its environment; their root agrees with the one
that bodies of functions are typed in view of.  The store is as promised. -/
structure Sound (phase : Phase) (types : Typing.Environment) (scene : Scene) : Prop where
  noted : scene.types = types
  mirrors : types.Mirrors discipline.Holds (discipline.Linked phase) scene.machine.environment
  anchored : ∀ root ∈ phase.root, root.Matches discipline.Agrees discipline.AgreesOn types.root
  counted : scene.machine.store.cells.size = phase.count
  kept : discipline.Keeps scene.machine.store

/-- All variables hold values that fit, and so do the expressions and calls that have just become
known.  The store is as promised, and a list that has just been made has its element type. -/
structure Steady (moment : Moment) : Prop where
  kept : discipline.Keeps moment.scene.machine.store
  bindings : moment.scene.types.Mirrors discipline.Holds (fun _ _ _ => True)
    moment.scene.machine.environment
  evaluated : ∀ expr value, moment.event = .evaluated expr value →
    ∀ ty, discipline.Noted expr.note ty → discipline.Fits value ty
  returned : ∀ function value, moment.event = .returned function value →
    ∀ signature, (discipline.marked = true → function.signature = some signature) →
      discipline.Fits value signature.returns
  made : ∀ note elements value, moment.event = .evaluated (.list note elements) value →
    ∃ cell ty, value = .list cell ∧ discipline.Lists cell ty ∧ discipline.Noted note ty

/-- If a value is to be stored in a list next, this is allowed through a variable of its type. -/
def Permits (moment : Moment) : Prop :=
  ∀ receiver cell value, moment.event = .assigning receiver cell value →
    ∀ ty, discipline.Noted receiver.note ty → discipline.Allows ty cell value

/-- The reason to stop is not about the text of the program. -/
def Stopped (phase : Phase) (stop : Stop) (scene : Scene) : Prop :=
  (∃ types, discipline.Sound phase types scene) ∧ stop.isStatic = false

/-- The action is steady at each moment, ends as required and stops for dynamic reasons only, as
long as it stores what is permitted. -/
def Runs {α : Type} (phase : Phase) (watched : Watched α) (scene : Scene)
    (post : α → Scene → Prop) : Prop :=
  watched.Ensures scene discipline.Permits discipline.Steady post (discipline.Stopped phase)

end Discipline

open Discipline

variable {discipline : Discipline} {phase phase' : Phase}
variable {environment types outer : Typing.Environment} {scene : Scene} {α β : Type}

theorem Discipline.Linked.mono {key : String × Nat} {signature : Signature} {callable : Callable}
    (linked : discipline.Linked phase key signature callable)
    (more : ∀ root ∈ phase.root, root ∈ phase'.root) :
    discipline.Linked phase' key signature callable := by
  cases linked with
  | print => exact .print
  | logarithm same => exact .logarithm same
  | user member typing arity same => exact .user (more _ member) typing arity same

theorem Discipline.permits_of_allows (discipline : Discipline)
    (allows : ∀ ty cell value, discipline.Allows ty cell value) (moment : Moment) :
    discipline.Permits moment :=
  fun _ cell value _ ty _ => allows ty cell value

namespace Discipline.Sound

theorem steady_of_event (sound : discipline.Sound phase types scene) {event : Event}
    (notEvaluated : ∀ expr value, event ≠ .evaluated expr value)
    (notReturned : ∀ function value, event ≠ .returned function value) :
    discipline.Steady ⟨scene, event⟩ := by
  refine ⟨sound.kept, ?_, ?_, ?_, ?_⟩
  · rw [sound.noted]
    exact sound.mirrors.imp (fun _ _ => id) fun _ _ _ _ => trivial
  · exact fun expr value equal => absurd equal (notEvaluated expr value)
  · exact fun function value equal => absurd equal (notReturned function value)
  · exact fun note elements value equal => absurd equal (notEvaluated _ value)

theorem steady (sound : discipline.Sound phase types scene) : discipline.Steady ⟨scene, .acted⟩ :=
  sound.steady_of_event (fun _ _ => Event.noConfusion) fun _ _ => Event.noConfusion

theorem steady_assigning (sound : discipline.Sound phase types scene) (receiver : Expr) (cell : Nat)
    (value : Value) : discipline.Steady ⟨scene, .assigning receiver cell value⟩ :=
  sound.steady_of_event (fun _ _ => Event.noConfusion) fun _ _ => Event.noConfusion

theorem steady_evaluated (sound : discipline.Sound phase types scene) {expr : Expr} {value : Value}
    {ty : Ty} (noted : discipline.Noted expr.note ty) (fits : discipline.Fits value ty)
    (made : ∀ note elements, expr = .list note elements →
      ∃ cell, value = .list cell ∧ discipline.Lists cell ty) :
    discipline.Steady ⟨scene, .evaluated expr value⟩ := by
  refine ⟨sound.kept, sound.steady.bindings, ?_, ?_, ?_⟩
  · intro other value' equal ty' noted'
    cases equal
    apply Fits.transfer fits
    intro marked
    exact Option.some.inj ((noted marked).symm.trans (noted' marked))
  · intro function value' equal
    cases equal
  · intro note elements value' equal
    cases equal
    obtain ⟨cell, isList, lists⟩ := made note elements rfl
    exact ⟨cell, ty, isList, lists, noted⟩

theorem steady_returned (sound : discipline.Sound phase types scene) {function : Function}
    {value : Value} {signature : Signature}
    (noted : discipline.marked = true → function.signature = some signature)
    (fits : discipline.Fits value signature.returns) :
    discipline.Steady ⟨scene, .returned function value⟩ := by
  refine ⟨sound.kept, sound.steady.bindings, ?_, ?_, ?_⟩
  · intro expr value' equal
    cases equal
  · intro other value' equal signature' noted'
    cases equal
    apply Fits.transfer fits
    intro marked
    rw [Option.some.inj ((noted marked).symm.trans (noted' marked))]
  · intro note elements value' equal
    cases equal

theorem stopped (sound : discipline.Sound phase types scene) {stop : Stop}
    (dynamic : stop.isStatic = false) : discipline.Stopped phase stop scene :=
  ⟨⟨types, sound⟩, dynamic⟩

theorem now (sound : discipline.Sound phase types scene) :
    discipline.Steady ⟨scene, .acted⟩ ∧ discipline.Sound phase types scene :=
  ⟨sound.steady, sound⟩

theorem withEnvironment (sound : discipline.Sound phase types scene) {machine : Machine}
    (mirrors : types.Mirrors discipline.Holds (discipline.Linked phase) machine.environment)
    (sameStore : machine.store = scene.machine.store) :
    discipline.Sound phase types ⟨machine, scene.types⟩ :=
  ⟨sound.noted, mirrors, sound.anchored, sameStore ▸ sound.counted, sameStore ▸ sound.kept⟩

theorem withMachine (sound : discipline.Sound phase types scene) {machine : Machine}
    (sameEnvironment : machine.environment = scene.machine.environment)
    (sameStore : machine.store = scene.machine.store) :
    discipline.Sound phase types ⟨machine, scene.types⟩ :=
  sound.withEnvironment (sameEnvironment ▸ sound.mirrors) sameStore

theorem withStore (sound : discipline.Sound phase types scene) {store : Store} {count : Nat}
    (counted : store.cells.size = count) (kept : discipline.Keeps store) :
    discipline.Sound ⟨phase.root, count⟩ types ⟨{ scene.machine with store }, scene.types⟩ :=
  ⟨sound.noted, sound.mirrors.imp (fun _ _ => id) fun _ _ _ linked => linked.mono fun _ => id,
    sound.anchored, counted, kept⟩

theorem findVariable {name : String} {found : Typing.VariableType}
    (sound : discipline.Sound phase types scene)
    (sees : environment.Sees discipline.Agrees discipline.AgreesOn types)
    (equal : environment.findVariable? name = some found) :
    ∃ binding, scene.machine.environment.findVariable? name = some binding ∧
      discipline.Holds found binding := by
  obtain ⟨noted, foundNoted, sameMutable, sameType⟩ :=
    exists_of_related (sees.findVariable name) equal
  obtain ⟨binding, foundBinding, holdsMutable, fits⟩ :=
    exists_of_related (sound.mirrors.sees.findVariable name) foundNoted
  refine ⟨binding, foundBinding, sameMutable.trans holdsMutable, Fits.transfer fits ?_⟩
  intro marked
  exact (sameType marked).symm

theorem findFunction {name : String} {arity : Nat} {typed : Signature}
    (sound : discipline.Sound phase types scene)
    (sees : environment.Sees discipline.Agrees discipline.AgreesOn types)
    (equal : environment.findFunction? name arity = some typed) :
    ∃ noted callable, scene.machine.environment.findFunction? name arity = some callable ∧
      (discipline.marked = true → typed = noted) ∧
      discipline.Linked phase (name, arity) noted callable := by
  obtain ⟨noted, foundNoted, same⟩ := exists_of_related (sees.findFunction name arity) equal
  obtain ⟨callable, foundCallable, linked⟩ :=
    exists_of_related (sound.mirrors.sees.findFunction name arity) foundNoted
  exact ⟨noted, callable, foundCallable, same, linked⟩

theorem enter (sound : discipline.Sound phase types scene) (home : Nat) :
    discipline.Sound phase (types.pushUnder home) (scene.enter home) := by
  refine ⟨?_, sound.mirrors.pushUnder home, sound.anchored, sound.counted, sound.kept⟩
  rw [← sound.noted]
  rfl

theorem leave (sound : discipline.Sound phase types scene) :
    discipline.Sound phase types.pop scene.leave := by
  refine ⟨?_, sound.mirrors.pop, sound.anchored, sound.counted, sound.kept⟩
  rw [← sound.noted]
  rfl

theorem deeper (sound : discipline.Sound phase types scene) :
    discipline.Sound phase types scene.deeper :=
  ⟨sound.noted, sound.mirrors, sound.anchored, sound.counted, sound.kept⟩

theorem shallower (sound : discipline.Sound phase types scene) :
    discipline.Sound phase types scene.shallower :=
  ⟨sound.noted, sound.mirrors, sound.anchored, sound.counted, sound.kept⟩

end Discipline.Sound

namespace Discipline.Runs

variable {post : α → Scene → Prop}

protected theorem pure {value : α} (holds : post value scene) :
    discipline.Runs phase (pure value) scene post :=
  Ensures.pure holds

protected theorem bind {first : Watched β} {next : β → Watched α} {middle : β → Scene → Prop}
    (runs : discipline.Runs phase first scene middle)
    (later : ∀ value after, middle value after → discipline.Runs phase (next value) after post) :
    discipline.Runs phase (first >>= next) scene post :=
  Ensures.bind (Ensures.imp runs later fun _ _ => id)

protected theorem imp {watched : Watched α} {post' : α → Scene → Prop}
    (runs : discipline.Runs phase watched scene post)
    (implies : ∀ value after, post value after → post' value after) :
    discipline.Runs phase watched scene post' :=
  Ensures.imp runs implies fun _ _ => id

theorem evaluating {expr : Expr} {watched : Watched Value} {ty : Ty}
    (noList : Java.isListValue (some expr) = false) (noted : discipline.Noted expr.note ty)
    (runs : discipline.Runs phase watched scene fun value after =>
      discipline.Sound phase types after ∧ discipline.Fits value ty) :
    discipline.Runs phase (Staging.watched.evaluating expr watched) scene fun value after =>
      discipline.Sound phase types after ∧ discipline.Fits value ty := by
  apply Ensures.recording
  apply Ensures.imp runs _ fun _ _ => id
  rintro value after ⟨sound, fits⟩
  refine ⟨sound.steady_evaluated noted fits ?_, sound, fits⟩
  rintro note elements rfl
  cases noList

/-- One action that leaves the machine alone. -/
theorem still {action : Exec α} {holds : α → Prop} (sound : discipline.Sound phase types scene)
    (still : action.Still scene.machine.store holds) :
    discipline.Runs phase (Staging.watched.act action) scene fun value after =>
      discipline.Sound phase types after ∧ holds value := by
  apply Ensures.step
  apply (still scene.machine rfl).imp
  · rintro value machine ⟨sameEnvironment, sameStore, holds⟩
    have sound' := sound.withMachine sameEnvironment sameStore
    exact ⟨sound'.steady, sound', holds⟩
  · rintro stop machine ⟨sameEnvironment, sameStore, dynamic⟩
    have sound' := sound.withMachine sameEnvironment sameStore
    exact ⟨sound'.steady, sound'.stopped dynamic⟩

theorem pass {action : Exec α} {holds : α → Prop} (sound : discipline.Sound phase types scene)
    (still : action.Still scene.machine.store holds) :
    discipline.Runs phase (Staging.watched.act action) scene fun _ after =>
      discipline.Sound phase types after :=
  (Runs.still sound still).imp fun _ _ both => both.1

/-- One more list is made, of the type that is its due. -/
theorem allocate {elements : List Value} {ty : Ty} (sound : discipline.Sound phase types scene)
    (lists : discipline.Lists phase.count ty) (fit : ∀ value ∈ elements, discipline.Fits value ty) :
    discipline.Runs phase (Staging.watched.act (Exec.allocate elements)) scene fun value after =>
      discipline.Sound ⟨phase.root, phase.count + 1⟩ types after ∧ value = .list phase.count := by
  apply Ensures.step
  apply Exec.ends_allocate
  have counted : (scene.machine.store.allocate elements).2.cells.size = phase.count + 1 := by
    rw [Store.size_allocate, sound.counted]
  have sound' := sound.withStore counted
    (discipline.keeps_allocate sound.kept (sound.counted.symm ▸ lists) fit)
  exact ⟨sound'.steady, sound', congrArg Value.list sound.counted⟩

/-- A value that fits is stored through a variable, unless this is not permitted. -/
theorem storeElement {receiver : Expr} {cell : Nat} {index : Int} {indexOffset : Nat}
    {value : Value} {valueOffset : Nat} {ty : Ty} (sound : discipline.Sound phase types scene)
    (noted : discipline.Noted receiver.note ty) (fitsList : discipline.Fits (.list cell) ty)
    (fits : discipline.Fits value ty) :
    discipline.Runs phase (Staging.watched.storing receiver cell value
      (Staging.watched.act (Exec.storeElement cell index indexOffset value valueOffset)))
      scene fun _ after => discipline.Sound phase types after := by
  apply Ensures.bind
  apply Ensures.report (sound.steady_assigning receiver cell value)
  intro permitted
  have allowed := permitted receiver cell value rfl ty noted
  apply Ensures.step
  apply Exec.ends_storeElement
  · intro _ position _
    have counted : (scene.machine.store.setElement cell position value).cells.size =
        phase.count := by
      rw [Store.size_setElement, sound.counted]
    exact (sound.withStore counted
      (discipline.keeps_setElement position sound.kept fitsList fits allowed)).now
  · intro _
    exact ⟨sound.steady, sound.stopped rfl⟩
  · intro _ _
    exact ⟨sound.steady, sound.stopped rfl⟩

theorem findVariable {name : String} {offset : Nat} {found : Typing.VariableType}
    (sound : discipline.Sound phase types scene)
    (sees : environment.Sees discipline.Agrees discipline.AgreesOn types)
    (equal : environment.findVariable? name = some found) :
    discipline.Runs phase (Staging.watched.act (Exec.findVariable name offset)) scene
      fun binding after => discipline.Sound phase types after ∧ discipline.Holds found binding := by
  obtain ⟨binding, foundBinding, holds⟩ := sound.findVariable sees equal
  apply Ensures.step
  apply Exec.Ends.findVariable
  · intro other foundOther
    obtain rfl := Option.some.inj (foundBinding.symm.trans foundOther)
    exact ⟨sound.steady, sound, holds⟩
  · intro missing
    cases foundBinding.symm.trans missing

theorem findFunction {name : String} {arity offset : Nat} {typed : Signature}
    (sound : discipline.Sound phase types scene)
    (sees : environment.Sees discipline.Agrees discipline.AgreesOn types)
    (equal : environment.findFunction? name arity = some typed) :
    discipline.Runs phase (Staging.watched.act (Exec.findFunction name arity offset)) scene
      fun callable after => discipline.Sound phase types after ∧
        ∃ noted, (discipline.marked = true → typed = noted) ∧
          discipline.Linked phase (name, arity) noted callable := by
  obtain ⟨noted, callable, foundCallable, same, linked⟩ := sound.findFunction sees equal
  apply Ensures.step
  apply Exec.Ends.findFunction
  · intro other foundOther
    obtain rfl := Option.some.inj (foundCallable.symm.trans foundOther)
    exact ⟨sound.steady, sound, noted, same, linked⟩
  · intro missing
    cases foundCallable.symm.trans missing

theorem requireMutable {name : String} {offset : Nat} {found : Typing.VariableType}
    (sound : discipline.Sound phase types scene)
    (sees : environment.Sees discipline.Agrees discipline.AgreesOn types)
    (equal : environment.findVariable? name = some found) (changes : found.mutable = true) :
    discipline.Runs phase (Staging.watched.act (Exec.requireMutable name offset)) scene
      fun _ after => discipline.Sound phase types after := by
  obtain ⟨binding, foundBinding, holds⟩ := sound.findVariable sees equal
  apply Ensures.step
  apply Exec.Ends.requireMutable
  · intro _ _ _
    exact sound.now
  · intro other foundOther immutable
    obtain rfl := Option.some.inj (foundBinding.symm.trans foundOther)
    rw [← holds.1, changes] at immutable
    cases immutable
  · intro missing
    cases foundBinding.symm.trans missing

theorem assignVariable {name : String} {offset : Nat} {value : Value}
    {found : Typing.VariableType} (sound : discipline.Sound phase types scene)
    (sees : environment.Sees discipline.Agrees discipline.AgreesOn types)
    (equal : environment.findVariable? name = some found)
    (fits : discipline.Fits value found.ty) :
    discipline.Runs phase (Staging.watched.act (Exec.assignVariable name offset value)) scene
      fun _ after => discipline.Sound phase types after := by
  obtain ⟨binding, foundBinding, -⟩ := sound.findVariable sees equal
  obtain ⟨noted, foundNoted, -, sameType⟩ := exists_of_related (sees.findVariable name) equal
  apply Ensures.step
  apply Exec.Ends.bind
  apply Exec.Ends.findVariable
  · intro _ _
    apply Exec.Ends.modify
    have mirrors := sound.mirrors.updateVariable fun other foundOther old holds => by
      obtain rfl := Option.some.inj (foundNoted.symm.trans foundOther)
      exact (⟨holds.1, Fits.transfer fits sameType⟩ :
        discipline.Holds noted { old with value })
    have sound' : discipline.Sound phase types ⟨{ scene.machine with
        environment := scene.machine.environment.updateVariable name fun old =>
          { old with value } }, scene.types⟩ := sound.withEnvironment mirrors rfl
    exact sound'.now
  · intro missing
    cases foundBinding.symm.trans missing

theorem inFrame {watched : Watched α} {home : Environment → Nat} {holds : α → Prop}
    (sound : discipline.Sound phase types scene)
    (runs : ∀ scene', discipline.Sound phase
        (types.pushUnder (home scene.machine.environment)) scene' →
      discipline.Runs phase watched scene' fun value after =>
        (∃ types', discipline.Sound phase types' after ∧ types'.pop = types) ∧ holds value) :
    discipline.Runs phase (Watched.inFrame home watched) scene fun value after =>
      discipline.Sound phase types after ∧ holds value := by
  have entered := sound.enter (home scene.machine.environment)
  apply Ensures.inFrame entered.steady
  apply Ensures.imp (runs _ entered)
  · rintro value after ⟨⟨types', sound', rfl⟩, holds⟩
    exact ⟨sound'.leave.steady, sound'.leave, holds⟩
  · rintro stop after ⟨⟨types', sound'⟩, dynamic⟩
    exact ⟨sound'.leave.steady, sound'.leave.stopped dynamic⟩

theorem inCall {watched : Watched α} {home : Nat} {holds : α → Prop}
    (sound : discipline.Sound phase types scene)
    (runs : ∀ scene', discipline.Sound phase (types.pushUnder home) scene' →
      discipline.Runs phase watched scene' fun value after =>
        (∃ types', discipline.Sound phase types' after ∧ types'.pop = types) ∧ holds value) :
    discipline.Runs phase (Watched.inCall home watched) scene fun value after =>
      discipline.Sound phase types after ∧ holds value := by
  apply Ensures.inCall sound.deeper.steady
  apply Ensures.imp (inFrame sound.deeper runs)
  · rintro value after ⟨sound', holds⟩
    exact ⟨sound'.shallower.steady, sound'.shallower, holds⟩
  · rintro stop after ⟨⟨types', sound'⟩, dynamic⟩
    exact ⟨sound'.shallower.steady, sound'.shallower.stopped dynamic⟩

end Discipline.Runs

end Procedural
