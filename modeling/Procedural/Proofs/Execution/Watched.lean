import Procedural.Proofs.Execution.Staging
import Procedural.Typing.Basic

/-!
# Watched runs

A watched run is a staging of the run that keeps a record of every moment: the machine
after each action, the values of expressions as they become known, the results of
calls, and the values that are about to be stored in lists.  Beside the machine it
carries the types that checking noted for the variables, in frames of their own that are
entered and left together with those of the machine.  Forgetting record and types gives
the run itself.
-/

namespace Procedural

/-- A machine and the noted types of its variables. -/
structure Scene where
  machine : Machine
  types : Typing.Environment

namespace Scene

/-- One more frame, which is enclosed by a given one. -/
def enter (home : Nat) (scene : Scene) : Scene :=
  ⟨{ scene.machine with environment := scene.machine.environment.pushUnder home },
    scene.types.pushUnder home⟩

def leave (scene : Scene) : Scene :=
  ⟨{ scene.machine with environment := scene.machine.environment.pop }, scene.types.pop⟩

/-- One more call is active. -/
def deeper (scene : Scene) : Scene :=
  ⟨{ scene.machine with depth := scene.machine.depth + 1 }, scene.types⟩

def shallower (scene : Scene) : Scene :=
  ⟨{ scene.machine with depth := scene.machine.depth - 1 }, scene.types⟩

end Scene

/-- What has just happened; or which value is to be stored in which list next. -/
inductive Event where
  | acted
  | evaluated (expr : Expr) (value : Value)
  | returned (function : Function) (value : Value)
  | assigning (receiver : Expr) (cell : Nat) (value : Value)

/-- A scene, and what led to it. -/
structure Moment where
  scene : Scene
  event : Event

/-- How a watched action ends, and what there was to see until then. -/
structure Showing (α : Type) where
  result : Except Stop α
  scene : Scene
  moments : List Moment

/-- An action whose moments are recorded. -/
def Watched (α : Type) : Type :=
  Scene → Showing α

namespace Watched

variable {α β : Type}

protected def pure (value : α) : Watched α :=
  fun scene => ⟨.ok value, scene, []⟩

protected def bind (action : Watched α) (next : α → Watched β) : Watched β :=
  fun scene =>
    match action scene with
    | ⟨.ok value, scene, moments⟩ =>
        let later := next value scene
        ⟨later.result, later.scene, moments ++ later.moments⟩
    | ⟨.error stop, scene, moments⟩ => ⟨.error stop, scene, moments⟩

instance : Monad Watched where
  pure := Watched.pure
  bind := Watched.bind

/-- One action of the machine; if it succeeds then types may be noted. -/
def stepNoting (note : Typing.Environment → Typing.Environment) (action : Exec α) : Watched α :=
  fun scene =>
    let (result, machine) := action scene.machine
    let types := if result.isOk then note scene.types else scene.types
    ⟨result, ⟨machine, types⟩, [⟨⟨machine, types⟩, .acted⟩]⟩

def step (action : Exec α) : Watched α :=
  stepNoting id action

def report (event : Event) : Watched Unit :=
  fun scene => ⟨.ok (), scene, [⟨scene, event⟩]⟩

/-- Records an event with the value that an action turns out to have. -/
def recording (event : Value → Event) (action : Watched Value) : Watched Value := do
  let value ← action
  report (event value)
  pure value

/-- Acts in a frame that is enclosed by a given one, and leaves it in any case. -/
def inFrame (outer : Environment → Nat) (action : Watched α) : Watched α :=
  fun scene =>
    let entered := scene.enter (outer scene.machine.environment)
    let inside := action entered
    ⟨inside.result, inside.scene.leave,
      ⟨entered, .acted⟩ :: (inside.moments ++ [⟨inside.scene.leave, .acted⟩])⟩

def inBlock (action : Watched α) : Watched α :=
  inFrame Scope.current action

/-- Acts in a call of a function that was defined in a given frame. -/
def inCall (home : Nat) (action : Watched α) : Watched α :=
  fun scene =>
    let inside := inFrame (fun _ => home) action scene.deeper
    ⟨inside.result, inside.scene.shallower,
      ⟨scene.deeper, .acted⟩ :: (inside.moments ++ [⟨inside.scene.shallower, .acted⟩])⟩

/-- Binds a variable of a noted type. -/
def declare (name : String) (offset : Option Nat) (binding : Binding) (ty : Ty) : Watched Unit :=
  stepNoting (·.defineVariable name ⟨ty, binding.mutable⟩) (Exec.declare name offset binding)

/-- Records that a value is to be stored in a list, and then stores it. -/
def storing (receiver : Expr) (cell : Nat) (value : Value) (store : Watched Unit) :
    Watched Unit := do
  report (.assigning receiver cell value)
  store

/-- Binds parameters; without noted types they may have any. -/
def bindParameters : List (String × Value) → List Ty → Watched Unit
  | [], _ => pure ()
  | (name, value) :: rest, types => do
      stepNoting (·.defineVariable name ⟨types.headD .any, true⟩)
        (Exec.modifyEnvironment fun environment => environment.defineVariable name ⟨value, true⟩)
      bindParameters rest types.tail

def defineFunction (function : Function) : Watched Unit :=
  stepNoting (·.defineFunction function.name function.arity (function.signature.getD default))
    (Exec.defineFunction function)

end Watched

def Staging.watched : Staging Watched where
  act := Watched.step
  inBlock := Watched.inBlock
  inCall _ := Watched.inCall
  evaluating expr := Watched.recording (.evaluated expr)
  storing := Watched.storing
  returning function := Watched.recording (.returned function)
  declare := Watched.declare
  bindParameters function arguments :=
    Watched.bindParameters (function.parameters.zip arguments)
      ((function.signature.map Signature.parameters).getD [])
  defineFunction := Watched.defineFunction

def Program.watch (budget : Nat) (program : Program) (machine : Machine) : Showing Value :=
  let run : Watched Value := do
    Watched.report .acted
    program.stage .watched (Staging.watched.invoke budget machine.reset.room)
  run ⟨machine.reset, Typing.root⟩

/-- Every moment of a run. -/
def Program.moments (budget : Nat) (program : Program) (machine : Machine) : List Moment :=
  (program.watch budget machine).moments

end Procedural
