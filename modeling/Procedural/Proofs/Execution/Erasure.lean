import Procedural.Proofs.Execution.Accord
import Procedural.Proofs.Execution.Watched

/-!
# Watching changes nothing

Each watched action follows the action it was made from: it ends in the same way and on
the same machine.  This is an accord of the machine with the watched stage.
-/

namespace Procedural

/-- Without record and types, the watched action is the action of the machine. -/
def Watched.Follows {α : Type} (watched : Watched α) (action : Exec α) : Prop :=
  ∀ scene, ((watched scene).result, (watched scene).scene.machine) = action scene.machine

namespace Watched.Follows

variable {α β : Type}

protected theorem pure (value : α) : Follows (pure value) (pure value) :=
  fun _ => rfl

protected theorem bind {watched : Watched α} {action : Exec α} {watchedNext : α → Watched β}
    {next : α → Exec β} (first : Follows watched action)
    (later : ∀ value, Follows (watchedNext value) (next value)) :
    Follows (watched >>= watchedNext) (action >>= next) := by
  intro scene
  have equal := first scene
  change ((Watched.bind watched watchedNext scene).result,
    (Watched.bind watched watchedNext scene).scene.machine) = Exec.bind action next scene.machine
  unfold Watched.bind Exec.bind
  rw [← equal]
  cases shown : watched scene with
  | mk result after moments =>
      cases result with
      | ok value => exact later value after
      | error stop => rfl

theorem stepNoting (note : Typing.Environment → Typing.Environment) (action : Exec α) :
    Follows (Watched.stepNoting note action) action :=
  fun _ => rfl

theorem step (action : Exec α) : Follows (Staging.watched.act action) action :=
  stepNoting id action

theorem reporting {watched : Watched α} {action : Exec α} (event : Event)
    (follows : Follows watched action) :
    Follows (Watched.report event >>= fun _ => watched) action :=
  follows

theorem recording {watched : Watched Value} {action : Exec Value} (event : Value → Event)
    (follows : Follows watched action) : Follows (Watched.recording event watched) action := by
  intro scene
  rw [← follows scene]
  change ((Watched.bind watched _ scene).result, (Watched.bind watched _ scene).scene.machine) = _
  unfold Watched.bind
  cases shown : watched scene with
  | mk result after moments => cases result <;> rfl

theorem inFrame {watched : Watched α} {action : Exec α} (outer : Environment → Nat)
    (follows : Follows watched action) :
    Follows (Watched.inFrame outer watched)
      (Exec.inFrame (fun environment => environment.pushUnder (outer environment)) action) := by
  intro scene
  have equal := follows (scene.enter (outer scene.machine.environment))
  change _ = (let ended := action (scene.enter (outer scene.machine.environment)).machine
    (ended.1, { ended.2 with environment := ended.2.environment.pop }))
  rw [← equal]
  rfl

theorem inBlock {watched : Watched α} {action : Exec α} (follows : Follows watched action) :
    Follows (Watched.inBlock watched) (Exec.inBlock action) :=
  follows.inFrame Scope.current

theorem inCall {watched : Watched α} {action : Exec α} (home : Nat)
    (follows : Follows watched action) :
    Follows (Watched.inCall home watched) (Exec.inCall home action) := by
  intro scene
  have equal := follows.inFrame (fun _ => home) scene.deeper
  change _ = (let ended := Exec.inFrame (Scope.pushUnder · home) action scene.deeper.machine
    (ended.1, { ended.2 with depth := ended.2.depth - 1 }))
  rw [← equal]
  rfl

end Watched.Follows

theorem Watched.Follows.bindParameters : ∀ (bindings : List (String × Value)) (types : List Ty),
    Watched.Follows (Watched.bindParameters bindings types) (Exec.bindParameters bindings)
  | [], _ => .pure _
  | (_, _) :: rest, types =>
      (Follows.stepNoting _ _).bind fun _ => bindParameters rest types.tail

theorem Watched.Follows.callWithin {watched : Watched Value} {action : Exec Value}
    (follows : Watched.Follows watched action) (function : Function) (home : Nat)
    (arguments : List Value) (offset : Nat) :
    Watched.Follows (Staging.watched.callWithin function home arguments offset watched)
      (Staging.plain.callWithin function home arguments offset action) := by
  have full := Follows.step (Exec.look fun machine => decide (machine.limit ≤ machine.depth))
  apply full.bind
  intro isFull
  cases isFull with
  | false => exact follows.inCall home
  | true => exact .step (Exec.refuseCall (.user function home) arguments offset)

/-- What a watched run is made of follows what the run is made of. -/
def Staging.BlindAccord.following (budget : Nat) : Staging.watched.BlindAccord budget budget where
  Related action watched := Watched.Follows watched action
  pure := .pure
  bind := .bind
  blind _ := .step _
  inBlock := .inBlock
  repeatWhile tests bodies :=
    Accord.repeatWhile_of_rounds .watched (fun action watched => Watched.Follows watched action)
      .pure .bind (.step _) _ _ _ _ tests bodies budget
  call function home arguments offset _ _ follows :=
    follows.callWithin function home arguments offset
  refuse _ _ _ := .step _
  evaluating expr _ _ follows := follows.recording (.evaluated expr)
  storing receiver cell value _ _ follows := follows.reporting (.assigning receiver cell value)
  returning function _ _ follows := follows.recording (.returned function)
  declare _ _ _ _ _ := .stepNoting _ _
  bindParameters _ _ _ := .bindParameters _ _
  defineFunction _ _ := .stepNoting _ _

/-- A watched run ends as the run does. -/
theorem Program.watch_follows (budget : Nat) (program : Program) (machine : Machine) :
    ((program.watch budget machine).result, (program.watch budget machine).scene.machine) =
      program.execute budget machine := by
  let accord := Staging.BlindAccord.following budget
  have follows := accord.run (accord.toAccord.invokes machine.reset.room) program
  exact follows ⟨machine.reset, Typing.root⟩

end Procedural
