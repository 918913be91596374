import Procedural.Proofs.Execution.Accord

/-!
# Printed lines

No action looks at what is printed already.  So a run does the same whatever was printed
before it, and its own lines are added to those.
-/

namespace Procedural

variable {α β : Type}

/-- The machine when older lines were printed before. -/
def Machine.over (machine : Machine) (older : List PrintedLine) : Machine :=
  { machine with printed := machine.printed ++ older }

/-- Older lines make no difference, and they stay. -/
def Exec.Appends (action : Exec α) : Prop :=
  ∀ machine older,
    action (machine.over older) = ((action machine).1, (action machine).2.over older)

namespace Exec.Appends

theorem printed {action : Exec α} (appends : action.Appends) (machine : Machine) :
    machine.printed <:+ (action machine).2.printed := by
  have same := appends { machine with printed := [] } machine.printed
  refine ⟨(action { machine with printed := [] }).2.printed, ?_⟩
  exact (congrArg (fun ended => ended.2.printed) same).symm

protected theorem pure (value : α) : Appends (pure value) :=
  fun _ _ => rfl

protected theorem bind {action : Exec α} {next : α → Exec β} (appends : action.Appends)
    (later : ∀ value, (next value).Appends) : (action >>= next).Appends := by
  intro machine older
  have same := appends machine older
  cases ended : action machine with
  | mk result after =>
      rw [ended] at same
      cases result with
      | ok value =>
          rw [bind_of_ok same, bind_of_ok ended]
          exact later value after older
      | error stop => rw [bind_of_error same, bind_of_error ended]

theorem blind {action : Exec α} (blind : action.Blind) : action.Appends := by
  obtain ⟨deed, does⟩ := blind
  intro machine older
  rw [does, does]
  unfold Deed.after Machine.over
  rw [← List.append_assoc]

theorem modest {action : Exec α} (modest : action.Modest) : action.Appends :=
  blind (.modest modest)

theorem repeatWhile {test : Exec Bool} {body : Exec Flow} (tests : test.Appends)
    (bodies : body.Appends) (budget : Nat) :
    Appends (Staging.plain.repeatWhile test body budget) :=
  Staging.Accord.repeatWhile_of_rounds .plain (fun _ action => action.Appends) Appends.pure
    Appends.bind (.modest (.stop _)) test test body body tests bodies budget

theorem inFrame {action : Exec α} (appends : action.Appends) (enter : Environment → Environment) :
    Appends (inFrame enter action) := by
  intro machine older
  have inside := appends { machine with environment := enter machine.environment } older
  unfold Exec.inFrame
  exact congrArg (fun ended => (ended.1, { ended.2 with environment := ended.2.environment.pop }))
    inside

theorem inCall {action : Exec α} (appends : action.Appends) (home : Nat) :
    Appends (inCall home action) := by
  intro machine older
  have inside := appends.inFrame (Scope.pushUnder · home)
    { machine with depth := machine.depth + 1 } older
  exact congrArg (fun ended => (ended.1, { ended.2 with depth := ended.2.depth - 1 })) inside

theorem refuseCall (callable : Callable) (arguments : List Value) (offset : Nat) :
    Appends (refuseCall callable arguments offset) :=
  fun _ _ => rfl

theorem callWithin (function : Function) (home : Nat) (arguments : List Value) (offset : Nat)
    {body : Exec Value} (appends : body.Appends) :
    Appends (Staging.plain.callWithin function home arguments offset body) := by
  apply Appends.bind (fun _ _ => rfl)
  intro full
  cases full with
  | true => exact refuseCall (.user function home) arguments offset
  | false => exact appends.inCall home

end Exec.Appends

open Exec in
/-- Runs append to what is printed. -/
def Staging.BlindAccord.appending (budget : Nat) : Staging.plain.BlindAccord budget budget where
  Related _ action := action.Appends
  pure := Appends.pure
  bind := Appends.bind
  blind := Appends.blind
  inBlock appends := appends.inFrame Scope.push
  repeatWhile tests bodies := tests.repeatWhile bodies budget
  call function home arguments offset _ _ := Appends.callWithin function home arguments offset
  refuse := Appends.refuseCall

theorem Exec.invoke_appends (budget room : Nat) (callable : Callable) (arguments : List Value)
    (offset : Nat) : Appends (Staging.plain.invoke budget room callable arguments offset) :=
  (Staging.BlindAccord.appending budget).toAccord.invokes room callable trivial arguments offset

theorem Program.execute_appends (budget : Nat) (program : Program) :
    (program.execute budget).Appends := by
  intro machine older
  let accord := Staging.BlindAccord.appending budget
  have appends : (program.stage .plain (Staging.plain.invoke budget machine.reset.room)).Appends :=
    accord.run (accord.toAccord.invokes machine.reset.room) program
  rw [Staging.invoke_plain, Program.stage_plain] at appends
  exact appends machine.reset older

end Procedural
