import Procedural.Proofs.Execution.Accord

/-!
# Chronicles

The chronicle of a run lists the machine after every action, and with it the functions of
the program whose calls are active then.  A call is active from the moment it is counted
until it is no longer counted.  Which calls are active follows from where in the run an
action is taken, and not from what the machine counts.
-/

namespace Procedural

variable {α β : Type}

/-- A machine in the course of a run, and the functions whose calls are active, the latest call
first. -/
structure Instant where
  calls : List Function
  machine : Machine

/-- How a chronicled action ends, and the instants until then. -/
structure Account (α : Type) where
  result : Except Stop α
  machine : Machine
  instants : List Instant

/-- An action of which an account is given; it is taken while some calls are active. -/
def Chronicled (α : Type) : Type :=
  List Function → Machine → Account α

namespace Chronicled

protected def pure (value : α) : Chronicled α :=
  fun _ machine => ⟨.ok value, machine, []⟩

protected def bind (action : Chronicled α) (next : α → Chronicled β) : Chronicled β :=
  fun calls machine =>
    match action calls machine with
    | ⟨.ok value, machine, instants⟩ =>
        let later := next value calls machine
        ⟨later.result, later.machine, instants ++ later.instants⟩
    | ⟨.error stop, machine, instants⟩ => ⟨.error stop, machine, instants⟩

instance : Monad Chronicled where
  pure := Chronicled.pure
  bind := Chronicled.bind

def act (action : Exec α) : Chronicled α :=
  fun calls machine =>
    let (result, after) := action machine
    ⟨result, after, [⟨calls, after⟩]⟩

end Chronicled

namespace Machine

/-- The machine in a new frame that is enclosed by a given one. -/
def enter (machine : Machine) (outer : Nat) : Machine :=
  { machine with environment := machine.environment.pushUnder outer }

def leave (machine : Machine) : Machine :=
  { machine with environment := machine.environment.pop }

/-- The machine counts one more active call. -/
def deeper (machine : Machine) : Machine :=
  { machine with depth := machine.depth + 1 }

def shallower (machine : Machine) : Machine :=
  { machine with depth := machine.depth - 1 }

end Machine

namespace Chronicled

def inFrame (outer : Environment → Nat) (action : Chronicled α) : Chronicled α :=
  fun calls machine =>
    let entered := machine.enter (outer machine.environment)
    let inside := action calls entered
    ⟨inside.result, inside.machine.leave,
      ⟨calls, entered⟩ :: (inside.instants ++ [⟨calls, inside.machine.leave⟩])⟩

/-- The call is active while its action is taken, and is so no longer in the last instant. -/
def inCall (function : Function) (home : Nat) (action : Chronicled α) : Chronicled α :=
  fun calls machine =>
    let inside := inFrame (fun _ => home) action (function :: calls) machine.deeper
    ⟨inside.result, inside.machine.shallower,
      ⟨function :: calls, machine.deeper⟩ ::
        (inside.instants ++ [⟨calls, inside.machine.shallower⟩])⟩

end Chronicled

/-- What holds if the first of two actions stops, and what holds after the second one, holds of both
in a row. -/
theorem Chronicled.bind_cases {property : Account β → Prop} {chronicled : Chronicled α}
    {next : α → Chronicled β} {calls : List Function} {machine : Machine}
    (stopped : ∀ stop, (chronicled calls machine).result = .error stop →
      property ⟨.error stop, (chronicled calls machine).machine,
        (chronicled calls machine).instants⟩)
    (done : ∀ value, (chronicled calls machine).result = .ok value →
      let later := next value calls (chronicled calls machine).machine
      property ⟨later.result, later.machine,
        (chronicled calls machine).instants ++ later.instants⟩) :
    property ((chronicled >>= next) calls machine) := by
  change property (Chronicled.bind chronicled next calls machine)
  unfold Chronicled.bind
  generalize chronicled calls machine = account at stopped done
  obtain ⟨result, after, instants⟩ := account
  cases result with
  | error stop => exact stopped stop rfl
  | ok value => exact done value rfl

def Staging.chronicled : Staging Chronicled where
  act := Chronicled.act
  inBlock := Chronicled.inFrame Scope.current
  inCall := Chronicled.inCall

/-- The account of a run, which starts when no call of the program is active. -/
def Program.account (budget : Nat) (program : Program) (machine : Machine) : Account Value :=
  program.stage .chronicled (Staging.chronicled.invoke budget machine.reset.room) [] machine.reset

/-- All instants of a run. -/
def Program.chronicle (budget : Nat) (program : Program) (machine : Machine) : List Instant :=
  ⟨[], machine.reset⟩ :: (program.account budget machine).instants

/-- Without its instants, the account tells what the action does. -/
def Chronicled.Tells (action : Exec α) (chronicled : Chronicled α) : Prop :=
  ∀ calls machine,
    action machine = ((chronicled calls machine).result, (chronicled calls machine).machine)

namespace Chronicled.Tells

theorem act (action : Exec α) : Tells action (Chronicled.act action) :=
  fun _ _ => rfl

theorem bind {action : Exec α} {chronicled : Chronicled α} {next : α → Exec β}
    {next' : α → Chronicled β} (tells : Tells action chronicled)
    (later : ∀ value, Tells (next value) (next' value)) :
    Tells (action >>= next) (chronicled >>= next') := by
  intro calls machine
  have ended := tells calls machine
  refine @bind_cases _ _ (fun account => (action >>= next) machine =
    (account.result, account.machine)) _ _ _ _ ?_ ?_
  · intro stop stopped
    rw [stopped] at ended
    exact Exec.bind_of_error ended
  · intro value done
    rw [done] at ended
    rw [Exec.bind_of_ok ended]
    exact later value calls _

theorem inFrame (outer : Environment → Nat) {action : Exec α} {chronicled : Chronicled α}
    (tells : Tells action chronicled) :
    Tells (Exec.inFrame (fun environment => environment.pushUnder (outer environment)) action)
      (Chronicled.inFrame outer chronicled) := by
  intro calls machine
  have inside := tells calls (machine.enter (outer machine.environment))
  change (let ended := action (machine.enter (outer machine.environment))
    (ended.1, ended.2.leave)) = _
  rw [inside]
  rfl

theorem inCall (function : Function) (home : Nat) {action : Exec α}
    {chronicled : Chronicled α} (tells : Tells action chronicled) :
    Tells (Exec.inCall home action) (Chronicled.inCall function home chronicled) := by
  intro calls machine
  have inside := tells.inFrame (fun _ => home) (function :: calls) machine.deeper
  change (let ended := Exec.inFrame (Scope.pushUnder · home) action machine.deeper
    (ended.1, ended.2.shallower)) = _
  rw [inside]
  rfl

end Chronicled.Tells

open Chronicled in
/-- Chronicling changes nothing. -/
def Staging.BlindAccord.telling (budget : Nat) :
    Staging.chronicled.BlindAccord budget budget where
  Related := Tells
  pure _ _ _ := rfl
  bind := Tells.bind
  blind _ := .act _
  inBlock := Tells.inFrame Scope.current
  repeatWhile tests bodies :=
    Accord.repeatWhile_of_rounds .chronicled Tells (fun _ _ _ => rfl) Tells.bind (.act _) _ _ _ _
      tests bodies budget
  call function home _ _ _ _ tells := by
    apply (Tells.act _).bind
    intro full
    cases full with
    | true => exact .act _
    | false => exact tells.inCall function home
  refuse _ _ _ := .act _

theorem Program.account_tells (budget : Nat) (program : Program) (machine : Machine) :
    program.execute budget machine =
      ((program.account budget machine).result, (program.account budget machine).machine) := by
  let accord := Staging.BlindAccord.telling budget
  exact accord.run (accord.toAccord.invokes machine.reset.room) program [] machine.reset

end Procedural
