import Procedural.Execution.Builtin
import Procedural.Execution.Stmt

/-!
# Runs of programs

A run evaluates the global variables in order, binds the functions and calls `main`.
Calls nest at most as deeply as the machine's limit.  The machine can be used for
another run after any outcome: only its output and its limit carry over.
-/

namespace Procedural

namespace Exec

/-- Every call of a user function is beyond the limit. -/
def refuseCall : Invoker :=
  fun _ _ offset => do
    let limit ← look fun machine => machine.limit
    raise (.callDepthExceeded limit) (some offset)

/-- Binds parameters to arguments; of two parameters of one name the later one counts. -/
def bindParameters : List (String × Value) → Exec Unit
  | [] => pure ()
  | (name, value) :: rest => do
      modifyEnvironment fun environment => environment.defineVariable name ⟨value, true⟩
      bindParameters rest

def runBody (invoke : Invoker) (budget : Nat) (function : Function) (arguments : List Value) :
    Exec Value := do
  bindParameters (function.parameters.zip arguments)
  match ← Stmt.executeAll invoke budget function.body with
  | .returned value => pure value
  | .normal => pure (.scalar .nil)

/-- Calls a function whose nested calls are made by another invoker. -/
def invokeWith (invoke : Invoker) (budget : Nat) : Invoker :=
  fun callable arguments offset =>
    match callable with
    | .builtin builtin => builtin.call arguments offset
    | .user function home => do
        if arguments.length ≠ function.arity then
          raise (.argumentCount function.name function.arity arguments.length) (some offset)
        else if ← look fun machine => decide (machine.limit ≤ machine.depth) then
          refuseCall callable arguments offset
        else
          inCall home (runBody invoke budget function arguments)

/-- Calls a function; `room` bounds how deeply calls of user functions can still nest. -/
def invoke (budget : Nat) : Nat → Invoker
  | 0 => refuseCall
  | room + 1 => invokeWith (invoke budget room) budget

/-- Evaluates a global variable and binds it. -/
def defineGlobal (invoke : Invoker) (global : Global) : Exec Unit := do
  let value ← Expr.evaluateOption invoke global.value
  declare global.name (some global.offset) ⟨value, global.mutable⟩

def defineGlobals (invoke : Invoker) : List Global → Exec Unit
  | [] => pure ()
  | global :: rest => do
      defineGlobal invoke global
      defineGlobals invoke rest

/-- Binds a function under its name and arity, unless they are taken. -/
def defineFunction (function : Function) : Exec Unit := do
  let environment ← look fun machine => machine.environment
  if environment.definesFunction function.name function.arity then
    raise (.alreadyDefined s!"{function.name}/{function.arity}") (some function.offset)
  else
    modifyEnvironment fun environment =>
      environment.defineFunction function.name function.arity
        (.user function environment.current)

def defineFunctions : List Function → Exec Unit
  | [] => pure ()
  | function :: rest => do
      defineFunction function
      defineFunctions rest

def callMain (invoke : Invoker) : Exec Value := do
  match ← look fun machine => machine.environment.findFunction? "main" 0 with
  | some callable => invoke callable [] 0
  | none => raise .noMainFunction none

end Exec

namespace Machine

/-- The environment in which the first global variable is evaluated. -/
def rootEnvironment : Environment :=
  Builtin.all.foldl
    (fun environment builtin => environment.defineFunction builtin.name 1 (.builtin builtin))
    Scope.empty

def start (limit : Nat) : Machine :=
  ⟨rootEnvironment, .empty, [], 0, limit⟩

def reset (machine : Machine) : Machine :=
  { machine with environment := rootEnvironment, store := .empty }

def output (machine : Machine) : List PrintedLine :=
  machine.printed.reverse

/-- One more than the number of nested calls that a machine still allows. -/
def room (machine : Machine) : Nat :=
  machine.limit - machine.depth + 1

end Machine

def defaultCallLimit : Nat := 256

/-- Runs a program; the budget bounds the rounds of every loop. -/
def Program.execute (budget : Nat) (program : Program) : Exec Value :=
  fun machine =>
    let machine := machine.reset
    let invoke := Exec.invoke budget machine.room
    (do
      Exec.defineGlobals invoke program.globals
      Exec.defineFunctions program.functions
      Exec.callMain invoke : Exec Value) machine

/-- The result of a run, written out. -/
def Program.run (budget : Nat) (program : Program) (machine : Machine) :
    Except Stop Datum × Machine :=
  let (result, machine) := program.execute budget machine
  (result.map machine.store.datum, machine)

end Procedural
