import Procedural.Execution.Fault
import Procedural.Scope
import Procedural.Syntax.Program
import Procedural.Value

/-!
# The machine

A machine holds the variables and functions in reach, the lists, the lines printed
so far and the number of active calls.  An action changes the machine and ends with
a value or a reason to stop; the machine is there afterwards in either case.  A
frame or a call is left again however the action inside it ends.
-/

namespace Procedural

structure Binding where
  value : Value
  mutable : Bool
  deriving DecidableEq, Repr

/-- The functions that every program can call. -/
inductive Builtin where
  | print
  | logarithm
  deriving DecidableEq, Repr

def Builtin.name : Builtin → String
  | .print => "print"
  | .logarithm => "logarithm"

/-- Every built-in function; each takes one argument. -/
def Builtin.all : List Builtin :=
  [.print, .logarithm]

def Builtin.ofName? (text : String) : Option Builtin :=
  all.find? fun builtin => builtin.name == text

/-- What a call can refer to; a function of the program runs under its home frame. -/
inductive Callable where
  | builtin (builtin : Builtin)
  | user (function : Function) (home : Nat)

/-- The variables and functions in reach of a program point. -/
abbrev Environment : Type :=
  Scope Binding Callable

/-- A printed line and the offset of the call that printed it. -/
structure PrintedLine where
  offset : Nat
  text : String
  deriving DecidableEq, Repr

/-- The state of a run; the latest printed line comes first. -/
structure Machine where
  environment : Environment
  store : Store
  printed : List PrintedLine
  depth : Nat
  limit : Nat

/-- Why an action ends without a value: a fault, or a loop that takes too many rounds. -/
inductive Stop where
  | error (error : RuntimeError)
  | exhausted
  deriving DecidableEq, Repr

/-- An action of the machine. -/
def Exec (α : Type) : Type :=
  Machine → Except Stop α × Machine

namespace Exec

protected def pure (value : α) : Exec α :=
  fun machine => (.ok value, machine)

protected def bind (action : Exec α) (next : α → Exec β) : Exec β :=
  fun machine =>
    match action machine with
    | (.ok value, machine) => next value machine
    | (.error stop, machine) => (.error stop, machine)

instance : Monad Exec where
  pure := Exec.pure
  bind := Exec.bind

def stop (reason : Stop) : Exec α :=
  fun machine => (.error reason, machine)

def raise (fault : RuntimeFault) (offset : Option Nat) : Exec α :=
  stop (.error ⟨fault, offset⟩)

/-- Takes over a result that may be a fault. -/
def liftAt (offset : Nat) : Except RuntimeFault α → Exec α
  | .ok value => Exec.pure value
  | .error fault => raise fault (some offset)

def look (view : Machine → α) : Exec α :=
  fun machine => (.ok (view machine), machine)

def modify (change : Machine → Machine) : Exec Unit :=
  fun machine => (.ok (), change machine)

def modifyEnvironment (change : Environment → Environment) : Exec Unit :=
  modify fun machine => { machine with environment := change machine.environment }

/-- Acts in a frame of its own and leaves it in any case. -/
def inFrame (enter : Environment → Environment) (action : Exec α) : Exec α :=
  fun machine =>
    let (result, machine) := action { machine with environment := enter machine.environment }
    (result, { machine with environment := machine.environment.pop })

/-- Acts in a block that is nested in the newest frame. -/
def inBlock (action : Exec α) : Exec α :=
  inFrame Scope.push action

/-- Acts in a call of a function, which sees its home frame and not its caller. -/
def inCall (home : Nat) (action : Exec α) : Exec α :=
  fun machine =>
    let (result, machine) :=
      inFrame (Scope.pushUnder · home) action { machine with depth := machine.depth + 1 }
    (result, { machine with depth := machine.depth - 1 })

def allocate (elements : List Value) : Exec Value :=
  fun ⟨environment, store, printed, depth, limit⟩ =>
    let (value, store) := store.allocate elements
    (.ok value, ⟨environment, store, printed, depth, limit⟩)

def findVariable (name : String) (offset : Nat) : Exec Binding := do
  match ← look fun machine => machine.environment.findVariable? name with
  | some binding => pure binding
  | none => raise (.undefinedVariable name) (some offset)

def findFunction (name : String) (arity offset : Nat) : Exec Callable := do
  match ← look fun machine => machine.environment.findFunction? name arity with
  | some callable => pure callable
  | none => raise (.undefinedFunction name arity) (some offset)

/-- Binds a variable in the newest frame, unless that frame has one of the name. -/
def declare (name : String) (offset : Option Nat) (binding : Binding) : Exec Unit := do
  if ← look fun machine => machine.environment.definesVariable name then
    raise (.alreadyDefined name) offset
  else
    modifyEnvironment fun environment => environment.defineVariable name binding

def printLine (text : String) (offset : Nat) : Exec Unit :=
  modify fun machine => { machine with printed := ⟨offset, text⟩ :: machine.printed }

end Exec

end Procedural
