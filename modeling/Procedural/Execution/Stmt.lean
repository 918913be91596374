import Procedural.Execution.Expr

/-!
# Execution of statements

A statement ends normally or with the result of the enclosing function.  Blocks run
in frames of their own, a loop body in a fresh one each round.  The budget bounds
the rounds of every loop; running out of it is neither a result nor a fault.
-/

namespace Procedural

/-- How a statement ends. -/
inductive Flow where
  | normal
  | returned (value : Value)
  deriving DecidableEq, Repr

namespace Exec

/-- The name refers to a variable that may change. -/
def requireMutable (name : String) (offset : Nat) : Exec Unit := do
  let binding ← findVariable name offset
  if binding.mutable then pure () else raise (.immutableAssignment name) (some offset)

def assignVariable (name : String) (offset : Nat) (value : Value) : Exec Unit := do
  let _ ← findVariable name offset
  modifyEnvironment fun environment =>
    environment.updateVariable name fun binding => { binding with value }

/-- Stores a value in a list, unless the list could then be found inside itself. -/
def storeElement (cell : Nat) (index : Int) (indexOffset : Nat) (value : Value)
    (valueOffset : Nat) : Exec Unit := do
  if ← look fun machine => machine.store.reaches cell value then
    raise .cyclicList (some valueOffset)
  else
    let length ← look fun machine => (machine.store.elements cell).length
    let position ← positionIn index length indexOffset
    modify fun machine => { machine with store := machine.store.setElement cell position value }

/-- Executes an assignment.  The receiver may have changed while the value was evaluated, so it
is looked up again. -/
def assign (invoke : Invoker) (receiver value : Expr) : Exec Unit :=
  match receiver with
  | .access note name => do
      requireMutable name note.offset
      let newValue ← value.evaluate invoke
      assignVariable name note.offset newValue
  | .element note name index => do
      requireMutable name note.offset
      let position ← index.evaluateIndex invoke
      let newValue ← value.evaluate invoke
      let binding ← findVariable name note.offset
      let cell ← cell binding.value note.offset
      storeElement cell position index.offset newValue value.offset
  | other => raise .invalidTarget (some other.offset)

def declareLocal (invoke : Invoker) (name : String) (value : Option Expr) : Exec Unit := do
  let initial ← Expr.evaluateOption invoke value
  declare name (value.map Expr.offset) ⟨initial, true⟩

/-- Repeats a body while a test holds, for at most a number of rounds. -/
def repeatWhile (test : Exec Bool) (body : Exec Flow) : Nat → Exec Flow
  | 0 => stop .exhausted
  | budget + 1 => do
      if ← test then
        match ← body with
        | .normal => repeatWhile test body budget
        | .returned value => pure (.returned value)
      else
        pure .normal

end Exec

mutual

def Stmt.execute (invoke : Invoker) (budget : Nat) : Stmt → Exec Flow
  | .expression value => do
      let _ ← value.evaluate invoke
      pure .normal
  | .declaration name _ value => do
      Exec.declareLocal invoke name value
      pure .normal
  | .assignment receiver value => do
      Exec.assign invoke receiver value
      pure .normal
  | .branch condition thenBlock elseBlock => do
      if ← condition.evaluateCondition invoke then
        Exec.inBlock (Stmt.executeAll invoke budget thenBlock)
      else
        Exec.inBlock (Stmt.executeAll invoke budget elseBlock)
  | .switch condition cases => do
      let selector ← condition.evaluate invoke
      Case.executeFirst invoke budget selector cases
  | .loop condition body =>
      Exec.repeatWhile (condition.evaluateCondition invoke)
        (Exec.inBlock (Stmt.executeAll invoke budget body)) budget
  | .result value => do
      let result ← value.evaluate invoke
      pure (.returned result)

/-- Executes statements in order until one returns. -/
def Stmt.executeAll (invoke : Invoker) (budget : Nat) : List Stmt → Exec Flow
  | [] => pure .normal
  | stmt :: rest => do
      match ← stmt.execute invoke budget with
      | .normal => Stmt.executeAll invoke budget rest
      | .returned value => pure (.returned value)

/-- Executes the first case whose value equals the selector, or that has no value. -/
def Case.executeFirst (invoke : Invoker) (budget : Nat) (selector : Value) :
    List Case → Exec Flow
  | [] => pure .normal
  | .mk none body :: _ => Exec.inBlock (Stmt.executeAll invoke budget body)
  | .mk (some value) body :: rest => do
      let candidate ← value.evaluate invoke
      if ← Exec.look fun machine => machine.store.same candidate selector then
        Exec.inBlock (Stmt.executeAll invoke budget body)
      else Case.executeFirst invoke budget selector rest

end

end Procedural
