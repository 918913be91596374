import Procedural.Execution.Program
import Procedural.Layout.Java

/-!
# Stagings

A staging carries runs out in a monad of its own: it says how an action of the machine is
taken there, and how actions are taken in a block and in a call.  It may also do something of
its own where an expression is evaluated, a call returns or something is bound.  What the
actions of a program are, and in which order they are taken, does not depend on the staging.
-/

namespace Procedural

/-- How an action of the machine is taken, and how actions are taken in a block, and in a call of
a function under its home frame.  The other fields say what is made of certain actions: of the
evaluation of an expression, of storing a value in a cell, of the body of a function, and of
what binds names.  Unless a staging says otherwise, they are taken like any other. -/
structure Staging (M : Type → Type) where
  act : {α : Type} → Exec α → M α
  inBlock : {α : Type} → M α → M α
  inCall : {α : Type} → Function → Nat → M α → M α
  evaluating (expr : Expr) (evaluation : M Value) : M Value := evaluation
  storing (receiver : Expr) (cell : Nat) (value : Value) (store : M Unit) : M Unit := store
  returning (function : Function) (body : M Value) : M Value := body
  /-- Binds a variable for which checking noted a type. -/
  declare (name : String) (offset : Option Nat) (binding : Binding) (ty : Ty) : M Unit :=
    act (Exec.declare name offset binding)
  bindParameters (function : Function) (arguments : List Value) : M Unit :=
    act (Exec.bindParameters (function.parameters.zip arguments))
  defineFunction (function : Function) : M Unit := act (Exec.defineFunction function)

/-- What it takes to call a function on stage. -/
abbrev StagedInvoker (M : Type → Type) : Type :=
  Callable → List Value → Nat → M Value

/-- The staging in which runs are carried out as they are. -/
def Staging.plain : Staging Exec where
  act action := action
  inBlock := Exec.inBlock
  inCall _ := Exec.inCall

variable {M : Type → Type} [Monad M] (staging : Staging M)

section Bodies

variable (invoke : StagedInvoker M)

mutual

def Expr.stage : Expr → M Value
  | .literal note value => staging.evaluating (.literal note value) (pure (.scalar value))
  | .group note inner => staging.evaluating (.group note inner) inner.stage
  | .binary note op left right => staging.evaluating (.binary note op left right) do
      let first ← left.stage
      match op with
      | .and => do
          if ← staging.act (Exec.truth first left.offset) then
            let second ← right.stage
            let value ← staging.act (Exec.truth second right.offset)
            pure (.scalar (.boolean value))
          else
            pure (.scalar (.boolean false))
      | .or => do
          if ← staging.act (Exec.truth first left.offset) then
            pure (.scalar (.boolean true))
          else
            let second ← right.stage
            let value ← staging.act (Exec.truth second right.offset)
            pure (.scalar (.boolean value))
      | op => do
          let second ← right.stage
          staging.act (Exec.operator op first second note.offset)
  | .access note name => staging.evaluating (.access note name) do
      let binding ← staging.act (Exec.findVariable name note.offset)
      pure binding.value
  | .element note name index => staging.evaluating (.element note name index) do
      let binding ← staging.act (Exec.findVariable name note.offset)
      let value ← index.stage
      let index' ← staging.act (Exec.integer value index.offset)
      let cell ← staging.act (Exec.cell binding.value note.offset)
      staging.act (Exec.element cell index' index.offset)
  | .call note name arguments => staging.evaluating (.call note name arguments) do
      let callable ← staging.act (Exec.findFunction name arguments.length note.offset)
      let values ← Expr.stageAll arguments
      invoke callable values note.offset
  | .list note elements => staging.evaluating (.list note elements) do
      let values ← Expr.stageAll elements
      staging.act (Exec.allocate values)

def Expr.stageAll : List Expr → M (List Value)
  | [] => pure []
  | first :: rest => do
      let value ← first.stage
      let values ← Expr.stageAll rest
      pure (value :: values)

end

def Expr.stageOption : Option Expr → M Value
  | none => pure (.scalar .nil)
  | some expr => expr.stage staging invoke

def Expr.stageCondition (expr : Expr) : M Bool := do
  let value ← expr.stage staging invoke
  staging.act (Exec.truth value expr.offset)

def Expr.stageIndex (expr : Expr) : M Int := do
  let value ← expr.stage staging invoke
  staging.act (Exec.integer value expr.offset)

namespace Staging

def assign (receiver value : Expr) : M Unit :=
  match receiver with
  | .access note name => do
      staging.act (Exec.requireMutable name note.offset)
      let newValue ← value.stage staging invoke
      staging.act (Exec.assignVariable name note.offset newValue)
  | .element note name index => do
      staging.act (Exec.requireMutable name note.offset)
      let position ← index.stageIndex staging invoke
      let newValue ← value.stage staging invoke
      let binding ← staging.act (Exec.findVariable name note.offset)
      let cell ← staging.act (Exec.cell binding.value note.offset)
      staging.storing (.element note name index) cell newValue
        (staging.act (Exec.storeElement cell position index.offset newValue value.offset))
  | other => staging.act (Exec.raise .invalidTarget (some other.offset))

def declareLocal (name : String) (written : Option String) (value : Option Expr) : M Unit := do
  let initial ← Expr.stageOption staging invoke value
  staging.declare name (value.map Expr.offset) ⟨initial, true⟩ (Java.localType written value)

def repeatWhile (test : M Bool) (body : M Flow) : Nat → M Flow
  | 0 => staging.act (Exec.stop .exhausted)
  | budget + 1 => do
      if ← test then
        match ← body with
        | .normal => repeatWhile test body budget
        | .returned value => pure (.returned value)
      else
        pure .normal

end Staging

variable (budget : Nat)

mutual

def Stmt.stage : Stmt → M Flow
  | .expression value => do
      let _ ← value.stage staging invoke
      pure .normal
  | .declaration name written value => do
      staging.declareLocal invoke name written value
      pure .normal
  | .assignment receiver value => do
      staging.assign invoke receiver value
      pure .normal
  | .branch condition thenBlock elseBlock => do
      if ← condition.stageCondition staging invoke then
        staging.inBlock (Stmt.stageAll thenBlock)
      else
        staging.inBlock (Stmt.stageAll elseBlock)
  | .switch condition cases => do
      let selector ← condition.stage staging invoke
      Case.stageFirst selector cases
  | .loop condition body =>
      staging.repeatWhile (condition.stageCondition staging invoke)
        (staging.inBlock (Stmt.stageAll body)) budget
  | .result value => do
      let result ← value.stage staging invoke
      pure (.returned result)

def Stmt.stageAll : List Stmt → M Flow
  | [] => pure .normal
  | stmt :: rest => do
      match ← stmt.stage with
      | .normal => Stmt.stageAll rest
      | .returned value => pure (.returned value)

def Case.stageFirst (selector : Value) : List Case → M Flow
  | [] => pure .normal
  | .mk none body :: _ => staging.inBlock (Stmt.stageAll body)
  | .mk (some value) body :: rest => do
      let candidate ← value.stage staging invoke
      if ← staging.act (Exec.look fun machine => machine.store.same candidate selector) then
        staging.inBlock (Stmt.stageAll body)
      else Case.stageFirst selector rest

end

namespace Staging

def runBody (function : Function) (arguments : List Value) : M Value :=
  staging.returning function do
    staging.bindParameters function arguments
    match ← Stmt.stageAll staging invoke budget function.body with
    | .returned value => pure value
    | .normal => pure (.scalar .nil)

/-- Makes a call of a function, given what runs its body, unless calls are nested too deeply. -/
def callWithin (function : Function) (home : Nat) (arguments : List Value) (offset : Nat)
    (body : M Value) : M Value := do
  if ← staging.act (Exec.look fun machine => decide (machine.limit ≤ machine.depth)) then
    staging.act (Exec.refuseCall (.user function home) arguments offset)
  else
    staging.inCall function home body

def invokeWith : StagedInvoker M :=
  fun callable arguments offset =>
    match callable with
    | .builtin builtin => staging.act (builtin.call arguments offset)
    | .user function home =>
        if arguments.length ≠ function.arity then
          staging.act (Exec.raise (.argumentCount function.name function.arity arguments.length)
            (some offset))
        else
          staging.callWithin function home arguments offset
            (staging.runBody invoke budget function arguments)

def defineGlobal (global : Global) : M Unit := do
  let value ← Expr.stageOption staging invoke global.value
  staging.declare global.name (some global.offset) ⟨value, global.mutable⟩ (global.ty.getD .any)

def defineGlobals : List Global → M Unit
  | [] => pure ()
  | global :: rest => do
      staging.defineGlobal invoke global
      defineGlobals rest

def defineFunctions : List Function → M Unit
  | [] => pure ()
  | function :: rest => do
      staging.defineFunction function
      defineFunctions rest

def callMain : M Value := do
  match ← staging.act (Exec.look fun machine => machine.environment.findFunction? "main" 0) with
  | some callable => invoke callable [] 0
  | none => staging.act (Exec.raise .noMainFunction none)

end Staging

/-- The run of a program on stage. -/
def Program.stage (program : Program) : M Value := do
  staging.defineGlobals invoke program.globals
  staging.defineFunctions program.functions
  staging.callMain invoke

end Bodies

def Staging.invoke (budget : Nat) : Nat → StagedInvoker M
  | 0 => fun callable arguments offset =>
      staging.act (Exec.refuseCall callable arguments offset)
  | room + 1 => staging.invokeWith (Staging.invoke budget room) budget

end Procedural
