import Procedural.Execution.Machine
import Procedural.Execution.Operator

/-!
# Evaluation of expressions

Evaluation follows the structure of an expression; what happens inside a call is a
parameter.  Operands, arguments, elements and indices are evaluated from left to
right.  A name is looked up before its index or its arguments are evaluated, and
the elements of a list are read after its index is known.
-/

namespace Procedural

/-- What it takes to call a function with evaluated arguments from a place in the program. -/
abbrev Invoker : Type :=
  Callable → List Value → Nat → Exec Value

def position? (index : Int) (length : Nat) : Option Nat :=
  if 0 ≤ index ∧ index < length then some index.toNat else none

/-- The position that an index denotes in a list of a given length. -/
def Exec.positionIn (index : Int) (length offset : Nat) : Exec Nat :=
  match position? index length with
  | some position => pure position
  | none => Exec.raise (.indexOutOfBounds index length) (some offset)

def Exec.element (cell : Nat) (index : Int) (offset : Nat) : Exec Value := do
  let elements ← Exec.look fun machine => machine.store.elements cell
  let position ← Exec.positionIn index elements.length offset
  pure (elements[position]?.getD (.scalar .nil))

def Exec.truth (value : Value) (offset : Nat) : Exec Bool :=
  Exec.liftAt offset value.toBoolean

def Exec.integer (value : Value) (offset : Nat) : Exec Int :=
  Exec.liftAt offset value.toInteger

def Exec.cell (value : Value) (offset : Nat) : Exec Nat :=
  Exec.liftAt offset value.toCell

def Exec.operator (op : BinaryOp) (left right : Value) (offset : Nat) : Exec Value := do
  let outcome ← Exec.look fun machine => Value.applyOperator machine.store op left right
  let result ← Exec.liftAt offset outcome
  pure (.scalar result)

mutual

def Expr.evaluate (invoke : Invoker) : Expr → Exec Value
  | .literal _ value => pure (.scalar value)
  | .group _ inner => inner.evaluate invoke
  | .binary note op left right => do
      let first ← left.evaluate invoke
      match op with
      | .and => do
          if ← Exec.truth first left.offset then
            let second ← right.evaluate invoke
            let value ← Exec.truth second right.offset
            pure (.scalar (.boolean value))
          else
            pure (.scalar (.boolean false))
      | .or => do
          if ← Exec.truth first left.offset then
            pure (.scalar (.boolean true))
          else
            let second ← right.evaluate invoke
            let value ← Exec.truth second right.offset
            pure (.scalar (.boolean value))
      | op => do
          let second ← right.evaluate invoke
          Exec.operator op first second note.offset
  | .access note name => do
      let binding ← Exec.findVariable name note.offset
      pure binding.value
  | .element note name index => do
      let binding ← Exec.findVariable name note.offset
      let value ← index.evaluate invoke
      let index' ← Exec.integer value index.offset
      let cell ← Exec.cell binding.value note.offset
      Exec.element cell index' index.offset
  | .call note name arguments => do
      let callable ← Exec.findFunction name arguments.length note.offset
      let values ← Expr.evaluateAll invoke arguments
      invoke callable values note.offset
  | .list _ elements => do
      let values ← Expr.evaluateAll invoke elements
      Exec.allocate values

def Expr.evaluateAll (invoke : Invoker) : List Expr → Exec (List Value)
  | [] => pure []
  | first :: rest => do
      let value ← first.evaluate invoke
      let values ← Expr.evaluateAll invoke rest
      pure (value :: values)

end

/-- Evaluates an optional expression; without one the value is nil. -/
def Expr.evaluateOption (invoke : Invoker) : Option Expr → Exec Value
  | none => pure (.scalar .nil)
  | some expr => expr.evaluate invoke

def Expr.evaluateCondition (invoke : Invoker) (expr : Expr) : Exec Bool := do
  let value ← expr.evaluate invoke
  Exec.truth value expr.offset

def Expr.evaluateIndex (invoke : Invoker) (expr : Expr) : Exec Int := do
  let value ← expr.evaluate invoke
  Exec.integer value expr.offset

end Procedural
