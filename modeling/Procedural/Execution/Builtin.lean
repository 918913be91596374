import Procedural.Decimal.Binary64
import Procedural.Execution.Machine
import Procedural.Execution.Operator

/-!
# Built-in functions

`print` writes the texts of its arguments on one line.  `logarithm` takes one
decimal number that has a finite natural logarithm.
-/

namespace Procedural

def Exec.print (arguments : List Value) (offset : Nat) : Exec Value := do
  let texts ← Exec.look fun machine => arguments.map machine.store.text
  Exec.printLine (" ".intercalate texts) offset
  pure (.scalar .nil)

/-- The natural logarithm of a single argument. -/
def Value.logarithm : List Value → Except RuntimeFault Decimal
  | [argument] => do
      let number ← argument.toDecimal
      match number.logarithm? with
      | some result => .ok result
      | none => .error (.invalidLogarithm number)
  | arguments => .error (.argumentCount Builtin.logarithm.name 1 arguments.length)

def Builtin.call (builtin : Builtin) (arguments : List Value) (offset : Nat) : Exec Value :=
  match builtin with
  | .print => Exec.print arguments offset
  | .logarithm => do
      let result ← Exec.liftAt offset (Value.logarithm arguments)
      pure (.scalar (.decimal result))

end Procedural
