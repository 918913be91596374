import Procedural.Execution.Fault
import Procedural.Value

/-!
# Operators on values

The left operand of an arithmetic operator decides its class, and the right operand
must belong to the same class.  A string on either side makes a sum a concatenation.
Order is defined between two scalars of one ordered class; equality is defined
between any two values.  Only concatenation and equality look into lists.
-/

namespace Procedural

/-- The order of two scalars of one ordered class. -/
def Scalar.compare? : Scalar → Scalar → Option Ordering
  | .integer left, .integer right => some (compare left right)
  | .decimal left, .decimal right => some (left.compare right)
  | .character left, .character right => some (compare left right)
  | .string left, .string right => some (compare left right)
  | .boolean left, .boolean right => some (compare left right)
  | _, _ => none

namespace Value

def wrongClass {α : Type} (expected : String) (found : Value) : Except RuntimeFault α :=
  .error (.wrongClass expected found.className)

def toInteger : Value → Except RuntimeFault Int
  | scalar (.integer value) => .ok value
  | other => wrongClass "Integer" other

def toDecimal : Value → Except RuntimeFault Decimal
  | scalar (.decimal value) => .ok value
  | other => wrongClass "Decimal" other

def toBoolean : Value → Except RuntimeFault Bool
  | scalar (.boolean value) => .ok value
  | other => wrongClass "Boolean" other

/-- The number of the cell that holds the elements of a list. -/
def toCell : Value → Except RuntimeFault Nat
  | list cell => .ok cell
  | other => wrongClass "List" other

def isString : Value → Bool
  | scalar (.string _) => true
  | _ => false

def order (left right : Value) : Except RuntimeFault Ordering :=
  match left, right with
  | scalar value, scalar value' =>
      match value.compare? value' with
      | some ordering => .ok ordering
      | none => wrongClass left.className right
  | _, _ => wrongClass left.className right

/-- An arithmetic operator in the class of its left operand. -/
def arithmetic (onIntegers : Int → Int → Except RuntimeFault Int)
    (onDecimals : Decimal → Decimal → Except RuntimeFault Decimal) (left right : Value) :
    Except RuntimeFault Scalar :=
  match left with
  | scalar (.integer value) => do
      let other ← right.toInteger
      let result ← onIntegers value other
      .ok (.integer result)
  | scalar (.decimal value) => do
      let other ← right.toDecimal
      let result ← onDecimals value other
      .ok (.decimal result)
  | other => wrongClass "Integer or Decimal" other

/-- The sum of two numbers, or the joined texts when one operand is a string. -/
def add (store : Store) (left right : Value) : Except RuntimeFault Scalar :=
  if left.isString || right.isString then
    .ok (.string (store.text left ++ store.text right))
  else
    arithmetic (fun a b => .ok (a + b)) (fun a b => .ok (a.add b)) left right

/-- The quotient of two integers, rounded toward zero. -/
def divideIntegers (left right : Int) : Except RuntimeFault Int :=
  if right = 0 then .error .divisionByZero else .ok (left.tdiv right)

/-- The quotient of two decimal numbers, rounded to the scale of the first. -/
def divideDecimals (left right : Decimal) : Except RuntimeFault Decimal :=
  if right.digits = 0 then .error .divisionByZero else .ok (left.div right)

/-- The exponents that a power can have are below this bound. -/
def exponentBound : Int := 4294967296

/-- The power of an integer. -/
def power (left right : Value) : Except RuntimeFault Scalar := do
  let base ← left.toInteger
  let exponent ← right.toInteger
  if 0 ≤ exponent ∧ exponent < exponentBound then .ok (.integer (base.pow exponent.toNat))
  else .error (.invalidExponent exponent)

/-- Applies an operator to two values whose lists stand in a store; the logical operators have no
operation on values alone. -/
def applyOperator (store : Store) (op : BinaryOp) (left right : Value) :
    Except RuntimeFault Scalar :=
  match op with
  | .and | .or => wrongClass "Boolean" left
  | .less => (left.order right).map fun ordering => .boolean (ordering == .lt)
  | .greater => (left.order right).map fun ordering => .boolean (ordering == .gt)
  | .equal => .ok (.boolean (store.same left right))
  | .unequal => .ok (.boolean (!store.same left right))
  | .add => left.add store right
  | .subtract => arithmetic (fun a b => .ok (a - b)) (fun a b => .ok (a.sub b)) left right
  | .multiply => arithmetic (fun a b => .ok (a * b)) (fun a b => .ok (a.mul b)) left right
  | .divide => arithmetic divideIntegers divideDecimals left right
  | .power => left.power right

end Value

end Procedural
