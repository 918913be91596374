import Procedural.Decimal.Binary64
import Procedural.Decimal.Text
import Procedural.Scope
import Procedural.Syntax.Program

/-!
# Rules of typing

Typing judges literals, operators and assignments by the rules of this module.  A
check returns the checked tree in any case: up to the first error the tree carries
annotations, and from there on it is the tree that was given.
-/

namespace Procedural

/-- Why a program is not well typed. -/
inductive TypeFault where
  | unknownType (name : String)
  | undefinedVariable (name : String)
  | undefinedFunction (name : String) (arity : Nat)
  | alreadyDefined (name : String)
  | mismatch (expected found : Ty)
  | invalidOperands (op : BinaryOp) (left right : Ty)
  | integerOutOfRange (value : Int)
  | decimalOutOfRange (value : Decimal)
  | invalidGroup
  | untypedDeclaration (name : String)
  | invalidTarget
  | immutableAssignment (name : String)
  | emptyThenBlock
  | misplacedDefault
  | noMainFunction
  deriving DecidableEq, Repr

def TypeFault.message : TypeFault → String
  | .unknownType name => s!"unknown type '{name}'"
  | .undefinedVariable name => s!"undefined variable '{name}'"
  | .undefinedFunction name arity => s!"undefined function '{name}' taking {arity} argument(s)"
  | .alreadyDefined name => s!"'{name}' is already defined in this scope"
  | .mismatch expected found => s!"expected {expected.name}, found {found.name}"
  | .invalidOperands op left right =>
      s!"operator '{op.symbol}' cannot be applied to {left.name} and {right.name}"
  | .integerOutOfRange value => s!"integer literal {Numeral.text value} does not fit in 32 bits"
  | .decimalOutOfRange value => s!"decimal literal {value.text} is out of range"
  | .invalidGroup => "parentheses must contain a binary expression"
  | .untypedDeclaration name => s!"declaration of '{name}' needs a type or an initial value"
  | .invalidTarget => "only variables and list elements can be assigned"
  | .immutableAssignment name => s!"cannot assign to immutable variable '{name}'"
  | .emptyThenBlock => "IF statement has an empty DO block"
  | .misplacedDefault => "only the last case of a SWITCH may omit its value, and it must"
  | .noMainFunction => "no function 'main' taking no arguments"

/-- A fault and the byte offset it concerns, where one is known. -/
structure TypingError where
  fault : TypeFault
  offset : Option Nat
  deriving DecidableEq, Repr

/-- What a check returns: the tree as far as it was annotated, and the verdict on it. -/
structure Checked (τ α : Type) where
  tree : τ
  verdict : Except TypingError α

namespace Typing

/-- What is known of a variable before a program runs. -/
structure VariableType where
  ty : Ty
  mutable : Bool
  deriving DecidableEq, Repr

abbrev Environment : Type :=
  Scope VariableType Signature

/-- The functions that every program can call. -/
def builtins : List (String × Signature) :=
  [("print", ⟨[.any], .nil, "System.out.println"⟩),
    ("logarithm", ⟨[.decimal], .decimal, "Math.log"⟩)]

/-- The environment in which the first global variable is checked. -/
def root : Environment :=
  builtins.foldl
    (fun environment (name, signature) =>
      environment.defineFunction name signature.parameters.length signature)
    Scope.empty

/-- Fails with a fault at a place. -/
def fault {α : Type} (fault : TypeFault) (offset : Nat) : Except TypingError α :=
  .error ⟨fault, some offset⟩

/-- A value of type `found` may stand where `expected` is required. -/
def require (expected found : Ty) (offset : Option Nat) : Except TypingError Unit :=
  if expected.accepts found then .ok () else .error ⟨.mismatch expected found, offset⟩

/-- The type that a written name refers to. -/
def resolve (name : String) (offset : Option Nat) : Except TypingError Ty :=
  match Ty.ofName? name with
  | some ty => .ok ty
  | none => .error ⟨.unknownType name, offset⟩

/-- The integer can be represented in 32 bits with a sign. -/
def fitsInteger (value : Int) : Bool :=
  -2147483648 ≤ value && value < 2147483648

/-- The type of a literal; numbers must be within range. -/
def literalType (value : Scalar) (offset : Nat) : Except TypingError Ty :=
  match value with
  | .integer number =>
      if fitsInteger number then .ok .integer else fault (.integerOutOfRange number) offset
  | .decimal number =>
      if number.fitsFloat then .ok .decimal else fault (.decimalOutOfRange number) offset
  | scalar => .ok scalar.ty

/-- The types that arithmetic is defined on. -/
def isNumeric (ty : Ty) : Bool :=
  ty == .integer || ty == .decimal

/-- The type of an operator's result on operands of given types. -/
def binaryType (op : BinaryOp) (left right : Ty) (offset : Nat) : Except TypingError Ty :=
  let invalid := fault (.invalidOperands op left right) offset
  match op with
  | .and | .or => do
      require .boolean left (some offset)
      require .boolean right (some offset)
      .ok .boolean
  | .less | .greater | .equal | .unequal =>
      if right.accepts left then .ok .boolean else invalid
  | .add =>
      if left = .string ∨ right = .string then .ok .string
      else if isNumeric left ∧ left = right then .ok left
      else invalid
  | .subtract | .multiply | .divide =>
      if isNumeric left ∧ left = right then .ok left else invalid
  | .power =>
      if left = .integer ∧ right = .integer then .ok .integer else invalid

end Typing

end Procedural
