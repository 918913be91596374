import Procedural.Datum

/-!
# Faults at run time

A fault ends a run.  Its wording names classes of values, indices and numbers, but
never the program text; the place is given by an offset beside it.
-/

namespace Procedural

/-- Why a run cannot go on. -/
inductive RuntimeFault where
  | undefinedVariable (name : String)
  | undefinedFunction (name : String) (arity : Nat)
  | alreadyDefined (name : String)
  | argumentCount (function : String) (expected got : Nat)
  | wrongClass (expected got : String)
  | divisionByZero
  | indexOutOfBounds (index : Int) (length : Nat)
  | immutableAssignment (name : String)
  | invalidTarget
  | cyclicList
  | callDepthExceeded (limit : Nat)
  | invalidExponent (exponent : Int)
  | invalidLogarithm (value : Decimal)
  | noMainFunction
  deriving DecidableEq, Repr

def RuntimeFault.message : RuntimeFault → String
  | .undefinedVariable name => s!"undefined variable '{name}'"
  | .undefinedFunction name arity => s!"undefined function '{name}' taking {arity} argument(s)"
  | .alreadyDefined name => s!"'{name}' is already defined in this scope"
  | .argumentCount function expected got =>
      s!"'{function}' expects {expected} argument(s), got {got}"
  | .wrongClass expected got => s!"expected {expected}, got {got}"
  | .divisionByZero => "division by zero"
  | .indexOutOfBounds index length =>
      s!"index {Numeral.text index} out of bounds for list of length {length}"
  | .immutableAssignment name => s!"cannot assign to immutable variable '{name}'"
  | .invalidTarget => "only variables and list elements can be assigned"
  | .cyclicList => "a list cannot contain itself"
  | .callDepthExceeded limit => s!"call depth limit of {limit} exceeded"
  | .invalidExponent exponent => s!"invalid exponent {Numeral.text exponent}"
  | .invalidLogarithm value => s!"logarithm of {value.text} is undefined"
  | .noMainFunction => "no function 'main' taking no arguments"

/-- A fault and the byte offset it concerns, where one is known. -/
structure RuntimeError where
  fault : RuntimeFault
  offset : Option Nat
  deriving DecidableEq, Repr

end Procedural
