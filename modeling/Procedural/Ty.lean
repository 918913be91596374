/-!
# Types

The types form a closed set.  `Any` and `Comparable` accept values of every type;
every other type accepts only itself.
-/

namespace Procedural

/-- The types of the language. -/
inductive Ty where
  | any
  | nil
  | boolean
  | integer
  | decimal
  | character
  | string
  | comparable
  deriving DecidableEq, Repr, Inhabited

namespace Ty

def all : List Ty :=
  [any, nil, boolean, integer, decimal, character, string, comparable]

def name : Ty → String
  | any => "Any"
  | nil => "Nil"
  | boolean => "Boolean"
  | integer => "Integer"
  | decimal => "Decimal"
  | character => "Character"
  | string => "String"
  | comparable => "Comparable"

def ofName? (text : String) : Option Ty :=
  all.find? fun ty => ty.name == text

/-- A value of type `other` may stand where `ty` is expected. -/
def accepts (ty other : Ty) : Bool :=
  ty == other || ty == any || ty == comparable

end Ty

/-- What a call needs to know of a function: the parameter types, the result type and the name
that generated code calls it by. -/
structure Signature where
  parameters : List Ty
  returns : Ty
  target : String
  deriving DecidableEq, Repr, Inhabited

end Procedural
