import Procedural.Decimal.Quotient
import Procedural.Decimal.Text
import Procedural.Syntax.Expr

/-!
# Data

A datum is a value with all its lists written out.  Equality, order and text are
defined on data, so they depend on the contents of lists and never on which list
holds them.
-/

namespace Procedural

/-- A scalar or a list of data. -/
inductive Datum where
  | scalar (value : Scalar)
  | list (elements : List Datum)
  deriving Repr, Inhabited

/-- A scalar as programs print it. -/
def Scalar.text : Scalar → String
  | .nil => "NIL"
  | .boolean true => "TRUE"
  | .boolean false => "FALSE"
  | .integer value => Numeral.text value
  | .decimal value => value.text
  | .character value => String.singleton value
  | .string value => value

def Scalar.className (scalar : Scalar) : String :=
  scalar.ty.name

namespace Datum

def className : Datum → String
  | scalar value => value.className
  | list _ => "List"

mutual

def text : Datum → String
  | scalar value => value.text
  | list elements => "[" ++ ", ".intercalate (textList elements) ++ "]"

def textList : List Datum → List String
  | [] => []
  | first :: rest => first.text :: textList rest

end

mutual

/-- Both data have the same shape and equal scalars; decimals are compared as numbers. -/
def same : Datum → Datum → Bool
  | scalar left, scalar right => left.same right
  | list left, list right => sameList left right
  | _, _ => false

def sameList : List Datum → List Datum → Bool
  | [], [] => true
  | left :: rest, right :: rest' => left.same right && sameList rest rest'
  | _, _ => false

end

end Datum

end Procedural
