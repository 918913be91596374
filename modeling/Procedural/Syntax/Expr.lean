import Procedural.Decimal.Basic
import Procedural.Syntax.Operator
import Procedural.Ty

/-!
# Expressions

Every node of an expression carries a note: the byte offset of its first token,
and slots that type checking fills in.  `Expr.same` compares expressions without
their notes, and compares decimal literals as numbers.
-/

namespace Procedural

/-- Values that are not lists; literals denote them. -/
inductive Scalar where
  | nil
  | boolean (value : Bool)
  | integer (value : Int)
  | decimal (value : Decimal)
  | character (value : Char)
  | string (value : String)
  deriving DecidableEq, Repr, Inhabited

/-- Both scalars belong to one class and denote one value of it. -/
def Scalar.same : Scalar → Scalar → Bool
  | .nil, .nil => true
  | .boolean left, .boolean right => left == right
  | .integer left, .integer right => left == right
  | .decimal left, .decimal right => left.same right
  | .character left, .character right => left == right
  | .string left, .string right => left == right
  | _, _ => false

def Scalar.ty : Scalar → Ty
  | .nil => .nil
  | .boolean _ => .boolean
  | .integer _ => .integer
  | .decimal _ => .decimal
  | .character _ => .character
  | .string _ => .string

/-- Where a node starts, its type, and for a call the function it refers to. -/
structure Note where
  offset : Nat
  ty : Option Ty
  function : Option Signature
  deriving DecidableEq, Repr, Inhabited

/-- A note that type checking has not touched. -/
def Note.at (offset : Nat) : Note :=
  ⟨offset, none, none⟩

inductive Expr where
  | literal (note : Note) (value : Scalar)
  | group (note : Note) (inner : Expr)
  | binary (note : Note) (op : BinaryOp) (left right : Expr)
  | access (note : Note) (name : String)
  | element (note : Note) (name : String) (index : Expr)
  | call (note : Note) (name : String) (arguments : List Expr)
  | list (note : Note) (elements : List Expr)
  deriving Repr, Inhabited

namespace Expr

def note : Expr → Note
  | literal note _ => note
  | group note _ => note
  | binary note _ _ _ => note
  | access note _ => note
  | element note _ _ => note
  | call note _ _ => note
  | list note _ => note

def offset (expr : Expr) : Nat :=
  expr.note.offset

mutual

/-- Both expressions agree up to notes and the scales of decimal literals. -/
def same : Expr → Expr → Bool
  | literal _ left, literal _ right => left.same right
  | group _ left, group _ right => left.same right
  | binary _ op left right, binary _ op' left' right' =>
      op == op' && left.same left' && right.same right'
  | access _ name, access _ name' => name == name'
  | element _ name index, element _ name' index' => name == name' && index.same index'
  | call _ name arguments, call _ name' arguments' =>
      name == name' && sameList arguments arguments'
  | list _ elements, list _ elements' => sameList elements elements'
  | _, _ => false

def sameList : List Expr → List Expr → Bool
  | [], [] => true
  | left :: rest, right :: rest' => left.same right && sameList rest rest'
  | _, _ => false

end

def sameOption : Option Expr → Option Expr → Bool
  | none, none => true
  | some left, some right => left.same right
  | _, _ => false

end Expr

end Procedural
