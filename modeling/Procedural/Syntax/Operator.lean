/-!
# Binary operators

Each operator belongs to one of four levels.  All operators associate to the left,
and an operator binds its operands more tightly than those of an earlier level.
-/

namespace Procedural

/-- The levels of operators, from the loosest to the tightest. -/
inductive Level where
  | logical
  | comparison
  | additive
  | multiplicative
  deriving DecidableEq, Repr

/-- The position of a level; a greater one binds more tightly. -/
def Level.rank : Level → Nat
  | .logical => 0
  | .comparison => 1
  | .additive => 2
  | .multiplicative => 3

inductive BinaryOp where
  | and
  | or
  | less
  | greater
  | equal
  | unequal
  | add
  | subtract
  | multiply
  | divide
  | power
  deriving DecidableEq, Repr, Inhabited

namespace BinaryOp

def all : List BinaryOp :=
  [and, or, less, greater, equal, unequal, add, subtract, multiply, divide, power]

/-- The characters that an operator is written with. -/
def symbol : BinaryOp → String
  | and => "&&"
  | or => "||"
  | less => "<"
  | greater => ">"
  | equal => "=="
  | unequal => "!="
  | add => "+"
  | subtract => "-"
  | multiply => "*"
  | divide => "/"
  | power => "^"

/-- The operator that is written with given characters. -/
def ofSymbol? (text : String) : Option BinaryOp :=
  all.find? fun op => op.symbol == text

def level : BinaryOp → Level
  | and | or => .logical
  | less | greater | equal | unequal => .comparison
  | add | subtract => .additive
  | multiply | divide | power => .multiplicative

end BinaryOp

end Procedural
