import Procedural.Decimal.Text
import Procedural.Reader.Basic
import Procedural.Syntax.Expr
import Procedural.Text.Quoted

/-!
# Reading expressions

Expressions have one reader for each level of operators; operands of a level are
expressions of the next level, and the innermost operands are primary expressions.
Budgets bound the number of tokens left, so an empty budget means the end of input.
-/

namespace Procedural

namespace Token

/-- The token is read as a literal and not as a name or an operator. -/
def isLiteral (token : Token) : Bool :=
  match token.kind with
  | .integer | .decimal | .character | .string => true
  | .identifier => token.literal == "NIL" || token.literal == "TRUE" || token.literal == "FALSE"
  | .operator => false

/-- The single character of a decoded character literal. -/
def singleCharacter? : List Char → Option Char
  | [c] => some c
  | _ => none

def scalar? (token : Token) : Option Scalar :=
  let cs := token.literal.toList
  match token.kind with
  | .integer => (Numeral.integer? cs).map .integer
  | .decimal => (Decimal.ofNumeral? cs).map .decimal
  | .character => (singleCharacter? (Quoted.decode (Quoted.unquote cs))).map .character
  | .string => some (.string (String.ofList (Quoted.decode (Quoted.unquote cs))))
  | .identifier =>
      if token.literal = "NIL" then some .nil
      else if token.literal = "TRUE" then some (.boolean true)
      else if token.literal = "FALSE" then some (.boolean false)
      else none
  | .operator => none

/-- The operator that a token is read as at a level. -/
def operatorAt? (token : Token) (level : Level) : Option BinaryOp :=
  if token.kind = .operator then
    (BinaryOp.ofSymbol? token.literal).filter fun op => op.level == level
  else none

end Token

namespace Reader

/-- Consumes an operator of a level, if one stands here. -/
def operator (level : Level) : Reader (Option BinaryOp) :=
  fun tokens =>
    match tokens with
    | [] => .ok none []
    | token :: rest =>
        match token.operatorAt? level with
        | some op => .ok (some op) rest
        | none => .ok none (token :: rest)

/-- Extends an expression to the right by operators of a level. -/
def furtherOperands (level : Level) (operand : Reader Expr) : Nat → Expr → Reader Expr
  | 0, left => pure left
  | budget + 1, left => do
      match ← operator level with
      | none => pure left
      | some op =>
          let right ← operand
          furtherOperands level operand budget (.binary (.at left.offset) op left right)

def operands (level : Level) (operand : Reader Expr) (budget : Nat) : Reader Expr := do
  let left ← operand
  furtherOperands level operand budget left

/-- Reads what follows a name: the arguments of a call, an index, or nothing. -/
def afterName (expression : Reader Expr) (budget offset : Nat) (name : String) :
    Reader Expr := do
  if ← accept "(" then
    let arguments ← itemsUnless ")" expression budget
    let _ ← symbol ")" s!"after arguments to '{name}'"
    pure (.call (.at offset) name arguments)
  else
    match ← introduced "[" expression with
    | none => pure (.access (.at offset) name)
    | some index =>
        let _ ← symbol "]" "after index"
        pure (.element (.at offset) name index)

/-- Reads what follows an opening parenthesis. -/
def closeGroup (expression : Reader Expr) (offset : Nat) : Reader Expr := do
  let inner ← expression
  let _ ← symbol ")" "to close group"
  pure (.group (.at offset) inner)

/-- Reads a literal, a group, a call or a variable. -/
def primary (expression : Reader Expr) (budget : Nat) : Reader Expr :=
  fun tokens =>
    match tokens with
    | [] => .fail (.expected .expression) []
    | token :: rest =>
        if token.isLiteral then
          match token.scalar? with
          | some value => .ok (.literal (.at token.offset) value) rest
          | none => .fail (.invalidLiteral token) (token :: rest)
        else if token.literal = "(" then closeGroup expression token.offset rest
        else if token.kind = .identifier then
          afterName expression budget token.offset token.literal rest
        else .fail (.expected .expression) (token :: rest)

/-- Reads an expression whose nested expressions are read by a given reader. -/
def levels (expression : Reader Expr) (budget : Nat) : Reader Expr :=
  let multiplicative := operands .multiplicative (primary expression budget) budget
  let additive := operands .additive multiplicative budget
  let comparison := operands .comparison additive budget
  operands .logical comparison budget

def expression : Nat → Reader Expr
  | 0 => missing .expression
  | budget + 1 => levels (expression budget) (budget + 1)

end Reader

end Procedural
