import Procedural.Syntax.Expr

/-!
# Statements and programs

A program is a list of global variables and a list of functions.  The names and
the types of a function's parameters are two lists; a program that was read from
text has them in equal number.  `Program.same` compares programs up to offsets,
type annotations and the scales of decimal literals.
-/

namespace Procedural

mutual

inductive Stmt where
  | expression (value : Expr)
  | declaration (name : String) (typeName : Option String) (value : Option Expr)
  | assignment (receiver value : Expr)
  | branch (condition : Expr) (thenBlock elseBlock : List Stmt)
  | switch (condition : Expr) (cases : List Case)
  | loop (condition : Expr) (body : List Stmt)
  | result (value : Expr)

/-- One case of a switch; the default case has no value. -/
inductive Case where
  | mk (value : Option Expr) (body : List Stmt)

end

def Case.value : Case → Option Expr
  | mk value _ => value

def Case.body : Case → List Stmt
  | mk _ body => body

mutual

/-- Statements agree up to notes and the scales of decimal literals. -/
def Stmt.same : Stmt → Stmt → Bool
  | .expression value, .expression value' => value.same value'
  | .declaration name typeName value, .declaration name' typeName' value' =>
      name == name' && typeName == typeName' && Expr.sameOption value value'
  | .assignment receiver value, .assignment receiver' value' =>
      receiver.same receiver' && value.same value'
  | .branch condition thenBlock elseBlock, .branch condition' thenBlock' elseBlock' =>
      condition.same condition' && Stmt.sameList thenBlock thenBlock' &&
        Stmt.sameList elseBlock elseBlock'
  | .switch condition cases, .switch condition' cases' =>
      condition.same condition' && Case.sameList cases cases'
  | .loop condition body, .loop condition' body' =>
      condition.same condition' && Stmt.sameList body body'
  | .result value, .result value' => value.same value'
  | _, _ => false

def Stmt.sameList : List Stmt → List Stmt → Bool
  | [], [] => true
  | stmt :: rest, stmt' :: rest' => stmt.same stmt' && Stmt.sameList rest rest'
  | _, _ => false

def Case.same : Case → Case → Bool
  | .mk value body, .mk value' body' => Expr.sameOption value value' && Stmt.sameList body body'

def Case.sameList : List Case → List Case → Bool
  | [], [] => true
  | case :: rest, case' :: rest' => case.same case' && Case.sameList rest rest'
  | _, _ => false

end

structure Global where
  name : String
  typeName : String
  mutable : Bool
  value : Option Expr
  offset : Nat
  ty : Option Ty

/-- Globals agree up to notes, offset and type annotation. -/
def Global.same (left right : Global) : Bool :=
  left.name == right.name && left.typeName == right.typeName &&
    left.mutable == right.mutable && Expr.sameOption left.value right.value

structure Function where
  name : String
  parameters : List String
  parameterTypes : List String
  returnType : Option String
  body : List Stmt
  offset : Nat
  signature : Option Signature

def Function.arity (function : Function) : Nat :=
  function.parameters.length

def Function.same (left right : Function) : Bool :=
  left.name == right.name && left.parameters == right.parameters &&
    left.parameterTypes == right.parameterTypes && left.returnType == right.returnType &&
    Stmt.sameList left.body right.body

structure Program where
  globals : List Global
  functions : List Function

namespace Program

/-- Programs agree definition by definition. -/
def same (left right : Program) : Bool :=
  left.globals.length == right.globals.length &&
    left.functions.length == right.functions.length &&
    (left.globals.zip right.globals).all (fun (global, global') => global.same global') &&
    (left.functions.zip right.functions).all (fun (function, function') =>
      function.same function')

/-- The first function of a given name and number of parameters. -/
def function? (program : Program) (name : String) (arity : Nat) : Option Function :=
  program.functions.find? fun function => function.name == name && function.arity == arity

end Program

end Procedural
