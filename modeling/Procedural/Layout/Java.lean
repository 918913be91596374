import Procedural.Layout.Canonical

/-!
# Java output

A program is written as one Java class: globals become fields and functions become
methods.  The types come from the annotations of a checked program; without them
the written type names are used.  An expression is written as a list of pieces, in
which every operator, bracket and comma is a piece of its own.
-/

namespace Procedural

namespace Java

/-- The Java type for values of a type. -/
def typeName : Ty → String
  | .any => "Object"
  | .nil => "void"
  | .boolean => "boolean"
  | .integer => "int"
  | .decimal => "double"
  | .character => "char"
  | .string => "String"
  | .comparable => "Comparable"

/-- A scalar as Java writes it. -/
def literal : Scalar → String
  | .nil => "null"
  | .boolean true => "true"
  | .boolean false => "false"
  | value => value.literalText

/-- The name by which a call reaches its function. -/
def callee (note : Note) (name : String) : String :=
  match note.function with
  | some signature => signature.target
  | none => name

mutual

def pieces : Expr → List String
  | .literal _ value => [literal value]
  | .group _ inner => "(" :: pieces inner ++ [")"]
  | .binary _ .power left right =>
      "Math.pow" :: "(" :: pieces left ++ ", " :: pieces right ++ [")"]
  | .binary _ op left right => pieces left ++ s!" {op.symbol} " :: pieces right
  | .access _ name => [name]
  | .element _ name index => name :: "[" :: pieces index ++ ["]"]
  | .call note name arguments => callee note name :: "(" :: piecesOfItems arguments ++ [")"]
  | .list _ elements => "\x7b" :: piecesOfItems elements ++ ["\x7d"]

/-- The pieces of expressions with commas between them. -/
def piecesOfItems : List Expr → List String
  | [] => []
  | first :: rest => pieces first ++ piecesOfFurtherItems rest

/-- The pieces of expressions with a comma before each. -/
def piecesOfFurtherItems : List Expr → List String
  | [] => []
  | first :: rest => ", " :: pieces first ++ piecesOfFurtherItems rest

end

def expression (expr : Expr) : String :=
  String.join (pieces expr)

def opening (depth : Nat) (head : String) : Line :=
  .ofText depth (head ++ " \x7b")

def closing (depth : Nat) : Line :=
  .ofText depth "\x7d"

/-- The type of a local variable: its written type, else the type of its value. -/
def localType (written : Option String) (value : Option Expr) : Ty :=
  let fromName := written.bind Ty.ofName?
  let fromValue := value.bind fun expr => expr.note.ty
  (fromName.or fromValue).getD .any

mutual

def statement (depth : Nat) : Stmt → List Line
  | .expression value => [.ofText depth s!"{expression value};"]
  | .declaration name written none =>
      [.ofText depth s!"{typeName (localType written none)} {name};"]
  | .declaration name written (some value) =>
      let ty := typeName (localType written (some value))
      [.ofText depth s!"{ty} {name} = {expression value};"]
  | .assignment receiver value =>
      [.ofText depth s!"{expression receiver} = {expression value};"]
  | .branch condition thenBlock [] =>
      opening depth s!"if ({expression condition})" :: block (depth + 1) thenBlock ++
        [closing depth]
  | .branch condition thenBlock (first :: rest) =>
      opening depth s!"if ({expression condition})" :: block (depth + 1) thenBlock ++
        opening depth "\x7d else" :: statement (depth + 1) first ++ block (depth + 1) rest ++
        [closing depth]
  | .switch condition cases =>
      opening depth s!"switch ({expression condition})" :: caseBlocks (depth + 1) cases ++
        [closing depth]
  | .loop condition [] => [.ofText depth (s!"while ({expression condition})" ++ " \x7b\x7d")]
  | .loop condition (first :: rest) =>
      opening depth s!"while ({expression condition})" ::
        statement (depth + 1) first ++ block (depth + 1) rest ++ [closing depth]
  | .result value => [.ofText depth s!"return {expression value};"]

def block (depth : Nat) : List Stmt → List Line
  | [] => []
  | stmt :: rest => statement depth stmt ++ block depth rest

/-- The lines of a case; the default case needs no break. -/
def caseBlock (depth : Nat) : Case → List Line
  | .mk none body => .ofText depth "default:" :: block (depth + 1) body
  | .mk (some value) body =>
      .ofText depth s!"case {expression value}:" :: block (depth + 1) body ++
        [.ofText (depth + 1) "break;"]

def caseBlocks (depth : Nat) : List Case → List Line
  | [] => []
  | case :: rest => caseBlock depth case ++ caseBlocks depth rest

end

def isListValue : Option Expr → Bool
  | some (.list _ _) => true
  | _ => false

def field (depth : Nat) (global : Global) : Line :=
  let ty := (global.ty.or (Ty.ofName? global.typeName)).getD .any
  let modifier := if global.mutable then "" else "final "
  let brackets := if isListValue global.value then "[]" else ""
  let value :=
    match global.value with
    | some value => s!" = {expression value}"
    | none => ""
  .ofText depth s!"{modifier}{typeName ty}{brackets} {global.name}{value};"

/-- The parameter types and the result type of a method. -/
def methodTypes (function : Function) : List Ty × Ty :=
  match function.signature with
  | some signature => (signature.parameters, signature.returns)
  | none =>
      (function.parameterTypes.map fun name => (Ty.ofName? name).getD .any,
        (function.returnType.bind Ty.ofName?).getD .nil)

def method (depth : Nat) (function : Function) : List Line :=
  let (parameterTypes, returns) := methodTypes function
  let parameters := (function.parameters.zip parameterTypes).map fun (name, ty) =>
    s!"{typeName ty} {name}"
  let head := s!"{typeName returns} {function.name}(" ++ ", ".intercalate parameters ++ ")"
  match function.body with
  | [] => [.ofText depth (head ++ " \x7b\x7d")]
  | body => opening depth head :: block (depth + 1) body ++ [closing depth]

/-- The method that a Java run starts with; it exits with what `main` returns. -/
def entryPoint : List Line :=
  [opening 1 "public static void main(String[] args)",
    .ofText 2 "System.exit(new Main().main());",
    closing 1]

def classLines (program : Program) : List Line :=
  let fields := program.globals.map (field 1)
  let separator := if program.globals.isEmpty then [] else [Line.blank]
  let methods := program.functions.flatMap fun function => .blank :: method 1 function
  opening 0 "public class Main" :: .blank :: fields ++ separator ++ entryPoint ++ methods ++
    [.blank, closing 0]

end Java

def Program.toJava (program : Program) : String :=
  Line.textList (Java.classLines program)

end Procedural
