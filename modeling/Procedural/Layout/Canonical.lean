import Procedural.Decimal.Text
import Procedural.Layout.Line
import Procedural.Syntax.Program
import Procedural.Text.Quoted

/-!
# Canonical layout

A program is written with one space between tokens, one statement or keyword line
to a line, and blocks nested by indentation.  The words of a line are the tokens
that scanning the text would find, so the layout decides only about white space.
-/

namespace Procedural

/-- A scalar as programs write it. -/
def Scalar.literalText : Scalar → String
  | .nil => "NIL"
  | .boolean true => "TRUE"
  | .boolean false => "FALSE"
  | .integer value => Numeral.text value
  | .decimal value => value.plain
  | .character value => String.ofList (Quoted.quote '\'' [value])
  | .string value => String.ofList (Quoted.quote '"' value.toList)

mutual

def Expr.words : Expr → List String
  | .literal _ value => [value.literalText]
  | .group _ inner => "(" :: inner.words ++ [")"]
  | .binary _ op left right => left.words ++ op.symbol :: right.words
  | .access _ name => [name]
  | .element _ name index => name :: "[" :: index.words ++ ["]"]
  | .call _ name arguments => name :: "(" :: Expr.wordsOfItems arguments ++ [")"]
  | .list _ elements => "[" :: Expr.wordsOfItems elements ++ ["]"]

/-- The tokens of expressions with commas between them. -/
def Expr.wordsOfItems : List Expr → List String
  | [] => []
  | first :: rest => first.words ++ Expr.wordsOfFurtherItems rest

/-- The tokens of expressions with a comma before each. -/
def Expr.wordsOfFurtherItems : List Expr → List String
  | [] => []
  | first :: rest => "," :: first.words ++ Expr.wordsOfFurtherItems rest

end

def wordsOfType : Option String → List String
  | none => []
  | some typeName => [":", typeName]

def wordsOfValue : Option Expr → List String
  | none => []
  | some value => "=" :: value.words

mutual

def Stmt.lines (depth : Nat) : Stmt → List Line
  | .expression value => [⟨depth, value.words ++ [";"]⟩]
  | .declaration name typeName value =>
      [⟨depth, "LET" :: name :: wordsOfType typeName ++ wordsOfValue value ++ [";"]⟩]
  | .assignment receiver value => [⟨depth, receiver.words ++ "=" :: value.words ++ [";"]⟩]
  | .branch condition thenBlock [] =>
      ⟨depth, "IF" :: condition.words ++ ["DO"]⟩ :: Stmt.linesOfBlock (depth + 1) thenBlock ++
        [⟨depth, ["END"]⟩]
  | .branch condition thenBlock (first :: rest) =>
      ⟨depth, "IF" :: condition.words ++ ["DO"]⟩ :: Stmt.linesOfBlock (depth + 1) thenBlock ++
        ⟨depth, ["ELSE"]⟩ :: first.lines (depth + 1) ++ Stmt.linesOfBlock (depth + 1) rest ++
        [⟨depth, ["END"]⟩]
  | .switch condition cases =>
      ⟨depth, "SWITCH" :: condition.words⟩ :: Case.linesOfCases (depth + 1) cases ++
        [⟨depth, ["END"]⟩]
  | .loop condition body =>
      ⟨depth, "WHILE" :: condition.words ++ ["DO"]⟩ :: Stmt.linesOfBlock (depth + 1) body ++
        [⟨depth, ["END"]⟩]
  | .result value => [⟨depth, "RETURN" :: value.words ++ [";"]⟩]

def Stmt.linesOfBlock (depth : Nat) : List Stmt → List Line
  | [] => []
  | stmt :: rest => stmt.lines depth ++ Stmt.linesOfBlock depth rest

def Case.lines (depth : Nat) : Case → List Line
  | .mk none body => ⟨depth, ["DEFAULT"]⟩ :: Stmt.linesOfBlock (depth + 1) body
  | .mk (some value) body =>
      ⟨depth, "CASE" :: value.words ++ [":"]⟩ :: Stmt.linesOfBlock (depth + 1) body

def Case.linesOfCases (depth : Nat) : List Case → List Line
  | [] => []
  | case :: rest => case.lines depth ++ Case.linesOfCases depth rest

end

def Global.keyword (global : Global) : String :=
  match global.value, global.mutable with
  | some (.list _ _), _ => "LIST"
  | _, true => "VAR"
  | _, false => "VAL"

def Global.line (global : Global) : Line :=
  ⟨0, global.keyword :: global.name :: ":" :: global.typeName ::
    wordsOfValue global.value ++ [";"]⟩

def wordsOfParameters : List (String × String) → List String
  | [] => []
  | [(name, typeName)] => [name, ":", typeName]
  | (name, typeName) :: rest => name :: ":" :: typeName :: "," :: wordsOfParameters rest

def Function.lines (function : Function) : List Line :=
  let parameters := wordsOfParameters (function.parameters.zip function.parameterTypes)
  ⟨0, "FUN" :: function.name :: "(" :: parameters ++ ")" :: wordsOfType function.returnType ++
    ["DO"]⟩ :: Stmt.linesOfBlock 1 function.body ++ [⟨0, ["END"]⟩]

/-- The lines of functions with an empty line before each. -/
def Function.linesOfFurther (functions : List Function) : List Line :=
  functions.flatMap fun function => .blank :: function.lines

/-- The lines of a program; empty lines separate functions from what precedes them. -/
def Program.lines (program : Program) : List Line :=
  program.globals.map Global.line ++
    match program.globals, program.functions with
    | [], first :: rest => first.lines ++ Function.linesOfFurther rest
    | _, functions => Function.linesOfFurther functions

/-- A program in canonical layout. -/
def Program.format (program : Program) : String :=
  Line.textList program.lines

end Procedural
