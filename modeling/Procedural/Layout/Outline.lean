import Procedural.Layout.Line
import Procedural.Syntax.Program
import Procedural.Text.Invisible

/-!
# Outlines of programs

An outline shows the tree that a program was read as: every node with its class, its
parts by name, and its annotations.  Parts stand on lines of their own, each followed
by a comma.
-/

namespace Procedural

/-- A tree of labelled parts; a group shows its items between two brackets. -/
inductive Outline where
  | atom (label text : String)
  | group (label opening closing : String) (items : List Outline)

namespace Outline

/-- The same tree as a named part. -/
def named (name : String) : Outline → Outline
  | atom label text => atom (name ++ ": " ++ label) text
  | group label opening closing items => group (name ++ ": " ++ label) opening closing items

def leaf (text : String) : Outline :=
  atom "" text

/-- A node of a class with named parts. -/
def record (name : String) (parts : List (String × Outline)) : Outline :=
  group "" (name ++ " \x7b") "\x7d" (parts.map fun (part, outline) => outline.named part)

/-- A node of a class with unnamed parts. -/
def wrapped (name : String) (inner : Outline) : Outline :=
  group "" (name ++ "(") ")" [inner]

def sequence (items : List Outline) : Outline :=
  group "" "[" "]" items

def optional : Option Outline → Outline
  | none => leaf "None"
  | some inner => wrapped "Some" inner

mutual

/-- The lines of an outline; a suffix follows its last character. -/
def lines (depth : Nat) (suffix : String) : Outline → List Line
  | atom label text => [.ofText depth (label ++ text ++ suffix)]
  | group label opening closing [] => [.ofText depth (label ++ opening ++ closing ++ suffix)]
  | group label opening closing (first :: rest) =>
      .ofText depth (label ++ opening) ::
        lines (depth + 1) "," first ++ linesOfItems (depth + 1) rest ++
        [.ofText depth (closing ++ suffix)]

def linesOfItems (depth : Nat) : List Outline → List Line
  | [] => []
  | first :: rest => lines depth "," first ++ linesOfItems depth rest

end

/-- A character of a quoted text; the quote in use, backslashes and invisible characters are
escaped. -/
def escapeChar (delimiter c : Char) : String :=
  if c = '\x00' then "\\0"
  else if c = '\t' then "\\t"
  else if c = '\r' then "\\r"
  else if c = '\n' then "\\n"
  else if c = '\\' ∨ c = delimiter then "\\" ++ c.toString
  else if isInvisible c then
    "\\u\x7b" ++ String.ofList (Nat.toDigits 16 c.toNat) ++ "\x7d"
  else c.toString

def quoted (delimiter : Char) (text : String) : Outline :=
  leaf (delimiter.toString ++ String.join (text.toList.map (escapeChar delimiter)) ++
    delimiter.toString)

def ofString (text : String) : Outline :=
  quoted '"' text

def ofNat (number : Nat) : Outline :=
  leaf (toString number)

def ofBool (value : Bool) : Outline :=
  leaf (if value then "true" else "false")

/-- A decimal number by its digits and its power of ten. -/
def ofDecimal (number : Decimal) : Outline :=
  leaf s!"BigDecimal(\"{Numeral.text number.digits}e{Numeral.text (-number.scale)}\")"

def ofTy (ty : Ty) : Outline :=
  leaf ty.name

def ofSignature (signature : Signature) : Outline :=
  record "Signature"
    [("parameters", sequence (signature.parameters.map ofTy)),
      ("returns", ofTy signature.returns),
      ("jvm_name", ofString signature.target)]

def ofScalar : Scalar → Outline
  | .nil => leaf "Nil"
  | .boolean value => wrapped "Boolean" (ofBool value)
  | .integer value => wrapped "Integer" (leaf (Numeral.text value))
  | .decimal value => wrapped "Decimal" (ofDecimal value)
  | .character value => wrapped "Character" (quoted '\'' value.toString)
  | .string value => wrapped "String" (ofString value)

end Outline

/-- The word for an operator in outlines. -/
def BinaryOp.word : BinaryOp → String
  | and => "And"
  | or => "Or"
  | less => "Lt"
  | greater => "Gt"
  | equal => "Eq"
  | unequal => "Ne"
  | add => "Add"
  | subtract => "Sub"
  | multiply => "Mul"
  | divide => "Div"
  | power => "Pow"

open Outline

/-- The outline of a node from its note and its own part. -/
def Note.outline (note : Note) (kind : Outline) : Outline :=
  record "Expr"
    [("kind", kind), ("offset", ofNat note.offset), ("ty", optional (note.ty.map ofTy)),
      ("function", optional (note.function.map ofSignature))]

mutual

def Expr.outline : Expr → Outline
  | .literal note value => note.outline (wrapped "Literal" (ofScalar value))
  | .group note inner => note.outline (wrapped "Group" inner.outline)
  | .binary note op left right =>
      note.outline <| record "Binary"
        [("op", leaf op.word), ("left", left.outline), ("right", right.outline)]
  | .access note name =>
      note.outline (record "Access" [("name", ofString name), ("index", optional none)])
  | .element note name index =>
      note.outline <| record "Access"
        [("name", ofString name), ("index", optional (some index.outline))]
  | .call note name arguments =>
      note.outline <| record "Call"
        [("name", ofString name), ("args", sequence (Expr.outlineList arguments))]
  | .list note elements =>
      note.outline (wrapped "List" (sequence (Expr.outlineList elements)))

def Expr.outlineList : List Expr → List Outline
  | [] => []
  | first :: rest => first.outline :: Expr.outlineList rest

end

mutual

def Stmt.outline : Stmt → Outline
  | .expression value => wrapped "Expression" value.outline
  | .declaration name typeName value =>
      record "Declaration"
        [("name", ofString name), ("type_name", optional (typeName.map ofString)),
          ("value", optional (value.map Expr.outline))]
  | .assignment receiver value =>
      record "Assignment" [("receiver", receiver.outline), ("value", value.outline)]
  | .branch condition thenBlock elseBlock =>
      record "If"
        [("condition", condition.outline),
          ("then_branch", sequence (Stmt.outlineList thenBlock)),
          ("else_branch", sequence (Stmt.outlineList elseBlock))]
  | .switch condition cases =>
      record "Switch"
        [("condition", condition.outline), ("cases", sequence (Case.outlineList cases))]
  | .loop condition body =>
      record "While"
        [("condition", condition.outline), ("body", sequence (Stmt.outlineList body))]
  | .result value => wrapped "Return" value.outline

def Stmt.outlineList : List Stmt → List Outline
  | [] => []
  | first :: rest => first.outline :: Stmt.outlineList rest

def Case.outline : Case → Outline
  | .mk value body =>
      record "Case"
        [("value", optional (value.map Expr.outline)),
          ("body", sequence (Stmt.outlineList body))]

def Case.outlineList : List Case → List Outline
  | [] => []
  | first :: rest => first.outline :: Case.outlineList rest

end

def Global.outline (global : Global) : Outline :=
  record "Global"
    [("name", ofString global.name), ("type_name", ofString global.typeName),
      ("mutable", ofBool global.mutable), ("value", optional (global.value.map Expr.outline)),
      ("offset", ofNat global.offset), ("ty", optional (global.ty.map ofTy))]

def Function.outline (function : Function) : Outline :=
  record "Function"
    [("name", ofString function.name),
      ("parameters", sequence (function.parameters.map ofString)),
      ("parameter_types", sequence (function.parameterTypes.map ofString)),
      ("return_type", optional (function.returnType.map ofString)),
      ("body", sequence (Stmt.outlineList function.body)),
      ("offset", ofNat function.offset),
      ("signature", optional (function.signature.map ofSignature))]

def Program.outline (program : Program) : Outline :=
  record "Source"
    [("globals", sequence (program.globals.map Global.outline)),
      ("functions", sequence (program.functions.map Function.outline))]

def Program.outlineText (program : Program) : String :=
  Line.textList (program.outline.lines 0 "")

end Procedural
