import Procedural.Typing.Program

/-!
# The rules of typing

The judgements of this module say which programs are well typed.  They mention no check, no
frames and no order of work: a context is a plain list of bindings, the innermost first, and
there is one rule for each form of an expression, a statement and a definition.

The judgements are about two kinds of trees.  In an annotated tree every node has its type in
its slot, every call and no other node a signature, and every definition what it declares; the
slots of other trees do not matter.
-/

namespace Procedural

open Typing

/-- What is bound at a point of a program, the innermost bindings first. -/
structure Context where
  /-- The variables of the innermost scope. -/
  here : List (String × VariableType)
  /-- The variables of the scopes around it. -/
  outer : List (String × VariableType)
  functions : List ((String × Nat) × Signature)

namespace Context

/-- Before the first definition only the built-in functions are bound. -/
def start : Context :=
  ⟨[], [], (builtins.map fun (name, signature) =>
    ((name, signature.parameters.length), signature)).reverse⟩

def findVariable? (context : Context) (name : String) : Option VariableType :=
  (context.here ++ context.outer).lookup name

def findFunction? (context : Context) (name : String) (arity : Nat) : Option Signature :=
  context.functions.lookup (name, arity)

/-- The context at the start of a new scope. -/
def inner (context : Context) : Context :=
  ⟨[], context.here ++ context.outer, context.functions⟩

def bind (context : Context) (name : String) (variableType : VariableType) : Context :=
  { context with here := (name, variableType) :: context.here }

def bindFunction (context : Context) (name : String) (arity : Nat) (signature : Signature) :
    Context :=
  { context with functions := ((name, arity), signature) :: context.functions }

/-- The innermost scope has no variable of the name. -/
def Free (context : Context) (name : String) : Prop :=
  ∀ binding ∈ context.here, binding.1 ≠ name

/-- No function has the name and the number of parameters. -/
def FreeFunction (context : Context) (name : String) (arity : Nat) : Prop :=
  ∀ binding ∈ context.functions, binding.1 ≠ (name, arity)

end Context

namespace Rules

/-- A slot of an annotated tree holds the value. -/
def Holds {α : Type} (annotated : Bool) (slot : Option α) (value : α) : Prop :=
  annotated = true → slot = some value

/-- In an annotated tree the note of a node holds the type of the node, and the function that it
calls, if it is a call. -/
def Noted (annotated : Bool) (note : Note) (ty : Ty) (function : Option Signature) : Prop :=
  annotated = true → note.ty = some ty ∧ note.function = function

/-- A value of type `found` may stand where `target` is expected. -/
def Assignable (target found : Ty) : Prop :=
  target = found ∨ target = .any ∨ target = .comparable

/-- The types of literals; numbers must be within range. -/
inductive LiteralRule : Scalar → Ty → Prop where
  | nil : LiteralRule .nil .nil
  | boolean {value : Bool} : LiteralRule (.boolean value) .boolean
  | integer {value : Int} : fitsInteger value = true → LiteralRule (.integer value) .integer
  | decimal {value : Decimal} : value.fitsFloat = true → LiteralRule (.decimal value) .decimal
  | character {value : Char} : LiteralRule (.character value) .character
  | string {value : String} : LiteralRule (.string value) .string

/-- The types of both operands of an operator, and the type of its result. -/
inductive OperatorRule : BinaryOp → Ty → Ty → Ty → Prop where
  | logical {op : BinaryOp} : op ∈ [.and, .or] → OperatorRule op .boolean .boolean .boolean
  | comparison {op : BinaryOp} {left right : Ty} :
      op ∈ [.less, .greater, .equal, .unequal] → Assignable .comparable left →
      Assignable .comparable right → Assignable right left → OperatorRule op left right .boolean
  | concatenation {left right : Ty} :
      left = .string ∨ right = .string → OperatorRule .add left right .string
  | arithmetic {op : BinaryOp} {ty : Ty} :
      op ∈ [.add, .subtract, .multiply, .divide] → ty ∈ [.integer, .decimal] →
      OperatorRule op ty ty ty
  | power : OperatorRule .power .integer .integer .integer

section Expressions

variable (annotated : Bool) (context : Context)

mutual

inductive HasType : Expr → Ty → Prop where
  | literal {note : Note} {value : Scalar} {ty : Ty} :
      LiteralRule value ty → Noted annotated note ty none → HasType (.literal note value) ty
  /-- Parentheses enclose an operator with its operands. -/
  | group {note inner : Note} {op : BinaryOp} {left right : Expr} {ty : Ty} :
      HasType (.binary inner op left right) ty → Noted annotated note ty none →
      HasType (.group note (.binary inner op left right)) ty
  | binary {note : Note} {op : BinaryOp} {left right : Expr} {leftType rightType ty : Ty} :
      HasType left leftType → HasType right rightType → OperatorRule op leftType rightType ty →
      Noted annotated note ty none → HasType (.binary note op left right) ty
  | access {note : Note} {name : String} {found : VariableType} :
      context.findVariable? name = some found → Noted annotated note found.ty none →
      HasType (.access note name) found.ty
  /-- The type of a list variable is the type of its elements. -/
  | element {note : Note} {name : String} {index : Expr} {indexType : Ty}
      {found : VariableType} :
      context.findVariable? name = some found → HasType index indexType →
      Assignable .integer indexType → Noted annotated note found.ty none →
      HasType (.element note name index) found.ty
  | call {note : Note} {name : String} {arguments : List Expr} {signature : Signature} :
      context.findFunction? name arguments.length = some signature →
      Arguments arguments signature.parameters → Noted annotated note signature.returns signature →
      HasType (.call note name arguments) signature.returns
  /-- Elements have the type that was established for them, if one was. -/
  | list {note : Note} {elements : List Expr} {ty : Ty} :
      note.ty.getD .any = ty → Elements ty elements → Noted annotated note ty none →
      HasType (.list note elements) ty

/-- One expression for each parameter. -/
inductive Arguments : List Expr → List Ty → Prop where
  | nil : Arguments [] []
  | cons {first : Expr} {rest : List Expr} {found expected : Ty} {types : List Ty} :
      HasType first found → Assignable expected found → Arguments rest types →
      Arguments (first :: rest) (expected :: types)

/-- All expressions fit one type. -/
inductive Elements : Ty → List Expr → Prop where
  | nil {ty : Ty} : Elements ty []
  | cons {ty : Ty} {first : Expr} {rest : List Expr} {found : Ty} :
      HasType first found → Assignable ty found → Elements ty rest →
      Elements ty (first :: rest)

end

/-- The expression may stand where a type is expected. -/
def Fits (expected : Ty) (expr : Expr) : Prop :=
  ∃ found, HasType annotated context expr found ∧ Assignable expected found

end Expressions

section Statements

variable (annotated : Bool) (returns : Ty)

mutual

/-- A statement in a function with a result type, and the contexts before and after it. -/
inductive StmtRule : Context → Stmt → Context → Prop where
  | expression {context : Context} {value : Expr} {ty : Ty} :
      HasType annotated context value ty → StmtRule context (.expression value) context
  | declareTyped {context : Context} {name : String} {value : Option Expr} {ty : Ty} :
      (∀ expr ∈ value, Fits annotated context ty expr) → context.Free name →
      StmtRule context (.declaration name (some ty.name) value) (context.bind name ⟨ty, true⟩)
  | declareUntyped {context : Context} {name : String} {value : Expr} {ty : Ty} :
      HasType annotated context value ty → context.Free name →
      StmtRule context (.declaration name none (some value)) (context.bind name ⟨ty, true⟩)
  | assignment {context : Context} {receiver value : Expr} {name : String} {ty : Ty}
      {found : VariableType} :
      receiver.target? = some name → HasType annotated context receiver ty →
      context.findVariable? name = some found → found.mutable = true →
      Fits annotated context ty value → StmtRule context (.assignment receiver value) context
  | branch {context : Context} {condition : Expr} {thenBlock elseBlock : List Stmt} :
      Fits annotated context .boolean condition → thenBlock ≠ [] →
      BlockRule context.inner thenBlock → BlockRule context.inner elseBlock →
      StmtRule context (.branch condition thenBlock elseBlock) context
  | switch {context : Context} {condition : Expr} {cases : List Case} {ty : Ty} :
      HasType annotated context condition ty → CasesRule context ty cases →
      StmtRule context (.switch condition cases) context
  | loop {context : Context} {condition : Expr} {body : List Stmt} :
      Fits annotated context .boolean condition → BlockRule context.inner body →
      StmtRule context (.loop condition body) context
  | result {context : Context} {value : Expr} :
      Fits annotated context returns value → StmtRule context (.result value) context

/-- Each statement stands in the context that the one before leaves. -/
inductive BlockRule : Context → List Stmt → Prop where
  | nil {context : Context} : BlockRule context []
  | cons {context after : Context} {stmt : Stmt} {rest : List Stmt} :
      StmtRule context stmt after → BlockRule after rest → BlockRule context (stmt :: rest)

/-- All cases but the last have a value of the selecting type, and the last one has none. -/
inductive CasesRule : Context → Ty → List Case → Prop where
  | nil {context : Context} {ty : Ty} : CasesRule context ty []
  | default {context : Context} {ty : Ty} {body : List Stmt} :
      BlockRule context.inner body → CasesRule context ty [.mk none body]
  | valued {context : Context} {ty : Ty} {value : Expr} {body : List Stmt} {next : Case}
      {rest : List Case} :
      Fits annotated context ty value → BlockRule context.inner body →
      CasesRule context ty (next :: rest) →
      CasesRule context ty (.mk (some value) body :: next :: rest)

end

end Statements

/-- The signature that a function is written with; without a result type it returns nothing. -/
structure SignatureRule (function : Function) (signature : Signature) : Prop where
  parameters : signature.parameters.map Ty.name = function.parameterTypes
  returns : function.returnType = some signature.returns.name ∨
    function.returnType = none ∧ signature.returns = .nil
  target : signature.target = function.name

/-- Parameters are bound one by one in one scope. -/
inductive ParametersRule : Context → List (String × Ty) → Context → Prop where
  | nil {context : Context} : ParametersRule context [] context
  | cons {context after : Context} {name : String} {ty : Ty} {rest : List (String × Ty)} :
      context.Free name → ParametersRule (context.bind name ⟨ty, true⟩) rest after →
      ParametersRule context ((name, ty) :: rest) after

section Programs

variable (annotated : Bool)

/-- The initial value of a global variable; the elements of a list have the declared type. -/
inductive InitialRule (context : Context) (declared : Ty) : Expr → Prop where
  | list {note : Note} {elements : List Expr} :
      Elements annotated context declared elements → Noted annotated note declared none →
      InitialRule context declared (.list note elements)
  | expression {value : Expr} :
      (∀ note elements, value ≠ .list note elements) → Fits annotated context declared value →
      InitialRule context declared value

/-- Global variables in order, and the contexts before and after them. -/
inductive GlobalsRule : Context → List Global → Context → Prop where
  | nil {context : Context} : GlobalsRule context [] context
  | cons {context after : Context} {global : Global} {rest : List Global} {ty : Ty} :
      ty.name = global.typeName → context.Free global.name →
      (∀ value ∈ global.value, InitialRule annotated context ty value) →
      Holds annotated global.ty ty →
      GlobalsRule (context.bind global.name ⟨ty, global.mutable⟩) rest after →
      GlobalsRule context (global :: rest) after

/-- Functions in order, and the contexts before and after they are bound. -/
inductive FunctionsRule : Context → List Function → Context → Prop where
  | nil {context : Context} : FunctionsRule context [] context
  | cons {context after : Context} {function : Function} {rest : List Function}
      {signature : Signature} :
      SignatureRule function signature → context.FreeFunction function.name function.arity →
      Holds annotated function.signature signature →
      FunctionsRule (context.bindFunction function.name function.arity signature) rest after →
      FunctionsRule context (function :: rest) after

/-- The body of a function stands in one scope with its parameters. -/
def BodyRule (context : Context) (function : Function) : Prop :=
  ∃ signature inside, SignatureRule function signature ∧
    ParametersRule context.inner (function.parameters.zip signature.parameters) inside ∧
    BlockRule annotated signature.returns inside function.body

/-- Global variables see those before them and the built-in functions, the bodies of functions
see everything, and there is a function to start with. -/
def WellTyped (program : Program) : Prop :=
  ∃ between context, GlobalsRule annotated .start program.globals between ∧
    FunctionsRule annotated between program.functions context ∧
    (∀ function ∈ program.functions, BodyRule annotated context function) ∧
    ∃ function ∈ program.functions, function.name = "main" ∧ function.arity = 0

end Programs

end Rules

end Procedural
