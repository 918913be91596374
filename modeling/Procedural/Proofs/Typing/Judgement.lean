import Procedural.Execution.Operator
import Procedural.Layout.Java
import Procedural.Typing.Program

/-!
# Typing as a judgement

Checking computes types and rewrites the tree.  The judgements of this module say, by one
rule for each kind of node, which trees are typed in an environment.  A discipline fixes
how much a type promises about values: nothing, so that only names count, or the class
of the value, or also what a list holds.  List literals are no expressions here, since
they only occur as initial values of global variables.
-/

namespace Procedural

theorem Typing.bind_eq_ok {ε α β : Type} {outcome : Except ε α} {next : α → Except ε β}
    {result : β} :
    outcome.bind next = .ok result ↔ ∃ value, outcome = .ok value ∧ next value = .ok result := by
  cases outcome <;> simp [Except.bind]

theorem Typing.map_eq_ok {ε α β : Type} {outcome : Except ε α} {change : α → β} {result : β} :
    outcome.map change = .ok result ↔ ∃ value, outcome = .ok value ∧ change value = result := by
  cases outcome <;> simp [Except.map]

theorem Typing.declare_eq_ok {environment : Typing.Environment} {name : String}
    {offset : Option Nat} {variableType : Typing.VariableType} {extended : Typing.Environment} :
    Typing.declare environment name offset variableType = .ok extended ↔
      environment.definesVariable name = false ∧
        environment.defineVariable name variableType = extended := by
  unfold Typing.declare
  split <;> simp_all

/-- What types promise of values and of the store.  The notes of a marked tree hold the types of its
expressions.  `Lists` fixes the element type of each list, in the order in which lists are made;
`Allows` says of the type of a variable which values may be stored through it in which list. -/
structure Discipline where
  marked : Bool
  Fits : Value → Ty → Prop
  Lists : Nat → Ty → Prop
  Keeps : Store → Prop
  Allows : Ty → Nat → Value → Prop
  fits_of_unmarked : marked = false → ∀ value ty, Fits value ty
  fits_nil : ∀ ty, Fits (.scalar .nil) ty
  fits_scalar : ∀ value, Fits (.scalar value) value.ty
  fits_accepted : ∀ {value : Value} {expected found : Ty}, expected.accepts found = true →
    Fits value found → Fits value expected
  fits_operator : ∀ {op : BinaryOp} {leftType rightType ty : Ty} {offset : Nat} {store : Store}
    {left right : Value} {result : Scalar},
    Typing.binaryType op leftType rightType offset = .ok ty → Fits left leftType →
    Fits right rightType → Value.applyOperator store op left right = .ok result →
    Fits (.scalar result) ty
  fits_list : ∀ {cell : Nat} {ty : Ty}, Lists cell ty → Fits (.list cell) ty
  fits_element : ∀ {store : Store} {cell : Nat} {ty : Ty} {element : Value}, Keeps store →
    Fits (.list cell) ty → element ∈ store.elements cell → Fits element ty
  keeps_empty : Keeps .empty
  keeps_allocate : ∀ {store : Store} {ty : Ty} {elements : List Value}, Keeps store →
    Lists store.cells.size ty → (∀ element ∈ elements, Fits element ty) →
    Keeps (store.allocate elements).2
  keeps_setElement : ∀ {store : Store} {cell : Nat} {value : Value} {ty : Ty} (position : Nat),
    Keeps store → Fits (.list cell) ty → Fits value ty → Allows ty cell value →
    Keeps (store.setElement cell position value)

namespace Discipline

variable (discipline : Discipline)

/-- The note holds the type if notes do. -/
def Noted (note : Note) (ty : Ty) : Prop :=
  discipline.marked = true → note.ty = some ty

/-- Both types are the same if notes hold types. -/
def Same (ty ty' : Ty) : Prop :=
  discipline.marked = true → ty = ty'

end Discipline

variable {discipline : Discipline}

theorem Discipline.Fits.transfer {value : Value} {ty ty' : Ty} (fits : discipline.Fits value ty)
    (same : discipline.Same ty ty') : discipline.Fits value ty' := by
  cases marked : discipline.marked with
  | false => exact discipline.fits_of_unmarked marked value ty'
  | true => exact same marked ▸ fits

section Expressions

variable (discipline : Discipline) (environment : Typing.Environment)

mutual

inductive ExprTyping : Expr → Ty → Prop where
  | literal {note : Note} {value : Scalar} :
      discipline.Noted note value.ty → ExprTyping (.literal note value) value.ty
  | group {note : Note} {inner : Expr} {ty : Ty} :
      discipline.Noted note ty → ExprTyping inner ty → ExprTyping (.group note inner) ty
  | binary {note : Note} {op : BinaryOp} {left right : Expr} {leftType rightType ty : Ty} :
      discipline.Noted note ty → ExprTyping left leftType → ExprTyping right rightType →
      Typing.binaryType op leftType rightType note.offset = .ok ty →
      ExprTyping (.binary note op left right) ty
  | access {note : Note} {name : String} {found : Typing.VariableType} :
      discipline.Noted note found.ty → environment.findVariable? name = some found →
      ExprTyping (.access note name) found.ty
  | element {note : Note} {name : String} {index : Expr} {indexType : Ty}
      {found : Typing.VariableType} :
      discipline.Noted note found.ty → environment.findVariable? name = some found →
      ExprTyping index indexType → Ty.integer.accepts indexType = true →
      ExprTyping (.element note name index) found.ty
  | call {note : Note} {name : String} {arguments : List Expr} {signature : Signature} :
      discipline.Noted note signature.returns →
      environment.findFunction? name arguments.length = some signature →
      ArgumentsTyping arguments signature.parameters →
      ExprTyping (.call note name arguments) signature.returns

/-- One expression for each expected type. -/
inductive ArgumentsTyping : List Expr → List Ty → Prop where
  | nil : ArgumentsTyping [] []
  | cons {first : Expr} {rest : List Expr} {found expected : Ty} {types : List Ty} :
      ExprTyping first found → expected.accepts found = true → ArgumentsTyping rest types →
      ArgumentsTyping (first :: rest) (expected :: types)

end

theorem ArgumentsTyping.length_eq {exprs : List Expr} {types : List Ty}
    (typing : ArgumentsTyping discipline environment exprs types) :
    exprs.length = types.length := by
  induction exprs generalizing types with
  | nil =>
      cases typing
      rfl
  | cons first rest induction =>
      cases typing with
      | cons _ _ later => rw [List.length_cons, List.length_cons, induction later]

/-- The expression may stand where a type is expected. -/
def ExpectedTyping (expected : Ty) (expr : Expr) : Prop :=
  ∃ found, ExprTyping discipline environment expr found ∧ expected.accepts found = true

end Expressions

section Statements

variable (discipline : Discipline) (returns : Ty)

mutual

/-- A statement, and the environments before and after it. -/
inductive StmtTyping : Typing.Environment → Stmt → Typing.Environment → Prop where
  | expression {environment : Typing.Environment} {value : Expr} {ty : Ty} :
      ExprTyping discipline environment value ty →
      StmtTyping environment (.expression value) environment
  | declaration {environment : Typing.Environment} {name : String} {written : Option String}
      {value : Option Expr} {ty : Ty} :
      (∀ expr ∈ value, ExpectedTyping discipline environment ty expr) →
      discipline.Same ty (Java.localType written value) →
      environment.definesVariable name = false →
      StmtTyping environment (.declaration name written value)
        (environment.defineVariable name ⟨ty, true⟩)
  | assignVariable {environment : Typing.Environment} {note : Note} {name : String}
      {value : Expr} {found : Typing.VariableType} :
      environment.findVariable? name = some found → found.mutable = true →
      ExpectedTyping discipline environment found.ty value →
      StmtTyping environment (.assignment (.access note name) value) environment
  | assignElement {environment : Typing.Environment} {note : Note} {name : String}
      {index value : Expr} {found : Typing.VariableType} :
      discipline.Noted note found.ty → environment.findVariable? name = some found →
      found.mutable = true → ExpectedTyping discipline environment .integer index →
      ExpectedTyping discipline environment found.ty value →
      StmtTyping environment (.assignment (.element note name index) value) environment
  | branch {environment : Typing.Environment} {condition : Expr}
      {thenBlock elseBlock : List Stmt} :
      ExpectedTyping discipline environment .boolean condition →
      BlockTyping environment.push thenBlock → BlockTyping environment.push elseBlock →
      StmtTyping environment (.branch condition thenBlock elseBlock) environment
  | switch {environment : Typing.Environment} {condition : Expr} {cases : List Case} {ty : Ty} :
      ExprTyping discipline environment condition ty → CasesTyping environment cases →
      StmtTyping environment (.switch condition cases) environment
  | loop {environment : Typing.Environment} {condition : Expr} {body : List Stmt} :
      ExpectedTyping discipline environment .boolean condition →
      BlockTyping environment.push body →
      StmtTyping environment (.loop condition body) environment
  | result {environment : Typing.Environment} {value : Expr} :
      ExpectedTyping discipline environment returns value →
      StmtTyping environment (.result value) environment

inductive BlockTyping : Typing.Environment → List Stmt → Prop where
  | nil {environment : Typing.Environment} : BlockTyping environment []
  | cons {environment extended : Typing.Environment} {stmt : Stmt} {rest : List Stmt} :
      StmtTyping environment stmt extended → BlockTyping extended rest →
      BlockTyping environment (stmt :: rest)

inductive CasesTyping : Typing.Environment → List Case → Prop where
  | nil {environment : Typing.Environment} : CasesTyping environment []
  | cons {environment : Typing.Environment} {value : Option Expr} {body : List Stmt}
      {rest : List Case} :
      (∀ expr ∈ value, ∃ ty, ExprTyping discipline environment expr ty) →
      BlockTyping environment.push body → CasesTyping environment rest →
      CasesTyping environment (.mk value body :: rest)

end

end Statements

section Programs

variable (discipline : Discipline)

/-- An initial value, and how many lists there are before and after it. -/
inductive InitialTyping (environment : Typing.Environment) (ty : Ty) :
    Nat → Option Expr → Nat → Prop where
  | value {count : Nat} {value : Option Expr} :
      (∀ expr ∈ value, ExpectedTyping discipline environment ty expr) →
      InitialTyping environment ty count value count
  | list {count : Nat} {note : Note} {elements : List Expr} :
      discipline.Lists count ty → discipline.Noted note ty →
      ArgumentsTyping discipline environment elements (List.replicate elements.length ty) →
      InitialTyping environment ty count (some (.list note elements)) (count + 1)

/-- Global variables in order, and the environments before and after them; at first there is a
given number of lists. -/
inductive GlobalsTyping :
    Nat → Typing.Environment → List Global → Typing.Environment → Prop where
  | nil {count : Nat} {environment : Typing.Environment} :
      GlobalsTyping count environment [] environment
  | cons {count count' : Nat} {environment after : Typing.Environment} {global : Global}
      {rest : List Global} {ty : Ty} :
      InitialTyping discipline environment ty count global.value count' →
      discipline.Same ty (global.ty.getD .any) →
      environment.definesVariable global.name = false →
      GlobalsTyping count' (environment.defineVariable global.name ⟨ty, global.mutable⟩) rest
        after →
      GlobalsTyping count environment (global :: rest) after

/-- The body of a function is typed in view of the root frame. -/
structure BodyTyping (root : Frame Typing.VariableType Signature) (function : Function)
    (signature : Signature) : Prop where
  arity : signature.parameters.length = function.arity
  noted : discipline.marked = true → function.signature = some signature
  body : ∃ environment,
    Typing.declareParameters (some function.offset) (Scope.push ⟨[], root⟩)
      (function.parameters.zip signature.parameters) = .ok environment ∧
    BlockTyping discipline signature.returns environment function.body

/-- Functions in order, and the environments before and after them. -/
inductive FunctionsTyping (root : Frame Typing.VariableType Signature) :
    Typing.Environment → List Function → Typing.Environment → Prop where
  | nil {environment : Typing.Environment} : FunctionsTyping root environment [] environment
  | cons {environment after : Typing.Environment} {function : Function}
      {rest : List Function} {signature : Signature} :
      BodyTyping discipline root function signature →
      environment.definesFunction function.name function.arity = false →
      FunctionsTyping root
        (environment.defineFunction function.name function.arity signature) rest after →
      FunctionsTyping root environment (function :: rest) after

/-- The bodies of all functions see all global variables and all functions. -/
structure ProgramTyping (program : Program) (between after : Typing.Environment) : Prop where
  globals : GlobalsTyping discipline 0 Typing.root program.globals between
  functions : FunctionsTyping discipline after.root between program.functions after
  main : (after.findFunction? "main" 0).isSome = true

end Programs

end Procedural
