import Procedural.Typing.Expr

/-!
# Typing of statements

A statement is checked in an environment and returns the one for the statements
after it.  Every nested block starts with a fresh frame, and what it declares ends
with it.  The result type of the enclosing function reaches every return.
-/

namespace Procedural

open Typing

/-- The name that an assignment changes a variable or an element of. -/
def Expr.target? : Expr → Option String
  | .access _ name => some name
  | .element _ name _ => some name
  | _ => none

namespace Typing

/-- Binds a declared variable, unless the newest frame has one of the name. -/
def declare (environment : Environment) (name : String) (offset : Option Nat)
    (variableType : VariableType) : Except TypingError Environment :=
  if environment.definesVariable name then .error ⟨.alreadyDefined name, offset⟩
  else .ok (environment.defineVariable name variableType)

def checkUntyped (environment : Environment) (name : String) :
    Option Expr → Checked Stmt Environment
  | none =>
      ⟨.declaration name none none, .error ⟨.untypedDeclaration name, none⟩⟩
  | some value =>
      let checked := value.check environment
      ⟨.declaration name none (some checked.tree),
        checked.verdict.bind fun ty => declare environment name (some value.offset) ⟨ty, true⟩⟩

def checkTyped (environment : Environment) (name typeName : String) (value : Option Expr) :
    Checked Stmt Environment :=
  let offset := value.map Expr.offset
  match resolve typeName offset, value with
  | .error error, _ => ⟨.declaration name (some typeName) value, .error error⟩
  | .ok ty, none =>
      ⟨.declaration name (some typeName) none, declare environment name offset ⟨ty, true⟩⟩
  | .ok ty, some value =>
      let checked := value.checkAgainst environment ty
      ⟨.declaration name (some typeName) (some checked.tree),
        checked.verdict.bind fun _ => declare environment name offset ⟨ty, true⟩⟩

def isImmutable (environment : Environment) (name : String) : Bool :=
  match environment.findVariable? name with
  | some found => !found.mutable
  | none => false

/-- Checks an assignment: its receiver, then whether that may change, then its value. -/
def checkAssignment (environment : Environment) (receiver value : Expr) :
    Checked Stmt Environment :=
  match receiver.target? with
  | none => ⟨.assignment receiver value, fault .invalidTarget receiver.offset⟩
  | some name =>
      let first := receiver.check environment
      match first.verdict with
      | .error error => ⟨.assignment first.tree value, .error error⟩
      | .ok ty =>
          if isImmutable environment name then
            ⟨.assignment first.tree value, fault (.immutableAssignment name) receiver.offset⟩
          else
            let second := value.checkAgainst environment ty
            ⟨.assignment first.tree second.tree, second.verdict.map fun _ => environment⟩

end Typing

mutual

/-- Checks a statement; `returns` is the result type of the enclosing function. -/
def Stmt.check (returns : Ty) (environment : Environment) : Stmt → Checked Stmt Environment
  | .expression value =>
      let checked := value.check environment
      ⟨.expression checked.tree, checked.verdict.map fun _ => environment⟩
  | .declaration name none value => checkUntyped environment name value
  | .declaration name (some typeName) value => checkTyped environment name typeName value
  | .assignment receiver value => checkAssignment environment receiver value
  | .branch condition thenBlock elseBlock =>
      let first := condition.checkAgainst environment .boolean
      match first.verdict with
      | .error error => ⟨.branch first.tree thenBlock elseBlock, .error error⟩
      | .ok () =>
          if thenBlock.isEmpty then
            ⟨.branch first.tree thenBlock elseBlock, fault .emptyThenBlock condition.offset⟩
          else
            let second := Stmt.checkBlock returns environment.push thenBlock
            match second.verdict with
            | .error error => ⟨.branch first.tree second.tree elseBlock, .error error⟩
            | .ok () =>
                let third := Stmt.checkBlock returns environment.push elseBlock
                ⟨.branch first.tree second.tree third.tree,
                  third.verdict.map fun _ => environment⟩
  | .switch condition cases =>
      let first := condition.check environment
      match first.verdict with
      | .error error => ⟨.switch first.tree cases, .error error⟩
      | .ok ty =>
          let second := Case.checkAll returns environment ty condition.offset cases
          ⟨.switch first.tree second.tree, second.verdict.map fun _ => environment⟩
  | .loop condition body =>
      let first := condition.checkAgainst environment .boolean
      match first.verdict with
      | .error error => ⟨.loop first.tree body, .error error⟩
      | .ok () =>
          let second := Stmt.checkBlock returns environment.push body
          ⟨.loop first.tree second.tree, second.verdict.map fun _ => environment⟩
  | .result value =>
      let checked := value.checkAgainst environment returns
      ⟨.result checked.tree, checked.verdict.map fun _ => environment⟩

/-- Checks the statements of a block, each in the environment that the one before left. -/
def Stmt.checkBlock (returns : Ty) (environment : Environment) :
    List Stmt → Checked (List Stmt) Unit
  | [] => ⟨[], .ok ()⟩
  | stmt :: rest =>
      let first := stmt.check returns environment
      match first.verdict with
      | .error error => ⟨first.tree :: rest, .error error⟩
      | .ok environment =>
          let others := Stmt.checkBlock returns environment rest
          ⟨first.tree :: others.tree, others.verdict⟩

/-- Checks a case that is not the last one: it needs a value of the selecting type. -/
def Case.checkValued (returns : Ty) (environment : Environment) (ty : Ty) (offset : Nat) :
    Case → Checked Case Unit
  | .mk none body => ⟨.mk none body, fault .misplacedDefault offset⟩
  | .mk (some value) body =>
      let first := value.checkAgainst environment ty
      match first.verdict with
      | .error error => ⟨.mk (some first.tree) body, .error error⟩
      | .ok () =>
          let second := Stmt.checkBlock returns environment.push body
          ⟨.mk (some first.tree) second.tree, second.verdict⟩

/-- Checks the last case, which may not have a value. -/
def Case.checkDefault (returns : Ty) (environment : Environment) : Case → Checked Case Unit
  | .mk (some value) body => ⟨.mk (some value) body, fault .misplacedDefault value.offset⟩
  | .mk none body =>
      let checked := Stmt.checkBlock returns environment.push body
      ⟨.mk none checked.tree, checked.verdict⟩

def Case.checkAll (returns : Ty) (environment : Environment) (ty : Ty) (offset : Nat) :
    List Case → Checked (List Case) Unit
  | [] => ⟨[], .ok ()⟩
  | case :: [] =>
      let checked := case.checkDefault returns environment
      ⟨[checked.tree], checked.verdict⟩
  | case :: next :: rest =>
      let first := case.checkValued returns environment ty offset
      match first.verdict with
      | .error error => ⟨first.tree :: next :: rest, .error error⟩
      | .ok () =>
          let others := Case.checkAll returns environment ty offset (next :: rest)
          ⟨first.tree :: others.tree, others.verdict⟩

end

end Procedural
