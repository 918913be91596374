import Procedural.Typing.Stmt

/-!
# Typing of programs

Global variables are checked in order, each in view of those before it.  Then all
functions are declared, so that bodies can call functions defined later, and then
the bodies are checked.  A program needs a function `main` without parameters.
-/

namespace Procedural

open Typing

namespace Typing

/-- The text by which a function of a given arity is named. -/
def arityName (name : String) (arity : Nat) : String :=
  s!"{name}/{arity}"

/-- Notes an element type on a list literal. -/
def noteElementType (ty : Ty) : Expr → Expr
  | .list note elements => .list { note with ty := some ty } elements
  | expr => expr

def checkGlobal (environment : Environment) (global : Global) : Checked Global Environment :=
  let offset := some global.offset
  match resolve global.typeName offset with
  | .error error => ⟨global, .error error⟩
  | .ok ty =>
      match declare environment global.name offset ⟨ty, global.mutable⟩ with
      | .error error => ⟨global, .error error⟩
      | .ok extended =>
          match global.value with
          | none => ⟨{ global with ty := some ty }, .ok extended⟩
          | some value =>
              let checked := (noteElementType ty value).checkAgainst environment ty
              let global := { global with value := some checked.tree }
              match checked.verdict with
              | .error error => ⟨global, .error error⟩
              | .ok () => ⟨{ global with ty := some ty }, .ok extended⟩

def checkGlobals (environment : Environment) : List Global → Checked (List Global) Environment
  | [] => ⟨[], .ok environment⟩
  | global :: rest =>
      let first := checkGlobal environment global
      match first.verdict with
      | .error error => ⟨first.tree :: rest, .error error⟩
      | .ok environment =>
          let others := checkGlobals environment rest
          ⟨first.tree :: others.tree, others.verdict⟩

/-- The types that written names refer to. -/
def resolveAll (offset : Option Nat) : List String → Except TypingError (List Ty)
  | [] => .ok []
  | name :: rest => do
      let ty ← resolve name offset
      let types ← resolveAll offset rest
      .ok (ty :: types)

/-- The result type that a function declares; a function without one returns nothing. -/
def resolveResult (offset : Option Nat) : Option String → Except TypingError Ty
  | none => .ok .nil
  | some name => resolve name offset

/-- The signature of a function, unless its name and arity are taken. -/
def signatureOf (environment : Environment) (function : Function) :
    Except TypingError Signature := do
  let offset := some function.offset
  let parameters ← resolveAll offset function.parameterTypes
  let returns ← resolveResult offset function.returnType
  if environment.definesFunction function.name function.arity then
    .error ⟨.alreadyDefined (arityName function.name function.arity), offset⟩
  else
    .ok ⟨parameters, returns, function.name⟩

/-- Declares functions in order and returns their signatures. -/
def declareFunctions (environment : Environment) :
    List Function → Checked (List Function) (Environment × List Signature)
  | [] => ⟨[], .ok (environment, [])⟩
  | function :: rest =>
      match signatureOf environment function with
      | .error error => ⟨function :: rest, .error error⟩
      | .ok signature =>
          let extended := environment.defineFunction function.name function.arity signature
          let others := declareFunctions extended rest
          ⟨{ function with signature := some signature } :: others.tree,
            others.verdict.map fun (environment, signatures) =>
              (environment, signature :: signatures)⟩

/-- Binds parameters to their types. -/
def declareParameters (offset : Option Nat) (environment : Environment) :
    List (String × Ty) → Except TypingError Environment
  | [] => .ok environment
  | (name, ty) :: rest => do
      let environment ← declare environment name offset ⟨ty, true⟩
      declareParameters offset environment rest

def checkBody (environment : Environment) (function : Function) (signature : Signature) :
    Checked Function Unit :=
  let parameters := function.parameters.zip signature.parameters
  match declareParameters (some function.offset) environment.push parameters with
  | .error error => ⟨function, .error error⟩
  | .ok environment =>
      let checked := Stmt.checkBlock signature.returns environment function.body
      ⟨{ function with body := checked.tree }, checked.verdict⟩

def checkBodies (environment : Environment) :
    List Function → List Signature → Checked (List Function) Unit
  | function :: functions, signature :: signatures =>
      let first := checkBody environment function signature
      match first.verdict with
      | .error error => ⟨first.tree :: functions, .error error⟩
      | .ok () =>
          let others := checkBodies environment functions signatures
          ⟨first.tree :: others.tree, others.verdict⟩
  | functions, _ => ⟨functions, .ok ()⟩

/-- There is a function that a run can start with. -/
def requireMain (environment : Environment) : Except TypingError Unit :=
  if (environment.findFunction? "main" 0).isSome then .ok () else .error ⟨.noMainFunction, none⟩

end Typing

def Program.check (program : Program) : Checked Program Unit :=
  let globals := checkGlobals Typing.root program.globals
  match globals.verdict with
  | .error error => ⟨⟨globals.tree, program.functions⟩, .error error⟩
  | .ok environment =>
      let declared := declareFunctions environment program.functions
      match declared.verdict with
      | .error error => ⟨⟨globals.tree, declared.tree⟩, .error error⟩
      | .ok (environment, signatures) =>
          let bodies := checkBodies environment declared.tree signatures
          ⟨⟨globals.tree, bodies.tree⟩, bodies.verdict.bind fun _ => requireMain environment⟩

/-- Repeated checks, each of the tree that the one before left. -/
def Program.checkRepeatedly : Nat → Program → List (Checked Program Unit)
  | 0, _ => []
  | count + 1, program =>
      let checked := program.check
      checked :: Program.checkRepeatedly count checked.tree

end Procedural
