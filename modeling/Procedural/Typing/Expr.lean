import Procedural.Typing.Basic

/-!
# Typing of expressions

Every expression that passes has its type noted on it, and every call the function
that it refers to.  A list literal takes the element type that was noted on it
before, and accepts elements of any type without one.
-/

namespace Procedural

namespace Typing

/-- Notes the type of a node whose parts were checked; a faulty node keeps its note. -/
def conclude (rebuild : Note → Expr) (note : Note) (function : Option Signature) :
    Except TypingError Ty → Checked Expr Ty
  | .ok ty => ⟨rebuild { note with ty := some ty, function }, .ok ty⟩
  | .error error => ⟨rebuild note, .error error⟩

end Typing

open Typing

/-- The expression applies a binary operator. -/
def Expr.isBinary : Expr → Bool
  | .binary _ _ _ _ => true
  | _ => false

mutual

def Expr.check (environment : Environment) : Expr → Checked Expr Ty
  | .literal note value =>
      conclude (.literal · value) note none (literalType value note.offset)
  | .group note inner =>
      if inner.isBinary then
        let checked := inner.check environment
        conclude (.group · checked.tree) note none checked.verdict
      else
        ⟨.group note inner, fault .invalidGroup note.offset⟩
  | .binary note op left right =>
      let first := left.check environment
      match first.verdict with
      | .error error => ⟨.binary note op first.tree right, .error error⟩
      | .ok leftType =>
          let second := right.check environment
          conclude (.binary · op first.tree second.tree) note none
            (second.verdict.bind fun rightType => binaryType op leftType rightType note.offset)
  | .access note name =>
      match environment.findVariable? name with
      | none => ⟨.access note name, fault (.undefinedVariable name) note.offset⟩
      | some found => conclude (.access · name) note none (.ok found.ty)
  | .element note name index =>
      match environment.findVariable? name with
      | none => ⟨.element note name index, fault (.undefinedVariable name) note.offset⟩
      | some found =>
          let checked := index.check environment
          conclude (.element · name checked.tree) note none <|
            checked.verdict.bind fun ty =>
              (require .integer ty (some index.offset)).map fun _ => found.ty
  | .call note name arguments =>
      match environment.findFunction? name arguments.length with
      | none =>
          ⟨.call note name arguments,
            fault (.undefinedFunction name arguments.length) note.offset⟩
      | some signature =>
          let checked := Expr.checkArguments environment signature.parameters arguments
          conclude (.call · name checked.tree) note (some signature)
            (checked.verdict.map fun _ => signature.returns)
  | .list note elements =>
      let ty := note.ty.getD .any
      let checked := Expr.checkElements environment ty elements
      conclude (.list · checked.tree) note none (checked.verdict.map fun _ => ty)

/-- Checks arguments against the parameter types; arguments without a parameter are not visited. -/
def Expr.checkArguments (environment : Environment) :
    List Ty → List Expr → Checked (List Expr) Unit
  | ty :: types, item :: rest =>
      let first := item.check environment
      match first.verdict.bind fun found => require ty found (some item.offset) with
      | .error error => ⟨first.tree :: rest, .error error⟩
      | .ok () =>
          let others := Expr.checkArguments environment types rest
          ⟨first.tree :: others.tree, others.verdict⟩
  | [], arguments => ⟨arguments, .ok ()⟩
  | _ :: _, [] => ⟨[], .ok ()⟩

def Expr.checkElements (environment : Environment) (ty : Ty) :
    List Expr → Checked (List Expr) Unit
  | [] => ⟨[], .ok ()⟩
  | item :: rest =>
      let first := item.check environment
      match first.verdict.bind fun found => require ty found (some item.offset) with
      | .error error => ⟨first.tree :: rest, .error error⟩
      | .ok () =>
          let others := Expr.checkElements environment ty rest
          ⟨first.tree :: others.tree, others.verdict⟩

end

/-- Checks an expression that a type is required of. -/
def Expr.checkAgainst (environment : Environment) (expected : Ty) (expr : Expr) :
    Checked Expr Unit :=
  let checked := expr.check environment
  ⟨checked.tree, checked.verdict.bind fun found => require expected found (some expr.offset)⟩

end Procedural
