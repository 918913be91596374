import Procedural.Proofs.Syntax.Bare
import Procedural.Typing.Program

/-!
# Checking only annotates

Whatever the verdict of a check is, the tree that it returns is the tree that it was given
once the slots of both are emptied.  A check that fails has filled in a part of the slots
and nothing else.
-/

namespace Procedural

open Typing

namespace Typing

/-- A node is concluded with its parts as they are, whether it passes or not. -/
theorem bare_conclude {rebuild : Note → Expr} {note : Note} {expr : Expr}
    (keeps : ∀ note', note'.bare = note.bare → (rebuild note').bare = expr.bare)
    (function : Option Signature) (verdict : Except TypingError Ty) :
    (conclude rebuild note function verdict).tree.bare = expr.bare := by
  cases verdict with
  | ok ty => exact keeps _ rfl
  | error error => exact keeps note rfl

end Typing

namespace Expr

mutual

theorem bare_check (environment : Typing.Environment) : ∀ expr : Expr,
    (expr.check environment).tree.bare = expr.bare
  | .literal note value => by
      rw [check]
      apply bare_conclude
      intro note' same
      simp only [relabel, same]
  | .group note inner => by
      simp only [check]
      split
      · apply bare_conclude
        intro note' same
        simp only [relabel, same, bare_check environment inner]
      · rfl
  | .binary note op left right => by
      simp only [check]
      split
      · simp only [relabel, bare_check environment left]
      · apply bare_conclude
        intro note' same
        simp only [relabel, same, bare_check environment left, bare_check environment right]
  | .access note name => by
      simp only [check]
      split
      · rfl
      · apply bare_conclude
        intro note' same
        simp only [relabel, same]
  | .element note name index => by
      simp only [check]
      split
      · rfl
      · apply bare_conclude
        intro note' same
        simp only [relabel, same, bare_check environment index]
  | .call note name arguments => by
      simp only [check]
      split
      · rfl
      · apply bare_conclude
        intro note' same
        simp only [relabel, same, bareItems_checkArguments environment _ arguments]
  | .list note elements => by
      simp only [check]
      apply bare_conclude
      intro note' same
      simp only [relabel, same, bareItems_checkElements environment _ elements]

theorem bareItems_checkArguments (environment : Typing.Environment) :
    ∀ (types : List Ty) (items : List Expr),
      bareItems (checkArguments environment types items).tree = bareItems items
  | ty :: types, item :: rest => by
      simp only [checkArguments]
      split
      · simp only [relabelItems, bare_check environment item]
      · simp only [relabelItems, bare_check environment item,
          bareItems_checkArguments environment types rest]
  | [], items => by
      cases items <;> rfl
  | _ :: _, [] => rfl

theorem bareItems_checkElements (environment : Typing.Environment) (ty : Ty) :
    ∀ items : List Expr,
    bareItems (checkElements environment ty items).tree = bareItems items
  | [] => rfl
  | item :: rest => by
      simp only [checkElements]
      split
      · simp only [relabelItems, bare_check environment item]
      · simp only [relabelItems, bare_check environment item,
          bareItems_checkElements environment ty rest]

end

theorem bare_checkAgainst (environment : Typing.Environment) (expected : Ty) (expr : Expr) :
    (expr.checkAgainst environment expected).tree.bare = expr.bare :=
  bare_check environment expr

end Expr

namespace Typing

variable (environment : Environment)

theorem bare_checkUntyped (name : String) (value : Option Expr) :
    (checkUntyped environment name value).tree.bare =
      (Stmt.declaration name none value).bare := by
  cases value with
  | none => rfl
  | some value => simp only [checkUntyped, Stmt.relabel, Option.map_some, Expr.bare_check]

theorem bare_checkTyped (name typeName : String) (value : Option Expr) :
    (checkTyped environment name typeName value).tree.bare =
      (Stmt.declaration name (some typeName) value).bare := by
  simp only [checkTyped]
  cases resolve typeName (value.map Expr.offset) with
  | error error => rfl
  | ok ty =>
      cases value with
      | none => rfl
      | some value => simp only [Option.map_some, Stmt.relabel, Expr.bare_checkAgainst]

theorem bare_checkAssignment (receiver value : Expr) :
    (checkAssignment environment receiver value).tree.bare =
      (Stmt.assignment receiver value).bare := by
  simp only [checkAssignment]
  split
  · rfl
  · split
    · simp only [Stmt.relabel, Expr.bare_check]
    · split
      · simp only [Stmt.relabel, Expr.bare_check]
      · simp only [Stmt.relabel, Expr.bare_check, Expr.bare_checkAgainst]

end Typing

mutual

theorem Stmt.bare_check (returns : Ty) (environment : Typing.Environment) : ∀ stmt : Stmt,
    (stmt.check returns environment).tree.bare = stmt.bare
  | .expression value => by simp only [Stmt.check, Stmt.relabel, Expr.bare_check]
  | .declaration name none value => bare_checkUntyped environment name value
  | .declaration name (some typeName) value => bare_checkTyped environment name typeName value
  | .assignment receiver value => bare_checkAssignment environment receiver value
  | .branch condition thenBlock elseBlock => by
      have thens := Stmt.bareBlock_checkBlock returns environment.push thenBlock
      have elses := Stmt.bareBlock_checkBlock returns environment.push elseBlock
      simp only [Stmt.check]
      split
      · simp only [Stmt.relabel, Expr.bare_checkAgainst]
      · split
        · simp only [Stmt.relabel, Expr.bare_checkAgainst]
        · split
          · simp only [Stmt.relabel, Expr.bare_checkAgainst, thens]
          · simp only [Stmt.relabel, Expr.bare_checkAgainst, thens, elses]
  | .switch condition cases => by
      simp only [Stmt.check]
      split
      · simp only [Stmt.relabel, Expr.bare_check]
      · simp only [Stmt.relabel, Expr.bare_check,
          Case.bareCases_checkAll returns environment _ _ cases]
  | .loop condition body => by
      simp only [Stmt.check]
      split
      · simp only [Stmt.relabel, Expr.bare_checkAgainst]
      · simp only [Stmt.relabel, Expr.bare_checkAgainst,
          Stmt.bareBlock_checkBlock returns environment.push body]
  | .result value => by simp only [Stmt.check, Stmt.relabel, Expr.bare_checkAgainst]

theorem Stmt.bareBlock_checkBlock (returns : Ty) (environment : Typing.Environment) :
    ∀ stmts : List Stmt,
      Stmt.bareBlock (Stmt.checkBlock returns environment stmts).tree = Stmt.bareBlock stmts
  | [] => rfl
  | stmt :: rest => by
      simp only [Stmt.checkBlock]
      split
      · simp only [Stmt.relabelBlock, Stmt.bare_check returns environment stmt]
      · simp only [Stmt.relabelBlock, Stmt.bare_check returns environment stmt,
          Stmt.bareBlock_checkBlock returns _ rest]

theorem Case.bare_checkValued (returns : Ty) (environment : Typing.Environment) (ty : Ty)
    (offset : Nat) : ∀ case : Case,
    (case.checkValued returns environment ty offset).tree.bare = case.bare
  | .mk none body => rfl
  | .mk (some value) body => by
      simp only [Case.checkValued]
      split
      · simp only [Case.relabel, Option.map_some, Expr.bare_checkAgainst]
      · simp only [Case.relabel, Option.map_some, Expr.bare_checkAgainst,
          Stmt.bareBlock_checkBlock returns environment.push body]

theorem Case.bare_checkDefault (returns : Ty) (environment : Typing.Environment) : ∀ case : Case,
    (case.checkDefault returns environment).tree.bare = case.bare
  | .mk none body => by
      simp only [Case.checkDefault, Case.relabel, Option.map_none,
        Stmt.bareBlock_checkBlock returns environment.push body]
  | .mk (some value) body => rfl

theorem Case.bareCases_checkAll (returns : Ty) (environment : Typing.Environment) (ty : Ty)
    (offset : Nat) : ∀ cases : List Case,
    Case.bareCases (Case.checkAll returns environment ty offset cases).tree =
      Case.bareCases cases
  | [] => rfl
  | [case] => by
      simp only [Case.checkAll, Case.relabelCases,
        Case.bare_checkDefault returns environment case]
  | case :: next :: rest => by
      have first := Case.bare_checkValued returns environment ty offset case
      have others := Case.bareCases_checkAll returns environment ty offset (next :: rest)
      simp only [Case.checkAll]
      split
      · simp only [Case.relabelCases, first]
      · simp only [Case.relabelCases, first, others]

end

namespace Typing

theorem bare_noteElementType (ty : Ty) (expr : Expr) :
    (noteElementType ty expr).bare = expr.bare := by
  cases expr <;> rfl

theorem bare_checkGlobal (environment : Environment) (global : Global) :
    (checkGlobal environment global).tree.bare = global.bare := by
  simp only [checkGlobal]
  split
  · rfl
  · split
    · rfl
    · split
      · rfl
      · next value given =>
          split
          · simp only [Global.relabel, Option.map_some, Expr.bare_checkAgainst,
              bare_noteElementType, given]
          · simp only [Global.relabel, Option.map_some, Expr.bare_checkAgainst,
              bare_noteElementType, given]
            rfl

theorem bare_checkGlobals (globals : List Global) : ∀ environment : Environment,
    (checkGlobals environment globals).tree.map Global.bare = globals.map Global.bare := by
  induction globals with
  | nil => exact fun _ => rfl
  | cons global rest induction =>
      intro environment
      simp only [checkGlobals]
      split
      · simp only [List.map_cons, bare_checkGlobal]
      · simp only [List.map_cons, bare_checkGlobal, induction]

theorem bare_declareFunctions (functions : List Function) : ∀ environment : Environment,
    (declareFunctions environment functions).tree.map Function.bare =
      functions.map Function.bare := by
  induction functions with
  | nil => exact fun _ => rfl
  | cons function rest induction =>
      intro environment
      simp only [declareFunctions]
      split
      · rfl
      · simp only [List.map_cons, induction, Function.relabel]
        rfl

theorem bare_checkBody (environment : Environment) (function : Function)
    (signature : Signature) :
    (checkBody environment function signature).tree.bare = function.bare := by
  simp only [checkBody]
  split
  · rfl
  · simp only [Function.relabel, Stmt.bareBlock_checkBlock]

theorem bare_checkBodies (environment : Environment) (functions : List Function) :
    ∀ signatures : List Signature,
      (checkBodies environment functions signatures).tree.map Function.bare =
        functions.map Function.bare := by
  induction functions with
  | nil => exact fun _ => rfl
  | cons function rest induction =>
      intro signatures
      cases signatures with
      | nil => rfl
      | cons signature signatures =>
          simp only [checkBodies]
          split
          · simp only [List.map_cons, bare_checkBody]
          · simp only [List.map_cons, bare_checkBody, induction]

end Typing

/-- Checking leaves a program as it is up to annotations, also if it fails. -/
theorem Program.bare_check (program : Program) : program.check.tree.bare = program.bare := by
  simp only [Program.check]
  split
  · simp only [Program.bare, Program.relabel, bare_checkGlobals]
  · split
    · simp only [Program.bare, Program.relabel, bare_checkGlobals, bare_declareFunctions]
    · simp only [Program.bare, Program.relabel, bare_checkGlobals, bare_checkBodies,
        bare_declareFunctions]

end Procedural
