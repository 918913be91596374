import Procedural.Proofs.Scope.Equivalence
import Procedural.Proofs.Typing.Judgement

/-!
# Checking in another order

A check asks its environment about names only, so it does the same in equivalent ones.
Whether functions can be declared does not depend on their order, and neither does, up to
equivalence, the environment in which their bodies are checked.
-/

namespace Procedural

open Typing

namespace Expr

variable {environment environment' : Typing.Environment}

mutual

theorem check_congr (equivalent : environment.Equivalent environment') : ∀ expr : Expr,
    expr.check environment = expr.check environment'
  | .literal note value => by rw [check, check]
  | .group note inner => by rw [check, check, check_congr equivalent inner]
  | .binary note op left right => by
      rw [check, check, check_congr equivalent left, check_congr equivalent right]
  | .access note name => by rw [check, check, equivalent.findVariable]
  | .element note name index => by
      rw [check, check, equivalent.findVariable, check_congr equivalent index]
  | .call note name arguments => by
      simp only [check, equivalent.findFunction, checkArguments_congr equivalent _ arguments]
  | .list note elements => by
      simp only [check, checkElements_congr equivalent _ elements]

theorem checkArguments_congr (equivalent : environment.Equivalent environment') :
    ∀ (types : List Ty) (items : List Expr),
      checkArguments environment types items = checkArguments environment' types items
  | ty :: types, item :: rest => by
      simp only [checkArguments, check_congr equivalent item,
        checkArguments_congr equivalent types rest]
  | [], items => by rw [checkArguments, checkArguments]
  | _ :: _, [] => rfl

theorem checkElements_congr (equivalent : environment.Equivalent environment') (ty : Ty) :
    ∀ items : List Expr,
      checkElements environment ty items = checkElements environment' ty items
  | [] => rfl
  | item :: rest => by
      simp only [checkElements, check_congr equivalent item,
        checkElements_congr equivalent ty rest]

end

theorem checkAgainst_congr (equivalent : environment.Equivalent environment') (expected : Ty)
    (expr : Expr) :
    expr.checkAgainst environment expected = expr.checkAgainst environment' expected := by
  rw [checkAgainst, checkAgainst, check_congr equivalent expr]

end Expr

namespace Typing

/-- The same error, or environments that are equivalent. -/
inductive SameVerdict : Except TypingError Environment → Except TypingError Environment → Prop
  | error (error : TypingError) : SameVerdict (.error error) (.error error)
  | ok {environment environment' : Environment} :
      environment.Equivalent environment' → SameVerdict (.ok environment) (.ok environment')

variable {environment environment' : Environment}

theorem SameVerdict.bind {α : Type} (outcome : Except TypingError α)
    {next next' : α → Except TypingError Environment}
    (later : ∀ value, SameVerdict (next value) (next' value)) :
    SameVerdict (outcome.bind next) (outcome.bind next') := by
  cases outcome with
  | error error => exact .error error
  | ok value => exact later value

theorem SameVerdict.map {α : Type} (equivalent : environment.Equivalent environment')
    (outcome : Except TypingError α) :
    SameVerdict (outcome.map fun _ => environment) (outcome.map fun _ => environment') := by
  cases outcome with
  | error error => exact .error error
  | ok value => exact .ok equivalent

/-- The checks return the same tree, and agree on what comes after it. -/
structure SameCheck (checked checked' : Checked Stmt Environment) : Prop where
  tree : checked.tree = checked'.tree
  verdict : SameVerdict checked.verdict checked'.verdict

theorem declare_congr (equivalent : environment.Equivalent environment') (name : String)
    (offset : Option Nat) (variableType : VariableType) :
    SameVerdict (declare environment name offset variableType)
      (declare environment' name offset variableType) := by
  unfold declare
  rw [equivalent.definesVariable]
  split
  · exact .error _
  · exact .ok (equivalent.defineVariable name variableType)

theorem checkUntyped_congr (equivalent : environment.Equivalent environment') (name : String)
    (value : Option Expr) :
    SameCheck (checkUntyped environment name value) (checkUntyped environment' name value) := by
  cases value with
  | none => exact ⟨rfl, .error _⟩
  | some value =>
      simp only [checkUntyped, Expr.check_congr equivalent value]
      exact ⟨rfl, .bind _ fun ty => declare_congr equivalent _ _ _⟩

theorem checkTyped_congr (equivalent : environment.Equivalent environment')
    (name typeName : String) (value : Option Expr) :
    SameCheck (checkTyped environment name typeName value)
      (checkTyped environment' name typeName value) := by
  simp only [checkTyped, Expr.checkAgainst_congr equivalent]
  cases resolve typeName (value.map Expr.offset) with
  | error error => exact ⟨rfl, .error error⟩
  | ok ty =>
      cases value with
      | none => exact ⟨rfl, declare_congr equivalent _ _ _⟩
      | some value => exact ⟨rfl, .bind _ fun _ => declare_congr equivalent _ _ _⟩

theorem checkAssignment_congr (equivalent : environment.Equivalent environment')
    (receiver value : Expr) :
    SameCheck (checkAssignment environment receiver value)
      (checkAssignment environment' receiver value) := by
  have immutable : isImmutable environment = isImmutable environment' := by
    funext name
    rw [isImmutable, isImmutable, equivalent.findVariable]
  simp only [checkAssignment, Expr.check_congr equivalent, immutable,
    Expr.checkAgainst_congr equivalent]
  cases receiver.target? with
  | none => exact ⟨rfl, .error _⟩
  | some name =>
      dsimp only
      cases (receiver.check environment').verdict with
      | error error => exact ⟨rfl, .error error⟩
      | ok ty =>
          dsimp only
          split
          · exact ⟨rfl, .error _⟩
          · exact ⟨rfl, .map equivalent _⟩

end Typing

mutual

theorem Stmt.check_congr (returns : Ty) {environment environment' : Typing.Environment}
    (equivalent : environment.Equivalent environment') : ∀ stmt : Stmt,
    SameCheck (stmt.check returns environment) (stmt.check returns environment')
  | .expression value => by
      rw [Stmt.check, Stmt.check, Expr.check_congr equivalent]
      exact ⟨rfl, .map equivalent _⟩
  | .declaration name none value => checkUntyped_congr equivalent name value
  | .declaration name (some typeName) value => checkTyped_congr equivalent name typeName value
  | .assignment receiver value => checkAssignment_congr equivalent receiver value
  | .branch condition thenBlock elseBlock => by
      simp only [Stmt.check, Expr.checkAgainst_congr equivalent,
        Stmt.checkBlock_congr returns equivalent.push thenBlock,
        Stmt.checkBlock_congr returns equivalent.push elseBlock]
      cases (condition.checkAgainst environment' .boolean).verdict with
      | error error => exact ⟨rfl, .error error⟩
      | ok _ =>
          dsimp only
          split
          · exact ⟨rfl, .error _⟩
          · cases (Stmt.checkBlock returns environment'.push thenBlock).verdict with
            | error error => exact ⟨rfl, .error error⟩
            | ok _ => exact ⟨rfl, .map equivalent _⟩
  | .switch condition cases => by
      simp only [Stmt.check, Expr.check_congr equivalent,
        Case.checkAll_congr returns equivalent _ _ cases]
      cases (condition.check environment').verdict with
      | error error => exact ⟨rfl, .error error⟩
      | ok ty => exact ⟨rfl, .map equivalent _⟩
  | .loop condition body => by
      simp only [Stmt.check, Expr.checkAgainst_congr equivalent,
        Stmt.checkBlock_congr returns equivalent.push body]
      cases (condition.checkAgainst environment' .boolean).verdict with
      | error error => exact ⟨rfl, .error error⟩
      | ok _ => exact ⟨rfl, .map equivalent _⟩
  | .result value => by
      rw [Stmt.check, Stmt.check, Expr.checkAgainst_congr equivalent]
      exact ⟨rfl, .map equivalent _⟩

theorem Stmt.checkBlock_congr (returns : Ty) {environment environment' : Typing.Environment}
    (equivalent : environment.Equivalent environment') : ∀ stmts : List Stmt,
    Stmt.checkBlock returns environment stmts = Stmt.checkBlock returns environment' stmts
  | [] => rfl
  | stmt :: rest => by
      obtain ⟨trees, verdicts⟩ := Stmt.check_congr returns equivalent stmt
      rw [Stmt.checkBlock, Stmt.checkBlock]
      dsimp only
      rw [trees]
      generalize (stmt.check returns environment).verdict = verdict at verdicts ⊢
      generalize (stmt.check returns environment').verdict = verdict' at verdicts ⊢
      cases verdicts with
      | error error => rfl
      | ok extended =>
          dsimp only
          rw [Stmt.checkBlock_congr returns extended rest]

theorem Case.checkValued_congr (returns : Ty) {environment environment' : Typing.Environment}
    (equivalent : environment.Equivalent environment') (ty : Ty) (offset : Nat) : ∀ case : Case,
    case.checkValued returns environment ty offset = case.checkValued returns environment' ty offset
  | .mk none body => rfl
  | .mk (some value) body => by
      rw [Case.checkValued, Case.checkValued, Expr.checkAgainst_congr equivalent,
        Stmt.checkBlock_congr returns equivalent.push body]

theorem Case.checkDefault_congr (returns : Ty) {environment environment' : Typing.Environment}
    (equivalent : environment.Equivalent environment') : ∀ case : Case,
    case.checkDefault returns environment = case.checkDefault returns environment'
  | .mk none body => by
      rw [Case.checkDefault, Case.checkDefault,
        Stmt.checkBlock_congr returns equivalent.push body]
  | .mk (some value) body => rfl

theorem Case.checkAll_congr (returns : Ty) {environment environment' : Typing.Environment}
    (equivalent : environment.Equivalent environment') (ty : Ty) (offset : Nat) :
    ∀ cases : List Case, Case.checkAll returns environment ty offset cases =
      Case.checkAll returns environment' ty offset cases
  | [] => rfl
  | [case] => by
      rw [Case.checkAll, Case.checkAll, Case.checkDefault_congr returns equivalent case]
  | case :: next :: rest => by
      rw [Case.checkAll, Case.checkAll, Case.checkValued_congr returns equivalent ty offset case,
        Case.checkAll_congr returns equivalent ty offset (next :: rest)]

end

namespace Typing

variable {environment environment' : Environment}

theorem declareParameters_congr (offset : Option Nat) (parameters : List (String × Ty)) :
    ∀ {environment environment' : Environment}, environment.Equivalent environment' →
      SameVerdict (declareParameters offset environment parameters)
        (declareParameters offset environment' parameters) := by
  induction parameters with
  | nil => exact .ok
  | cons parameter rest induction =>
      intro environment environment' equivalent
      have first := declare_congr equivalent parameter.1 offset ⟨parameter.2, true⟩
      change SameVerdict ((declare environment _ _ _).bind _) ((declare environment' _ _ _).bind _)
      generalize declare environment _ _ _ = verdict at first ⊢
      generalize declare environment' _ _ _ = verdict' at first ⊢
      cases first with
      | error error => exact .error error
      | ok extended => exact induction extended

theorem checkBody_congr (equivalent : environment.Equivalent environment') (function : Function)
    (signature : Signature) :
    checkBody environment function signature = checkBody environment' function signature := by
  have parameters := declareParameters_congr (some function.offset)
    (function.parameters.zip signature.parameters) equivalent.push
  simp only [checkBody]
  generalize declareParameters (some function.offset) environment.push
    (function.parameters.zip signature.parameters) = verdict at parameters ⊢
  generalize declareParameters (some function.offset) environment'.push
    (function.parameters.zip signature.parameters) = verdict' at parameters ⊢
  cases parameters with
  | error error => rfl
  | ok extended =>
      dsimp only
      rw [Stmt.checkBlock_congr _ extended]

/-- Global variables are bound at the root. -/
theorem alone_of_checkGlobals {globals : List Global} {last : Environment} :
    ∀ {environment : Environment}, environment.Alone →
      (checkGlobals environment globals).verdict = .ok last → last.Alone := by
  induction globals with
  | nil =>
      intro environment alone passes
      cases passes
      exact alone
  | cons global rest induction =>
      intro environment alone passes
      simp only [checkGlobals] at passes
      split at passes
      · cases passes
      next extended first =>
        refine induction ?_ passes
        simp only [checkGlobal] at first
        split at first
        · cases first
        · split at first
          · cases first
          next declares =>
            obtain ⟨-, rfl⟩ := declare_eq_ok.mp declares
            split at first
            · cases first
              exact alone.defineVariable _ _
            · split at first
              · cases first
              · cases first
                exact alone.defineVariable _ _

end Typing

namespace Function

variable (function : Function)

/-- By its name and its number of parameters a function is found. -/
def key : String × Nat :=
  (function.name, function.arity)

/-- The signature that a function declares, if its types are known. -/
def declares? : Except TypingError Signature := do
  let parameters ← resolveAll (some function.offset) function.parameterTypes
  let returns ← resolveResult (some function.offset) function.returnType
  .ok ⟨parameters, returns, function.name⟩

/-- The signature that a function declares; it matters only if its types are known. -/
def declared : Signature :=
  function.declares?.toOption.getD ⟨[], .nil, function.name⟩

/-- The function with its signature noted. -/
def withSignature : Function :=
  { function with signature := some function.declared }

theorem signatureOf_eq_ok_iff {environment : Typing.Environment} {signature : Signature} :
    signatureOf environment function = .ok signature ↔
      function.declares? = .ok signature ∧
        environment.definesFunction function.key.1 function.key.2 = false := by
  constructor
  · intro found
    obtain ⟨parameters, resolved, rest⟩ := bind_eq_ok.mp found
    obtain ⟨returns, resolvedResult, rest⟩ := bind_eq_ok.mp rest
    split at rest
    · cases rest
    next free =>
      have declares : function.declares? = .ok ⟨parameters, returns, function.name⟩ :=
        bind_eq_ok.mpr ⟨parameters, resolved, bind_eq_ok.mpr ⟨returns, resolvedResult, rfl⟩⟩
      exact ⟨declares.trans rest, Bool.eq_false_iff.mpr free⟩
  · rintro ⟨declares, free⟩
    obtain ⟨parameters, resolved, rest⟩ := bind_eq_ok.mp declares
    obtain ⟨returns, resolvedResult, rest⟩ := bind_eq_ok.mp rest
    exact bind_eq_ok.mpr ⟨parameters, resolved, bind_eq_ok.mpr ⟨returns, resolvedResult,
      (if_neg (Bool.eq_false_iff.mp free)).trans rest⟩⟩

end Function

namespace Typing

/-- Functions with known types, all of whose names are free, with their numbers of parameters. -/
structure Declarable (environment : Environment) (functions : List Function) : Prop where
  known : ∀ function ∈ functions, function.declares? = .ok function.declared
  admits : environment.Admits (functions.map Function.key)

variable {environment : Environment} {functions functions' : List Function}

theorem Declarable.perm (declarable : Declarable environment functions)
    (reordered : functions.Perm functions') : Declarable environment functions' :=
  ⟨fun function member => declarable.known function (reordered.mem_iff.mpr member),
    declarable.admits.perm (reordered.map Function.key)⟩

/-- The environment in which the bodies of functions are checked. -/
def withFunctions (environment : Environment) (functions : List Function) : Environment :=
  environment.defineFunctions (functions.map fun function => (function.key, function.declared))

theorem declareFunctions_of_declarable (declarable : Declarable environment functions) :
    declareFunctions environment functions =
      ⟨functions.map Function.withSignature,
        .ok (withFunctions environment functions, functions.map Function.declared)⟩ := by
  obtain ⟨known, admits⟩ := declarable
  induction functions generalizing environment with
  | nil => rfl
  | cons function rest induction =>
      obtain ⟨here, later⟩ := List.forall_mem_cons.mp known
      obtain ⟨free, admitsRest⟩ := (Scope.admits_cons function.declared).mp admits
      have found := function.signatureOf_eq_ok_iff.mpr ⟨here, free⟩
      have others : declareFunctions
          (environment.defineFunction function.name function.arity function.declared) rest = _ :=
        induction later admitsRest
      simp only [declareFunctions, found, others]
      rfl

theorem declarable_of_declareFunctions {outcome : Environment × List Signature}
    (passes : (declareFunctions environment functions).verdict = .ok outcome) :
    Declarable environment functions := by
  induction functions generalizing environment outcome with
  | nil => exact ⟨nofun, .nil environment⟩
  | cons function rest induction =>
      simp only [declareFunctions] at passes
      split at passes
      · cases passes
      next signature found =>
        obtain ⟨_, restPasses, -⟩ := map_eq_ok.mp passes
        obtain ⟨declares, free⟩ := function.signatureOf_eq_ok_iff.mp found
        obtain ⟨known, admits⟩ := induction restPasses
        have here : function.declares? = .ok function.declared := by
          unfold Function.declared
          rw [declares]
          rfl
        exact ⟨List.forall_mem_cons.mpr ⟨here, known⟩,
          (Scope.admits_cons signature).mpr ⟨free, admits⟩⟩

/-- The function with its body checked. -/
def checkFunction (environment : Environment) (function : Function) : Checked Function Unit :=
  checkBody environment function.withSignature function.declared

theorem checkBodies_of_ok
    (pass : ∀ function ∈ functions, (checkFunction environment function).verdict = .ok ()) :
    checkBodies environment (functions.map Function.withSignature)
        (functions.map Function.declared) =
      ⟨functions.map fun function => (checkFunction environment function).tree, .ok ()⟩ := by
  induction functions with
  | nil => rfl
  | cons function rest induction =>
      obtain ⟨here, later⟩ := List.forall_mem_cons.mp pass
      unfold checkFunction at here
      simp only [List.map_cons, checkBodies, here, induction later]
      rfl

theorem ok_of_checkBodies
    (passes : (checkBodies environment (functions.map Function.withSignature)
      (functions.map Function.declared)).verdict = .ok ()) :
    ∀ function ∈ functions, (checkFunction environment function).verdict = .ok () := by
  induction functions with
  | nil => exact nofun
  | cons function rest induction =>
      simp only [List.map_cons, checkBodies] at passes
      split at passes
      · cases passes
      next here => exact List.forall_mem_cons.mpr ⟨here, induction passes⟩

end Typing

namespace Program

/-- What it takes for a program to pass; the environment is the one after its global variables. -/
structure Passes (program : Program) (environment : Typing.Environment) : Prop where
  globals : (checkGlobals root program.globals).verdict = .ok environment
  declarable : Declarable environment program.functions
  bodies : ∀ function ∈ program.functions,
    (checkFunction (withFunctions environment program.functions) function).verdict = .ok ()
  main : requireMain (withFunctions environment program.functions) = .ok ()

variable {program program' : Program} {environment : Typing.Environment}

theorem Passes.check (passes : program.Passes environment) :
    program.check =
      ⟨⟨(checkGlobals root program.globals).tree, program.functions.map fun function =>
        (checkFunction (withFunctions environment program.functions) function).tree⟩, .ok ()⟩ := by
  unfold Program.check
  simp only [passes.globals, declareFunctions_of_declarable passes.declarable,
    checkBodies_of_ok passes.bodies]
  rw [passes.main]
  rfl

theorem exists_passes_of_check (accepted : program.check.verdict = .ok ()) :
    ∃ environment, program.Passes environment := by
  unfold Program.check at accepted
  dsimp only at accepted
  split at accepted
  · cases accepted
  next environment globals =>
    split at accepted
    · cases accepted
    next declares =>
      have declarable := declarable_of_declareFunctions declares
      rw [declareFunctions_of_declarable declarable] at declares accepted
      cases declares
      obtain ⟨_, bodies, main⟩ := bind_eq_ok.mp accepted
      exact ⟨environment, globals, declarable, ok_of_checkBodies bodies, main⟩

/-- The programs have the same global variables, and the same functions in some order. -/
structure Reorders (program program' : Program) : Prop where
  globals : program.globals = program'.globals
  functions : program.functions.Perm program'.functions

theorem Reorders.symm (reordered : program.Reorders program') : program'.Reorders program :=
  ⟨reordered.globals.symm, reordered.functions.symm⟩

/-- In whatever order the functions are declared, names stand for the same in their bodies. -/
theorem Passes.equivalent (passes : program.Passes environment)
    (reordered : program.Reorders program') :
    (withFunctions environment program.functions).Equivalent
      (withFunctions environment program'.functions) := by
  have alone : environment.Alone := alone_of_checkGlobals (show root.Alone from rfl) passes.globals
  refine alone.defineFunctions_perm (reordered.functions.map _) ?_
  rw [List.map_map]
  exact passes.declarable.admits.distinct

theorem Passes.reorder (passes : program.Passes environment)
    (reordered : program.Reorders program') : program'.Passes environment := by
  have equivalent := passes.equivalent reordered
  refine ⟨reordered.globals ▸ passes.globals, passes.declarable.perm reordered.functions, ?_, ?_⟩
  · intro function member
    unfold checkFunction
    rw [← checkBody_congr equivalent]
    exact passes.bodies function (reordered.functions.mem_iff.mpr member)
  · unfold requireMain
    rw [← equivalent.findFunction]
    exact passes.main

/-- Both programs pass or neither does; and if they pass, the same functions get the same bodies. -/
theorem Reorders.check (reordered : program.Reorders program')
    (accepted : program.check.verdict = .ok ()) :
    program'.check.verdict = .ok () ∧ ∃ annotate : Function → Function,
      program.check.tree.functions = program.functions.map annotate ∧
      program'.check.tree.functions = program'.functions.map annotate ∧
      program.check.tree.globals = program'.check.tree.globals := by
  obtain ⟨environment, passes⟩ := exists_passes_of_check accepted
  have passes' := passes.reorder reordered
  have equivalent := passes.equivalent reordered
  rw [passes.check, passes'.check]
  refine ⟨rfl, fun function =>
    (checkFunction (withFunctions environment program.functions) function).tree, rfl, ?_, ?_⟩
  · apply List.map_congr_left
    intro function _
    unfold checkFunction
    rw [checkBody_congr equivalent]
  · rw [reordered.globals]

end Program

end Procedural
