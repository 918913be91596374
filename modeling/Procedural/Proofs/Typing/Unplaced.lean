import Procedural.Proofs.Syntax.Unplaced
import Procedural.Typing.Program

/-!
# Checking does not depend on places

Checking a program without its offsets gives the checked program without its offsets,
and the same error at a forgotten place.  So offsets reach nothing but the places of
errors and of nodes.
-/

namespace Procedural

/-- The error with its place forgotten, if it has one. -/
def TypingError.unplaced (error : TypingError) : TypingError :=
  { error with offset := error.offset.map fun _ => 0 }

namespace Checked

variable {τ α : Type}

/-- What a check returns, with all places forgotten. -/
def unplaced (forget : τ → τ) (checked : Checked τ α) : Checked τ α :=
  ⟨forget checked.tree, checked.verdict.mapError TypingError.unplaced⟩

end Checked

@[simp] theorem Except.mapError_ok {ε ε' α : Type} (forget : ε → ε') (value : α) :
    (Except.ok value).mapError forget = .ok value :=
  rfl

@[simp] theorem Except.mapError_error {ε ε' α : Type} (forget : ε → ε') (error : ε) :
    (Except.error error : Except ε α).mapError forget = .error (forget error) :=
  rfl

theorem Except.mapError_bind {ε ε' α β : Type} (forget : ε → ε') (result : Except ε α)
    (next : α → Except ε β) :
    (result.bind next).mapError forget =
      (result.mapError forget).bind fun value => (next value).mapError forget := by
  cases result <;> rfl

theorem Except.mapError_map {ε ε' α β : Type} (forget : ε → ε') (change : α → β)
    (result : Except ε α) :
    (result.map change).mapError forget = (result.mapError forget).map change := by
  cases result <;> rfl

@[simp] theorem Expr.isBinary_unplaced (expr : Expr) :
    expr.unplaced.isBinary = expr.isBinary := by
  cases expr <;> rfl

@[simp] theorem Expr.target?_unplaced (expr : Expr) : expr.unplaced.target? = expr.target? := by
  cases expr <;> rfl

namespace Typing

theorem require_unplaced (expected found : Ty) (offset : Option Nat) :
    require expected found (offset.map fun _ => 0) =
      (require expected found offset).mapError TypingError.unplaced := by
  unfold require
  split <;> rfl

theorem require_at_unplaced (expected found : Ty) (expr : Expr) :
    require expected found (some expr.unplaced.offset) =
      (require expected found (some expr.offset)).mapError TypingError.unplaced := by
  rw [Expr.offset_unplaced]
  exact require_unplaced expected found (some expr.offset)

theorem resolve_unplaced (name : String) (offset : Option Nat) :
    resolve name (offset.map fun _ => 0) =
      (resolve name offset).mapError TypingError.unplaced := by
  unfold resolve
  cases Ty.ofName? name <;> rfl

theorem literalType_unplaced (value : Scalar) (offset : Nat) :
    literalType value 0 = (literalType value offset).mapError TypingError.unplaced := by
  unfold literalType
  split
  · split <;> rfl
  · split <;> rfl
  · rfl

theorem binaryType_unplaced (op : BinaryOp) (left right : Ty) (offset : Nat) :
    binaryType op left right 0 =
      (binaryType op left right offset).mapError TypingError.unplaced := by
  have both : (require .boolean left (some 0)).bind (fun _ =>
        (require .boolean right (some 0)).bind fun _ => Except.ok Ty.boolean) =
      ((require .boolean left (some offset)).bind fun _ =>
        (require .boolean right (some offset)).bind fun _ => Except.ok Ty.boolean).mapError
          TypingError.unplaced := by
    simp only [Except.mapError_bind]
    rw [← require_unplaced .boolean left (some offset),
      ← require_unplaced .boolean right (some offset)]
    rfl
  cases op with
  | and => exact both
  | or => exact both
  | less | greater | equal | unequal =>
      simp only [binaryType]
      split <;> rfl
  | add =>
      simp only [binaryType]
      split
      · rfl
      · split <;> rfl
  | subtract | multiply | divide | power =>
      simp only [binaryType]
      split <;> rfl

theorem conclude_unplaced (rebuild rebuild' : Note → Expr)
    (same : ∀ note, (rebuild note).unplaced = rebuild' note.unplaced) (note : Note)
    (function : Option Signature) (verdict : Except TypingError Ty) :
    conclude rebuild' note.unplaced function (verdict.mapError TypingError.unplaced) =
      (conclude rebuild note function verdict).unplaced Expr.unplaced := by
  cases verdict with
  | ok ty =>
      simp only [conclude, Checked.unplaced, same]
      rfl
  | error error =>
      simp only [conclude, Checked.unplaced, same]
      rfl

theorem against_unplaced (expected : Ty) (expr : Expr) (checked : Checked Expr Ty) :
    ((checked.unplaced Expr.unplaced).verdict.bind fun found =>
        require expected found (some expr.unplaced.offset)) =
      (checked.verdict.bind fun found =>
        require expected found (some expr.offset)).mapError TypingError.unplaced := by
  rw [Except.mapError_bind]
  simp only [require_at_unplaced]
  rfl

end Typing

open Typing

mutual

theorem Expr.check_unplaced (environment : Environment) : ∀ expr : Expr,
    expr.unplaced.check environment = (expr.check environment).unplaced Expr.unplaced
  | .literal note value => by
      rw [Expr.unplaced, Expr.check, Expr.check,
        ← conclude_unplaced (.literal · value) (.literal · value) (fun _ => rfl),
        ← literalType_unplaced]
      rfl
  | .group note inner => by
      simp only [Expr.unplaced, Expr.check, Expr.isBinary_unplaced,
        Expr.check_unplaced environment inner]
      split
      · exact conclude_unplaced _ _ (fun _ => rfl) note none _
      · rfl
  | .binary note op left right => by
      simp only [Expr.unplaced, Expr.check, Expr.check_unplaced environment left,
        Expr.check_unplaced environment right]
      cases verdict : (left.check environment).verdict with
      | error error =>
          simp only [Checked.unplaced, verdict]
          rfl
      | ok leftType =>
          simp only [Checked.unplaced, verdict]
          have rebuilt := conclude_unplaced
            (.binary · op (left.check environment).tree (right.check environment).tree)
            (.binary · op (left.check environment).tree.unplaced
              (right.check environment).tree.unplaced)
            (fun _ => rfl) note none
            ((right.check environment).verdict.bind fun rightType =>
              binaryType op leftType rightType note.offset)
          rw [Except.mapError_bind] at rebuilt
          simp only [← binaryType_unplaced] at rebuilt
          exact rebuilt
  | .access note name => by
      simp only [Expr.unplaced, Expr.check]
      cases environment.findVariable? name with
      | none => rfl
      | some found => rfl
  | .element note name index => by
      simp only [Expr.unplaced, Expr.check, Expr.check_unplaced environment index]
      cases environment.findVariable? name with
      | none => rfl
      | some found =>
          have rebuilt := conclude_unplaced (.element · name (index.check environment).tree)
            (.element · name (index.check environment).tree.unplaced) (fun _ => rfl) note none
            ((index.check environment).verdict.bind fun ty =>
              (require .integer ty (some index.offset)).map fun _ => found.ty)
          rw [Except.mapError_bind] at rebuilt
          simp only [Except.mapError_map, ← require_at_unplaced] at rebuilt
          exact rebuilt
  | .call note name arguments => by
      simp only [Expr.unplaced, Expr.check, Expr.length_unplacedItems]
      cases environment.findFunction? name arguments.length with
      | none => rfl
      | some signature =>
          simp only [Expr.checkArguments_unplaced environment signature.parameters arguments]
          have rebuilt := conclude_unplaced
            (.call · name (Expr.checkArguments environment signature.parameters arguments).tree)
            (.call · name (unplacedItems
              (Expr.checkArguments environment signature.parameters arguments).tree))
            (fun _ => rfl) note (some signature)
            ((Expr.checkArguments environment signature.parameters arguments).verdict.map
              fun _ => signature.returns)
          rw [Except.mapError_map] at rebuilt
          exact rebuilt
  | .list note elements => by
      have ty : note.unplaced.ty = note.ty := rfl
      simp only [Expr.unplaced, Expr.check, ty,
        Expr.checkElements_unplaced environment (note.ty.getD .any) elements]
      have rebuilt := conclude_unplaced
        (.list · (Expr.checkElements environment (note.ty.getD .any) elements).tree)
        (.list · (unplacedItems
          (Expr.checkElements environment (note.ty.getD .any) elements).tree))
        (fun _ => rfl) note none
        ((Expr.checkElements environment (note.ty.getD .any) elements).verdict.map
          fun _ => note.ty.getD .any)
      rw [Except.mapError_map] at rebuilt
      exact rebuilt

theorem Expr.checkArguments_unplaced (environment : Environment) :
    ∀ (types : List Ty) (items : List Expr),
      Expr.checkArguments environment types (unplacedItems items) =
        (Expr.checkArguments environment types items).unplaced unplacedItems
  | ty :: types, item :: rest => by
      simp only [unplacedItems, Expr.checkArguments,
        Expr.check_unplaced environment item, Expr.checkArguments_unplaced environment types rest,
        against_unplaced]
      cases (item.check environment).verdict.bind fun found =>
        require ty found (some item.offset) <;> rfl
  | [], items => by
      cases items <;> rfl
  | _ :: _, [] => rfl

theorem Expr.checkElements_unplaced (environment : Environment) (ty : Ty) : ∀ items : List Expr,
    Expr.checkElements environment ty (unplacedItems items) =
      (Expr.checkElements environment ty items).unplaced unplacedItems
  | [] => rfl
  | item :: rest => by
      simp only [unplacedItems, Expr.checkElements,
        Expr.check_unplaced environment item, Expr.checkElements_unplaced environment ty rest,
        against_unplaced]
      cases (item.check environment).verdict.bind fun found =>
        require ty found (some item.offset) <;> rfl

end

theorem Expr.checkAgainst_unplaced (environment : Environment) (expected : Ty) (expr : Expr) :
    expr.unplaced.checkAgainst environment expected =
      (expr.checkAgainst environment expected).unplaced Expr.unplaced := by
  simp only [Expr.checkAgainst, Expr.check_unplaced, against_unplaced]
  rfl

namespace Typing

theorem declare_unplaced (environment : Environment) (name : String) (offset : Option Nat)
    (variableType : VariableType) :
    declare environment name (offset.map fun _ => 0) variableType =
      (declare environment name offset variableType).mapError TypingError.unplaced := by
  unfold declare
  split <;> rfl

theorem checkUntyped_unplaced (environment : Environment) (name : String)
    (value : Option Expr) :
    checkUntyped environment name (value.map Expr.unplaced) =
      (checkUntyped environment name value).unplaced Stmt.unplaced := by
  cases value with
  | none => rfl
  | some value =>
      simp only [Option.map_some, checkUntyped, Expr.check_unplaced, Checked.unplaced,
        Stmt.unplaced, Except.mapError_bind, ← declare_unplaced, Expr.offset_unplaced]

theorem checkTyped_unplaced (environment : Environment) (name typeName : String)
    (value : Option Expr) :
    checkTyped environment name typeName (value.map Expr.unplaced) =
      (checkTyped environment name typeName value).unplaced Stmt.unplaced := by
  simp only [checkTyped, Expr.offset_map_unplaced, resolve_unplaced]
  cases resolve typeName (value.map Expr.offset) with
  | error error => rfl
  | ok ty =>
      cases value with
      | none =>
          simp only [Except.mapError_ok, Option.map_none, Checked.unplaced, Stmt.unplaced]
          exact congrArg _ (declare_unplaced environment name none ⟨ty, true⟩)
      | some value =>
          simp only [Except.mapError_ok, Option.map_some, Expr.checkAgainst_unplaced,
            Checked.unplaced, Stmt.unplaced]
          have declared := declare_unplaced environment name (some value.offset) ⟨ty, true⟩
          simp only [Option.map_some] at declared
          simp only [Except.mapError_bind, declared]

theorem checkAssignment_unplaced (environment : Environment) (receiver value : Expr) :
    checkAssignment environment receiver.unplaced value.unplaced =
      (checkAssignment environment receiver value).unplaced Stmt.unplaced := by
  simp only [checkAssignment, Expr.target?_unplaced, Expr.offset_unplaced,
    Expr.check_unplaced, Expr.checkAgainst_unplaced]
  cases receiver.target? with
  | none => rfl
  | some name =>
      cases verdict : (receiver.check environment).verdict with
      | error error => simp only [Checked.unplaced, verdict, Except.mapError_error, Stmt.unplaced]
      | ok ty =>
          simp only [Checked.unplaced, verdict, Except.mapError_ok]
          split
          · rfl
          · simp only [Stmt.unplaced, Except.mapError_map]

end Typing

mutual

theorem Stmt.check_unplaced (returns : Ty) (environment : Environment) : ∀ stmt : Stmt,
    stmt.unplaced.check returns environment =
      (stmt.check returns environment).unplaced Stmt.unplaced
  | .expression value => by
      simp only [Stmt.unplaced, Stmt.check, Expr.check_unplaced, Checked.unplaced,
        Except.mapError_map]
  | .declaration name none value => by
      simp only [Stmt.unplaced, Stmt.check, checkUntyped_unplaced]
  | .declaration name (some typeName) value => by
      simp only [Stmt.unplaced, Stmt.check, checkTyped_unplaced]
  | .assignment receiver value => by
      simp only [Stmt.unplaced, Stmt.check, checkAssignment_unplaced]
  | .branch condition thenBlock elseBlock => by
      simp only [Stmt.unplaced, Stmt.check, Expr.checkAgainst_unplaced, Expr.offset_unplaced,
        Stmt.isEmpty_unplacedBlock, Stmt.checkBlock_unplaced returns environment.push thenBlock,
        Stmt.checkBlock_unplaced returns environment.push elseBlock]
      cases tested : (condition.checkAgainst environment .boolean).verdict with
      | error error => simp only [Checked.unplaced, tested, Except.mapError_error, Stmt.unplaced]
      | ok _ =>
          simp only [Checked.unplaced, tested, Except.mapError_ok]
          split
          · rfl
          · cases chosen : (Stmt.checkBlock returns environment.push thenBlock).verdict with
            | error error => simp only [Except.mapError_error, Stmt.unplaced]
            | ok _ => simp only [Except.mapError_ok, Stmt.unplaced, Except.mapError_map]
  | .switch condition cases => by
      simp only [Stmt.unplaced, Stmt.check, Expr.check_unplaced, Expr.offset_unplaced]
      cases selected : (condition.check environment).verdict with
      | error error => simp only [Checked.unplaced, selected, Except.mapError_error, Stmt.unplaced]
      | ok ty =>
          simp only [Checked.unplaced, selected, Except.mapError_ok, Stmt.unplaced,
            Case.checkAll_unplaced returns environment ty condition.offset cases,
            Except.mapError_map]
  | .loop condition body => by
      simp only [Stmt.unplaced, Stmt.check, Expr.checkAgainst_unplaced,
        Stmt.checkBlock_unplaced returns environment.push body]
      cases tested : (condition.checkAgainst environment .boolean).verdict with
      | error error => simp only [Checked.unplaced, tested, Except.mapError_error, Stmt.unplaced]
      | ok _ =>
          simp only [Checked.unplaced, tested, Except.mapError_ok, Stmt.unplaced,
            Except.mapError_map]
  | .result value => by
      simp only [Stmt.unplaced, Stmt.check, Expr.checkAgainst_unplaced, Checked.unplaced,
        Except.mapError_map]

theorem Stmt.checkBlock_unplaced (returns : Ty) (environment : Environment) :
    ∀ stmts : List Stmt,
      Stmt.checkBlock returns environment (Stmt.unplacedBlock stmts) =
        (Stmt.checkBlock returns environment stmts).unplaced Stmt.unplacedBlock
  | [] => rfl
  | stmt :: rest => by
      simp only [Stmt.unplacedBlock, Stmt.checkBlock,
        Stmt.check_unplaced returns environment stmt]
      cases verdict : (stmt.check returns environment).verdict with
      | error error =>
          simp only [Checked.unplaced, verdict, Except.mapError_error, Stmt.unplacedBlock]
      | ok extended =>
          simp only [Checked.unplaced, verdict, Except.mapError_ok, Stmt.unplacedBlock,
            Stmt.checkBlock_unplaced returns extended rest]

theorem Case.checkValued_unplaced (returns : Ty) (environment : Environment) (ty : Ty)
    (offset : Nat) : ∀ case : Case,
    case.unplaced.checkValued returns environment ty 0 =
      (case.checkValued returns environment ty offset).unplaced Case.unplaced
  | .mk none body => rfl
  | .mk (some value) body => by
      simp only [Case.unplaced, Option.map_some, Case.checkValued, Expr.checkAgainst_unplaced,
        Stmt.checkBlock_unplaced returns environment.push body]
      cases verdict : (value.checkAgainst environment ty).verdict with
      | error error =>
          simp only [Checked.unplaced, verdict, Except.mapError_error, Case.unplaced,
            Option.map_some]
      | ok _ =>
          simp only [Checked.unplaced, verdict, Except.mapError_ok, Case.unplaced, Option.map_some]

theorem Case.checkDefault_unplaced (returns : Ty) (environment : Environment) : ∀ case : Case,
    case.unplaced.checkDefault returns environment =
      (case.checkDefault returns environment).unplaced Case.unplaced
  | .mk none body => by
      simp only [Case.unplaced, Option.map_none, Case.checkDefault, Checked.unplaced,
        Stmt.checkBlock_unplaced returns environment.push body]
  | .mk (some value) body => by
      simp only [Case.unplaced, Option.map_some, Case.checkDefault, Expr.offset_unplaced]
      rfl

theorem Case.checkAll_unplaced (returns : Ty) (environment : Environment) (ty : Ty)
    (offset : Nat) : ∀ cases : List Case,
    Case.checkAll returns environment ty 0 (Case.unplacedCases cases) =
      (Case.checkAll returns environment ty offset cases).unplaced Case.unplacedCases
  | [] => rfl
  | [case] => by
      simp only [Case.unplacedCases, Case.checkAll, Checked.unplaced,
        Case.checkDefault_unplaced returns environment case]
  | case :: next :: rest => by
      have others := Case.checkAll_unplaced returns environment ty offset (next :: rest)
      rw [Case.unplacedCases] at others
      simp only [Case.unplacedCases, Case.checkAll, others,
        Case.checkValued_unplaced returns environment ty offset case]
      cases verdict : (case.checkValued returns environment ty offset).verdict with
      | error error =>
          simp only [Checked.unplaced, verdict, Except.mapError_error, Case.unplacedCases]
      | ok _ =>
          simp only [Checked.unplaced, verdict, Except.mapError_ok, Case.unplacedCases]

end

namespace Typing

theorem noteElementType_unplaced (ty : Ty) (expr : Expr) :
    noteElementType ty expr.unplaced = (noteElementType ty expr).unplaced := by
  cases expr <;> rfl

theorem checkGlobal_unplaced (environment : Environment) (global : Global) :
    checkGlobal environment global.unplaced =
      (checkGlobal environment global).unplaced Global.unplaced := by
  have resolved := resolve_unplaced global.typeName (some global.offset)
  rw [Option.map_some] at resolved
  simp only [checkGlobal, Global.unplaced, resolved]
  cases resolve global.typeName (some global.offset) with
  | error error => rfl
  | ok ty =>
      have declared := declare_unplaced environment global.name (some global.offset)
        ⟨ty, global.mutable⟩
      rw [Option.map_some] at declared
      simp only [Except.mapError_ok, declared]
      cases declare environment global.name (some global.offset) ⟨ty, global.mutable⟩ with
      | error error => rfl
      | ok extended =>
          cases initial : global.value with
          | none => simp [Except.mapError_ok, Checked.unplaced, Global.unplaced]
          | some value =>
              simp only [Except.mapError_ok, Option.map_some, noteElementType_unplaced,
                Expr.checkAgainst_unplaced]
              cases verdict : ((noteElementType ty value).checkAgainst environment ty).verdict <;>
                simp only [Checked.unplaced, verdict, Except.mapError_ok,
                  Except.mapError_error, Global.unplaced, Option.map_some]

theorem checkGlobals_unplaced (globals : List Global) : ∀ environment : Environment,
    checkGlobals environment (globals.map Global.unplaced) =
      (checkGlobals environment globals).unplaced (List.map Global.unplaced) := by
  induction globals with
  | nil => exact fun _ => rfl
  | cons global rest induction =>
      intro environment
      simp only [List.map_cons, checkGlobals, checkGlobal_unplaced]
      cases verdict : (checkGlobal environment global).verdict with
      | error error => simp only [Checked.unplaced, verdict, Except.mapError_error, List.map_cons]
      | ok extended =>
          simp only [Checked.unplaced, verdict, Except.mapError_ok, List.map_cons, induction]

theorem resolveAll_unplaced (offset : Option Nat) (names : List String) :
    resolveAll (offset.map fun _ => 0) names =
      (resolveAll offset names).mapError TypingError.unplaced := by
  induction names with
  | nil => rfl
  | cons name rest induction =>
      simp only [resolveAll, resolve_unplaced, induction]
      cases resolve name offset with
      | error error => rfl
      | ok ty => cases resolveAll offset rest <;> rfl

theorem resolveResult_unplaced (offset : Option Nat) (name : Option String) :
    resolveResult (offset.map fun _ => 0) name =
      (resolveResult offset name).mapError TypingError.unplaced := by
  cases name with
  | none => rfl
  | some name => exact resolve_unplaced name offset

theorem signatureOf_unplaced (environment : Environment) (function : Function) :
    signatureOf environment function.unplaced =
      (signatureOf environment function).mapError TypingError.unplaced := by
  have parameters := resolveAll_unplaced (some function.offset) function.parameterTypes
  have returns := resolveResult_unplaced (some function.offset) function.returnType
  have arity : function.unplaced.arity = function.arity := rfl
  rw [Option.map_some] at parameters returns
  simp only [signatureOf, arity]
  change ((resolveAll (some 0) function.parameterTypes).bind fun parameters =>
    (resolveResult (some 0) function.returnType).bind fun returns => _) = _
  rw [parameters, returns]
  cases resolveAll (some function.offset) function.parameterTypes with
  | error error => rfl
  | ok types =>
      cases resolveResult (some function.offset) function.returnType with
      | error error => rfl
      | ok ty =>
          change (if environment.definesFunction function.name function.arity then _ else _) =
            Except.mapError _
              (if environment.definesFunction function.name function.arity then _ else _)
          split <;> rfl

theorem declareFunctions_unplaced (functions : List Function) : ∀ environment : Environment,
    declareFunctions environment (functions.map Function.unplaced) =
      (declareFunctions environment functions).unplaced (List.map Function.unplaced) := by
  induction functions with
  | nil => exact fun _ => rfl
  | cons function rest induction =>
      intro environment
      have arity : function.unplaced.arity = function.arity := rfl
      have name : function.unplaced.name = function.name := rfl
      simp only [List.map_cons, declareFunctions, signatureOf_unplaced, arity, name, induction]
      cases signatureOf environment function with
      | error error => simp only [Checked.unplaced, Except.mapError_error, List.map_cons]
      | ok signature =>
          simp only [Checked.unplaced, Except.mapError_ok, List.map_cons, Except.mapError_map]
          rfl

theorem declareParameters_unplaced (offset : Option Nat) (parameters : List (String × Ty)) :
    ∀ environment : Environment,
      declareParameters (offset.map fun _ => 0) environment parameters =
        (declareParameters offset environment parameters).mapError TypingError.unplaced := by
  induction parameters with
  | nil => exact fun _ => rfl
  | cons parameter rest induction =>
      obtain ⟨name, ty⟩ := parameter
      intro environment
      simp only [declareParameters, declare_unplaced]
      cases declare environment name offset ⟨ty, true⟩ with
      | error error => rfl
      | ok extended => exact induction extended

theorem checkBody_unplaced (environment : Environment) (function : Function)
    (signature : Signature) :
    checkBody environment function.unplaced signature =
      (checkBody environment function signature).unplaced Function.unplaced := by
  have declared := declareParameters_unplaced (some function.offset)
    (function.parameters.zip signature.parameters) environment.push
  rw [Option.map_some] at declared
  simp only [checkBody, Function.unplaced, declared]
  cases declareParameters (some function.offset) environment.push
      (function.parameters.zip signature.parameters) with
  | error error => rfl
  | ok extended =>
      simp only [Except.mapError_ok, Stmt.checkBlock_unplaced, Checked.unplaced,
        Function.unplaced]

theorem checkBodies_unplaced (environment : Environment) (functions : List Function) :
    ∀ signatures : List Signature,
      checkBodies environment (functions.map Function.unplaced) signatures =
        (checkBodies environment functions signatures).unplaced
          (List.map Function.unplaced) := by
  induction functions with
  | nil => exact fun _ => rfl
  | cons function rest induction =>
      intro signatures
      cases signatures with
      | nil => rfl
      | cons signature signatures =>
          simp only [List.map_cons, checkBodies, checkBody_unplaced]
          cases verdict : (checkBody environment function signature).verdict with
          | error error =>
              simp only [Checked.unplaced, verdict, Except.mapError_error, List.map_cons]
          | ok _ =>
              simp only [Checked.unplaced, verdict, Except.mapError_ok, List.map_cons, induction]

theorem requireMain_unplaced (environment : Environment) :
    (requireMain environment).mapError TypingError.unplaced = requireMain environment := by
  unfold requireMain
  split <;> rfl

end Typing

/-- Checking a program without places gives what checking the program gives, without places. -/
theorem Program.check_unplaced (program : Program) :
    program.unplaced.check = program.check.unplaced Program.unplaced := by
  simp only [Program.check, Program.unplaced, checkGlobals_unplaced]
  cases checked : (checkGlobals Typing.root program.globals).verdict with
  | error error => simp only [Checked.unplaced, checked, Except.mapError_error, Program.unplaced]
  | ok environment =>
      simp only [Checked.unplaced, checked, Except.mapError_ok, declareFunctions_unplaced]
      cases declared : (declareFunctions environment program.functions).verdict with
      | error error =>
          simp only [Except.mapError_error, Program.unplaced]
      | ok found =>
          obtain ⟨extended, signatures⟩ := found
          simp only [Except.mapError_ok, checkBodies_unplaced, Checked.unplaced,
            Program.unplaced, Except.mapError_bind, requireMain_unplaced]

end Procedural
