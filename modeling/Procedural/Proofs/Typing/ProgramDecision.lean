import Procedural.Proofs.Typing.Decision
import Procedural.Proofs.Typing.Idempotence
import Procedural.Proofs.Typing.ProgramDerivation

/-!
# Checking decides which programs are well typed

A program whose functions have one type for each parameter passes the check exactly if the
rules derive it.  What the check returns then is an annotated tree of the same program, since
a second check leaves it as it is.
-/

namespace Procedural

open Typing Rules

variable {annotated : Bool} {environment : Typing.Environment} {context : Context}

namespace Typing

theorem settles_initial (balanced : environment.Balanced) (ty : Ty) (value : Expr) :
    ((noteElementType ty value).checkAgainst environment ty).Settles annotated value () ↔
      InitialRule annotated (.of environment) ty value := by
  have itself : Assignable ty ty := .inl rfl
  constructor
  · intro settled
    cases value with
    | list note elements =>
        obtain ⟨passes, fixed⟩ := settled
        obtain ⟨found, typed, -⟩ := bind_eq_ok.mp passes
        obtain ⟨typed, same⟩ := settles_conclude.mp (And.intro typed fixed)
        obtain ⟨_, elementsPass, rfl⟩ := map_eq_ok.mp typed
        exact .list
          ((Expr.settles_checkElements annotated balanced elements ty).mp
            ⟨elementsPass, fun yes => (Expr.list.inj (same yes)).2⟩)
          (noted_iff.mpr fun yes => (Expr.list.inj (same yes)).1)
    | _ =>
        exact .expression (by simp)
          ((Expr.settles_checkAgainst annotated balanced _ ty).mp settled)
  · intro rule
    cases rule with
    | @list note elements elementsTyped noted =>
        obtain ⟨elementsPass, elementsFixed⟩ :=
          (Expr.settles_checkElements annotated balanced elements ty).mpr elementsTyped
        have settled : ((noteElementType ty (.list note elements)).check environment).Settles
            annotated (.list note elements) ty := by
          refine settles_conclude.mpr ⟨map_eq_ok.mpr ⟨(), elementsPass, rfl⟩, fun yes => ?_⟩
          simp only [Option.getD_some, elementsFixed yes, noted_iff.mp noted yes]
        exact ⟨bind_eq_ok.mpr ⟨ty, settled.1, require_iff.mpr itself⟩, settled.2⟩
    | expression notList fits =>
        have settled := (value.settles_checkAgainst annotated balanced ty).mpr fits
        cases value with
        | list note elements => exact absurd rfl (notList note elements)
        | _ => exact settled

theorem settles_checkGlobal (balanced : environment.Balanced) (global : Global)
    (extended : Environment) :
    (checkGlobal environment global).Settles annotated global extended ↔
      ∃ ty, ty.name = global.typeName ∧ (Context.of environment).Free global.name ∧
        (∀ value ∈ global.value, InitialRule annotated (.of environment) ty value) ∧
        Holds annotated global.ty ty ∧
        environment.defineVariable global.name ⟨ty, global.mutable⟩ = extended := by
  obtain ⟨name, typeName, mutable, value, offset, noted⟩ := global
  constructor
  · intro settled
    obtain ⟨ty, resolved, settled⟩ := Checked.settles_typed.mp settled
    obtain ⟨found, declared, settled⟩ := Checked.settles_extended.mp settled
    obtain ⟨free, rfl⟩ := declare_iff.mp declared
    refine ⟨ty, resolve_eq_ok.mp resolved, free, ?_⟩
    cases value with
    | none =>
        obtain ⟨passes, fixed⟩ := settled
        exact ⟨by simp, fun yes => (Global.mk.inj (fixed yes)).2.2.2.2.2.symm,
          Except.ok.inj passes⟩
    | some value =>
        obtain ⟨valuePasses, passes, fixed⟩ := Checked.settles_step.mp settled
        have initial := (settles_initial balanced ty value).mp
          ⟨valuePasses, fun yes => Option.some.inj (Global.mk.inj (fixed yes)).2.2.2.1⟩
        exact ⟨by simpa using initial,
          fun yes => (Global.mk.inj (fixed yes)).2.2.2.2.2.symm, Except.ok.inj passes⟩
  · rintro ⟨ty, named, free, initial, holds, rfl⟩
    have slot : annotated = true → noted = some ty := holds
    have resolved : resolve typeName (some offset) = .ok ty := resolve_eq_ok.mpr named
    have declared : declare environment name (some offset) ⟨ty, mutable⟩ =
        .ok (environment.defineVariable name ⟨ty, mutable⟩) := declare_iff.mpr ⟨free, rfl⟩
    simp only [checkGlobal, resolved, declared]
    cases value with
    | none => exact ⟨rfl, fun yes => by rw [slot yes]⟩
    | some value =>
        obtain ⟨passes, fixed⟩ := (settles_initial balanced ty value).mpr (initial value rfl)
        refine Checked.settles_step.mpr ⟨passes, rfl, fun yes => ?_⟩
        rw [fixed yes, slot yes]

/-- Global variables that settle are derived. -/
theorem globalsRule_of_settles {globals : List Global} : ∀ {environment after : Environment},
    environment.Global → (checkGlobals environment globals).Settles annotated globals after →
    after.Global ∧ GlobalsRule annotated (.of environment) globals (.of after) := by
  induction globals with
  | nil =>
      rintro environment after isGlobal ⟨passes, -⟩
      cases passes
      exact ⟨isGlobal, .nil⟩
  | cons global rest induction =>
      intro environment after isGlobal settled
      obtain ⟨extended, passes, restPasses, fixed⟩ := Checked.settles_extended.mp settled
      obtain ⟨ty, named, free, initial, holds, rfl⟩ :=
        (settles_checkGlobal isGlobal.balanced global extended).mp
          ⟨passes, fun yes => (List.cons.inj (fixed yes)).1⟩
      obtain ⟨afterGlobal, later⟩ := induction (isGlobal.defineVariable _ _)
        ⟨restPasses, fun yes => (List.cons.inj (fixed yes)).2⟩
      rw [Context.of_defineVariable] at later
      exact ⟨afterGlobal, .cons named free initial holds later⟩

/-- Global variables that are derived settle. -/
theorem settles_of_globalsRule {globals : List Global} : ∀ {environment : Environment},
    environment.Global → GlobalsRule annotated (.of environment) globals context →
    ∃ after, (checkGlobals environment globals).Settles annotated globals after ∧
      after.Global ∧ .of after = context := by
  induction globals with
  | nil =>
      intro environment isGlobal rule
      cases rule
      exact ⟨environment, ⟨rfl, fun _ => rfl⟩, isGlobal, rfl⟩
  | cons global rest induction =>
      intro environment isGlobal rule
      cases rule with
      | cons named free initial holds later =>
          rw [← Context.of_defineVariable] at later
          obtain ⟨passes, fixed⟩ := (settles_checkGlobal isGlobal.balanced global _).mpr
            ⟨_, named, free, initial, holds, rfl⟩
          obtain ⟨after, ⟨restPasses, restFixed⟩, afterGlobal, same⟩ :=
            induction (isGlobal.defineVariable _ _) later
          refine ⟨after, Checked.settles_extended.mpr ⟨_, passes, restPasses, fun yes => ?_⟩,
            afterGlobal, same⟩
          simp only [fixed yes, restFixed yes]

end Typing

theorem Rules.SignatureRule.unique {function : Function} {left right : Signature}
    (rule : SignatureRule function left) (rule' : SignatureRule function right) :
    left = right := by
  obtain ⟨parameters, returns, target⟩ := left
  obtain ⟨parameters', returns', target'⟩ := right
  obtain ⟨sameParameters, sameReturns, sameTarget⟩ := rule
  obtain ⟨sameParameters', sameReturns', sameTarget'⟩ := rule'
  have first : parameters = parameters' :=
    List.map_injective_iff.mpr Ty.name_injective (sameParameters.trans sameParameters'.symm)
  have second : returns = returns' := by
    rcases sameReturns with written | ⟨unwritten, isNil⟩
    · rcases sameReturns' with written' | ⟨unwritten', -⟩
      · exact Ty.name_injective (Option.some.inj (written.symm.trans written'))
      · exact absurd (written.symm.trans unwritten') (by simp)
    · rcases sameReturns' with written' | ⟨-, isNil'⟩
      · exact absurd (unwritten.symm.trans written') (by simp)
      · exact Eq.trans isNil isNil'.symm
  rw [first, second, show target = target' from sameTarget.trans sameTarget'.symm]

namespace Typing

theorem resolveAll_eq_ok {offset : Option Nat} {names : List String} {types : List Ty} :
    resolveAll offset names = .ok types ↔ types.map Ty.name = names := by
  induction names generalizing types with
  | nil => simp [resolveAll, eq_comm]
  | cons name rest induction =>
      constructor
      · intro resolved
        obtain ⟨ty, first, others⟩ := bind_eq_ok.mp resolved
        obtain ⟨types', resolved', equal⟩ := bind_eq_ok.mp others
        cases equal
        rw [List.map_cons, resolve_eq_ok.mp first, induction.mp resolved']
      · intro named
        cases types with
        | nil => cases named
        | cons ty types =>
            obtain ⟨first, others⟩ := List.cons.inj named
            exact bind_eq_ok.mpr ⟨ty, resolve_eq_ok.mpr first,
              bind_eq_ok.mpr ⟨types, induction.mpr others, rfl⟩⟩

theorem resolveResult_eq_ok {offset : Option Nat} {written : Option String} {ty : Ty} :
    resolveResult offset written = .ok ty ↔
      written = some ty.name ∨ written = none ∧ ty = .nil := by
  cases written with
  | none => simp [resolveResult, eq_comm]
  | some name =>
      rw [resolveResult, resolve_eq_ok]
      simp [eq_comm]

theorem signatureOf_iff (isGlobal : environment.Global) {function : Function}
    {signature : Signature} :
    signatureOf environment function = .ok signature ↔
      SignatureRule function signature ∧
        (Context.of environment).FreeFunction function.name function.arity := by
  rw [Context.freeFunction_of isGlobal.alone]
  constructor
  · intro found
    obtain ⟨parameters, resolved, rest⟩ := bind_eq_ok.mp found
    obtain ⟨returns, resolvedResult, rest⟩ := bind_eq_ok.mp rest
    split at rest
    · cases rest
    next free =>
      cases rest
      exact ⟨⟨resolveAll_eq_ok.mp resolved, resolveResult_eq_ok.mp resolvedResult, rfl⟩,
        Bool.eq_false_iff.mpr free⟩
  · rintro ⟨⟨parameters, returns, target⟩, free⟩
    refine bind_eq_ok.mpr ⟨signature.parameters, resolveAll_eq_ok.mpr parameters,
      bind_eq_ok.mpr ⟨signature.returns, resolveResult_eq_ok.mpr returns, ?_⟩⟩
    rw [if_neg (Bool.eq_false_iff.mp free), ← target]

theorem declareParameters_iff (offset : Option Nat) (parameters : List (String × Ty)) :
    ∀ (environment : Environment) (context : Context),
    (∃ after, declareParameters offset environment parameters = .ok after ∧
        .of after = context) ↔
      ParametersRule (.of environment) parameters context := by
  induction parameters with
  | nil =>
      intro environment context
      constructor
      · rintro ⟨after, declared, rfl⟩
        cases declared
        exact .nil
      · intro rule
        cases rule
        exact ⟨environment, rfl, rfl⟩
  | cons parameter rest induction =>
      obtain ⟨name, ty⟩ := parameter
      intro environment context
      constructor
      · rintro ⟨after, declared, rfl⟩
        obtain ⟨extended, first, others⟩ := bind_eq_ok.mp declared
        obtain ⟨free, rfl⟩ := declare_iff.mp first
        have later := (induction _ _).mp ⟨after, others, rfl⟩
        rw [Context.of_defineVariable] at later
        exact .cons free later
      · intro rule
        cases rule with
        | cons free later =>
            rw [← Context.of_defineVariable] at later
            obtain ⟨after, others, same⟩ := (induction _ _).mpr later
            exact ⟨after, bind_eq_ok.mpr ⟨_, declare_iff.mpr ⟨free, rfl⟩, others⟩, same⟩

theorem settles_checkBody (balanced : environment.Balanced) (function : Function)
    (signature : Signature) :
    (checkBody environment { function with signature := some signature } signature).Settles
        annotated function () ↔
      Holds annotated function.signature signature ∧ ∃ inside,
        ParametersRule (Context.of environment).inner
          (function.parameters.zip signature.parameters) inside ∧
        BlockRule annotated signature.returns inside function.body := by
  obtain ⟨name, parameters, types, returns, body, offset, noted⟩ := function
  have declares := declareParameters_iff (some offset) (parameters.zip signature.parameters)
    environment.push
  rw [Context.of_push] at declares
  constructor
  · intro settled
    obtain ⟨extended, declared, passes, fixed⟩ := Checked.settles_extended.mp settled
    have inside := declareParameters_balanced balanced.push declared
    exact ⟨fun yes => (Function.mk.inj (fixed yes)).2.2.2.2.2.2.symm, .of extended,
      (declares _).mp ⟨extended, declared, rfl⟩,
      (Stmt.settles_checkBlock signature.returns inside body).mp
        ⟨passes, fun yes => (Function.mk.inj (fixed yes)).2.2.2.2.1⟩⟩
  · rintro ⟨holds, inside, parametersRule, block⟩
    have slot : annotated = true → noted = some signature := holds
    obtain ⟨extended, declared, rfl⟩ := (declares inside).mpr parametersRule
    have balancedInside := declareParameters_balanced balanced.push declared
    obtain ⟨passes, fixed⟩ :=
      (Stmt.settles_checkBlock signature.returns balancedInside body).mpr block
    refine Checked.settles_extended.mpr ⟨extended, declared, passes, fun yes => ?_⟩
    simp only [fixed yes, slot yes]

/-- Functions that are declared and whose bodies settle are derived. -/
theorem functionsRule_of_settles {functions : List Function}
    (balanced : ∀ function ∈ functions, function.Balanced) {last : Environment}
    (lastGlobal : last.Global) : ∀ {environment : Environment} {signatures : List Signature},
    environment.Global →
    (declareFunctions environment functions).verdict = .ok (last, signatures) →
    (checkBodies last (declareFunctions environment functions).tree signatures).Settles annotated
      functions () →
    FunctionsRule annotated (.of environment) functions (.of last) ∧
      ∀ function ∈ functions, BodyRule annotated (.of last) function := by
  induction functions with
  | nil =>
      intro environment signatures _ declared _
      cases declared
      exact ⟨.nil, by simp⟩
  | cons first rest induction =>
      intro environment signatures isGlobal declared settled
      obtain ⟨balancedFirst, balancedRest⟩ := List.forall_mem_cons.mp balanced
      simp only [declareFunctions] at declared settled
      cases found : signatureOf environment first with
      | error error =>
          rw [found] at declared
          cases declared
      | ok signature =>
          simp only [found] at declared settled
          obtain ⟨⟨_, others⟩, restDeclared, equal⟩ := map_eq_ok.mp declared
          cases equal
          obtain ⟨signatureRule, free⟩ := (signatureOf_iff isGlobal).mp found
          have fits := (signatureOf_eq_ok balancedFirst found).1
          obtain ⟨passes, restPasses, fixed⟩ := Checked.settles_step.mp settled
          obtain ⟨holds, inside, parameters, block⟩ :=
            (settles_checkBody lastGlobal.balanced first signature).mp
              ⟨passes, fun yes => (List.cons.inj (fixed yes)).1⟩
          obtain ⟨later, bodies⟩ := induction balancedRest (isGlobal.defineFunction _ fits)
            restDeclared ⟨restPasses, fun yes => (List.cons.inj (fixed yes)).2⟩
          rw [Context.of_defineFunction] at later
          exact ⟨.cons signatureRule free holds later, List.forall_mem_cons.mpr
            ⟨⟨signature, inside, signatureRule, parameters, block⟩, bodies⟩⟩

/-- Functions that are derived can be declared. -/
theorem declareFunctions_of_rule {functions : List Function}
    (balanced : ∀ function ∈ functions, function.Balanced) : ∀ {environment : Environment},
    environment.Global → FunctionsRule annotated (.of environment) functions context →
    ∃ last signatures, (declareFunctions environment functions).verdict = .ok (last, signatures) ∧
      last.Global ∧ .of last = context := by
  induction functions with
  | nil =>
      intro environment isGlobal rule
      cases rule
      exact ⟨environment, [], rfl, isGlobal, rfl⟩
  | cons first rest induction =>
      intro environment isGlobal rule
      obtain ⟨balancedFirst, balancedRest⟩ := List.forall_mem_cons.mp balanced
      cases rule with
      | @cons _ _ _ _ signature signatureRule free holds later =>
          have found := (signatureOf_iff isGlobal).mpr ⟨signatureRule, free⟩
          have fits := (signatureOf_eq_ok balancedFirst found).1
          rw [← Context.of_defineFunction] at later
          obtain ⟨last, signatures, declared, lastGlobal, same⟩ :=
            induction balancedRest (isGlobal.defineFunction _ fits) later
          refine ⟨last, signature :: signatures, ?_, lastGlobal, same⟩
          simp only [declareFunctions, found]
          exact map_eq_ok.mpr ⟨(last, signatures), declared, rfl⟩

/-- The bodies of functions that are derived settle. -/
theorem settles_of_functionsRule {functions : List Function}
    (balanced : ∀ function ∈ functions, function.Balanced) {last : Environment}
    (lastGlobal : last.Global)
    (bodies : ∀ function ∈ functions, BodyRule annotated (.of last) function) :
    ∀ {environment : Environment} {signatures : List Signature}, environment.Global →
    (declareFunctions environment functions).verdict = .ok (last, signatures) →
    FunctionsRule annotated (.of environment) functions context →
    (checkBodies last (declareFunctions environment functions).tree signatures).Settles annotated
      functions () := by
  induction functions with
  | nil =>
      intro environment signatures _ declared _
      cases declared
      exact ⟨rfl, fun _ => rfl⟩
  | cons first rest induction =>
      intro environment signatures isGlobal declared rule
      obtain ⟨balancedFirst, balancedRest⟩ := List.forall_mem_cons.mp balanced
      obtain ⟨body, bodiesRest⟩ := List.forall_mem_cons.mp bodies
      cases rule with
      | @cons _ _ _ _ signature signatureRule free holds later =>
          have found := (signatureOf_iff isGlobal).mpr ⟨signatureRule, free⟩
          have fits := (signatureOf_eq_ok balancedFirst found).1
          simp only [declareFunctions, found] at declared ⊢
          obtain ⟨⟨_, others⟩, restDeclared, equal⟩ := map_eq_ok.mp declared
          cases equal
          obtain ⟨signature', inside, signatureRule', parameters, block⟩ := body
          obtain rfl := signatureRule'.unique signatureRule
          obtain ⟨passes, fixed⟩ := (settles_checkBody lastGlobal.balanced first signature').mpr
            ⟨holds, inside, parameters, block⟩
          rw [← Context.of_defineFunction] at later
          obtain ⟨restPasses, restFixed⟩ := induction balancedRest bodiesRest
            (isGlobal.defineFunction _ fits) restDeclared later
          refine Checked.settles_step.mpr ⟨passes, restPasses, fun yes => ?_⟩
          simp only [fixed yes, restFixed yes]

end Typing

theorem Rules.GlobalsRule.functions_eq {globals : List Global} {after : Context}
    (rule : GlobalsRule annotated context globals after) : after.functions = context.functions := by
  induction rule with
  | nil => rfl
  | cons _ _ _ _ _ induction => exact induction

/-- Functions bind their own names and numbers of parameters and no others. -/
theorem Rules.FunctionsRule.isSome_findFunction? {functions : List Function} {after : Context}
    (rule : FunctionsRule annotated context functions after) (name : String) (arity : Nat) :
    (after.findFunction? name arity).isSome = true ↔
      (∃ function ∈ functions, function.name = name ∧ function.arity = arity) ∨
        (context.findFunction? name arity).isSome = true := by
  induction rule with
  | nil => simp
  | @cons context after function rest signature _ _ _ _ induction =>
      rw [induction, Context.findFunction?, Context.bindFunction, List.lookup_cons]
      by_cases here : (name, arity) = (function.name, function.arity)
      · obtain ⟨rfl, rfl⟩ := Prod.mk.inj here
        simp
      · have differs : ¬ (function.name = name ∧ function.arity = arity) :=
          fun same => here (by rw [same.1, same.2])
        rw [beq_false_of_ne here]
        simp [differs, Context.findFunction?]

/-- A function that a run can start with is among those of the program. -/
theorem requireMain_iff {globals : List Global} {functions : List Function}
    {between last : Typing.Environment}
    (globalsRule : GlobalsRule annotated .start globals (.of between))
    (functionsRule : FunctionsRule annotated (.of between) functions (.of last)) :
    requireMain last = .ok () ↔
      ∃ function ∈ functions, function.name = "main" ∧ function.arity = 0 := by
  have start : (Context.of between).findFunction? "main" 0 = none := by
    rw [Context.findFunction?, globalsRule.functions_eq]
    decide
  have known := functionsRule.isSome_findFunction? "main" 0
  rw [start, Context.findFunction?_of] at known
  unfold requireMain
  split <;> simp_all

/-- A check of a program settles it exactly if the rules derive it. -/
theorem Program.settles_check {program : Program}
    (balanced : ∀ function ∈ program.functions, function.Balanced) :
    program.check.Settles annotated program () ↔ WellTyped annotated program := by
  obtain ⟨globals, functions⟩ := program
  constructor
  · intro settled
    obtain ⟨between, globalsPass, passes, fixed⟩ := Checked.settles_extended.mp settled
    cases declared : (declareFunctions between functions).verdict with
    | error error =>
        simp only [declared] at passes
        cases passes
    | ok both =>
        obtain ⟨last, signatures⟩ := both
        simp only [declared] at passes fixed
        obtain ⟨_, bodiesPass, main⟩ := bind_eq_ok.mp passes
        obtain ⟨betweenGlobal, globalsRule⟩ := globalsRule_of_settles Typing.root_global
          ⟨globalsPass, fun yes => (Program.mk.inj (fixed yes)).1⟩
        obtain ⟨functionsRule, bodies⟩ := functionsRule_of_settles balanced
          (declareFunctions_global balanced betweenGlobal declared) betweenGlobal declared
          ⟨bodiesPass, fun yes => (Program.mk.inj (fixed yes)).2⟩
        exact ⟨.of between, .of last, globalsRule, functionsRule, bodies,
          (requireMain_iff globalsRule functionsRule).mp main⟩
  · rintro ⟨between, context, globalsRule, functionsRule, bodies, main⟩
    obtain ⟨between, ⟨globalsPass, globalsFixed⟩, betweenGlobal, rfl⟩ :=
      settles_of_globalsRule Typing.root_global globalsRule
    obtain ⟨last, signatures, declared, lastGlobal, rfl⟩ :=
      declareFunctions_of_rule balanced betweenGlobal functionsRule
    obtain ⟨bodiesPass, bodiesFixed⟩ :=
      settles_of_functionsRule balanced lastGlobal bodies betweenGlobal declared functionsRule
    simp only [Program.check, globalsPass, declared]
    refine ⟨bind_eq_ok.mpr ⟨(), bodiesPass, (requireMain_iff globalsRule functionsRule).mpr main⟩,
      fun yes => ?_⟩
    simp only [globalsFixed yes, bodiesFixed yes]

end Procedural
