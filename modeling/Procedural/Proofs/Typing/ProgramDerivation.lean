import Procedural.Proofs.Reader.FromText
import Procedural.Proofs.Typing.Annotation
import Procedural.Proofs.Typing.Derivation

/-!
# Accepted programs are typed

The environments of a program consist of the root frame alone.  The bodies of functions
are checked after all functions are declared, so they are typed in view of the root
that the whole program leaves.  Only global variables are given lists, which are numbered
in the order of the variables.
-/

namespace Procedural

open Grammar Typing

variable {discipline : Discipline} {environment : Typing.Environment}

/-- The root frame alone, with signatures that have one type for each argument. -/
structure Typing.Environment.Global (environment : Typing.Environment) : Prop where
  alone : environment.Alone
  balanced : environment.Balanced

theorem Typing.Environment.Global.defineVariable (isGlobal : environment.Global) (name : String)
    (variableType : VariableType) : Global (environment.defineVariable name variableType) :=
  ⟨isGlobal.alone.defineVariable name variableType,
    isGlobal.balanced.defineVariable name variableType⟩

theorem Typing.Environment.Global.defineFunction (isGlobal : environment.Global) (name : String)
    {arity : Nat} {signature : Signature} (fits : signature.parameters.length = arity) :
    Global (environment.defineFunction name arity signature) :=
  ⟨isGlobal.alone.defineFunction name arity signature,
    isGlobal.balanced.defineFunction name fits⟩

theorem Typing.root_global : Typing.root.Global := by
  have empty : Typing.Environment.Global Scope.empty := by
    refine ⟨rfl, ?_⟩
    intro name arity signature found
    cases found
  exact (empty.defineFunction "print" rfl).defineFunction "logarithm" rfl

/-- The element type of the list that a variable is given at first. -/
def Global.elementType? (global : Global) : Option Ty :=
  if Java.isListValue global.value then some (global.ty.getD .any) else none

/-- The element types of all lists, in the order in which the variables are given. -/
def Program.elementTypes (program : Program) : List Ty :=
  program.globals.filterMap Global.elementType?

section Globals

theorem Java.isListValue_bare (value : Option Expr) :
    isListValue (value.map Expr.bare) = isListValue value := by
  cases value with
  | none => rfl
  | some value => cases value <;> rfl

theorem Typing.isListValue_checked (environment : Typing.Environment) (ty : Ty) (value : Expr) :
    Java.isListValue (some ((noteElementType ty value).checkAgainst environment ty).tree) =
      Java.isListValue (some value) := by
  rw [← Java.isListValue_bare, Option.map_some, Expr.bare_checkAgainst, ← Option.map_some,
    Java.isListValue_bare]
  cases value <;> rfl

/-- If the value passes as the first value of a variable then it is typed as such. -/
def Expr.DerivesInitial (discipline : Discipline) (environment : Typing.Environment) (ty : Ty)
    (count : Nat) (value : Expr) : Prop :=
  ((noteElementType ty value).checkAgainst environment ty).verdict = .ok () →
    InitialTyping discipline environment ty count
      (some (discipline.select value ((noteElementType ty value).checkAgainst environment ty).tree))
      (count + (if Java.isListValue (some value) then some ty else none).toList.length)

theorem Expr.derivesInitial_list {ty : Ty} {count : Nat} {note : Note} {elements : List Expr}
    (lists : discipline.Lists count ty)
    (derive : ∀ expr ∈ elements, expr.Derives discipline environment) :
    (Expr.list note elements).DerivesInitial discipline environment ty count := by
  intro passes
  obtain ⟨found, verdict, required⟩ := Typing.bind_eq_ok.mp passes
  simp only [noteElementType, Expr.check, conclude_verdict] at verdict
  obtain ⟨_, elementsPass, rfl⟩ := Typing.map_eq_ok.mp verdict
  simp only [noteElementType, Expr.checkAgainst, Expr.check, verdict, conclude]
  rw [Discipline.select_apply₂]
  refine .list lists ?_ (Expr.checkElements_typing derive elementsPass)
  intro marked
  rw [Discipline.select, if_pos marked]
  rfl

theorem Grammar.Phrase.derivesInitial {levels : List Level} {tokens : List Token} {value : Expr}
    (phrase : Phrase levels tokens value) (balanced : environment.Balanced) (ty : Ty)
    (count : Nat) : value.DerivesInitial discipline environment ty count := by
  have noList : Java.isListValue (some value) = false ∧ noteElementType ty value = value := by
    cases value with
    | list => exact absurd phrase not_phrase_list
    | _ => exact ⟨rfl, rfl⟩
  rw [Expr.DerivesInitial, noList.1, noList.2]
  intro passes
  apply InitialTyping.value
  intro expr member
  obtain rfl := Option.some.inj member
  exact (phrase.derives balanced).expected passes

theorem Grammar.IsGlobal.derivesInitial {tokens : List Token} {global : Global}
    (derived : IsGlobal tokens global) (balanced : environment.Balanced) {ty : Ty} {count : Nat}
    (lists : Java.isListValue global.value = true → discipline.Lists count ty) :
    ∀ value ∈ global.value, value.DerivesInitial discipline environment ty count := by
  intro value member
  cases derived with
  | list _ _ _ _ items _ _ _ =>
      obtain rfl := Option.some.inj member
      obtain ⟨parts, phrases, _, rfl⟩ := items
      apply Expr.derivesInitial_list (lists rfl)
      intro expr inside
      obtain ⟨part, memberPart, rfl⟩ := List.mem_map.mp inside
      exact (phrases part memberPart).derives balanced
  | «mutable» _ _ introduced _ =>
      cases introduced with
      | none => cases member
      | some _ isValue =>
          obtain rfl := Option.some.inj member
          exact isValue.derivesInitial balanced ty count
  | immutable _ _ _ isValue _ =>
      obtain rfl := Option.some.inj member
      exact isValue.derivesInitial balanced ty count

theorem Discipline.select_global (discipline : Discipline) (global : Global) (value : Option Expr)
    (ty : Option Ty) :
    discipline.select global { global with value, ty } =
      { global with value := discipline.select global.value value,
                    ty := discipline.select global.ty ty } := by
  unfold Discipline.select
  split <;> rfl

theorem GlobalsTyping.cons_select {global : Global} {value : Option Expr} {ty : Ty}
    {count count' : Nat} {extended after : Typing.Environment} {rest : List Global}
    (typing : InitialTyping discipline environment ty count (discipline.select global.value value)
      count')
    (declared : declare environment global.name (some global.offset) ⟨ty, global.mutable⟩ =
      .ok extended) (later : GlobalsTyping discipline count' extended rest after) :
    GlobalsTyping discipline count environment
      (discipline.select global { global with value, ty := some ty } :: rest) after := by
  obtain ⟨fresh, rfl⟩ := declare_eq_ok.mp declared
  rw [Discipline.select_global]
  have same : discipline.Same ty ((discipline.select global.ty (some ty)).getD .any) := by
    intro marked
    simp [Discipline.select, marked]
  obtain ⟨name, typeName, changes, given, offset, written⟩ := global
  exact .cons typing same fresh later

theorem Typing.checkGlobal_typing {tokens : List Token} {global : Global} {count : Nat}
    {extended : Typing.Environment} (derived : IsGlobal tokens global)
    (isGlobal : environment.Global)
    (lists : ∀ ty ∈ (checkGlobal environment global).tree.elementType?, discipline.Lists count ty)
    (passes : (checkGlobal environment global).verdict = .ok extended) :
    extended.Global ∧ ∀ rest after,
      GlobalsTyping discipline
        (count + (checkGlobal environment global).tree.elementType?.toList.length) extended rest
        after →
      GlobalsTyping discipline count environment
        (discipline.select global (checkGlobal environment global).tree :: rest) after := by
  simp only [checkGlobal] at passes lists ⊢
  cases resolved : resolve global.typeName (some global.offset) with
  | error error =>
      rw [resolved] at passes
      cases passes
  | ok ty =>
      simp only [resolved] at passes lists ⊢
      cases declared : declare environment global.name (some global.offset)
          ⟨ty, global.mutable⟩ with
      | error error =>
          rw [declared] at passes
          cases passes
      | ok environment' =>
          simp only [declared] at passes lists ⊢
          have extends' : environment'.Global := by
            obtain ⟨-, rfl⟩ := declare_eq_ok.mp declared
            exact isGlobal.defineVariable _ _
          cases given : global.value with
          | none =>
              simp only [given] at passes ⊢
              cases passes
              refine ⟨extends', fun rest after later => ?_⟩
              obtain ⟨name, typeName, changes, value, offset, written⟩ := global
              obtain rfl := given
              apply GlobalsTyping.cons_select (.value _) declared later
              rw [Discipline.select_self]
              intro expr member
              cases member
          | some value =>
              simp only [given] at passes lists ⊢
              cases verdict : ((noteElementType ty value).checkAgainst environment ty).verdict with
              | error error =>
                  rw [verdict] at passes
                  cases passes
              | ok _ =>
                  simp only [verdict, Global.elementType?, isListValue_checked, Option.getD_some]
                    at passes lists ⊢
                  cases passes
                  refine ⟨extends', fun rest after later => ?_⟩
                  apply GlobalsTyping.cons_select _ declared later
                  rw [given, Discipline.select_apply]
                  apply derived.derivesInitial isGlobal.balanced _ value given verdict
                  intro isList
                  rw [given] at isList
                  exact lists ty (if_pos isList)

/-- The later lists are numbered on from the first one, if there is one. -/
theorem Discipline.lists_of_append {count : Nat} {first : Option Ty} {rest : List Ty}
    (lists : ∀ index ty, (first.toList ++ rest)[index]? = some ty →
      discipline.Lists (count + index) ty) :
    (∀ ty ∈ first, discipline.Lists count ty) ∧
      ∀ index ty, rest[index]? = some ty →
        discipline.Lists (count + first.toList.length + index) ty := by
  constructor
  · rintro ty rfl
    exact lists 0 ty rfl
  · intro index ty found
    rw [Nat.add_assoc]
    apply lists
    rw [List.getElem?_append_right (Nat.le_add_right _ _), Nat.add_sub_cancel_left]
    exact found

theorem Global.filterMap_elementType? (first : Global) (rest : List Global) :
    (first :: rest).filterMap elementType? =
      first.elementType?.toList ++ rest.filterMap elementType? := by
  rw [List.filterMap_cons]
  cases first.elementType? <;> rfl

theorem Typing.checkGlobals_typing {globals : List Global} {count : Nat}
    {after : Typing.Environment}
    (derived : ∀ global ∈ globals, ∃ tokens, IsGlobal tokens global)
    (lists : ∀ index ty, ((checkGlobals environment globals).tree.filterMap
      Global.elementType?)[index]? = some ty → discipline.Lists (count + index) ty)
    (isGlobal : environment.Global)
    (passes : (checkGlobals environment globals).verdict = .ok after) :
    after.Global ∧ GlobalsTyping discipline count environment
      (discipline.select globals (checkGlobals environment globals).tree) after := by
  induction globals generalizing environment count with
  | nil =>
      simp only [checkGlobals] at passes ⊢
      cases passes
      rw [Discipline.select_self]
      exact ⟨isGlobal, .nil⟩
  | cons first rest induction =>
      obtain ⟨⟨tokens, derivedFirst⟩, derivedRest⟩ := List.forall_mem_cons.mp derived
      simp only [checkGlobals] at passes lists ⊢
      cases verdict : (checkGlobal environment first).verdict with
      | error error =>
          rw [verdict] at passes
          cases passes
      | ok extended =>
          simp only [verdict, Global.filterMap_elementType?] at passes lists ⊢
          rw [Discipline.select_apply₂]
          obtain ⟨listsFirst, listsRest⟩ := Discipline.lists_of_append lists
          obtain ⟨extends', firstTyping⟩ :=
            checkGlobal_typing derivedFirst isGlobal listsFirst verdict
          obtain ⟨afterGlobal, later⟩ := induction derivedRest listsRest extends' passes
          exact ⟨afterGlobal, firstTyping _ _ later⟩

end Globals

section Functions

theorem Typing.resolveAll_length {offset : Option Nat} {names : List String} {types : List Ty}
    (resolved : resolveAll offset names = .ok types) : types.length = names.length := by
  induction names generalizing types with
  | nil =>
      cases resolved
      rfl
  | cons name rest induction =>
      obtain ⟨ty, _, others⟩ := Typing.bind_eq_ok.mp resolved
      obtain ⟨types', resolved', equal⟩ := Typing.bind_eq_ok.mp others
      cases equal
      rw [List.length_cons, List.length_cons, induction resolved']

/-- There is one type for each parameter. -/
def Function.Balanced (function : Function) : Prop :=
  function.parameterTypes.length = function.arity

theorem Grammar.IsFunction.balanced {tokens : List Token} {function : Function}
    (derived : IsFunction tokens function) : function.Balanced := by
  cases derived with
  | mk => simp [Function.Balanced, Function.arity]

theorem Typing.signatureOf_eq_ok {function : Function} {signature : Signature}
    (balanced : function.Balanced) (found : signatureOf environment function = .ok signature) :
    signature.parameters.length = function.arity ∧
      environment.definesFunction function.name function.arity = false := by
  obtain ⟨parameters, resolved, rest⟩ := Typing.bind_eq_ok.mp found
  obtain ⟨returns, _, rest⟩ := Typing.bind_eq_ok.mp rest
  by_cases taken : environment.definesFunction function.name function.arity = true
  · rw [if_pos taken] at rest
    cases rest
  · rw [if_neg taken] at rest
    cases rest
    exact ⟨(resolveAll_length resolved).trans balanced, by simpa using taken⟩

theorem Typing.declareFunctions_global {functions : List Function} {after : Typing.Environment}
    {signatures : List Signature} (balanced : ∀ function ∈ functions, function.Balanced)
    (isGlobal : environment.Global)
    (passes : (declareFunctions environment functions).verdict = .ok (after, signatures)) :
    after.Global := by
  induction functions generalizing environment signatures with
  | nil =>
      cases passes
      exact isGlobal
  | cons first rest induction =>
      obtain ⟨balancedFirst, balancedRest⟩ := List.forall_mem_cons.mp balanced
      simp only [declareFunctions] at passes
      cases found : signatureOf environment first with
      | error error =>
          rw [found] at passes
          cases passes
      | ok signature =>
          simp only [found] at passes
          obtain ⟨⟨last, others⟩, restPasses, equal⟩ := Typing.map_eq_ok.mp passes
          cases equal
          have fits := (signatureOf_eq_ok balancedFirst found).1
          exact induction balancedRest (isGlobal.defineFunction _ fits) restPasses

theorem Typing.declareParameters_balanced {offset : Option Nat} {extended : Typing.Environment}
    {parameters : List (String × Ty)} (balanced : environment.Balanced)
    (declared : declareParameters offset environment parameters = .ok extended) :
    extended.Balanced := by
  induction parameters generalizing environment with
  | nil =>
      cases declared
      exact balanced
  | cons parameter rest induction =>
      obtain ⟨middle, first, later⟩ := Typing.bind_eq_ok.mp declared
      obtain ⟨-, rfl⟩ := declare_eq_ok.mp first
      exact induction (balanced.defineVariable _ _) later

theorem Discipline.select_function (discipline : Discipline) (function : Function)
    (signature : Option Signature) (body : List Stmt) :
    discipline.select function { function with signature, body } =
      { function with signature := discipline.select function.signature signature,
                      body := discipline.select function.body body } := by
  unfold Discipline.select
  split <;> rfl

theorem Grammar.IsFunction.block {tokens : List Token} {function : Function}
    (derived : IsFunction tokens function) :
    ∃ tokens, IsBlock Reader.blockClosers tokens function.body := by
  cases derived with
  | mk _ _ _ _ _ _ _ _ isBody _ => exact ⟨_, isBody⟩

theorem Typing.checkBody_typing {tokens : List Token} {function : Function} {signature : Signature}
    {last after : Typing.Environment} {rest : List Function}
    (derived : IsFunction tokens function) (isGlobal : last.Global)
    (fits : signature.parameters.length = function.arity)
    (passes : (checkBody last { function with signature := some signature } signature).verdict =
      .ok ())
    (fresh : environment.definesFunction function.name function.arity = false)
    (later : FunctionsTyping discipline last.root
      (environment.defineFunction function.name function.arity signature) rest after) :
    FunctionsTyping discipline last.root environment
      (discipline.select function
        (checkBody last { function with signature := some signature } signature).tree :: rest)
      after := by
  have alone : last = ⟨[], last.root⟩ := isGlobal.alone.eq
  simp only [checkBody] at passes ⊢
  cases declared : declareParameters (some function.offset) last.push
      (function.parameters.zip signature.parameters) with
  | error error =>
      rw [declared] at passes
      cases passes
  | ok extended =>
      simp only [declared] at passes ⊢
      obtain ⟨_, isBody⟩ := derived.block
      have balanced := declareParameters_balanced isGlobal.balanced.push declared
      have body : BlockTyping discipline signature.returns extended (discipline.select function.body
          (Stmt.checkBlock signature.returns extended function.body).tree) :=
        isBody.typing balanced passes
      rw [Discipline.select_function]
      obtain ⟨name, parameters, types, returns, stmts, offset, given⟩ := function
      refine .cons ⟨fits, ?_, extended, ?_, body⟩ fresh later
      · intro marked
        simp [Discipline.select, marked]
      · rw [← alone]
        exact declared

theorem Typing.checkFunctions_typing {functions : List Function} {after : Typing.Environment}
    {signatures : List Signature}
    (derived : ∀ function ∈ functions, ∃ tokens, IsFunction tokens function)
    (isGlobal : after.Global)
    (passes : (declareFunctions environment functions).verdict = .ok (after, signatures))
    (bodiesPass : (checkBodies after (declareFunctions environment functions).tree
      signatures).verdict = .ok ()) :
    FunctionsTyping discipline after.root environment
      (discipline.select functions
        (checkBodies after (declareFunctions environment functions).tree signatures).tree)
      after := by
  induction functions generalizing environment signatures with
  | nil =>
      cases passes
      simp only [declareFunctions, checkBodies]
      rw [Discipline.select_self]
      exact .nil
  | cons first rest induction =>
      obtain ⟨⟨tokens, derivedFirst⟩, derivedRest⟩ := List.forall_mem_cons.mp derived
      simp only [declareFunctions] at passes bodiesPass ⊢
      cases found : signatureOf environment first with
      | error error =>
          rw [found] at passes
          cases passes
      | ok signature =>
          simp only [found] at passes bodiesPass ⊢
          obtain ⟨⟨last, others⟩, restPasses, equal⟩ := Typing.map_eq_ok.mp passes
          cases equal
          obtain ⟨fits, fresh⟩ := signatureOf_eq_ok derivedFirst.balanced found
          simp only [checkBodies] at bodiesPass ⊢
          cases verdict : (checkBody last { first with signature := some signature }
              signature).verdict with
          | error error =>
              rw [verdict] at bodiesPass
              cases bodiesPass
          | ok _ =>
              simp only [verdict] at bodiesPass ⊢
              rw [Discipline.select_apply₂]
              exact checkBody_typing derivedFirst isGlobal fits verdict fresh
                (induction derivedRest restPasses bodiesPass)

end Functions

theorem Program.elementTypes_check (program : Program) :
    program.check.tree.elementTypes =
      (checkGlobals Typing.root program.globals).tree.filterMap Global.elementType? := by
  unfold Program.check Program.elementTypes
  dsimp only
  split
  · rfl
  · split <;> rfl

theorem Program.elementTypes_check_eq_nil {program : Program}
    (noLists : ∀ global ∈ program.globals, Java.isListValue global.value = false) :
    program.check.tree.elementTypes = [] := by
  apply List.filterMap_eq_nil_iff.mpr
  intro global member
  have sameGlobals := congrArg Program.globals (Program.bare_check program)
  have member' : global.bare ∈ program.bare.globals := by
    rw [← sameGlobals]
    exact List.mem_map_of_mem member
  obtain ⟨given, memberGiven, same⟩ := List.mem_map.mp member'
  have sameValue : given.value.map Expr.bare = global.value.map Expr.bare :=
    congrArg Global.value same
  have noList : Java.isListValue global.value = false := by
    rw [← Java.isListValue_bare, ← sameValue, Java.isListValue_bare]
    exact noLists given memberGiven
  rw [Global.elementType?, noList]
  rfl

/-- What is read from a text and accepted is typed, with and without the notes of the check. -/
theorem Program.typing_of_ofText {text : String} {program : Program} (discipline : Discipline)
    (read : Program.ofText text = .ok program) (passes : program.check.verdict = .ok ())
    (lists : ∀ index ty, program.check.tree.elementTypes[index]? = some ty →
      discipline.Lists index ty) :
    ∃ between after, ProgramTyping discipline (discipline.select program program.check.tree)
      between after := by
  obtain ⟨tokens, derived, -⟩ := Program.isProgram_of_ofText read
  rw [Program.elementTypes_check] at lists
  obtain ⟨globals, functions⟩ := program
  simp only [Program.check] at passes ⊢
  cases verdict : (checkGlobals Typing.root globals).verdict with
  | error error =>
      rw [verdict] at passes
      cases passes
  | ok between =>
      obtain ⟨isGlobal, globalsTyping⟩ :=
        checkGlobals_typing derived.forall_global
          (fun index ty found => Nat.zero_add index ▸ lists index ty found) Typing.root_global
          verdict
      simp only [verdict] at passes ⊢
      cases declared : (declareFunctions between functions).verdict with
      | error error =>
          rw [declared] at passes
          cases passes
      | ok both =>
          obtain ⟨after, signatures⟩ := both
          simp only [declared] at passes ⊢
          obtain ⟨_, bodiesPass, mainFound⟩ := Typing.bind_eq_ok.mp passes
          have balanced : ∀ function ∈ functions, function.Balanced := by
            intro function member
            obtain ⟨_, isFunction⟩ := derived.forall_function function member
            exact isFunction.balanced
          have afterGlobal := declareFunctions_global balanced isGlobal declared
          refine ⟨between, after, ?_⟩
          rw [Discipline.select_apply₂]
          refine ⟨globalsTyping, ?_, ?_⟩
          · exact checkFunctions_typing derived.forall_function afterGlobal declared bodiesPass
          · unfold requireMain at mainFound
            split at mainFound
            · assumption
            · cases mainFound

end Procedural
