import Procedural.Proofs.Typing.Annotation
import Procedural.Proofs.Typing.Judgement

/-!
# Checking twice

A second check of what a first one returned gives the same verdict and the same tree, after
a success as after a failure.  The only slot that checking reads is the type of a list
literal, and what it writes there is what it has read.
-/

namespace Procedural

open Typing

namespace Expr

variable (environment : Typing.Environment) (expr : Expr)

@[simp] theorem offset_check : (expr.check environment).tree.offset = expr.offset := by
  rw [← offset_bare, bare_check, offset_bare]

@[simp] theorem isBinary_check : (expr.check environment).tree.isBinary = expr.isBinary := by
  rw [← isBinary_bare, bare_check, isBinary_bare]

@[simp] theorem target?_check : (expr.check environment).tree.target? = expr.target? := by
  rw [← target?_bare, bare_check, target?_bare]

@[simp] theorem offset_checkAgainst (expected : Ty) :
    (expr.checkAgainst environment expected).tree.offset = expr.offset :=
  offset_check environment expr

@[simp] theorem length_checkArguments (types : List Ty) (items : List Expr) :
    (checkArguments environment types items).tree.length = items.length := by
  rw [← length_bareItems, bareItems_checkArguments, length_bareItems]

end Expr

namespace Typing

/-- A node is concluded as before if its parts are checked as before; the note that it got may
matter to that. -/
theorem conclude_again {check : Expr → Checked Expr Ty} {rebuild : Note → Expr} {note : Note}
    {function : Option Signature} {verdict : Except TypingError Ty}
    (here : check (rebuild note) = conclude rebuild note function verdict)
    (noted : ∀ ty, verdict = .ok ty →
      check (rebuild { note with ty := some ty, function }) =
        conclude rebuild { note with ty := some ty, function } function verdict) :
    check (conclude rebuild note function verdict).tree =
      conclude rebuild note function verdict := by
  cases verdict with
  | ok ty => exact noted ty rfl
  | error error => exact here

/-- A node is concluded as before if its parts are checked as before, whatever its slots. -/
theorem conclude_again_of_parts {check : Expr → Checked Expr Ty} {rebuild : Note → Expr}
    {note : Note} {function : Option Signature} {verdict : Except TypingError Ty}
    (parts : ∀ slot slot', check (rebuild ⟨note.offset, slot, slot'⟩) =
      conclude rebuild ⟨note.offset, slot, slot'⟩ function verdict) :
    check (conclude rebuild note function verdict).tree =
      conclude rebuild note function verdict :=
  conclude_again (parts note.ty note.function) fun _ _ => parts _ _

end Typing

namespace Expr

mutual

theorem check_again (environment : Typing.Environment) : ∀ expr : Expr,
    (expr.check environment).tree.check environment = expr.check environment
  | .literal note value => by
      simp only [check]
      exact conclude_again_of_parts fun _ _ => by rw [check]
  | .group note inner => by
      have again := check_again environment inner
      simp only [check]
      split
      · next binary =>
          refine conclude_again_of_parts fun _ _ => ?_
          simp only [check, isBinary_check, again, if_pos binary]
      · next other => simp only [check, if_neg other]
  | .binary note op left right => by
      have first := check_again environment left
      have second := check_again environment right
      simp only [check]
      split
      · next error failed => simp only [check, first, failed]
      · next leftType passed =>
          refine conclude_again_of_parts fun _ _ => ?_
          simp only [check, first, second, passed]
  | .access note name => by
      simp only [check]
      split
      · next missing => simp only [check, missing]
      · next found present =>
          refine conclude_again_of_parts fun _ _ => ?_
          simp only [check, present]
  | .element note name index => by
      have again := check_again environment index
      simp only [check]
      split
      · next missing => simp only [check, missing]
      · next found present =>
          refine conclude_again_of_parts fun _ _ => ?_
          simp only [check, present, again, offset_check]
  | .call note name arguments => by
      simp only [check]
      split
      · next missing => simp only [check, missing]
      · next signature present =>
          have again := checkArguments_again environment signature.parameters arguments
          refine conclude_again_of_parts fun _ _ => ?_
          simp only [check, length_checkArguments, present, again]
  | .list note elements => by
      have again := checkElements_again environment (note.ty.getD .any) elements
      simp only [check]
      apply conclude_again
      · simp only [check, again]
      · intro ty passed
        -- The type that the second check reads off the list is the one of the first.
        obtain ⟨_, _, rfl⟩ := map_eq_ok.mp passed
        simp only [check, Option.getD_some, again]

theorem checkArguments_again (environment : Typing.Environment) :
    ∀ (types : List Ty) (items : List Expr),
      checkArguments environment types (checkArguments environment types items).tree =
        checkArguments environment types items
  | ty :: types, item :: rest => by
      have first := check_again environment item
      have others := checkArguments_again environment types rest
      simp only [checkArguments]
      split
      · next error failed => simp only [checkArguments, first, offset_check, failed]
      · next passed => simp only [checkArguments, first, offset_check, passed, others]
  | [], items => by
      cases items <;> rfl
  | _ :: _, [] => rfl

theorem checkElements_again (environment : Typing.Environment) (ty : Ty) : ∀ items : List Expr,
    checkElements environment ty (checkElements environment ty items).tree =
      checkElements environment ty items
  | [] => rfl
  | item :: rest => by
      have first := check_again environment item
      have others := checkElements_again environment ty rest
      simp only [checkElements]
      split
      · next error failed => simp only [checkElements, first, offset_check, failed]
      · next passed => simp only [checkElements, first, offset_check, passed, others]

end

theorem checkAgainst_again (environment : Typing.Environment) (expected : Ty) (expr : Expr) :
    (expr.checkAgainst environment expected).tree.checkAgainst environment expected =
      expr.checkAgainst environment expected := by
  simp only [checkAgainst, check_again, offset_check]

end Expr

namespace Typing

variable (environment : Environment) {returns : Ty}

theorem checkUntyped_again (name : String) (value : Option Expr) :
    (checkUntyped environment name value).tree.check returns environment =
      checkUntyped environment name value := by
  cases value with
  | none => rfl
  | some value => simp only [checkUntyped, Stmt.check, Expr.check_again, Expr.offset_check]

theorem checkTyped_again (name typeName : String) (value : Option Expr) :
    (checkTyped environment name typeName value).tree.check returns environment =
      checkTyped environment name typeName value := by
  simp only [checkTyped]
  cases resolved : resolve typeName (value.map Expr.offset) with
  | error error => simp only [Stmt.check, checkTyped, resolved]
  | ok ty =>
      cases value with
      | none => simp only [Stmt.check, checkTyped, resolved]
      | some value =>
          simp only [Option.map_some] at resolved
          simp only [Stmt.check, checkTyped, Option.map_some, Expr.offset_checkAgainst, resolved,
            Expr.checkAgainst_again]

theorem checkAssignment_again (receiver value : Expr) :
    (checkAssignment environment receiver value).tree.check returns environment =
      checkAssignment environment receiver value := by
  simp only [checkAssignment]
  split
  · next other => simp only [Stmt.check, checkAssignment, other]
  · next name target =>
      split
      · next error failed =>
          simp only [Stmt.check, checkAssignment, Expr.target?_check, target, Expr.check_again,
            failed]
      · next ty passed =>
          split
          · next immutable =>
              simp only [Stmt.check, checkAssignment, Expr.target?_check, target,
                Expr.check_again, passed, if_pos immutable, Expr.offset_check]
          · next changes =>
              simp only [Stmt.check, checkAssignment, Expr.target?_check, target,
                Expr.check_again, passed, if_neg changes, Expr.checkAgainst_again]

end Typing

theorem Stmt.isEmpty_checkBlock (returns : Ty) (environment : Typing.Environment)
    (stmts : List Stmt) :
    (Stmt.checkBlock returns environment stmts).tree.isEmpty = stmts.isEmpty := by
  rw [← isEmpty_bareBlock, bareBlock_checkBlock, isEmpty_bareBlock]

/-- From a case and those after it a check returns at least one case. -/
theorem Case.exists_checkAll_cons (returns : Ty) (environment : Typing.Environment) (ty : Ty)
    (offset : Nat) (case : Case) (rest : List Case) : ∃ first others,
    (Case.checkAll returns environment ty offset (case :: rest)).tree = first :: others := by
  cases rest with
  | nil => exact ⟨_, _, rfl⟩
  | cons next rest =>
      simp only [Case.checkAll]
      split
      · exact ⟨_, _, rfl⟩
      · exact ⟨_, _, rfl⟩

mutual

theorem Stmt.check_again (returns : Ty) (environment : Typing.Environment) : ∀ stmt : Stmt,
    (stmt.check returns environment).tree.check returns environment =
      stmt.check returns environment
  | .expression value => by simp only [Stmt.check, Expr.check_again]
  | .declaration name none value => checkUntyped_again environment name value
  | .declaration name (some typeName) value => checkTyped_again environment name typeName value
  | .assignment receiver value => checkAssignment_again environment receiver value
  | .branch condition thenBlock elseBlock => by
      have thens := Stmt.checkBlock_again returns environment.push thenBlock
      have elses := Stmt.checkBlock_again returns environment.push elseBlock
      simp only [Stmt.check]
      split
      · next error failed => simp only [Stmt.check, Expr.checkAgainst_again, failed]
      · next passed =>
          split
          · next empty =>
              simp only [Stmt.check, Expr.checkAgainst_again, passed, if_pos empty,
                Expr.offset_checkAgainst]
          · next inhabited =>
              split
              · next error failed =>
                  simp only [Stmt.check, Expr.checkAgainst_again, passed,
                    Stmt.isEmpty_checkBlock, if_neg inhabited, thens, failed]
              · next chosen =>
                  simp only [Stmt.check, Expr.checkAgainst_again, passed,
                    Stmt.isEmpty_checkBlock, if_neg inhabited, thens, chosen, elses]
  | .switch condition cases => by
      simp only [Stmt.check]
      split
      · next error failed => simp only [Stmt.check, Expr.check_again, failed]
      · next ty passed =>
          simp only [Stmt.check, Expr.check_again, passed, Expr.offset_check,
            Case.checkAll_again returns environment ty condition.offset cases]
  | .loop condition body => by
      simp only [Stmt.check]
      split
      · next error failed => simp only [Stmt.check, Expr.checkAgainst_again, failed]
      · next passed =>
          simp only [Stmt.check, Expr.checkAgainst_again, passed,
            Stmt.checkBlock_again returns environment.push body]
  | .result value => by simp only [Stmt.check, Expr.checkAgainst_again]

theorem Stmt.checkBlock_again (returns : Ty) (environment : Typing.Environment) :
    ∀ stmts : List Stmt,
      Stmt.checkBlock returns environment (Stmt.checkBlock returns environment stmts).tree =
        Stmt.checkBlock returns environment stmts
  | [] => rfl
  | stmt :: rest => by
      have first := Stmt.check_again returns environment stmt
      simp only [Stmt.checkBlock]
      split
      · next error failed => simp only [Stmt.checkBlock, first, failed]
      · next extended passed =>
          simp only [Stmt.checkBlock, first, passed, Stmt.checkBlock_again returns extended rest]

theorem Case.checkValued_again (returns : Ty) (environment : Typing.Environment) (ty : Ty)
    (offset : Nat) : ∀ case : Case,
    (case.checkValued returns environment ty offset).tree.checkValued returns environment ty
      offset = case.checkValued returns environment ty offset
  | .mk none body => rfl
  | .mk (some value) body => by
      simp only [Case.checkValued]
      split
      · next error failed => simp only [Case.checkValued, Expr.checkAgainst_again, failed]
      · next passed =>
          simp only [Case.checkValued, Expr.checkAgainst_again, passed,
            Stmt.checkBlock_again returns environment.push body]

theorem Case.checkDefault_again (returns : Ty) (environment : Typing.Environment) : ∀ case : Case,
    (case.checkDefault returns environment).tree.checkDefault returns environment =
      case.checkDefault returns environment
  | .mk none body => by
      simp only [Case.checkDefault, Stmt.checkBlock_again returns environment.push body]
  | .mk (some value) body => rfl

theorem Case.checkAll_again (returns : Ty) (environment : Typing.Environment) (ty : Ty)
    (offset : Nat) : ∀ cases : List Case,
    Case.checkAll returns environment ty offset
        (Case.checkAll returns environment ty offset cases).tree =
      Case.checkAll returns environment ty offset cases
  | [] => rfl
  | [case] => by
      simp only [Case.checkAll, Case.checkDefault_again returns environment case]
  | case :: next :: rest => by
      have first := Case.checkValued_again returns environment ty offset case
      have others := Case.checkAll_again returns environment ty offset (next :: rest)
      obtain ⟨next', rest', shape⟩ :=
        Case.exists_checkAll_cons returns environment ty offset next rest
      rw [shape] at others
      simp only [Case.checkAll]
      split
      · next error failed => simp only [Case.checkAll, first, failed]
      · next passed => simp only [shape, Case.checkAll, first, passed, others]

end

namespace Typing

/-- Only list literals get an element type. -/
theorem noteElementType_of_bare {expr other : Expr} (ty : Ty) (same : other.bare = expr.bare)
    (different : ∀ note elements, expr ≠ .list note elements) :
    noteElementType ty other = other := by
  cases other with
  | list note elements =>
      cases expr with
      | list note' elements' => exact absurd rfl (different note' elements')
      | _ => cases same
  | _ => rfl

/-- The element type that a literal got is still there after the check. -/
theorem noteElementType_check (environment : Environment) (ty : Ty) (expr : Expr) :
    noteElementType ty ((noteElementType ty expr).check environment).tree =
      ((noteElementType ty expr).check environment).tree := by
  cases expr with
  | list note elements =>
      simp only [noteElementType, Expr.check, Option.getD_some]
      cases (Expr.checkElements environment ty elements).verdict <;> rfl
  | _ =>
      apply noteElementType_of_bare ty (Expr.bare_check environment _)
      intro note elements
      exact Expr.noConfusion

theorem checkGlobal_again (environment : Environment) (global : Global) :
    checkGlobal environment (checkGlobal environment global).tree =
      checkGlobal environment global := by
  cases resolved : resolve global.typeName (some global.offset) with
  | error error => simp only [checkGlobal, resolved]
  | ok ty =>
      cases declared : declare environment global.name (some global.offset)
          ⟨ty, global.mutable⟩ with
      | error error => simp only [checkGlobal, resolved, declared]
      | ok extended =>
          cases given : global.value with
          | none => simp only [checkGlobal, resolved, declared, given]
          | some value =>
              have noted : noteElementType ty
                  ((noteElementType ty value).checkAgainst environment ty).tree =
                    ((noteElementType ty value).checkAgainst environment ty).tree :=
                noteElementType_check environment ty value
              have again := Expr.checkAgainst_again environment ty (noteElementType ty value)
              cases verdict : ((noteElementType ty value).checkAgainst environment ty).verdict with
              | error error =>
                  simp only [checkGlobal, resolved, declared, given, verdict, noted, again]
              | ok _ => simp only [checkGlobal, resolved, declared, given, verdict, noted, again]

theorem checkGlobals_again (globals : List Global) : ∀ environment : Environment,
    checkGlobals environment (checkGlobals environment globals).tree =
      checkGlobals environment globals := by
  induction globals with
  | nil => exact fun _ => rfl
  | cons global rest induction =>
      intro environment
      simp only [checkGlobals]
      split
      · next error failed => simp only [checkGlobals, checkGlobal_again, failed]
      · next extended passed => simp only [checkGlobals, checkGlobal_again, passed, induction]

/-- A function that has its signature noted is declared without a change of the tree. -/
theorem declareFunctions_noted (environment : Environment) (function : Function)
    {signature : Signature} {rest : List Function}
    {others : Checked (List Function) (Environment × List Signature)}
    (noted : function.signature = some signature)
    (found : signatureOf environment function = .ok signature)
    (later : declareFunctions (environment.defineFunction function.name function.arity signature)
      rest = others) :
    declareFunctions environment (function :: rest) =
      ⟨function :: others.tree, others.verdict.map fun (environment, signatures) =>
        (environment, signature :: signatures)⟩ := by
  obtain ⟨name, parameters, parameterTypes, returnType, body, offset, given⟩ := function
  obtain rfl : given = some signature := noted
  rw [declareFunctions, found, ← later]

theorem declareFunctions_again (functions : List Function) : ∀ environment : Environment,
    declareFunctions environment (declareFunctions environment functions).tree =
      declareFunctions environment functions := by
  induction functions with
  | nil => exact fun _ => rfl
  | cons function rest induction =>
      intro environment
      simp only [declareFunctions]
      split
      · next error failed => simp only [declareFunctions, failed]
      · next signature found =>
          exact declareFunctions_noted environment { function with signature := some signature }
            rfl found (induction _)

theorem declareFunctions_outcome {environment : Environment} {functions : List Function}
    {outcome : Except TypingError (Environment × List Signature)}
    (declared : (declareFunctions environment functions).verdict = outcome) :
    declareFunctions environment (declareFunctions environment functions).tree =
      ⟨(declareFunctions environment functions).tree, outcome⟩ := by
  rw [declareFunctions_again, ← declared]

/-- Checking the body of a function changes nothing else of the function. -/
theorem exists_checkBody (environment : Environment) (function : Function)
    (signature : Signature) :
    ∃ body, (checkBody environment function signature).tree = { function with body } := by
  simp only [checkBody]
  split
  · exact ⟨function.body, rfl⟩
  · exact ⟨_, rfl⟩

theorem checkBody_again (environment : Environment) (function : Function)
    (signature : Signature) :
    checkBody environment (checkBody environment function signature).tree signature =
      checkBody environment function signature := by
  cases declared : declareParameters (some function.offset) environment.push
      (function.parameters.zip signature.parameters) with
  | error error => simp only [checkBody, declared]
  | ok extended => simp only [checkBody, declared, Stmt.checkBlock_again]

theorem checkBodies_again (environment : Environment) (functions : List Function) :
    ∀ signatures : List Signature,
      checkBodies environment (checkBodies environment functions signatures).tree signatures =
        checkBodies environment functions signatures := by
  induction functions with
  | nil => exact fun _ => rfl
  | cons function rest induction =>
      intro signatures
      cases signatures with
      | nil => rfl
      | cons signature signatures =>
          simp only [checkBodies]
          split
          · next error failed => simp only [checkBodies, checkBody_again, failed]
          · next passed => simp only [checkBodies, checkBody_again, passed, induction]

/-- Functions with checked bodies are declared as before. -/
theorem declareFunctions_checkBodies (last : Environment) (functions : List Function) :
    ∀ {environment after : Environment} {signatures : List Signature},
      (declareFunctions environment functions).verdict = .ok (after, signatures) →
      declareFunctions environment
          (checkBodies last (declareFunctions environment functions).tree signatures).tree =
        ⟨(checkBodies last (declareFunctions environment functions).tree signatures).tree,
          .ok (after, signatures)⟩ := by
  induction functions with
  | nil =>
      intro environment after signatures passed
      cases passed
      rfl
  | cons function rest induction =>
      intro environment after signatures passed
      cases found : signatureOf environment function with
      | error error =>
          simp only [declareFunctions, found] at passed
          cases passed
      | ok signature =>
          simp only [declareFunctions, found] at passed ⊢
          obtain ⟨⟨last', others⟩, later, same⟩ := map_eq_ok.mp passed
          cases same
          obtain ⟨body, shape⟩ := exists_checkBody last
            { function with signature := some signature } signature
          simp only [checkBodies, shape]
          split
          · exact declareFunctions_noted environment
              { function with signature := some signature, body } rfl found
              (declareFunctions_outcome later)
          · exact declareFunctions_noted environment
              { function with signature := some signature, body } rfl found (induction later)

end Typing

/-- A second check of what a check returned does what the first one did. -/
theorem Program.check_again (program : Program) :
    program.check.tree.check = program.check := by
  obtain ⟨globals, functions⟩ := program
  cases verdict : (checkGlobals Typing.root globals).verdict with
  | error error => simp only [check, verdict, checkGlobals_again]
  | ok environment =>
      cases declared : (declareFunctions environment functions).verdict with
      | error error =>
          simp only [check, verdict, checkGlobals_again, declared, declareFunctions_again]
      | ok found =>
          obtain ⟨extended, signatures⟩ := found
          simp only [check, verdict, checkGlobals_again, declared,
            declareFunctions_checkBodies extended functions declared, checkBodies_again]

/-- Checking what a check returned gives the same verdict and changes nothing any more, whether
the first check passed or stopped at an error; so do all checks after that. -/
theorem Program.check_idempotent (program : Program) :
    program.check.tree.check.verdict = program.check.verdict ∧
      program.check.tree.check.tree = program.check.tree ∧
      ∀ count, program.checkRepeatedly count = List.replicate count program.check := by
  refine ⟨by rw [check_again], by rw [check_again], ?_⟩
  have settled (count : Nat) : program.check.tree.checkRepeatedly count =
      List.replicate count program.check := by
    induction count with
    | zero => rfl
    | succ count induction =>
        rw [checkRepeatedly, check_again, induction, List.replicate_succ]
  intro count
  cases count with
  | zero => rfl
  | succ count => rw [checkRepeatedly, settled, List.replicate_succ]

end Procedural
