import Procedural.Proofs.Reader.Places
import Procedural.Proofs.Typing.Shapes

/-!
# Faults of checking

Checking a program whose statements have shapes that reading gives them finds no fault about
other shapes.  The error that it reports points at a place of the program: every error is
raised at the offset of an expression, of a global variable or of a function, or at none.
-/

namespace Procedural

/-- The fault is about a shape that reading never gives to a statement. -/
def TypeFault.isAboutShape : TypeFault → Bool
  | .untypedDeclaration _ => true
  | .misplacedDefault => true
  | _ => false

/-- The error is not about the shape of a statement, and points at one of the places, if at any. -/
structure TypingError.Proper (places : Nat → Prop) (error : TypingError) : Prop where
  ordinary : error.fault.isAboutShape = false
  placed : ∀ offset ∈ error.offset, places offset

namespace Typing

variable {α β : Type} {places : Nat → Prop}

/-- The verdict is no fault about the shape of a statement. -/
def Ordinary (verdict : Except TypingError α) : Prop :=
  ∀ error, verdict = .error error → error.fault.isAboutShape = false

/-- The verdict is no error but a proper one. -/
def Proper (places : Nat → Prop) (verdict : Except TypingError α) : Prop :=
  ∀ error, verdict = .error error → error.Proper places

namespace Proper

theorem ok (value : α) : Proper places (.ok value) := by
  intro error equal
  cases equal

theorem error {error : TypingError} (proper : error.Proper places) :
    Proper places (.error error : Except TypingError α) := by
  intro other equal
  cases equal
  exact proper

theorem fault {why : TypeFault} {offset : Nat} (ordinary : why.isAboutShape = false)
    (placed : places offset) : Proper places (fault why offset : Except TypingError α) :=
  error ⟨ordinary, forall_mem_some placed⟩

protected theorem bind {verdict : Except TypingError α} {next : α → Except TypingError β}
    (first : Proper places verdict) (later : ∀ value, Proper places (next value)) :
    Proper places (verdict.bind next) := by
  cases verdict with
  | ok value => exact later value
  | error found => exact error (first found rfl)

protected theorem map {verdict : Except TypingError α} (change : α → β)
    (proper : Proper places verdict) : Proper places (verdict.map change) := by
  cases verdict with
  | ok value => exact ok (change value)
  | error found => exact error (proper found rfl)

/-- What is an error already stays one. -/
theorem of_error {verdict : Except TypingError α} (proper : Proper places verdict)
    {found : TypingError} (failed : verdict = .error found) :
    Proper places (.error found : Except TypingError β) :=
  error (proper found failed)

end Proper

theorem require_proper (expected found : Ty) {offset : Option Nat}
    (placed : ∀ place ∈ offset, places place) : Proper places (require expected found offset) := by
  unfold require
  split
  · exact .ok _
  · exact .error ⟨rfl, placed⟩

theorem resolve_proper (name : String) {offset : Option Nat}
    (placed : ∀ place ∈ offset, places place) : Proper places (resolve name offset) := by
  unfold resolve
  split
  · exact .ok _
  · exact .error ⟨rfl, placed⟩

theorem declare_proper (environment : Environment) (name : String) {offset : Option Nat}
    (placed : ∀ place ∈ offset, places place) (variableType : VariableType) :
    Proper places (declare environment name offset variableType) := by
  unfold declare
  split
  · exact .error ⟨rfl, placed⟩
  · exact .ok _

theorem literalType_proper (value : Scalar) {offset : Nat} (placed : places offset) :
    Proper places (literalType value offset) := by
  unfold literalType
  split
  · split
    · exact .ok _
    · exact .fault rfl placed
  · split
    · exact .ok _
    · exact .fault rfl placed
  · exact .ok _

theorem binaryType_proper (op : BinaryOp) (left right : Ty) {offset : Nat}
    (placed : places offset) : Proper places (binaryType op left right offset) := by
  have invalid : Proper places (fault (.invalidOperands op left right) offset :
      Except TypingError Ty) := .fault rfl placed
  have logical : Proper places (do
      require .boolean left (some offset)
      require .boolean right (some offset)
      .ok Ty.boolean) :=
    (require_proper _ _ (forall_mem_some placed)).bind fun _ =>
      (require_proper _ _ (forall_mem_some placed)).bind fun _ => .ok _
  have either {condition : Prop} [Decidable condition] {verdict : Except TypingError Ty}
      (proper : Proper places verdict) (ty : Ty) :
      Proper places (if condition then .ok ty else verdict) := by
    split
    · exact .ok _
    · exact proper
  cases op with
  | and => exact logical
  | or => exact logical
  | add => exact either (either invalid _) _
  | _ => exact either invalid _

end Typing

open Typing

variable {places : Nat → Prop}

section Expressions

variable (environment : Typing.Environment)

mutual

theorem Expr.check_proper : ∀ expr : Expr, (∀ node ∈ expr.nodes, places node.offset) →
    Proper places (expr.check environment).verdict
  | .literal note value, placed => by
      rw [Expr.check, conclude_verdict]
      exact literalType_proper value (placed _ (Expr.literal note value).mem_nodes)
  | .group note inner, placed => by
      obtain ⟨here, inside⟩ := List.forall_mem_cons.mp placed
      rw [Expr.check]
      split
      · rw [conclude_verdict]
        exact Expr.check_proper inner inside
      · exact .fault rfl here
  | .binary note op left right, placed => by
      obtain ⟨here, inside⟩ := List.forall_mem_cons.mp placed
      obtain ⟨inLeft, inRight⟩ := List.forall_mem_append.mp inside
      rw [Expr.check]
      dsimp only
      split
      next failed => exact (Expr.check_proper left inLeft).of_error failed
      · rw [conclude_verdict]
        exact (Expr.check_proper right inRight).bind fun _ => binaryType_proper _ _ _ here
  | .access note name, placed => by
      rw [Expr.check]
      split
      · exact .fault rfl (placed _ (Expr.access note name).mem_nodes)
      · rw [conclude_verdict]
        exact .ok _
  | .element note name index, placed => by
      obtain ⟨here, inIndex⟩ := List.forall_mem_cons.mp placed
      rw [Expr.check]
      split
      · exact .fault rfl here
      · rw [conclude_verdict]
        exact (Expr.check_proper index inIndex).bind fun ty =>
          (require_proper _ ty (forall_mem_some (inIndex _ index.mem_nodes))).map _
  | .call note name arguments, placed => by
      obtain ⟨here, inArguments⟩ := List.forall_mem_cons.mp placed
      rw [Expr.check]
      split
      · exact .fault rfl here
      · rw [conclude_verdict]
        exact (Expr.checkArguments_proper _ arguments inArguments).map _
  | .list note elements, placed => by
      obtain ⟨-, inElements⟩ := List.forall_mem_cons.mp placed
      rw [Expr.check, conclude_verdict]
      exact (Expr.checkElements_proper _ elements inElements).map _

theorem Expr.checkArguments_proper : ∀ (types : List Ty) (arguments : List Expr),
    (∀ node ∈ Expr.nodesOfList arguments, places node.offset) →
      Proper places (Expr.checkArguments environment types arguments).verdict
  | [], _, _ => by
      rw [Expr.checkArguments]
      exact .ok ()
  | _ :: _, [], _ => .ok ()
  | ty :: types, item :: rest, placed => by
      obtain ⟨inItem, inRest⟩ := List.forall_mem_append.mp placed
      have first := (Expr.check_proper item inItem).bind fun found =>
        require_proper ty found (forall_mem_some (inItem _ item.mem_nodes))
      rw [Expr.checkArguments]
      dsimp only
      split
      next failed => exact first.of_error failed
      · exact Expr.checkArguments_proper types rest inRest

theorem Expr.checkElements_proper (ty : Ty) : ∀ elements : List Expr,
    (∀ node ∈ Expr.nodesOfList elements, places node.offset) →
      Proper places (Expr.checkElements environment ty elements).verdict
  | [], _ => .ok ()
  | item :: rest, placed => by
      obtain ⟨inItem, inRest⟩ := List.forall_mem_append.mp placed
      have first := (Expr.check_proper item inItem).bind fun found =>
        require_proper ty found (forall_mem_some (inItem _ item.mem_nodes))
      rw [Expr.checkElements]
      dsimp only
      split
      next failed => exact first.of_error failed
      · exact Expr.checkElements_proper ty rest inRest

end

theorem Expr.checkAgainst_proper (expected : Ty) {expr : Expr}
    (placed : ∀ node ∈ expr.nodes, places node.offset) :
    Proper places (expr.checkAgainst environment expected).verdict :=
  (expr.check_proper environment placed).bind fun found =>
    require_proper expected found (forall_mem_some (placed _ expr.mem_nodes))

end Expressions

section Statements

theorem Typing.checkUntyped_proper (environment : Typing.Environment) (name : String)
    {value : Expr} (placed : ∀ node ∈ value.nodes, places node.offset) :
    Proper places (checkUntyped environment name (some value)).verdict :=
  (value.check_proper environment placed).bind fun _ =>
    declare_proper _ _ (forall_mem_some (placed _ value.mem_nodes)) _

theorem Typing.checkTyped_proper (environment : Typing.Environment) (name typeName : String)
    {value : Option Expr} (placed : ∀ node ∈ Expr.nodesOfOption value, places node.offset) :
    Proper places (checkTyped environment name typeName value).verdict := by
  have here := Expr.forall_mem_offset placed
  unfold checkTyped
  dsimp only
  split
  next failed => exact (resolve_proper _ here).of_error failed
  · exact declare_proper _ _ here _
  · exact (Expr.checkAgainst_proper environment _ placed).bind fun _ => declare_proper _ _ here _

theorem Typing.checkAssignment_proper (environment : Typing.Environment) {receiver value : Expr}
    (inReceiver : ∀ node ∈ receiver.nodes, places node.offset)
    (inValue : ∀ node ∈ value.nodes, places node.offset) :
    Proper places (checkAssignment environment receiver value).verdict := by
  have here := inReceiver _ receiver.mem_nodes
  unfold checkAssignment
  split
  · exact .fault rfl here
  · dsimp only
    split
    next failed => exact (receiver.check_proper environment inReceiver).of_error failed
    · split
      · exact .fault rfl here
      · exact (Expr.checkAgainst_proper environment _ inValue).map _

mutual

theorem Stmt.check_proper (returns : Ty) (environment : Typing.Environment) : ∀ stmt : Stmt,
    stmt.Throughout (Stmt.isComplete · = true) → (∀ node ∈ stmt.nodes, places node.offset) →
      Proper places (stmt.check returns environment).verdict
  | .expression value, _, placed => (value.check_proper environment placed).map _
  | .declaration name typeName value, complete, placed => by
      have here : (Stmt.declaration name typeName value).isComplete = true :=
        (List.forall_mem_cons.mp complete).1
      cases typeName with
      | some typeName => exact checkTyped_proper environment name typeName placed
      | none =>
          cases value with
          | some value => exact checkUntyped_proper environment name placed
          | none => cases here
  | .assignment receiver value, _, placed => by
      obtain ⟨inReceiver, inValue⟩ := List.forall_mem_append.mp placed
      exact checkAssignment_proper environment inReceiver inValue
  | .branch condition thenBlock elseBlock, complete, placed => by
      obtain ⟨thenShapes, elseShapes⟩ := Stmt.throughout_branch complete
      simp only [Stmt.nodes, List.forall_mem_append] at placed
      obtain ⟨inCondition, inThen, inElse⟩ := placed
      rw [Stmt.check]
      dsimp only
      split
      next failed => exact (Expr.checkAgainst_proper environment _ inCondition).of_error failed
      · split
        · exact .fault rfl (inCondition _ condition.mem_nodes)
        · split
          next failed =>
            exact (Stmt.checkBlock_proper _ _ thenBlock thenShapes inThen).of_error failed
          · exact (Stmt.checkBlock_proper _ _ elseBlock elseShapes inElse).map _
  | .switch condition cases, complete, placed => by
      obtain ⟨ends, caseShapes⟩ := List.forall_mem_cons.mp complete
      obtain ⟨inCondition, inCases⟩ := List.forall_mem_append.mp placed
      have here := inCondition _ condition.mem_nodes
      rw [Stmt.check]
      dsimp only
      split
      next failed => exact (condition.check_proper environment inCondition).of_error failed
      · exact (Case.checkAll_proper _ _ _ here cases ends caseShapes inCases).map _
  | .loop condition body, complete, placed => by
      obtain ⟨-, bodyShapes⟩ := List.forall_mem_cons.mp complete
      obtain ⟨inCondition, inBody⟩ := List.forall_mem_append.mp placed
      rw [Stmt.check]
      dsimp only
      split
      next failed => exact (Expr.checkAgainst_proper environment _ inCondition).of_error failed
      · exact (Stmt.checkBlock_proper _ _ body bodyShapes inBody).map _
  | .result value, _, placed => (Expr.checkAgainst_proper environment returns placed).map _

theorem Stmt.checkBlock_proper (returns : Ty) (environment : Typing.Environment) :
    ∀ stmts : List Stmt, (∀ part ∈ Stmt.partsOfBlock stmts, part.isComplete = true) →
      (∀ node ∈ Stmt.nodesOfList stmts, places node.offset) →
      Proper places (Stmt.checkBlock returns environment stmts).verdict
  | [], _, _ => .ok ()
  | stmt :: rest, complete, placed => by
      obtain ⟨shapes, laterShapes⟩ := Stmt.forall_partsOfBlock_cons.mp complete
      obtain ⟨inFirst, inLater⟩ := List.forall_mem_append.mp placed
      rw [Stmt.checkBlock]
      dsimp only
      split
      next failed =>
        exact (Stmt.check_proper returns environment stmt shapes inFirst).of_error failed
      next extended _ => exact Stmt.checkBlock_proper returns extended rest laterShapes inLater

/-- The last case is the one without a value, so neither kind of case is found in the place of the
other. -/
theorem Case.checkAll_proper (returns : Ty) (environment : Typing.Environment) (ty : Ty)
    {offset : Nat} (here : places offset) : ∀ cases : List Case, Case.endInDefault cases = true →
      (∀ part ∈ Case.partsOfCases cases, part.isComplete = true) →
      (∀ node ∈ Case.nodesOfList cases, places node.offset) →
      Proper places (Case.checkAll returns environment ty offset cases).verdict
  | [], _, _, _ => .ok ()
  | [.mk (some _) _], ends, _, _ => by cases ends
  | [.mk none body], _, complete, placed => by
      obtain ⟨bodyShapes, -⟩ := Stmt.forall_partsOfCases_cons.mp complete
      obtain ⟨inBody, -⟩ := List.forall_mem_append.mp placed
      exact Stmt.checkBlock_proper returns environment.push body bodyShapes inBody
  | .mk none _ :: _ :: _, ends, _, _ => by cases ends
  | .mk (some value) body :: next :: rest, ends, complete, placed => by
      obtain ⟨bodyShapes, laterShapes⟩ := Stmt.forall_partsOfCases_cons.mp complete
      obtain ⟨inCase, inLater⟩ := List.forall_mem_append.mp placed
      obtain ⟨inValue, inBody⟩ := List.forall_mem_append.mp inCase
      have first : Proper places (Case.checkValued returns environment ty offset
          (.mk (some value) body)).verdict := by
        rw [Case.checkValued]
        dsimp only
        split
        next failed => exact (Expr.checkAgainst_proper environment ty inValue).of_error failed
        · exact Stmt.checkBlock_proper returns environment.push body bodyShapes inBody
      rw [Case.checkAll]
      dsimp only
      split
      next failed => exact first.of_error failed
      · exact Case.checkAll_proper returns environment ty here (next :: rest) ends laterShapes
          inLater

end

end Statements

namespace Typing

variable (environment : Environment)

/-- An element type is noted where the list literal stands. -/
theorem nodes_noteElementType (ty : Ty) {value : Expr}
    (placed : ∀ node ∈ value.nodes, places node.offset) :
    ∀ node ∈ (noteElementType ty value).nodes, places node.offset := by
  cases value with
  | list note elements => exact List.forall_mem_cons.mpr (List.forall_mem_cons.mp placed)
  | _ => exact placed

theorem checkGlobal_proper {global : Global} (here : places global.offset)
    (placed : ∀ node ∈ Expr.nodesOfOption global.value, places node.offset) :
    Proper places (checkGlobal environment global).verdict := by
  unfold checkGlobal
  dsimp only
  split
  next failed => exact (resolve_proper _ (forall_mem_some here)).of_error failed
  · split
    next failed => exact (declare_proper _ _ (forall_mem_some here) _).of_error failed
    · split
      · exact .ok _
      next value given =>
        rw [given] at placed
        split
        next failed =>
          exact (Expr.checkAgainst_proper _ _ (nodes_noteElementType _ placed)).of_error failed
        · exact .ok _

theorem checkGlobals_proper {globals : List Global} (here : ∀ item ∈ globals, places item.offset)
    (placed : ∀ item ∈ globals, ∀ node ∈ Expr.nodesOfOption item.value, places node.offset) :
    ∀ environment : Environment, Proper places (checkGlobals environment globals).verdict := by
  induction globals with
  | nil => exact .ok
  | cons global rest induction =>
      intro environment
      obtain ⟨first, later⟩ := List.forall_mem_cons.mp here
      obtain ⟨inFirst, inLater⟩ := List.forall_mem_cons.mp placed
      rw [checkGlobals]
      dsimp only
      split
      next failed => exact (checkGlobal_proper environment first inFirst).of_error failed
      next extended _ => exact induction later inLater extended

theorem resolveAll_proper {offset : Option Nat} (placed : ∀ place ∈ offset, places place)
    (names : List String) : Proper places (resolveAll offset names) := by
  induction names with
  | nil => exact .ok []
  | cons name rest induction =>
      exact (resolve_proper name placed).bind fun _ => induction.bind fun _ => .ok _

theorem resolveResult_proper {offset : Option Nat} (placed : ∀ place ∈ offset, places place)
    (name : Option String) : Proper places (resolveResult offset name) := by
  cases name with
  | none => exact .ok _
  | some name => exact resolve_proper name placed

theorem signatureOf_proper {function : Function} (here : places function.offset) :
    Proper places (signatureOf environment function) := by
  apply (resolveAll_proper (forall_mem_some here) function.parameterTypes).bind
  intro parameters
  apply (resolveResult_proper (forall_mem_some here) function.returnType).bind
  intro returns
  split
  · exact .error ⟨rfl, forall_mem_some here⟩
  · exact .ok _

theorem declareFunctions_proper {functions : List Function}
    (here : ∀ item ∈ functions, places item.offset) : ∀ environment : Environment,
    Proper places (declareFunctions environment functions).verdict := by
  induction functions with
  | nil => exact fun _ => .ok _
  | cons function rest induction =>
      intro environment
      obtain ⟨first, later⟩ := List.forall_mem_cons.mp here
      rw [declareFunctions]
      split
      next failed => exact (signatureOf_proper environment first).of_error failed
      · exact (induction later _).map _

theorem declareParameters_proper {offset : Option Nat} (placed : ∀ place ∈ offset, places place)
    (parameters : List (String × Ty)) : ∀ environment : Environment,
      Proper places (declareParameters offset environment parameters) := by
  induction parameters with
  | nil => exact .ok
  | cons parameter rest induction =>
      intro environment
      exact (declare_proper _ _ placed _).bind fun extended => induction extended

/-- What is known of a function that its body can be checked. -/
structure Checkable (places : Nat → Prop) (function : Function) : Prop where
  here : places function.offset
  complete : ∀ part ∈ Stmt.partsOfBlock function.body, part.isComplete = true
  placed : ∀ node ∈ Stmt.nodesOfList function.body, places node.offset

theorem checkable_declareFunctions {functions : List Function}
    (checkable : ∀ function ∈ functions, Checkable places function) :
    ∀ environment : Environment, ∀ function ∈ (declareFunctions environment functions).tree,
      Checkable places function := by
  induction functions with
  | nil => exact fun _ => List.forall_mem_nil _
  | cons function rest induction =>
      intro environment
      obtain ⟨first, later⟩ := List.forall_mem_cons.mp checkable
      rw [declareFunctions]
      split
      · exact checkable
      · exact List.forall_mem_cons.mpr
          ⟨⟨first.here, first.complete, first.placed⟩, induction later _⟩

theorem checkBody_proper {function : Function} (checkable : Checkable places function)
    (signature : Signature) : Proper places (checkBody environment function signature).verdict := by
  unfold checkBody
  dsimp only
  split
  next failed =>
    exact (declareParameters_proper (forall_mem_some checkable.here) _ _).of_error failed
  · exact Stmt.checkBlock_proper _ _ _ checkable.complete checkable.placed

theorem checkBodies_proper {functions : List Function}
    (checkable : ∀ function ∈ functions, Checkable places function) :
    ∀ signatures, Proper places (checkBodies environment functions signatures).verdict := by
  induction functions with
  | nil => exact fun _ => .ok ()
  | cons function rest induction =>
      obtain ⟨first, later⟩ := List.forall_mem_cons.mp checkable
      intro signatures
      cases signatures with
      | nil => exact .ok ()
      | cons signature signatures =>
          rw [checkBodies]
          dsimp only
          split
          next failed => exact (checkBody_proper environment first signature).of_error failed
          · exact induction later signatures

theorem requireMain_proper : Proper places (requireMain environment) := by
  unfold requireMain
  split
  · exact .ok ()
  · exact .error ⟨rfl, nofun⟩

end Typing

/-- The error of a program whose statements are complete is not about their shapes, and points at
a place of the program. -/
theorem Program.check_proper {program : Program}
    (complete : ∀ stmt ∈ program.statements, stmt.isComplete = true)
    (placed : program.Placed places) : Proper places program.check.verdict := by
  obtain ⟨inGlobals, inBodies⟩ := List.forall_mem_append.mp placed.nodes
  have checkable : ∀ function ∈ program.functions, Checkable places function :=
    fun function member => ⟨placed.functions function member,
      List.forall_mem_flatMap.mp complete function member,
      List.forall_mem_flatMap.mp inBodies function member⟩
  unfold Program.check
  dsimp only
  split
  next failed =>
    exact (checkGlobals_proper placed.globals (List.forall_mem_flatMap.mp inGlobals) _).of_error
      failed
  next environment _ =>
    split
    next failed => exact (declareFunctions_proper placed.functions environment).of_error failed
    · exact (checkBodies_proper _ (checkable_declareFunctions checkable _) _).bind fun _ =>
        requireMain_proper _

/-- Checking a program whose statements are complete finds no fault about their shapes. -/
theorem Program.check_ordinary {program : Program}
    (complete : ∀ stmt ∈ program.statements, stmt.isComplete = true) :
    Ordinary program.check.verdict :=
  fun error failed =>
    (Program.check_proper complete program.placed_anywhere error failed).ordinary

end Procedural
