import Procedural.Proofs.Execution.Soundness

/-!
# Runs of typed programs

The proof goes along the rules of typing.  What calls do is a parameter first; the
bound on the nesting of calls then carries the induction over calls, and the budget the
one over the rounds of loops.
-/

namespace Procedural

open Watched Discipline

/-- Calls of linked functions on arguments that fit run soundly. -/
structure StagedInvoker.Sound (invoke : StagedInvoker Watched) (discipline : Discipline)
    (phase : Phase) : Prop where
  runs : ∀ {name : String} {arity : Nat} {signature : Signature} {callable : Callable}
    {arguments : List Value} {offset : Nat} {types : Typing.Environment} {scene : Scene},
    discipline.Linked phase (name, arity) signature callable →
    discipline.Sound phase types scene → arguments.length = arity →
    (discipline.marked = true → List.Forall₂ discipline.Fits arguments signature.parameters) →
    discipline.Runs phase (invoke callable arguments offset) scene fun value after =>
      discipline.Sound phase types after ∧ discipline.Fits value signature.returns

variable {discipline : Discipline} {phase : Phase}
variable {environment types outer : Typing.Environment} {scene : Scene}
variable {invoke : StagedInvoker Watched}

section Expressions

theorem Discipline.fits_logical (discipline : Discipline) {op : BinaryOp}
    {left right ty : Ty} {offset : Nat} (logical : op = .and ∨ op = .or)
    (typed : Typing.binaryType op left right offset = .ok ty) (value : Bool) :
    discipline.Fits (.scalar (.boolean value)) ty := by
  have same : ty = .boolean := by
    rcases logical with rfl | rfl
    · obtain ⟨_, _, rest⟩ := Typing.bind_eq_ok.mp typed
      obtain ⟨_, _, rest⟩ := Typing.bind_eq_ok.mp rest
      exact (Except.ok.inj rest).symm
    · obtain ⟨_, _, rest⟩ := Typing.bind_eq_ok.mp typed
      obtain ⟨_, _, rest⟩ := Typing.bind_eq_ok.mp rest
      exact (Except.ok.inj rest).symm
  subst same
  exact discipline.fits_scalar (.boolean value)

theorem Watched.truth_runs {value : Value} {offset : Nat} {ty : Ty}
    (logical : ∀ holds, discipline.Fits (.scalar (.boolean holds)) ty)
    (sound : discipline.Sound phase types scene) :
    discipline.Runs phase (do
      let value ← Staging.watched.act (Exec.truth value offset)
      pure (.scalar (.boolean value)) : Watched Value) scene fun value after =>
        discipline.Sound phase types after ∧ discipline.Fits value ty := by
  apply (Runs.pass sound (Exec.still_truth _ _ _)).bind
  intro value after sound
  exact .pure ⟨sound, logical value⟩

mutual

theorem Expr.stage_runs (invokes : invoke.Sound discipline phase)
    (sees : environment.Sees discipline.Agrees discipline.AgreesOn types) :
    ∀ (expr : Expr) {ty : Ty} {scene : Scene}, ExprTyping discipline environment expr ty →
    discipline.Sound phase types scene →
    discipline.Runs phase (expr.stage .watched invoke) scene fun value after =>
      discipline.Sound phase types after ∧ discipline.Fits value ty
  | .literal note value, _, _, typing, sound => by
      cases typing with
      | literal noted => exact .evaluating rfl noted (.pure ⟨sound, discipline.fits_scalar value⟩)
  | .group note inner, _, _, typing, sound => by
      cases typing with
      | group noted innerTyping =>
          exact .evaluating rfl noted (Expr.stage_runs invokes sees inner innerTyping sound)
  | .binary note op left right, _, _, typing, sound => by
      cases typing with
      | binary noted leftTyping rightTyping result =>
          apply Runs.evaluating rfl noted
          apply (Expr.stage_runs invokes sees left leftTyping sound).bind
          rintro first after ⟨sound, fits⟩
          cases op with
          | and =>
              have logical := discipline.fits_logical (.inl rfl) result
              apply (Runs.pass sound (Exec.still_truth _ _ _)).bind
              intro holds after sound
              cases holds with
              | false => exact .pure ⟨sound, logical false⟩
              | true =>
                  apply (Expr.stage_runs invokes sees right rightTyping sound).bind
                  rintro second after ⟨sound, _⟩
                  exact Watched.truth_runs logical sound
          | or =>
              have logical := discipline.fits_logical (.inr rfl) result
              apply (Runs.pass sound (Exec.still_truth _ _ _)).bind
              intro holds after sound
              cases holds with
              | true => exact .pure ⟨sound, logical true⟩
              | false =>
                  apply (Expr.stage_runs invokes sees right rightTyping sound).bind
                  rintro second after ⟨sound, _⟩
                  exact Watched.truth_runs logical sound
          | _ =>
              apply (Expr.stage_runs invokes sees right rightTyping sound).bind
              rintro second after ⟨sound, fits'⟩
              apply (Runs.still sound (Exec.still_operator _ _ _ _ _)).imp
              rintro value after ⟨sound, scalar, applied, rfl⟩
              exact ⟨sound, discipline.fits_operator result fits fits' applied⟩
  | .access note name, _, _, typing, sound => by
      cases typing with
      | access noted found =>
          apply Runs.evaluating rfl noted
          apply (Runs.findVariable sound sees found).bind
          rintro binding after ⟨sound, _, fits⟩
          exact .pure ⟨sound, fits⟩
  | .element note name index, _, _, typing, sound => by
      cases typing with
      | element noted found indexTyping _ =>
          apply Runs.evaluating rfl noted
          apply (Runs.findVariable sound sees found).bind
          rintro binding after ⟨sound, _, fits⟩
          apply (Expr.stage_runs invokes sees index indexTyping sound).bind
          rintro value after ⟨sound, _⟩
          apply (Runs.pass sound (Exec.still_integer _ _ _)).bind
          intro position after sound
          apply (Runs.still sound (Exec.still_cell _ _ _)).bind
          rintro cell after ⟨sound, isList⟩
          apply (Runs.still sound (Exec.still_element _ _ _ _)).imp
          rw [isList] at fits
          rintro element after ⟨sound', rfl | member⟩
          · exact ⟨sound', discipline.fits_nil _⟩
          · exact ⟨sound', discipline.fits_element sound.kept fits member⟩
  | .call note name arguments, _, _, typing, sound => by
      cases typing with
      | @call _ _ _ signature noted found argumentsTyping =>
          apply Runs.evaluating rfl noted
          apply (Runs.findFunction sound sees found).bind
          rintro callable after ⟨sound, signature', same, linked⟩
          apply (Expr.stageAll_runs invokes sees arguments argumentsTyping sound).bind
          rintro values after ⟨sound, fit⟩
          have lengths := fit.length_eq.trans argumentsTyping.length_eq.symm
          apply (invokes.runs linked sound lengths fun marked => same marked ▸ fit).imp
          rintro value after ⟨sound, fits⟩
          refine ⟨sound, Fits.transfer fits fun marked => ?_⟩
          rw [same marked]
  | .list _ _, _, _, typing, _ => by cases typing

theorem Expr.stageAll_runs (invokes : invoke.Sound discipline phase)
    (sees : environment.Sees discipline.Agrees discipline.AgreesOn types) :
    ∀ (exprs : List Expr) {expected : List Ty} {scene : Scene},
    ArgumentsTyping discipline environment exprs expected →
    discipline.Sound phase types scene →
    discipline.Runs phase (Expr.stageAll .watched invoke exprs) scene fun values after =>
      discipline.Sound phase types after ∧ List.Forall₂ discipline.Fits values expected
  | [], _, _, typing, sound => by
      cases typing with
      | nil => exact .pure ⟨sound, .nil⟩
  | first :: rest, _, _, typing, sound => by
      cases typing with
      | cons firstTyping accepted restTyping =>
          apply (Expr.stage_runs invokes sees first firstTyping sound).bind
          rintro value after ⟨sound, fits⟩
          apply (Expr.stageAll_runs invokes sees rest restTyping sound).bind
          rintro values after ⟨sound, fit⟩
          exact .pure ⟨sound, .cons (discipline.fits_accepted accepted fits) fit⟩

end

end Expressions

section Statements

variable {returns : Ty} {budget : Nat}

/-- A scope whose newest frame lies over a given scope. -/
structure Scope.Nested {V F : Type} (outer scope : Scope V F) : Prop where
  nonempty : scope.inner ≠ []
  pop : scope.pop = outer

theorem Scope.Nested.pushUnder {V F : Type} (scope : Scope V F) (home : Nat) :
    scope.Nested (scope.pushUnder home) :=
  ⟨List.cons_ne_nil _ _, rfl⟩

theorem Scope.Nested.defineVariable {V F : Type} {outer scope : Scope V F}
    (nested : outer.Nested scope) (name : String) (value : V) :
    outer.Nested (scope.defineVariable name value) := by
  obtain ⟨inner, root⟩ := scope
  obtain ⟨nonempty, rfl⟩ := nested
  cases inner with
  | nil => exact absurd rfl nonempty
  | cons frame rest => exact ⟨List.cons_ne_nil _ _, rfl⟩

theorem Scope.Nested.root_defineVariable {V F : Type} {outer scope : Scope V F}
    (nested : outer.Nested scope) (name : String) (value : V) :
    (scope.defineVariable name value).root = scope.root := by
  obtain ⟨inner, root⟩ := scope
  obtain ⟨nonempty, rfl⟩ := nested
  cases inner with
  | nil => exact absurd rfl nonempty
  | cons frame rest => rfl

namespace Discipline

def Returns (discipline : Discipline) (returns : Ty) (flow : Flow) : Prop :=
  ∀ value, flow = .returned value → discipline.Fits value returns

theorem returns_normal : discipline.Returns returns .normal := by
  intro value equal
  cases equal

theorem returns_returned {value : Value} (fits : discipline.Fits value returns) :
    discipline.Returns returns (.returned value) := by
  intro other equal
  cases equal
  exact fits

/-- How a statement ends in a frame over others: what follows it sees what was typed. -/
structure Leaves (discipline : Discipline) (phase : Phase)
    (outer extended types : Typing.Environment) (flow : Flow) (scene : Scene) : Prop where
  sound : discipline.Sound phase types scene
  nested : outer.Nested types
  sees : flow = .normal → extended.Sees discipline.Agrees discipline.AgreesOn types

end Discipline

theorem Watched.inBlock_runs {body : Watched Flow} (sound : discipline.Sound phase types scene)
    (runs : ∀ scene', discipline.Sound phase types.push scene' →
      discipline.Runs phase body scene' fun flow after =>
        (∃ types', discipline.Sound phase types' after ∧ types'.pop = types) ∧
          discipline.Returns returns flow) :
    discipline.Runs phase (Watched.inBlock body) scene fun flow after =>
      discipline.Sound phase types after ∧ discipline.Returns returns flow := by
  apply Runs.inFrame sound
  rw [sound.mirrors.current]
  exact runs

theorem Watched.repeatWhile_runs {test : Watched Bool} {body : Watched Flow}
    (tests : ∀ scene, discipline.Sound phase types scene →
      discipline.Runs phase test scene fun _ after => discipline.Sound phase types after)
    (bodies : ∀ scene, discipline.Sound phase types scene →
      discipline.Runs phase body scene fun flow after =>
        discipline.Sound phase types after ∧ discipline.Returns returns flow)
    (budget : Nat) (sound : discipline.Sound phase types scene) :
    discipline.Runs phase (Staging.watched.repeatWhile test body budget) scene fun flow after =>
      discipline.Sound phase types after ∧ discipline.Returns returns flow := by
  induction budget generalizing scene with
  | zero =>
      apply Ensures.step
      exact .stop ⟨sound.steady, sound.stopped rfl⟩
  | succ budget induction =>
      apply (tests scene sound).bind
      intro holds after sound
      cases holds with
      | false => exact .pure ⟨sound, returns_normal⟩
      | true =>
          apply (bodies after sound).bind
          rintro flow after ⟨sound, fits⟩
          cases flow with
          | normal => exact induction sound
          | returned value => exact .pure ⟨sound, fits⟩

section

variable (invokes : invoke.Sound discipline phase)
variable (sees : environment.Sees discipline.Agrees discipline.AgreesOn types)

include invokes sees

theorem Expr.stage_runs_expected {expr : Expr} {ty : Ty}
    (typing : ExpectedTyping discipline environment ty expr)
    (sound : discipline.Sound phase types scene) :
    discipline.Runs phase (expr.stage .watched invoke) scene fun value after =>
      discipline.Sound phase types after ∧ discipline.Fits value ty := by
  obtain ⟨found, typing, accepted⟩ := typing
  apply (Expr.stage_runs invokes sees expr typing sound).imp
  rintro value after ⟨sound, fits⟩
  exact ⟨sound, discipline.fits_accepted accepted fits⟩

theorem Expr.stageOption_runs {value : Option Expr} {ty : Ty}
    (typing : ∀ expr ∈ value, ExpectedTyping discipline environment ty expr)
    (sound : discipline.Sound phase types scene) :
    discipline.Runs phase (Expr.stageOption .watched invoke value) scene fun value after =>
      discipline.Sound phase types after ∧ discipline.Fits value ty := by
  cases value with
  | none => exact .pure ⟨sound, discipline.fits_nil ty⟩
  | some expr => exact Expr.stage_runs_expected invokes sees (typing expr rfl) sound

theorem Expr.stageCondition_runs {expr : Expr}
    (typing : ExpectedTyping discipline environment .boolean expr)
    (sound : discipline.Sound phase types scene) :
    discipline.Runs phase (expr.stageCondition .watched invoke) scene fun _ after =>
      discipline.Sound phase types after := by
  apply (Expr.stage_runs_expected invokes sees typing sound).bind
  rintro value after ⟨sound, _⟩
  exact Runs.pass sound (Exec.still_truth _ _ _)

theorem Expr.stageIndex_runs {expr : Expr}
    (typing : ExpectedTyping discipline environment .integer expr)
    (sound : discipline.Sound phase types scene) :
    discipline.Runs phase (expr.stageIndex .watched invoke) scene fun _ after =>
      discipline.Sound phase types after := by
  apply (Expr.stage_runs_expected invokes sees typing sound).bind
  rintro value after ⟨sound, _⟩
  exact Runs.pass sound (Exec.still_integer _ _ _)

theorem Watched.assign_runs {receiver value : Expr} {extended : Typing.Environment}
    (typing : StmtTyping discipline returns environment (.assignment receiver value) extended)
    (sound : discipline.Sound phase types scene) :
    environment = extended ∧
      discipline.Runs phase (Staging.watched.assign invoke receiver value) scene fun _ after =>
        discipline.Sound phase types after := by
  cases typing with
  | assignVariable found changes valueTyping =>
      refine ⟨rfl, ?_⟩
      apply (Runs.requireMutable sound sees found changes).bind
      intro _ after sound
      apply (Expr.stage_runs_expected invokes sees valueTyping sound).bind
      rintro newValue after ⟨sound, fits⟩
      exact Runs.assignVariable sound sees found fits
  | assignElement noted found changes indexTyping valueTyping =>
      refine ⟨rfl, ?_⟩
      apply (Runs.requireMutable sound sees found changes).bind
      intro _ after sound
      apply (Expr.stageIndex_runs invokes sees indexTyping sound).bind
      intro position after sound
      apply (Expr.stage_runs_expected invokes sees valueTyping sound).bind
      rintro newValue after ⟨sound, fits⟩
      apply (Runs.findVariable sound sees found).bind
      rintro binding after ⟨sound, _, fitsList⟩
      apply (Runs.still sound (Exec.still_cell _ _ _)).bind
      rintro cell after ⟨sound, isList⟩
      rw [isList] at fitsList
      exact Runs.storeElement sound noted fitsList fits

end

theorem Watched.declare_runs {name : String} {offset : Option Nat} {binding : Binding}
    {ty noted : Ty} (sound : discipline.Sound phase types scene)
    (sees : environment.Sees discipline.Agrees discipline.AgreesOn types)
    (fresh : environment.definesVariable name = false)
    (fits : discipline.Fits binding.value ty) (same : discipline.Same ty noted)
    (anchored : ∀ root ∈ phase.root, root.Matches discipline.Agrees discipline.AgreesOn
      (types.defineVariable name ⟨noted, binding.mutable⟩).root) :
    discipline.Runs phase (Watched.declare name offset binding noted) scene fun _ after =>
      discipline.Sound phase (types.defineVariable name ⟨noted, binding.mutable⟩) after := by
  have fresh' : scene.machine.environment.definesVariable name = false := by
    rw [sound.mirrors.sees.definesVariable, sees.definesVariable]
    exact fresh
  apply Ensures.stepNoting
  apply Exec.Ends.declare
  · intro _
    have holds : discipline.Holds ⟨noted, binding.mutable⟩ binding := ⟨rfl, Fits.transfer fits same⟩
    rw [sound.noted]
    exact Sound.now ⟨rfl, sound.mirrors.defineVariable name holds, anchored, sound.counted,
      sound.kept⟩
  · intro defines
    cases fresh'.symm.trans defines

theorem Watched.declareLocal_runs (invokes : invoke.Sound discipline phase)
    (sees : environment.Sees discipline.Agrees discipline.AgreesOn types) {name : String}
    {written : Option String} {value : Option Expr} {extended : Typing.Environment}
    (typing : StmtTyping discipline returns environment (.declaration name written value) extended)
    (nested : outer.Nested types) (sound : discipline.Sound phase types scene) :
    discipline.Runs phase (Staging.watched.declareLocal invoke name written value) scene
      fun _ after => ∃ types', discipline.Leaves phase outer extended types' .normal after := by
  cases typing with
  | declaration valueTyping same fresh =>
      apply (Expr.stageOption_runs invokes sees valueTyping sound).bind
      rintro initial after ⟨sound, fits⟩
      have nested' := nested.defineVariable name ⟨Java.localType written value, true⟩
      apply (Watched.declare_runs sound sees fresh fits same _).imp
      · intro _ after sound'
        refine ⟨_, sound', nested', fun _ => ?_⟩
        exact sees.defineVariable name ⟨rfl, same⟩
      · rw [nested.root_defineVariable]
        exact sound.anchored

/-- An action that changes no types leaves the scene as it found it. -/
theorem Discipline.Runs.leaves {watched : Watched Flow}
    (runs : discipline.Runs phase watched scene fun flow after =>
      discipline.Sound phase types after ∧ discipline.Returns returns flow)
    (sees : environment.Sees discipline.Agrees discipline.AgreesOn types)
    (nested : outer.Nested types) :
    discipline.Runs phase watched scene fun flow after =>
      (∃ types', discipline.Leaves phase outer environment types' flow after) ∧
        discipline.Returns returns flow := by
  apply runs.imp
  rintro flow after ⟨sound, fits⟩
  exact ⟨⟨types, sound, nested, fun _ => sees⟩, fits⟩

mutual

theorem Stmt.stage_runs (invokes : invoke.Sound discipline phase) : ∀ (stmt : Stmt)
    {environment extended outer types : Typing.Environment} {scene : Scene},
    StmtTyping discipline returns environment stmt extended →
    environment.Sees discipline.Agrees discipline.AgreesOn types → outer.Nested types →
    discipline.Sound phase types scene →
    discipline.Runs phase (stmt.stage .watched invoke budget) scene fun flow after =>
      (∃ types', discipline.Leaves phase outer extended types' flow after) ∧
        discipline.Returns returns flow
  | .expression value, _, _, _, _, _, typing, sees, nested, sound => by
      cases typing with
      | expression valueTyping =>
          apply (Expr.stage_runs invokes sees value valueTyping sound).bind
          rintro result after ⟨sound, _⟩
          exact .pure ⟨⟨_, sound, nested, fun _ => sees⟩, returns_normal⟩
  | .declaration name written value, _, _, _, _, _, typing, sees, nested, sound => by
      apply (Watched.declareLocal_runs invokes sees typing nested sound).bind
      intro _ after leaves
      exact .pure ⟨leaves, returns_normal⟩
  | .assignment receiver value, _, _, _, _, _, typing, sees, nested, sound => by
      obtain ⟨rfl, runs⟩ := Watched.assign_runs invokes sees typing sound
      apply runs.bind
      intro _ after sound
      exact .pure ⟨⟨_, sound, nested, fun _ => sees⟩, returns_normal⟩
  | .branch condition thenBlock elseBlock, _, _, _, _, _, typing, sees, nested, sound => by
      cases typing with
      | branch conditionTyping thenTyping elseTyping =>
          apply (Expr.stageCondition_runs invokes sees conditionTyping sound).bind
          intro holds after sound
          cases holds with
          | true =>
              apply (Watched.inBlock_runs sound _).leaves sees nested
              intro entered sound
              exact Stmt.stageAll_runs invokes thenBlock thenTyping sees.push (.pushUnder _ _) sound
          | false =>
              apply (Watched.inBlock_runs sound _).leaves sees nested
              intro entered sound
              exact Stmt.stageAll_runs invokes elseBlock elseTyping sees.push (.pushUnder _ _) sound
  | .switch condition cases, _, _, _, _, _, typing, sees, nested, sound => by
      cases typing with
      | switch conditionTyping casesTyping =>
          apply (Expr.stage_runs invokes sees condition conditionTyping sound).bind
          rintro selector after ⟨sound, _⟩
          exact (Case.stageFirst_runs invokes cases casesTyping sees sound).leaves sees nested
  | .loop condition body, _, _, _, _, _, typing, sees, nested, sound => by
      cases typing with
      | loop conditionTyping bodyTyping =>
          apply (Watched.repeatWhile_runs _ _ budget sound).leaves sees nested
          · intro scene sound
            exact Expr.stageCondition_runs invokes sees conditionTyping sound
          · intro scene sound
            apply Watched.inBlock_runs sound
            intro entered sound
            exact Stmt.stageAll_runs invokes body bodyTyping sees.push (.pushUnder _ _) sound
  | .result value, _, _, _, _, _, typing, sees, nested, sound => by
      cases typing with
      | result valueTyping =>
          apply (Expr.stage_runs_expected invokes sees valueTyping sound).bind
          rintro result after ⟨sound, fits⟩
          exact .pure ⟨⟨_, sound, nested, fun _ => sees⟩, returns_returned fits⟩

theorem Stmt.stageAll_runs (invokes : invoke.Sound discipline phase) : ∀ (stmts : List Stmt)
    {environment outer types : Typing.Environment} {scene : Scene},
    BlockTyping discipline returns environment stmts →
    environment.Sees discipline.Agrees discipline.AgreesOn types → outer.Nested types →
    discipline.Sound phase types scene →
    discipline.Runs phase (Stmt.stageAll .watched invoke budget stmts) scene fun flow after =>
      (∃ types', discipline.Sound phase types' after ∧ types'.pop = outer) ∧
        discipline.Returns returns flow
  | [], _, _, types, _, _, _, nested, sound =>
      .pure ⟨⟨types, sound, nested.pop⟩, returns_normal⟩
  | stmt :: rest, _, _, _, _, typing, sees, nested, sound => by
      cases typing with
      | cons stmtTyping restTyping =>
          apply (Stmt.stage_runs invokes stmt stmtTyping sees nested sound).bind
          rintro flow after ⟨⟨types', leaves⟩, fits⟩
          cases flow with
          | normal =>
              exact Stmt.stageAll_runs invokes rest restTyping (leaves.sees rfl) leaves.nested
                leaves.sound
          | returned value => exact .pure ⟨⟨types', leaves.sound, leaves.nested.pop⟩, fits⟩

theorem Case.stageFirst_runs (invokes : invoke.Sound discipline phase) {selector : Value} :
    ∀ (cases : List Case) {environment types : Typing.Environment} {scene : Scene},
    CasesTyping discipline returns environment cases →
    environment.Sees discipline.Agrees discipline.AgreesOn types →
    discipline.Sound phase types scene →
    discipline.Runs phase (Case.stageFirst .watched invoke budget selector cases) scene
      fun flow after => discipline.Sound phase types after ∧ discipline.Returns returns flow
  | [], _, _, _, _, _, sound => .pure ⟨sound, returns_normal⟩
  | .mk none body :: _, _, _, _, typing, sees, sound => by
      cases typing with
      | cons _ bodyTyping _ =>
          apply Watched.inBlock_runs sound
          intro entered sound
          exact Stmt.stageAll_runs invokes body bodyTyping sees.push (.pushUnder _ _) sound
  | .mk (some value) body :: rest, _, _, _, typing, sees, sound => by
      cases typing with
      | cons valueTyping bodyTyping restTyping =>
          obtain ⟨ty, valueTyping⟩ := valueTyping value rfl
          apply (Expr.stage_runs invokes sees value valueTyping sound).bind
          rintro candidate after ⟨sound, _⟩
          apply (Runs.pass sound (Exec.Still.look _)).bind
          intro equal after sound
          cases equal with
          | false => exact Case.stageFirst_runs invokes rest restTyping sees sound
          | true =>
              apply Watched.inBlock_runs sound
              intro entered sound
              exact Stmt.stageAll_runs invokes body bodyTyping sees.push (.pushUnder _ _) sound

end

end Statements

end Procedural
