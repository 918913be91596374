import Procedural.Proofs.Execution.TypedRuns

/-!
# Typed programs run soundly

The parts of a run are put together: calls by induction on how deeply they can still
nest, then the global variables, the functions and the call of `main` in order.
-/

namespace Procedural

open Watched Discipline

variable {discipline : Discipline} {phase : Phase}
variable {environment types outer : Typing.Environment} {scene : Scene}
variable {invoke : StagedInvoker Watched}

section Calls

theorem Watched.bindParameters_runs {offset : Option Nat} {names : List String}
    {arguments : List Value} {parameters noted : List Ty} {extended : Typing.Environment}
    (sameLength : names.length = arguments.length) (sameLength' : names.length = parameters.length)
    (declared : Typing.declareParameters offset environment (names.zip parameters) = .ok extended)
    (same : discipline.marked = true → noted = parameters)
    (fit : discipline.marked = true → List.Forall₂ discipline.Fits arguments parameters)
    (sees : environment.Sees discipline.Agrees discipline.AgreesOn types)
    (nested : outer.Nested types) (sound : discipline.Sound phase types scene) :
    discipline.Runs phase (Watched.bindParameters (names.zip arguments) noted) scene fun _ after =>
      ∃ types', discipline.Leaves phase outer extended types' .normal after := by
  induction names generalizing arguments parameters noted environment types scene with
  | nil =>
      cases declared
      exact .pure ⟨types, sound, nested, fun _ => sees⟩
  | cons name names induction =>
      obtain ⟨value, values, rfl⟩ := List.exists_cons_of_length_eq_add_one sameLength.symm
      obtain ⟨ty, parameters, rfl⟩ := List.exists_cons_of_length_eq_add_one sameLength'.symm
      obtain ⟨middle, first, later⟩ := Typing.bind_eq_ok.mp declared
      obtain ⟨-, rfl⟩ := Typing.declare_eq_ok.mp first
      have sameType : discipline.Same ty (noted.headD .any) := by
        intro marked
        rw [same marked]
        rfl
      have fits : discipline.Fits value ty := by
        cases marked : discipline.marked with
        | false => exact discipline.fits_of_unmarked marked value ty
        | true => exact (List.forall₂_cons.mp (fit marked)).1
      have holds : discipline.Holds ⟨noted.headD .any, true⟩ ⟨value, true⟩ :=
        ⟨rfl, Fits.transfer fits sameType⟩
      have now : discipline.Sound phase (types.defineVariable name ⟨noted.headD .any, true⟩)
          ⟨{ scene.machine with
              environment := scene.machine.environment.defineVariable name ⟨value, true⟩ },
            scene.types.defineVariable name ⟨noted.headD .any, true⟩⟩ := by
        refine ⟨by rw [sound.noted], sound.mirrors.defineVariable name holds, ?_, sound.counted,
          sound.kept⟩
        rw [nested.root_defineVariable]
        exact sound.anchored
      have step : discipline.Runs phase
          (Watched.stepNoting (·.defineVariable name ⟨noted.headD .any, true⟩)
            (Exec.modifyEnvironment fun environment =>
              environment.defineVariable name ⟨value, true⟩)) scene fun _ after =>
          discipline.Sound phase (types.defineVariable name ⟨noted.headD .any, true⟩) after :=
        Ensures.stepNoting (Exec.Ends.modify now.now)
      apply step.bind
      intro _ after sound'
      have sees' : (environment.defineVariable name ⟨ty, true⟩).Sees discipline.Agrees
          discipline.AgreesOn (types.defineVariable name ⟨noted.headD .any, true⟩) :=
        sees.defineVariable name ⟨rfl, sameType⟩
      refine induction (Nat.succ.inj sameLength) (Nat.succ.inj sameLength') later ?_ ?_ sees'
        (nested.defineVariable _ _) sound'
      · intro marked
        rw [same marked]
        rfl
      · intro marked
        exact (List.forall₂_cons.mp (fit marked)).2

theorem Watched.runBody_runs (invokes : invoke.Sound discipline phase) {budget : Nat}
    {function : Function} {typed : Signature} {arguments : List Value}
    {root : Frame Typing.VariableType Signature}
    (typing : BodyTyping discipline root function typed)
    (sameLength : arguments.length = function.arity)
    (fit : discipline.marked = true → List.Forall₂ discipline.Fits arguments typed.parameters)
    (anchored : root.Matches discipline.Agrees discipline.AgreesOn types.root)
    (sound : discipline.Sound phase (types.pushUnder 0) scene) :
    discipline.Runs phase (Staging.watched.runBody invoke budget function arguments) scene
      fun value after =>
        (∃ types', discipline.Sound phase types' after ∧ types'.pop = types) ∧
          discipline.Fits value typed.returns := by
  obtain ⟨arity, noted, extended, declared, body⟩ := typing
  have sees : (Scope.push ⟨[], root⟩).Sees discipline.Agrees discipline.AgreesOn
      (types.pushUnder 0) := .pushUnder_root anchored
  have same : discipline.marked = true →
      (function.signature.map Signature.parameters).getD [] = typed.parameters := by
    intro marked
    rw [noted marked]
    rfl
  apply Ensures.recording
  apply (Watched.bindParameters_runs sameLength.symm arity.symm declared same fit sees
    (.pushUnder _ _) sound).bind
  rintro _ after ⟨types', leaves⟩
  apply (Stmt.stageAll_runs invokes function.body body (leaves.sees rfl) leaves.nested
    leaves.sound).bind
  rintro flow after ⟨⟨types'', sound', below⟩, fits⟩
  cases flow with
  | returned value =>
      have fit := fits value rfl
      exact .pure ⟨sound'.steady_returned noted fit, ⟨types'', sound', below⟩, fit⟩
  | normal =>
      have fit := discipline.fits_nil typed.returns
      exact .pure ⟨sound'.steady_returned noted fit, ⟨types'', sound', below⟩, fit⟩

theorem Watched.invokeWith_sound (invokes : invoke.Sound discipline phase) (budget : Nat) :
    (Staging.watched.invokeWith invoke budget).Sound discipline phase := by
  constructor
  intro name arity signature callable arguments offset types scene linked sound sameLength fit
  cases linked with
  | print =>
      apply (Runs.still sound (Exec.still_print _ _ _)).imp
      rintro value after ⟨sound, rfl⟩
      exact ⟨sound, discipline.fits_nil _⟩
  | logarithm same =>
      obtain ⟨argument, rfl⟩ := List.length_eq_one_iff.mp sameLength
      apply (Runs.still sound (Exec.still_logarithm _ _ _)).imp
      rintro value after ⟨sound, number, rfl⟩
      exact ⟨sound, Fits.transfer (discipline.fits_scalar (.decimal number)) same⟩
  | @user _ _ _ typed function root member typing sameArity same =>
      simp only [Staging.invokeWith]
      rw [if_neg (not_not.mpr (sameLength.trans sameArity.symm))]
      apply (Runs.pass sound (Exec.Still.look _)).bind
      intro full after sound
      cases full with
      | true =>
          apply (Runs.still sound (Exec.still_refuseCall _ _ _ _)).imp
          rintro value after ⟨_, impossible⟩
          exact impossible.elim
      | false =>
          have fit' : discipline.marked = true →
              List.Forall₂ discipline.Fits arguments typed.parameters := by
            intro marked
            rw [same marked]
            exact fit marked
          apply (Runs.inCall sound fun entered sound' =>
            Watched.runBody_runs invokes typing (sameLength.trans sameArity.symm) fit'
              (sound.anchored root member) sound').imp
          rintro value after ⟨sound, fits⟩
          refine ⟨sound, Fits.transfer fits fun marked => ?_⟩
          rw [same marked]

theorem Watched.invoke_sound (discipline : Discipline)
    (phase : Phase) (budget room : Nat) :
    (Staging.watched.invoke budget room).Sound discipline phase := by
  induction room with
  | zero =>
      constructor
      intro name arity signature callable arguments offset types scene _ sound _ _
      apply (Runs.still sound (Exec.still_refuseCall _ _ _ _)).imp
      rintro value after ⟨_, impossible⟩
      exact impossible.elim
  | succ room induction => exact Watched.invokeWith_sound induction budget

end Calls

section Definitions

theorem GlobalsTyping.alone {count : Nat} {globals : List Global} {after : Typing.Environment}
    (typing : GlobalsTyping discipline count environment globals after)
    (alone : environment.Alone) : after.Alone := by
  induction typing with
  | nil => exact alone
  | cons _ _ _ _ induction => exact induction (alone.defineVariable _ _)

theorem FunctionsTyping.alone {root : Frame Typing.VariableType Signature}
    {functions : List Function} {after : Typing.Environment}
    (typing : FunctionsTyping discipline root environment functions after)
    (alone : environment.Alone) : after.Alone := by
  induction typing with
  | nil => exact alone
  | cons _ _ _ induction => exact induction (alone.defineFunction _ _ _)

section Globals

variable {root : Option (Frame Typing.VariableType Signature)} {count count' : Nat}

theorem Expr.initial_runs (invokes : invoke.Sound discipline ⟨root, count⟩)
    (sees : environment.Sees discipline.Agrees discipline.AgreesOn types) {value : Option Expr}
    {ty : Ty} (typing : InitialTyping discipline environment ty count value count')
    (sound : discipline.Sound ⟨root, count⟩ types scene) :
    discipline.Runs ⟨root, count⟩ (Expr.stageOption .watched invoke value) scene fun value after =>
      discipline.Sound ⟨root, count'⟩ types after ∧ discipline.Fits value ty := by
  cases typing with
  | value typing => exact Expr.stageOption_runs invokes sees typing sound
  | @list note elements lists noted elementsTyping =>
      have makes : discipline.Runs ⟨root, count⟩ (do
          let values ← Expr.stageAll .watched invoke elements
          Staging.watched.act (Exec.allocate values) : Watched Value) scene fun value after =>
            discipline.Sound ⟨root, count + 1⟩ types after ∧ value = .list count := by
        apply (Expr.stageAll_runs invokes sees elements elementsTyping sound).bind
        rintro values after ⟨sound, fit⟩
        refine Runs.allocate sound lists fun value member => ?_
        obtain ⟨index, rfl⟩ := List.get_of_mem member
        simpa using fit.get index.isLt (fit.length_eq ▸ index.isLt)
      apply Ensures.recording
      apply Ensures.imp makes _ fun _ _ => id
      rintro value after ⟨sound, rfl⟩
      have fits := discipline.fits_list lists
      exact ⟨sound.steady_evaluated noted fits fun _ _ _ => ⟨count, rfl, lists⟩, sound, fits⟩

theorem Watched.defineGlobals_ensures (invokes : ∀ phase, invoke.Sound discipline phase)
    {globals : List Global} {after : Typing.Environment}
    (typing : GlobalsTyping discipline count environment globals after)
    (sees : environment.Sees discipline.Agrees discipline.AgreesOn types) (alone : types.Alone)
    (sound : discipline.Sound ⟨none, count⟩ types scene) :
    (Staging.watched.defineGlobals invoke globals).Ensures scene discipline.Permits
      discipline.Steady (fun _ scene' => ∃ types' count', discipline.Sound ⟨none, count'⟩ types' scene' ∧
        after.Sees discipline.Agrees discipline.AgreesOn types' ∧ types'.Alone)
      fun stop _ => stop.isStatic = false := by
  induction typing generalizing types scene with
  | @nil count => exact .pure ⟨types, count, sound, sees, alone⟩
  | @cons count count' environment after global rest ty initialTyping same fresh _ induction =>
      have first : (Staging.watched.defineGlobal invoke global).Ensures scene discipline.Permits
          discipline.Steady (fun _ scene' => discipline.Sound ⟨none, count'⟩
            (types.defineVariable global.name ⟨global.ty.getD .any, global.mutable⟩) scene')
          fun stop _ => stop.isStatic = false := by
        apply Ensures.bind
        apply Ensures.imp (Expr.initial_runs (invokes _) sees initialTyping sound)
        · rintro value scene' ⟨sound', fits⟩
          apply Ensures.imp (Watched.declare_runs sound' sees fresh fits same _)
          · exact fun _ _ => id
          · exact fun _ _ stopped => stopped.2
          · intro root member
            cases member
        · exact fun _ _ stopped => stopped.2
      apply Ensures.bind
      apply first.imp _ fun _ _ => id
      intro _ scene' sound'
      have sees' : (environment.defineVariable global.name ⟨ty, global.mutable⟩).Sees
          discipline.Agrees discipline.AgreesOn
          (types.defineVariable global.name ⟨global.ty.getD .any, global.mutable⟩) :=
        sees.defineVariable global.name ⟨rfl, same⟩
      exact induction sees' (alone.defineVariable _ _) sound'

end Globals

/-- The functions are bound one by one; none of them is called before all are. -/
theorem Watched.defineFunctions_ensures {root : Frame Typing.VariableType Signature} {count : Nat}
    {functions : List Function} {after : Typing.Environment}
    (typing : FunctionsTyping discipline root environment functions after)
    (sees : environment.Sees discipline.Agrees discipline.AgreesOn types) (alone : types.Alone)
    (noted : scene.types = types)
    (mirrors : types.Mirrors discipline.Holds (discipline.Linked ⟨some root, count⟩)
      scene.machine.environment) (kept : discipline.Keeps scene.machine.store) :
    (Staging.watched.defineFunctions functions).Ensures scene discipline.Permits discipline.Steady
      (fun _ scene' => ∃ types', scene'.types = types' ∧ types'.Alone ∧
        types'.Mirrors discipline.Holds (discipline.Linked ⟨some root, count⟩)
          scene'.machine.environment ∧
        after.Sees discipline.Agrees discipline.AgreesOn types' ∧
        scene'.machine.store = scene.machine.store)
      fun _ _ => False := by
  induction typing generalizing types scene with
  | nil => exact .pure ⟨types, noted, alone, mirrors, sees, rfl⟩
  | @cons environment after function rest signature bodyTyping fresh _ induction =>
      have same : discipline.marked = true → signature = function.signature.getD default := by
        intro marked
        rw [bodyTyping.noted marked]
        rfl
      have fresh' : scene.machine.environment.definesFunction function.name function.arity =
          false := by
        rw [mirrors.sees.definesFunction, sees.definesFunction]
        exact fresh
      have home : scene.machine.environment.current = 0 := by
        rw [mirrors.current]
        exact congrArg List.length alone
      have linked : discipline.Linked ⟨some root, count⟩ (function.name, function.arity)
          (function.signature.getD default)
          (.user function scene.machine.environment.current) := by
        rw [home]
        exact .user rfl bodyTyping rfl same
      have mirrors' := mirrors.defineFunction function.name function.arity linked
      apply Ensures.bind
      apply Ensures.defineFunction
      apply Exec.Ends.bind
      apply Exec.Ends.look
      simp only [fresh', Bool.false_eq_true, if_false]
      apply Exec.Ends.modify
      rw [noted]
      refine ⟨⟨kept, mirrors'.imp (fun _ _ => id) fun _ _ _ _ => trivial, ?_, ?_, ?_⟩, ?_⟩
      · intro expr value equal
        cases equal
      · intro function value equal
        cases equal
      · intro note elements value equal
        cases equal
      · exact induction (sees.defineFunction _ _ same) (alone.defineFunction _ _ _) rfl mirrors'
          kept

theorem Watched.callMain_runs (invokes : invoke.Sound discipline phase)
    (sees : environment.Sees discipline.Agrees discipline.AgreesOn types)
    (main : (environment.findFunction? "main" 0).isSome = true)
    (sound : discipline.Sound phase types scene) :
    discipline.Runs phase (Staging.watched.callMain invoke) scene fun _ after =>
      discipline.Sound phase types after := by
  obtain ⟨typed, found⟩ := Option.isSome_iff_exists.mp main
  obtain ⟨signature, callable, foundCallable, _, linked⟩ := sound.findFunction sees found
  apply Ensures.bind
  apply Ensures.step
  apply Exec.Ends.look
  refine ⟨sound.steady, ?_⟩
  rw [foundCallable]
  apply (invokes.runs linked sound rfl _).imp
  · exact fun _ _ both => both.1
  · intro marked
    cases linked with
    | user _ typing sameArity same =>
        have empty : signature.parameters = [] := by
          rw [← same marked]
          exact List.length_eq_zero_iff.mp (typing.arity.trans sameArity)
        rw [empty]
        exact .nil

end Definitions

/-- The run of a typed program is steady as long as it stores what is permitted.  If it always
does, no fault about the text of the program ends it. -/
theorem Program.watch_ensures {program : Program} {between after : Typing.Environment}
    (typing : ProgramTyping discipline program between after) (budget : Nat) (machine : Machine) :
    Lasts discipline.Permits discipline.Steady (program.moments budget machine) ∧
      ((∀ moment ∈ program.moments budget machine, discipline.Permits moment) →
        ∀ stop, (program.watch budget machine).result = .error stop →
          stop.isStatic = false) := by
  have invokes (phase : Phase) := Watched.invoke_sound discipline phase budget machine.reset.room
  have start : discipline.Sound ⟨none, 0⟩ Typing.root ⟨machine.reset, Typing.root⟩ := by
    refine ⟨rfl, ?_, ?_, rfl, discipline.keeps_empty⟩
    · exact (Scope.Mirrors.empty.defineFunction "print" 1 .print).defineFunction "logarithm" 1
        (.logarithm fun _ => rfl)
    · intro root member
      cases member
  have sees : Scope.Sees discipline.Agrees discipline.AgreesOn Typing.root Typing.root :=
    (Scope.Sees.empty.defineFunction "print" 1 fun _ => rfl).defineFunction "logarithm" 1
      fun _ => rfl
  have alone : after.Alone := typing.functions.alone (typing.globals.alone rfl)
  have ensures : (do
      Watched.report .acted
      program.stage .watched (Staging.watched.invoke budget machine.reset.room) :
        Watched Value).Ensures
        ⟨machine.reset, Typing.root⟩ discipline.Permits discipline.Steady (fun _ _ => True)
        fun stop _ => stop.isStatic = false := by
    apply Ensures.bind
    apply Ensures.report start.steady
    intro _
    apply Ensures.bind
    apply (Watched.defineGlobals_ensures invokes typing.globals sees rfl start).imp _
      fun _ _ => id
    rintro _ scene ⟨types, count, sound, sees', alone'⟩
    apply Ensures.bind
    have mirrors : types.Mirrors discipline.Holds (discipline.Linked ⟨some after.root, count⟩)
        scene.machine.environment :=
      sound.mirrors.imp (fun _ _ => id) fun _ _ _ linked => linked.mono fun _ member => by
        cases member
    apply Ensures.imp (Watched.defineFunctions_ensures typing.functions sees' alone' sound.noted
      mirrors sound.kept)
    · rintro _ scene' ⟨types', noted, alone'', mirrors, sees'', same⟩
      have sound' : discipline.Sound ⟨some after.root, count⟩ types' scene' := by
        refine ⟨noted, mirrors, fun root member => ?_, same ▸ sound.counted, same ▸ sound.kept⟩
        obtain rfl := Option.some.inj member
        rw [← alone.newest, ← alone''.newest]
        exact sees''.newest
      apply Ensures.imp (Watched.callMain_runs (invokes _) sees'' typing.main sound')
      · exact fun _ _ _ => trivial
      · exact fun _ _ stopped => stopped.2
    · exact fun _ _ impossible => impossible.elim
  exact ⟨ensures.lasts, ensures.stops⟩

end Procedural
