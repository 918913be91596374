import Procedural.Proofs.Execution.Erasure
import Procedural.Proofs.Execution.Sanity
import Procedural.Tool

/-!
# Lists never contain themselves

At every moment of a run, of whatever program, the store is well formed.  So values can
be written out, compared and searched to their ends, and an element is refused exactly
if storing it would close a cycle.
-/

namespace Procedural

open Watched

variable {bound : Nat} {scene after : Scene}

/-- Calls on values that refer to cells of the store give such values again. -/
structure StagedInvoker.Preserves (invoke : StagedInvoker Watched) : Prop where
  call : ∀ {callable : Callable} {arguments : List Value} {offset bound : Nat} {scene : Scene},
    scene.Sane bound → (∀ value ∈ arguments, value.Below scene.size) →
    Watched.Preserves (invoke callable arguments offset) scene fun value after =>
      after.Sane bound ∧ value.Below after.size

variable {invoke : StagedInvoker Watched}

section Expressions

open Watched.Preserves

theorem Watched.truth_preserves {value : Value} {offset : Nat} (sane : scene.Sane bound) :
    Watched.Preserves (do
      let value ← Staging.watched.act (Exec.truth value offset)
      pure (.scalar (.boolean value)) : Watched Value) scene fun value after =>
        after.Sane bound ∧ value.Below after.size := by
  apply (pass sane (Exec.still_truth _ _ _)).bind
  intro value after sane
  exact .pure ⟨sane, Value.below_scalar _ _⟩

mutual

theorem Expr.stage_preserves (invokes : invoke.Preserves) : ∀ (expr : Expr) {bound : Nat}
    {scene : Scene}, scene.Sane bound →
    Watched.Preserves (expr.stage .watched invoke) scene fun value after =>
      after.Sane bound ∧ value.Below after.size
  | .literal note value, _, _, sane => Preserves.recording (.pure ⟨sane, Value.below_scalar _ _⟩)
  | .group note inner, _, _, sane => Preserves.recording (Expr.stage_preserves invokes inner sane)
  | .binary note op left right, _, _, sane => by
      apply Preserves.recording
      apply (Expr.stage_preserves invokes left sane).bind
      rintro first after ⟨sane, _⟩
      cases op with
      | and =>
          apply (pass sane (Exec.still_truth _ _ _)).bind
          intro holds after sane
          cases holds with
          | false => exact .pure ⟨sane, Value.below_scalar _ _⟩
          | true =>
              apply (Expr.stage_preserves invokes right sane).bind
              rintro second after ⟨sane, _⟩
              exact Watched.truth_preserves sane
      | or =>
          apply (pass sane (Exec.still_truth _ _ _)).bind
          intro holds after sane
          cases holds with
          | true => exact .pure ⟨sane, Value.below_scalar _ _⟩
          | false =>
              apply (Expr.stage_preserves invokes right sane).bind
              rintro second after ⟨sane, _⟩
              exact Watched.truth_preserves sane
      | _ =>
          apply (Expr.stage_preserves invokes right sane).bind
          rintro second after ⟨sane, _⟩
          apply (still sane (Exec.still_operator _ _ _ _ _)).imp
          rintro value after ⟨sane, _, result, _, rfl⟩
          exact ⟨sane, Value.below_scalar _ _⟩
  | .access note name, _, _, sane => by
      apply Preserves.recording
      apply (Watched.Preserves.findVariable sane).bind
      exact fun _ _ both => .pure both
  | .element note name index, _, _, sane => by
      apply Preserves.recording
      apply (Watched.Preserves.findVariable sane).bind
      rintro binding after ⟨sane, _⟩
      apply (Expr.stage_preserves invokes index sane).bind
      rintro value after ⟨sane, _⟩
      apply (pass sane (Exec.still_integer _ _ _)).bind
      intro position after sane
      apply (pass sane (Exec.still_cell _ _ _)).bind
      intro cell before sane
      apply (still sane (Exec.still_element _ _ _ _)).imp
      rintro element after ⟨sane', same, rfl | member⟩
      · exact ⟨sane', Value.below_scalar _ _⟩
      · refine ⟨sane', sane'.wellFormed.closed cell element ?_⟩
        rw [same]
        exact member
  | .call note name arguments, _, _, sane => by
      apply Preserves.recording
      apply (Watched.Preserves.findFunction sane).bind
      intro callable after sane
      apply (Expr.stageAll_preserves invokes arguments sane).bind
      rintro values after ⟨sane, below⟩
      exact invokes.call sane below
  | .list note elements, _, _, sane => by
      apply Preserves.recording
      apply (Expr.stageAll_preserves invokes elements sane).bind
      rintro values after ⟨sane, below⟩
      exact Watched.Preserves.allocate sane below

theorem Expr.stageAll_preserves (invokes : invoke.Preserves) : ∀ (exprs : List Expr) {bound : Nat}
    {scene : Scene}, scene.Sane bound →
    Watched.Preserves (Expr.stageAll .watched invoke exprs) scene fun values after =>
      after.Sane bound ∧ ∀ value ∈ values, value.Below after.size
  | [], _, _, sane => .pure ⟨sane, by simp⟩
  | first :: rest, _, _, sane => by
      apply (Expr.stage_preserves invokes first sane).bind
      rintro value after ⟨sane, below⟩
      apply (Expr.stageAll_preserves invokes rest sane.renew).bind
      rintro values after' ⟨sane', below'⟩
      exact .pure ⟨sane.trans sane',
        List.forall_mem_cons.mpr ⟨below.mono sane'.grown, below'⟩⟩

end

theorem Expr.stageOption_preserves (invokes : invoke.Preserves) (value : Option Expr)
    (sane : scene.Sane bound) :
    Watched.Preserves (Expr.stageOption .watched invoke value) scene fun value after =>
      after.Sane bound ∧ value.Below after.size := by
  cases value with
  | none => exact .pure ⟨sane, Value.below_scalar _ _⟩
  | some expr => exact Expr.stage_preserves invokes expr sane

theorem Expr.stageCondition_preserves (invokes : invoke.Preserves) (expr : Expr)
    (sane : scene.Sane bound) :
    Watched.Preserves (expr.stageCondition .watched invoke) scene fun _ after =>
      after.Sane bound := by
  apply (Expr.stage_preserves invokes expr sane).bind
  rintro value after ⟨sane, _⟩
  exact pass sane (Exec.still_truth _ _ _)

theorem Expr.stageIndex_preserves (invokes : invoke.Preserves) (expr : Expr)
    (sane : scene.Sane bound) :
    Watched.Preserves (expr.stageIndex .watched invoke) scene fun _ after => after.Sane bound := by
  apply (Expr.stage_preserves invokes expr sane).bind
  rintro value after ⟨sane, _⟩
  exact pass sane (Exec.still_integer _ _ _)

end Expressions

section Statements

open Watched.Preserves

/-- A returned value refers to cells below a bound only. -/
def Flow.Below (flow : Flow) (bound : Nat) : Prop :=
  ∀ value, flow = .returned value → value.Below bound

theorem Flow.below_normal (bound : Nat) : Flow.normal.Below bound := by
  intro value equal
  cases equal

theorem Flow.below_returned {value : Value} (below : value.Below bound) :
    (Flow.returned value).Below bound := by
  intro other equal
  cases equal
  exact below

theorem Watched.assign_preserves (invokes : invoke.Preserves) (receiver value : Expr)
    (sane : scene.Sane bound) :
    Watched.Preserves (Staging.watched.assign invoke receiver value) scene fun _ after =>
      after.Sane bound := by
  cases receiver with
  | access note name =>
      apply (Watched.Preserves.requireMutable sane).bind
      intro _ after sane
      apply (Expr.stage_preserves invokes value sane).bind
      rintro newValue after ⟨sane, below⟩
      exact Watched.Preserves.assignVariable sane below
  | element note name index =>
      apply (Watched.Preserves.requireMutable sane).bind
      intro _ after sane
      apply (Expr.stageIndex_preserves invokes index sane).bind
      intro position after sane
      apply (Expr.stage_preserves invokes value sane).bind
      rintro newValue before ⟨sane, below⟩
      apply (Watched.Preserves.findVariable sane.renew).bind
      rintro binding after ⟨sane', _⟩
      apply (still sane'.renew (Exec.still_cell _ _ _)).bind
      rintro cell after' ⟨sane'', _, _⟩
      have grown := Nat.le_trans sane'.grown sane''.grown
      apply Ensures.bind
      apply Ensures.report sane''.any
      intro _
      apply (Watched.Preserves.storeElement sane''.renew (below.mono grown)).imp
      intro _ after'' sane'''
      exact sane.trans (sane'.trans (sane''.trans sane'''))
  | _ => exact Watched.Preserves.raise sane

theorem Watched.declareLocal_preserves (invokes : invoke.Preserves) (name : String)
    (written : Option String) (value : Option Expr) (sane : scene.Sane bound) :
    Watched.Preserves (Staging.watched.declareLocal invoke name written value) scene fun _ after =>
      after.Sane bound := by
  apply (Expr.stageOption_preserves invokes value sane).bind
  rintro initial after ⟨sane, below⟩
  exact Watched.Preserves.declare sane below

theorem Watched.repeatWhile_preserves {test : Watched Bool} {body : Watched Flow}
    (tests : ∀ scene : Scene, scene.Sane bound →
      Watched.Preserves test scene fun _ after => after.Sane bound)
    (bodies : ∀ scene : Scene, scene.Sane bound →
      Watched.Preserves body scene fun flow after => after.Sane bound ∧ flow.Below after.size)
    (budget : Nat) (sane : scene.Sane bound) :
    Watched.Preserves (Staging.watched.repeatWhile test body budget) scene fun flow after =>
      after.Sane bound ∧ flow.Below after.size := by
  induction budget generalizing scene with
  | zero => exact Ensures.step (.stop ⟨sane.any, sane.any⟩)
  | succ budget induction =>
      apply (tests scene sane).bind
      intro holds after sane
      cases holds with
      | false => exact .pure ⟨sane, Flow.below_normal _⟩
      | true =>
          apply (bodies after sane).bind
          rintro flow after ⟨sane, below⟩
          cases flow with
          | normal => exact induction sane
          | returned value => exact .pure ⟨sane, below⟩

variable {budget : Nat}

mutual

theorem Stmt.stage_preserves (invokes : invoke.Preserves) : ∀ (stmt : Stmt) {bound : Nat}
    {scene : Scene}, scene.Sane bound →
    Watched.Preserves (stmt.stage .watched invoke budget) scene fun flow after =>
      after.Sane bound ∧ flow.Below after.size
  | .expression value, _, _, sane => by
      apply (Expr.stage_preserves invokes value sane).bind
      rintro result after ⟨sane, _⟩
      exact .pure ⟨sane, Flow.below_normal _⟩
  | .declaration name written value, _, _, sane => by
      apply (Watched.declareLocal_preserves invokes name written value sane).bind
      intro _ after sane
      exact .pure ⟨sane, Flow.below_normal _⟩
  | .assignment receiver value, _, _, sane => by
      apply (Watched.assign_preserves invokes receiver value sane).bind
      intro _ after sane
      exact .pure ⟨sane, Flow.below_normal _⟩
  | .branch condition thenBlock elseBlock, _, _, sane => by
      apply (Expr.stageCondition_preserves invokes condition sane).bind
      intro holds after sane
      cases holds with
      | true =>
          exact Watched.Preserves.inFrame sane fun _ sane =>
            Stmt.stageAll_preserves invokes thenBlock sane
      | false =>
          exact Watched.Preserves.inFrame sane fun _ sane =>
            Stmt.stageAll_preserves invokes elseBlock sane
  | .switch condition cases, _, _, sane => by
      apply (Expr.stage_preserves invokes condition sane).bind
      rintro selector after ⟨sane, _⟩
      exact Case.stageFirst_preserves invokes cases sane
  | .loop condition body, _, _, sane => by
      apply Watched.repeatWhile_preserves _ _ budget sane
      · intro scene sane
        exact Expr.stageCondition_preserves invokes condition sane
      · intro scene sane
        exact Watched.Preserves.inFrame sane fun _ sane =>
          Stmt.stageAll_preserves invokes body sane
  | .result value, _, _, sane => by
      apply (Expr.stage_preserves invokes value sane).bind
      rintro result after ⟨sane, below⟩
      exact .pure ⟨sane, Flow.below_returned below⟩

theorem Stmt.stageAll_preserves (invokes : invoke.Preserves) : ∀ (stmts : List Stmt) {bound : Nat}
    {scene : Scene}, scene.Sane bound →
    Watched.Preserves (Stmt.stageAll .watched invoke budget stmts) scene fun flow after =>
      after.Sane bound ∧ flow.Below after.size
  | [], _, _, sane => .pure ⟨sane, Flow.below_normal _⟩
  | stmt :: rest, _, _, sane => by
      apply (Stmt.stage_preserves invokes stmt sane).bind
      rintro flow after ⟨sane, below⟩
      cases flow with
      | normal => exact Stmt.stageAll_preserves invokes rest sane
      | returned value => exact .pure ⟨sane, below⟩

theorem Case.stageFirst_preserves (invokes : invoke.Preserves) {selector : Value} :
    ∀ (cases : List Case) {bound : Nat} {scene : Scene}, scene.Sane bound →
    Watched.Preserves (Case.stageFirst .watched invoke budget selector cases) scene
      fun flow after => after.Sane bound ∧ flow.Below after.size
  | [], _, _, sane => .pure ⟨sane, Flow.below_normal _⟩
  | .mk none body :: _, _, _, sane =>
      Watched.Preserves.inFrame sane fun _ sane => Stmt.stageAll_preserves invokes body sane
  | .mk (some value) body :: rest, _, _, sane => by
      apply (Expr.stage_preserves invokes value sane).bind
      rintro candidate after ⟨sane, _⟩
      apply (pass sane (Exec.Still.look _)).bind
      intro equal after sane
      cases equal with
      | false => exact Case.stageFirst_preserves invokes rest sane
      | true =>
          exact Watched.Preserves.inFrame sane fun _ sane =>
            Stmt.stageAll_preserves invokes body sane

end

end Statements

section Programs

variable {budget : Nat}

theorem Watched.bindParameters_preserves (bindings : List (String × Value)) (types : List Ty)
    (below : ∀ binding ∈ bindings, binding.2.Below scene.size) (sane : scene.Sane bound) :
    Watched.Preserves (Watched.bindParameters bindings types) scene fun _ after =>
      after.Sane bound := by
  induction bindings generalizing types scene with
  | nil => exact .pure sane
  | cons binding rest induction =>
      obtain ⟨name, value⟩ := binding
      obtain ⟨belowFirst, belowRest⟩ := List.forall_mem_cons.mp below
      have bound' : (scene.types.defineVariable name ⟨types.headD .any, true⟩).Mirrors
          (fun _ binding => binding.value.Below scene.size) (fun _ _ _ => True)
          (scene.machine.environment.defineVariable name ⟨value, true⟩) :=
        sane.bindings.defineVariable name belowFirst
      have now : (Scene.mk { scene.machine with
          environment := scene.machine.environment.defineVariable name ⟨value, true⟩ }
          (scene.types.defineVariable name ⟨types.headD .any, true⟩)).Sane bound :=
        ⟨sane.wellFormed, bound', sane.grown⟩
      apply Ensures.bind
      apply Ensures.stepNoting
      apply Exec.Ends.modify
      exact ⟨now.any, induction types.tail belowRest now⟩

theorem Watched.runBody_preserves (invokes : invoke.Preserves) (function : Function)
    {arguments : List Value} (below : ∀ value ∈ arguments, value.Below scene.size)
    (sane : scene.Sane bound) :
    Watched.Preserves (Staging.watched.runBody invoke budget function arguments) scene
      fun value after => after.Sane bound ∧ value.Below after.size := by
  have belowBindings : ∀ binding ∈ function.parameters.zip arguments,
      binding.2.Below scene.size := fun binding member =>
    below binding.2 (List.of_mem_zip member).2
  apply Preserves.recording
  apply (Watched.bindParameters_preserves _ _ belowBindings sane).bind
  intro _ after sane
  apply (Stmt.stageAll_preserves invokes function.body sane).bind
  rintro flow after ⟨sane, below⟩
  cases flow with
  | returned value => exact .pure ⟨sane, below value rfl⟩
  | normal => exact .pure ⟨sane, Value.below_scalar _ _⟩

theorem Watched.invokeWith_preserves (invokes : invoke.Preserves) (budget : Nat) :
    (Staging.watched.invokeWith invoke budget).Preserves := by
  constructor
  intro callable arguments offset bound scene sane below
  cases callable with
  | builtin builtin =>
      cases builtin with
      | print =>
          apply (Watched.Preserves.still sane (Exec.still_print _ _ _)).imp
          rintro value after ⟨sane, _, rfl⟩
          exact ⟨sane, Value.below_scalar _ _⟩
      | logarithm =>
          apply Ensures.step
          apply Exec.Ends.bind
          apply Exec.Ends.liftAt
          · intro number _
            exact ⟨sane.any, sane, Value.below_scalar _ _⟩
          · intro _ _
            exact ⟨sane.any, sane.any⟩
  | user function home =>
      simp only [Staging.invokeWith]
      split
      · exact Watched.Preserves.raise sane
      · apply (Watched.Preserves.still sane (Exec.Still.look _)).bind
        rintro full after ⟨sane', same, _⟩
        cases full with
        | true =>
            apply (Watched.Preserves.still sane' (Exec.still_refuseCall _ _ _ _)).imp
            exact fun _ _ impossible => impossible.2.2.elim
        | false =>
            have below' : ∀ value ∈ arguments, value.Below after.size := by
              intro value member
              rw [Scene.size, same]
              exact below value member
            apply (Watched.Preserves.inCall sane'.renew fun entered sane'' =>
              Watched.runBody_preserves invokes function
                (fun value member => (below' value member).mono sane''.grown) sane'').imp
            rintro value after' ⟨sane'', below''⟩
            exact ⟨sane'.trans sane'', below''⟩

theorem Watched.invoke_preserves (budget room : Nat) :
    (Staging.watched.invoke budget room).Preserves := by
  induction room with
  | zero =>
      constructor
      intro callable arguments offset bound scene sane _
      apply (Watched.Preserves.still sane (Exec.still_refuseCall _ _ _ _)).imp
      exact fun _ _ impossible => impossible.2.2.elim
  | succ room induction => exact Watched.invokeWith_preserves induction budget

theorem Watched.defineGlobals_preserves (invokes : invoke.Preserves) (globals : List Global)
    (sane : scene.Sane bound) :
    Watched.Preserves (Staging.watched.defineGlobals invoke globals) scene fun _ after =>
      after.Sane bound := by
  induction globals generalizing scene with
  | nil => exact .pure sane
  | cons global rest induction =>
      have first : Watched.Preserves (Staging.watched.defineGlobal invoke global) scene
          fun _ after => after.Sane bound := by
        apply (Expr.stageOption_preserves invokes global.value sane).bind
        rintro value after ⟨sane, below⟩
        exact Watched.Preserves.declare sane below
      exact first.bind fun _ _ sane => induction sane

theorem Watched.defineFunctions_preserves (functions : List Function) (sane : scene.Sane bound) :
    Watched.Preserves (Staging.watched.defineFunctions functions) scene fun _ after =>
      after.Sane bound := by
  induction functions generalizing scene with
  | nil => exact .pure sane
  | cons function rest induction =>
      exact (Watched.Preserves.defineFunction sane).bind fun _ _ sane => induction sane

theorem Watched.callMain_preserves (invokes : invoke.Preserves) (sane : scene.Sane bound) :
    Watched.Preserves (Staging.watched.callMain invoke) scene fun _ after => after.Sane bound := by
  apply (Watched.Preserves.pass sane (Exec.Still.look _)).bind
  intro found after sane
  cases found with
  | none => exact Watched.Preserves.raise sane
  | some callable =>
      apply (invokes.call sane (by simp)).imp
      exact fun _ _ both => both.1

theorem Program.watch_preserves (program : Program) (budget : Nat) (machine : Machine) :
    (∀ moment ∈ program.moments budget machine, moment.scene.Sane 0) ∧
      (program.watch budget machine).scene.Sane 0 := by
  have invokes := Watched.invoke_preserves budget machine.reset.room
  have start : (Scene.mk machine.reset Typing.root).Sane 0 := by
    refine ⟨Store.wellFormed_empty, ?_, Nat.zero_le _⟩
    exact (Scope.Mirrors.empty.defineFunction "print" 1 trivial).defineFunction "logarithm" 1
      trivial
  have preserves : Watched.Preserves (do
      Watched.report .acted
      program.stage .watched (Staging.watched.invoke budget machine.reset.room) : Watched Value)
        ⟨machine.reset, Typing.root⟩ fun _ after => after.Sane 0 := by
    apply Ensures.bind
    apply Ensures.report start
    intro _
    apply (Watched.defineGlobals_preserves invokes program.globals start).bind
    intro _ scene sane
    apply (Watched.defineFunctions_preserves program.functions sane).bind
    intro _ scene' sane'
    exact Watched.callMain_preserves invokes sane'
  refine ⟨preserves.lasts.forall_mem fun _ => trivial, ?_⟩
  cases ended : (program.watch budget machine).result with
  | ok value => exact preserves.ends (fun _ _ => trivial) value ended
  | error stop => exact preserves.stops (fun _ _ => trivial) stop ended

end Programs

section Moments

theorem Exec.storeElement_cyclicList_iff {machine : Machine} {cell : Nat} {index : Int}
    {indexOffset : Nat} {value : Value} {valueOffset : Nat} {offset : Option Nat} :
    (Exec.storeElement cell index indexOffset value valueOffset machine).1 =
        .error (.error ⟨.cyclicList, offset⟩) ↔
      machine.store.reaches cell value = true ∧ offset = some valueOffset := by
  have ends : (Exec.storeElement cell index indexOffset value valueOffset).Ends machine
      (fun _ _ => machine.store.reaches cell value = false)
      fun stop _ => machine.store.reaches cell value = true ∧
          stop = .error ⟨.cyclicList, some valueOffset⟩ ∨
        machine.store.reaches cell value = false ∧
          ∃ length, stop = .error ⟨.indexOutOfBounds index length, some indexOffset⟩ := by
    apply Exec.ends_storeElement
    · exact fun apart _ _ => apart
    · exact fun reaches => .inl ⟨reaches, rfl⟩
    · exact fun apart _ => .inr ⟨apart, _, rfl⟩
  unfold Exec.Ends at ends
  cases ended : Exec.storeElement cell index indexOffset value valueOffset machine with
  | mk result after =>
      rw [ended] at ends
      cases result with
      | ok _ => simp [show machine.store.reaches cell value = false from ends]
      | error stop =>
          rcases ends with ⟨reaches, rfl⟩ | ⟨apart, length, rfl⟩
          · simp [reaches, eq_comm]
          · simp [apart]

/-- No list holds itself, what looks into lists comes to an end, and storing an element is refused
exactly if it would close a cycle, be the index in range or not. -/
structure Machine.KeepsLists (machine : Machine) : Prop where
  acyclic : machine.store.Acyclic
  unfolds : machine.store.Unfolds
  reaches : ∀ target value,
    machine.store.reaches target value = true ↔ machine.store.Reaches target value
  refuses : ∀ cell index indexOffset value valueOffset offset,
    (Exec.storeElement cell index indexOffset value valueOffset machine).1 =
        .error (.error ⟨.cyclicList, offset⟩) ↔
      machine.store.Closes cell value ∧ offset = some valueOffset
  replaces : ∀ cell position value, position < (machine.store.elements cell).length →
    (machine.store.Closes cell value ↔ ¬ (machine.store.setElement cell position value).Acyclic)

theorem Scene.Sane.keepsLists (sane : scene.Sane bound) : scene.machine.KeepsLists := by
  have acyclic := sane.wellFormed.acyclic
  refine ⟨acyclic, acyclic.unfolds, acyclic.reaches_iff, ?_, ?_⟩
  · intro cell index indexOffset value valueOffset offset
    rw [Exec.storeElement_cyclicList_iff, acyclic.closes_iff, acyclic.reaches_iff]
  · intro cell position value inside
    rw [acyclic.closes_iff, acyclic.setElement_iff inside, not_not]

/-- At every moment of every run, and where it ends, lists are kept free of cycles, and only stores
that would close one are refused for it. -/
theorem Program.keepsLists_throughout (program : Program) (budget : Nat) (machine : Machine) :
    (∀ moment ∈ program.moments budget machine, moment.scene.machine.KeepsLists) ∧
      (program.execute budget machine).2.KeepsLists := by
  obtain ⟨always, atEnd⟩ := Program.watch_preserves program budget machine
  refine ⟨fun moment occurs => (always moment occurs).keepsLists, ?_⟩
  rw [← Program.watch_follows]
  exact atEnd.keepsLists

theorem Program.keepsLists_throughout_nested :
    ∃ program moment,
      Program.ofText
        "LIST a : Any = [ 1 ] ; LIST b : Any = [ 2 ] ; FUN main ( ) DO a [ 0 ] = b ; END" =
          .ok program ∧
      moment ∈ program.moments 0 (.start 1) ∧ moment.scene.machine.store.Holds 0 1 ∧
      moment.scene.machine.KeepsLists ∧ moment.scene.machine.store.Closes 1 (.list 0) := by
  have happens : ((Program.ofText
      "LIST a : Any = [ 1 ] ; LIST b : Any = [ 2 ] ; FUN main ( ) DO a [ 0 ] = b ; END"
      ).toOption.map fun program => (program.moments 0 (.start 1)).any fun moment =>
        decide (.list 1 ∈ moment.scene.machine.store.elements 0)) = some true := by
    decide +kernel
  cases read : Program.ofText
      "LIST a : Any = [ 1 ] ; LIST b : Any = [ 2 ] ; FUN main ( ) DO a [ 0 ] = b ; END" with
  | error problem =>
      rw [read] at happens
      cases happens
  | ok program =>
      simp only [read, Except.toOption, Option.map_some, Option.some.injEq, List.any_eq_true,
        decide_eq_true_eq] at happens
      obtain ⟨moment, occurs, holds⟩ := happens
      have keeps := (Program.keepsLists_throughout program 0 (.start 1)).1 moment occurs
      exact ⟨program, moment, rfl, occurs, holds, keeps,
        keeps.acyclic.closes_iff.mpr (.through holds .here)⟩

end Moments

end Procedural
