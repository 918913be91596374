import Procedural.Execution.Program
import Procedural.Proofs.Scope.Mapping
import Procedural.Proofs.Syntax.Relabelled

/-!
# Runs of relabelled programs

A relabelled program runs as the program does: with the same value, the same printed texts
and the same fault, at relabelled places.  Every action of the relabelled program, taken on
a relabelled machine, is compared with the action of the program.  The proof goes along the
definitions of the actions, and what a call does is a parameter until the nesting of calls
is unfolded.
-/

namespace Procedural

section

variable (labels : Relabelling)

/-- The error at its new place, if it has one. -/
def RuntimeError.relabel (error : RuntimeError) : RuntimeError :=
  { error with offset := error.offset.map labels.place }

def Stop.relabel : Stop → Stop
  | .error reason => .error (reason.relabel labels)
  | .exhausted => .exhausted

/-- A function of the program carries labels in its body; a built-in function has none. -/
def Callable.relabel : Callable → Callable
  | .builtin name => .builtin name
  | .user function home => .user (function.relabel labels) home

/-- The printed text with another place for the call that printed it. -/
def PrintedLine.relabel (line : PrintedLine) : PrintedLine :=
  { line with offset := labels.place line.offset }

/-- The machine with its functions and its output relabelled. -/
def Machine.relabel (machine : Machine) : Machine :=
  { machine with
    environment := machine.environment.mapFunctions (Callable.relabel labels)
    printed := machine.printed.map (PrintedLine.relabel labels) }

/-- The first action does on a relabelled machine what the second does, up to the labels;
`change` relabels the value it ends with. -/
def Exec.Mirrors {α : Type} (change : α → α) (relabelled action : Exec α) : Prop :=
  ∀ machine, relabelled (Machine.relabel labels machine) =
    (((action machine).1.map change).mapError (Stop.relabel labels),
      (action machine).2.relabel labels)

/-- A call of a relabelled function mirrors the call of the function. -/
def Invoker.Mirrors (invoke : Invoker) : Prop :=
  ∀ callable arguments offset,
    Exec.Mirrors labels id (invoke (callable.relabel labels) arguments (labels.place offset))
      (invoke callable arguments offset)

end

namespace Exec.Mirrors

variable {labels : Relabelling} {α β : Type} {change : α → α} {change' : β → β}

protected theorem pure (value : α) : Mirrors labels id (pure value) (pure value) :=
  fun _ => rfl

protected theorem bind {relabelled action : Exec α} {relabelledNext next : α → Exec β}
    (first : Mirrors labels change relabelled action)
    (later : ∀ value, Mirrors labels change' (relabelledNext (change value)) (next value)) :
    Mirrors labels change' (relabelled >>= relabelledNext) (action >>= next) := by
  intro machine
  change Exec.bind relabelled relabelledNext (machine.relabel labels) = _
  unfold Exec.bind
  rw [first machine]
  change _ = (((Exec.bind action next machine).1.map change').mapError (Stop.relabel labels),
    (Exec.bind action next machine).2.relabel labels)
  unfold Exec.bind
  cases ended : action machine with
  | mk result after =>
      cases result with
      | ok value => exact later value after
      | error stop => rfl

theorem raise (fault : RuntimeFault) (offset : Option Nat) :
    Mirrors labels change (Exec.raise fault (offset.map labels.place))
      (Exec.raise fault offset) :=
  fun _ => rfl

/-- A fault at a known place. -/
theorem raiseAt (fault : RuntimeFault) (offset : Nat) :
    Mirrors labels change (Exec.raise fault (some (labels.place offset)))
      (Exec.raise fault (some offset)) :=
  raise fault (some offset)

theorem liftAt (offset : Nat) (result : Except RuntimeFault α) :
    Mirrors labels id (Exec.liftAt (labels.place offset) result) (Exec.liftAt offset result) := by
  cases result with
  | ok value => exact .pure value
  | error fault => exact raiseAt fault offset

theorem truth (value : Value) (offset : Nat) :
    Mirrors labels id (Exec.truth value (labels.place offset)) (Exec.truth value offset) :=
  liftAt offset value.toBoolean

theorem integer (value : Value) (offset : Nat) :
    Mirrors labels id (Exec.integer value (labels.place offset)) (Exec.integer value offset) :=
  liftAt offset value.toInteger

theorem cell (value : Value) (offset : Nat) :
    Mirrors labels id (Exec.cell value (labels.place offset)) (Exec.cell value offset) :=
  liftAt offset value.toCell

theorem look {view : Machine → α}
    (same : ∀ machine, view (machine.relabel labels) = change (view machine)) :
    Mirrors labels change (Exec.look view) (Exec.look view) := by
  intro machine
  change (Except.ok (view (machine.relabel labels)), machine.relabel labels) = _
  rw [same]
  rfl

/-- A view of the machine that shows no labels. -/
theorem peek {view : Machine → α}
    (same : ∀ machine, view (machine.relabel labels) = view machine) :
    Mirrors labels id (Exec.look view) (Exec.look view) :=
  look same

theorem modify {step step' : Machine → Machine}
    (same : ∀ machine, step' (machine.relabel labels) = (step machine).relabel labels) :
    Mirrors labels id (Exec.modify step') (Exec.modify step) := by
  intro machine
  change (Except.ok (), step' (machine.relabel labels)) = _
  rw [same]
  rfl

theorem modifyEnvironment {step step' : Environment → Environment}
    (same : ∀ environment : Environment,
      step' (environment.mapFunctions (Callable.relabel labels)) =
        (step environment).mapFunctions (Callable.relabel labels)) :
    Mirrors labels id (Exec.modifyEnvironment step') (Exec.modifyEnvironment step) := by
  apply modify
  intro machine
  simp only [Machine.relabel, same]

theorem inFrame {enter : Environment → Environment} {relabelled action : Exec α}
    (same : ∀ environment : Environment,
      enter (environment.mapFunctions (Callable.relabel labels)) =
        (enter environment).mapFunctions (Callable.relabel labels))
    (inner : Mirrors labels change relabelled action) :
    Mirrors labels change (Exec.inFrame enter relabelled) (Exec.inFrame enter action) := by
  intro machine
  have ended := inner { machine with environment := enter machine.environment }
  have entered : { machine.relabel labels with
        environment := enter (machine.relabel labels).environment } =
      Machine.relabel labels { machine with environment := enter machine.environment } := by
    simp only [Machine.relabel, same]
  change (let ended := relabelled { machine.relabel labels with
      environment := enter (machine.relabel labels).environment }
    (ended.1, { ended.2 with environment := ended.2.environment.pop })) = _
  rw [entered, ended]
  simp only [Exec.inFrame, Machine.relabel, Scope.mapFunctions_pop]

theorem inBlock {relabelled action : Exec α} (inner : Mirrors labels change relabelled action) :
    Mirrors labels change (Exec.inBlock relabelled) (Exec.inBlock action) :=
  inner.inFrame fun environment =>
    (environment.mapFunctions_push (Callable.relabel labels)).symm

theorem inCall (home : Nat) {relabelled action : Exec α}
    (inner : Mirrors labels change relabelled action) :
    Mirrors labels change (Exec.inCall home relabelled) (Exec.inCall home action) := by
  intro machine
  have framed : Mirrors labels change (Exec.inFrame (Scope.pushUnder · home) relabelled)
      (Exec.inFrame (Scope.pushUnder · home) action) :=
    inner.inFrame fun environment =>
      (environment.mapFunctions_pushUnder (Callable.relabel labels) home).symm
  have ended := framed { machine with depth := machine.depth + 1 }
  change (let ended := Exec.inFrame (Scope.pushUnder · home) relabelled
            (Machine.relabel labels { machine with depth := machine.depth + 1 })
    (ended.1, { ended.2 with depth := ended.2.depth - 1 })) = _
  rw [ended]
  rfl

theorem allocate (elements : List Value) :
    Mirrors labels id (Exec.allocate elements) (Exec.allocate elements) :=
  fun _ => rfl

/-- The function that is found carries labels. -/
theorem lookFunction (name : String) (arity : Nat) :
    Mirrors labels (Option.map (Callable.relabel labels))
      (Exec.look fun machine => machine.environment.findFunction? name arity)
      (Exec.look fun machine => machine.environment.findFunction? name arity) :=
  look fun machine =>
    machine.environment.findFunction?_mapFunctions (Callable.relabel labels) name arity

theorem findVariable (name : String) (offset : Nat) :
    Mirrors labels id (Exec.findVariable name (labels.place offset))
      (Exec.findVariable name offset) := by
  apply (peek fun machine =>
    machine.environment.findVariable?_mapFunctions (Callable.relabel labels) name).bind
  intro found
  cases found with
  | none => exact raiseAt _ offset
  | some binding => exact .pure binding

theorem findFunction (name : String) (arity offset : Nat) :
    Mirrors labels (Callable.relabel labels)
      (Exec.findFunction name arity (labels.place offset))
      (Exec.findFunction name arity offset) := by
  apply (lookFunction name arity).bind
  intro found
  cases found with
  | none => exact raiseAt _ offset
  | some callable => exact fun _ => rfl

theorem defineVariable (name : String) (binding : Binding) :
    Mirrors labels id
      (Exec.modifyEnvironment fun environment => environment.defineVariable name binding)
      (Exec.modifyEnvironment fun environment => environment.defineVariable name binding) :=
  modifyEnvironment fun environment =>
    (environment.mapFunctions_defineVariable (Callable.relabel labels) name binding).symm

theorem declare (name : String) (offset : Option Nat) (binding : Binding) :
    Mirrors labels id (Exec.declare name (offset.map labels.place) binding)
      (Exec.declare name offset binding) := by
  apply (peek fun machine =>
    machine.environment.definesVariable_mapFunctions (Callable.relabel labels) name).bind
  intro taken
  cases taken with
  | true => exact raise _ offset
  | false => exact defineVariable name binding

theorem printLine (text : String) (offset : Nat) :
    Mirrors labels id (Exec.printLine text (labels.place offset))
      (Exec.printLine text offset) :=
  modify fun _ => rfl

theorem positionIn (index : Int) (length offset : Nat) :
    Mirrors labels id (Exec.positionIn index length (labels.place offset))
      (Exec.positionIn index length offset) := by
  unfold Exec.positionIn
  cases position? index length with
  | none => exact raiseAt _ offset
  | some position => exact .pure position

theorem element (cell : Nat) (index : Int) (offset : Nat) :
    Mirrors labels id (Exec.element cell index (labels.place offset))
      (Exec.element cell index offset) :=
  .bind (.peek fun _ => rfl) fun _ => (positionIn index _ offset).bind fun _ => .pure _

theorem operator (op : BinaryOp) (left right : Value) (offset : Nat) :
    Mirrors labels id (Exec.operator op left right (labels.place offset))
      (Exec.operator op left right offset) :=
  .bind (.peek fun _ => rfl) fun outcome => (liftAt offset outcome).bind fun _ => .pure _

end Exec.Mirrors

open Exec

section Mirroring

variable {labels : Relabelling} {invoke : Invoker}

mutual

theorem Expr.evaluate_mirrors (invokes : invoke.Mirrors labels) : ∀ expr : Expr,
    Mirrors labels id ((expr.relabel labels).evaluate invoke) (expr.evaluate invoke)
  | .literal note value => .pure _
  | .group note inner => Expr.evaluate_mirrors invokes inner
  | .binary note op left right => by
      simp only [Expr.relabel, Expr.evaluate, Expr.offset_relabel]
      apply (Expr.evaluate_mirrors invokes left).bind
      intro first
      have second := Expr.evaluate_mirrors invokes right
      cases op with
      | and =>
          apply (Mirrors.truth first left.offset).bind
          intro holds
          cases holds with
          | false => exact .pure _
          | true =>
              exact second.bind fun _ => (Mirrors.truth _ right.offset).bind fun _ => .pure _
      | or =>
          apply (Mirrors.truth first left.offset).bind
          intro holds
          cases holds with
          | false =>
              exact second.bind fun _ => (Mirrors.truth _ right.offset).bind fun _ => .pure _
          | true => exact .pure _
      | _ => exact second.bind fun value => .operator _ first value note.offset
  | .access note name => (Mirrors.findVariable name note.offset).bind fun _ => .pure _
  | .element note name index => by
      simp only [Expr.relabel, Expr.evaluate, Expr.offset_relabel]
      apply (Mirrors.findVariable name note.offset).bind
      intro binding
      apply (Expr.evaluate_mirrors invokes index).bind
      intro value
      apply (Mirrors.integer value index.offset).bind
      intro position
      exact (Mirrors.cell binding.value note.offset).bind fun cell =>
        .element cell position index.offset
  | .call note name arguments => by
      simp only [Expr.relabel, Expr.evaluate, Expr.length_relabelItems]
      apply (Mirrors.findFunction name arguments.length note.offset).bind
      intro callable
      exact (Expr.evaluateAll_mirrors invokes arguments).bind fun values =>
        invokes callable values note.offset
  | .list note elements =>
      (Expr.evaluateAll_mirrors invokes elements).bind fun values => .allocate values

theorem Expr.evaluateAll_mirrors (invokes : invoke.Mirrors labels) : ∀ exprs : List Expr,
    Mirrors labels id (Expr.evaluateAll invoke (relabelItems labels exprs))
      (Expr.evaluateAll invoke exprs)
  | [] => .pure _
  | first :: rest =>
      (Expr.evaluate_mirrors invokes first).bind fun _ =>
        (Expr.evaluateAll_mirrors invokes rest).bind fun _ => .pure _

end

theorem Expr.evaluateOption_mirrors (invokes : invoke.Mirrors labels) (value : Option Expr) :
    Mirrors labels id (Expr.evaluateOption invoke (value.map (Expr.relabel labels)))
      (Expr.evaluateOption invoke value) := by
  cases value with
  | none => exact .pure _
  | some expr => exact Expr.evaluate_mirrors invokes expr

theorem Expr.evaluateCondition_mirrors (invokes : invoke.Mirrors labels) (expr : Expr) :
    Mirrors labels id ((expr.relabel labels).evaluateCondition invoke)
      (expr.evaluateCondition invoke) := by
  simp only [Expr.evaluateCondition, Expr.offset_relabel]
  exact (Expr.evaluate_mirrors invokes expr).bind fun value => .truth value expr.offset

theorem Expr.evaluateIndex_mirrors (invokes : invoke.Mirrors labels) (expr : Expr) :
    Mirrors labels id ((expr.relabel labels).evaluateIndex invoke) (expr.evaluateIndex invoke) := by
  simp only [Expr.evaluateIndex, Expr.offset_relabel]
  exact (Expr.evaluate_mirrors invokes expr).bind fun value => .integer value expr.offset

theorem Exec.requireMutable_mirrors (name : String) (offset : Nat) :
    Mirrors labels id (requireMutable name (labels.place offset)) (requireMutable name offset) := by
  apply (Mirrors.findVariable name offset).bind
  intro binding
  simp only [id_eq]
  split
  · exact .pure _
  · exact .raiseAt _ offset

theorem Exec.assignVariable_mirrors (name : String) (offset : Nat) (value : Value) :
    Mirrors labels id (assignVariable name (labels.place offset) value)
      (assignVariable name offset value) := by
  apply (Mirrors.findVariable name offset).bind
  intro _
  apply Mirrors.modifyEnvironment
  intro environment
  exact (environment.mapFunctions_updateVariable (Callable.relabel labels) name _).symm

theorem Exec.storeElement_mirrors (cell : Nat) (index : Int) (indexOffset : Nat) (value : Value)
    (valueOffset : Nat) :
    Mirrors labels id
      (storeElement cell index (labels.place indexOffset) value (labels.place valueOffset))
      (storeElement cell index indexOffset value valueOffset) := by
  apply Mirrors.bind (.peek fun _ => rfl)
  intro reached
  cases reached with
  | true => exact .raiseAt _ valueOffset
  | false =>
      apply Mirrors.bind (.peek fun _ => rfl)
      intro length
      exact (Mirrors.positionIn index length indexOffset).bind fun _ => .modify fun _ => rfl

theorem Exec.assign_mirrors (invokes : invoke.Mirrors labels) (receiver value : Expr) :
    Mirrors labels id (assign invoke (receiver.relabel labels) (value.relabel labels))
      (assign invoke receiver value) := by
  cases receiver with
  | access note name =>
      simp only [Expr.relabel, assign]
      apply (requireMutable_mirrors name note.offset).bind
      intro _
      exact (Expr.evaluate_mirrors invokes value).bind fun newValue =>
        assignVariable_mirrors name note.offset newValue
  | element note name index =>
      simp only [Expr.relabel, assign, Expr.offset_relabel]
      apply (requireMutable_mirrors name note.offset).bind
      intro _
      apply (Expr.evaluateIndex_mirrors invokes index).bind
      intro position
      apply (Expr.evaluate_mirrors invokes value).bind
      intro newValue
      apply (Mirrors.findVariable name note.offset).bind
      intro binding
      exact (Mirrors.cell binding.value note.offset).bind fun cell =>
        storeElement_mirrors cell position index.offset newValue value.offset
  | _ => exact .raiseAt _ _

theorem Exec.declareLocal_mirrors (invokes : invoke.Mirrors labels) (name : String)
    (value : Option Expr) :
    Mirrors labels id (declareLocal invoke name (value.map (Expr.relabel labels)))
      (declareLocal invoke name value) := by
  simp only [declareLocal, Expr.offset_map_relabel]
  exact (Expr.evaluateOption_mirrors invokes value).bind fun initial =>
    .declare name (value.map Expr.offset) ⟨initial, true⟩

theorem Exec.repeatWhile_mirrors {test test' : Exec Bool} {body body' : Exec Flow}
    (tests : Mirrors labels id test' test) (bodies : Mirrors labels id body' body) (budget : Nat) :
    Mirrors labels id (repeatWhile test' body' budget) (repeatWhile test body budget) := by
  induction budget with
  | zero => exact fun _ => rfl
  | succ budget induction =>
      apply tests.bind
      intro holds
      cases holds with
      | false => exact .pure _
      | true =>
          apply bodies.bind
          intro flow
          cases flow with
          | normal => exact induction
          | returned value => exact .pure _

variable {budget : Nat}

mutual

theorem Stmt.execute_mirrors (invokes : invoke.Mirrors labels) : ∀ stmt : Stmt,
    Mirrors labels id ((stmt.relabel labels).execute invoke budget) (stmt.execute invoke budget)
  | .expression value => (Expr.evaluate_mirrors invokes value).bind fun _ => .pure _
  | .declaration name _ value =>
      (declareLocal_mirrors invokes name value).bind fun _ => .pure _
  | .assignment receiver value =>
      (assign_mirrors invokes receiver value).bind fun _ => .pure _
  | .branch condition thenBlock elseBlock => by
      apply (Expr.evaluateCondition_mirrors invokes condition).bind
      intro holds
      cases holds with
      | false => exact (Stmt.executeAll_mirrors invokes elseBlock).inBlock
      | true => exact (Stmt.executeAll_mirrors invokes thenBlock).inBlock
  | .switch condition cases =>
      (Expr.evaluate_mirrors invokes condition).bind fun selector =>
        Case.executeFirst_mirrors invokes selector cases
  | .loop condition body =>
      repeatWhile_mirrors (Expr.evaluateCondition_mirrors invokes condition)
        (Stmt.executeAll_mirrors invokes body).inBlock budget
  | .result value => (Expr.evaluate_mirrors invokes value).bind fun _ => .pure _

theorem Stmt.executeAll_mirrors (invokes : invoke.Mirrors labels) : ∀ stmts : List Stmt,
    Mirrors labels id (Stmt.executeAll invoke budget (Stmt.relabelBlock labels stmts))
      (Stmt.executeAll invoke budget stmts)
  | [] => .pure _
  | stmt :: rest => by
      apply (Stmt.execute_mirrors invokes stmt).bind
      intro flow
      cases flow with
      | normal => exact Stmt.executeAll_mirrors invokes rest
      | returned value => exact .pure _

theorem Case.executeFirst_mirrors (invokes : invoke.Mirrors labels) (selector : Value) :
    ∀ cases : List Case,
    Mirrors labels id (Case.executeFirst invoke budget selector (Case.relabelCases labels cases))
      (Case.executeFirst invoke budget selector cases)
  | [] => .pure _
  | .mk none body :: _ => (Stmt.executeAll_mirrors invokes body).inBlock
  | .mk (some value) body :: rest => by
      apply (Expr.evaluate_mirrors invokes value).bind
      intro candidate
      apply Mirrors.bind (.peek fun _ => rfl)
      intro equal
      cases equal with
      | false => exact Case.executeFirst_mirrors invokes selector rest
      | true => exact (Stmt.executeAll_mirrors invokes body).inBlock

end

theorem Builtin.call_mirrors (builtin : Builtin) (arguments : List Value) (offset : Nat) :
    Mirrors labels id (builtin.call arguments (labels.place offset))
      (builtin.call arguments offset) := by
  cases builtin with
  | print =>
      exact .bind (.peek fun _ => rfl) fun _ =>
        (Mirrors.printLine _ offset).bind fun _ => .pure _
  | logarithm => exact (Mirrors.liftAt offset _).bind fun _ => .pure _

theorem Exec.refuseCall_mirrors : Invoker.Mirrors labels refuseCall :=
  fun _ _ offset => .bind (.peek fun _ => rfl) fun _ => .raiseAt _ offset

theorem Exec.bindParameters_mirrors : ∀ bindings : List (String × Value),
    Mirrors labels id (bindParameters bindings) (bindParameters bindings)
  | [] => .pure _
  | (name, value) :: rest =>
      (Mirrors.defineVariable name ⟨value, true⟩).bind fun _ => bindParameters_mirrors rest

theorem Exec.runBody_mirrors (invokes : invoke.Mirrors labels) (function : Function)
    (arguments : List Value) :
    Mirrors labels id (runBody invoke budget (function.relabel labels) arguments)
      (runBody invoke budget function arguments) := by
  apply (bindParameters_mirrors _).bind
  intro _
  apply (Stmt.executeAll_mirrors invokes function.body).bind
  intro flow
  cases flow <;> exact .pure _

theorem Exec.invokeWith_mirrors (invokes : invoke.Mirrors labels) :
    Invoker.Mirrors labels (invokeWith invoke budget) := by
  intro callable arguments offset
  cases callable with
  | builtin builtin => exact builtin.call_mirrors arguments offset
  | user function home =>
      have arity : (function.relabel labels).arity = function.arity := rfl
      simp only [Callable.relabel, invokeWith, arity]
      split
      · exact .raiseAt _ offset
      · apply Mirrors.bind (.peek fun _ => rfl)
        intro refused
        cases refused with
        | false => exact (runBody_mirrors invokes function arguments).inCall home
        | true => exact refuseCall_mirrors (.user function home) arguments offset

theorem Exec.defineGlobals_mirrors (invokes : invoke.Mirrors labels) : ∀ globals : List Global,
    Mirrors labels id (defineGlobals invoke (globals.map (Global.relabel labels)))
      (defineGlobals invoke globals)
  | [] => .pure _
  | global :: rest => by
      have first : Mirrors labels id (defineGlobal invoke (global.relabel labels))
          (defineGlobal invoke global) :=
        (Expr.evaluateOption_mirrors invokes global.value).bind fun value =>
          .declare global.name (some global.offset) ⟨value, global.mutable⟩
      exact first.bind fun _ => defineGlobals_mirrors invokes rest

/-- The call of `main` is made at offset zero, which no relabelling moves. -/
theorem Exec.callMain_mirrors (invokes : invoke.Mirrors labels) :
    Mirrors labels id (callMain invoke) (callMain invoke) := by
  apply (Mirrors.lookFunction "main" 0).bind
  intro found
  cases found with
  | none => exact .raise _ none
  | some callable =>
      have called := invokes callable [] 0
      rwa [labels.place_zero] at called

end Mirroring

variable (labels : Relabelling)

theorem Exec.invoke_mirrors (budget : Nat) : ∀ room : Nat,
    Invoker.Mirrors labels (invoke budget room)
  | 0 => refuseCall_mirrors
  | room + 1 => invokeWith_mirrors (invoke_mirrors budget room)

theorem Exec.defineFunctions_mirrors : ∀ functions : List Function,
    Mirrors labels id (defineFunctions (functions.map (Function.relabel labels)))
      (defineFunctions functions)
  | [] => .pure _
  | function :: rest => by
      have first : Mirrors labels id (defineFunction (function.relabel labels))
          (defineFunction function) := by
        have looked : Mirrors labels (Scope.mapFunctions (Callable.relabel labels))
            (look fun machine => machine.environment) (look fun machine => machine.environment) :=
          .look fun _ => rfl
        apply looked.bind
        intro environment
        have arity : (function.relabel labels).arity = function.arity := rfl
        have name : (function.relabel labels).name = function.name := rfl
        simp only [arity, name, Scope.definesFunction_mapFunctions]
        split
        · exact .raiseAt _ function.offset
        · apply Mirrors.modifyEnvironment
          intro current
          rw [Scope.current_mapFunctions]
          exact (current.mapFunctions_defineFunction (Callable.relabel labels) function.name
            function.arity (.user function current.current)).symm
      exact first.bind fun _ => defineFunctions_mirrors rest

/-- A relabelled program does on a relabelled machine what the program does. -/
theorem Program.execute_mirrors (budget : Nat) (program : Program) :
    Mirrors labels id ((program.relabel labels).execute budget) (program.execute budget) := by
  intro machine
  have invokes := Exec.invoke_mirrors labels budget machine.reset.room
  have finished : Mirrors labels id
      (defineFunctions (program.functions.map (Function.relabel labels)) >>= fun _ =>
        callMain (Exec.invoke budget machine.reset.room))
      (defineFunctions program.functions >>= fun _ =>
        callMain (Exec.invoke budget machine.reset.room)) :=
    (defineFunctions_mirrors labels program.functions).bind fun _ => callMain_mirrors invokes
  exact (defineGlobals_mirrors invokes program.globals).bind (fun _ => finished) machine.reset

/-- A relabelled program has the result of the program, up to the place of a fault. -/
theorem Program.run_relabel (budget : Nat) (program : Program) (machine : Machine) :
    (program.relabel labels).run budget (machine.relabel labels) =
      ((program.run budget machine).1.mapError (Stop.relabel labels),
        (program.run budget machine).2.relabel labels) := by
  simp only [Program.run, program.execute_mirrors labels budget machine]
  cases (program.execute budget machine).1 <;> rfl

end Procedural
