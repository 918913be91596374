import Procedural.Proofs.Execution.Accord
import Procedural.Proofs.Execution.Still
import Procedural.Proofs.Reader.Places
import Procedural.Proofs.Scope.Correspondence
import Procedural.Proofs.Syntax.Parts

/-!
# Reasons to stop

Functions are bound under the number of their parameters and looked up under the number of
arguments, so no call has a wrong number of arguments.  Only loops can exhaust a run: if
there are none in the functions in reach, a run ends with a value or with a fault.  A fault is
raised, and a line is printed, at a place of the functions in reach.
-/

namespace Procedural

def Stmt.isLoop : Stmt → Bool
  | .loop _ _ => true
  | _ => false

/-- There is no loop in any function. -/
def Program.isLoopFree (program : Program) : Bool :=
  program.statements.all fun stmt => !stmt.isLoop

/-- The statement is not a loop, unless loops are allowed. -/
def Stmt.Admitted (loops : Prop) (stmt : Stmt) : Prop :=
  stmt.isLoop = true → loops

/-- The fault is a call with a wrong number of arguments. -/
def RuntimeFault.isMiscount : RuntimeFault → Bool
  | .argumentCount _ _ _ => true
  | _ => false

theorem RuntimeFault.isMiscount_of_isStatic {fault : RuntimeFault}
    (dynamic : fault.isStatic = false) : fault.isMiscount = false := by
  cases fault <;> first | rfl | cases dynamic

/-- What a run is held to: whether loops may exhaust it, and the places at which it may print and
raise faults. -/
structure Regime where
  loops : Prop
  places : Nat → Prop

/-- The body has no loop unless loops are allowed, and its expressions stand at the places. -/
structure Function.Suits (regime : Regime) (function : Function) : Prop where
  admitted : ∀ part ∈ Stmt.partsOfBlock function.body, part.Admitted regime.loops
  placed : ∀ node ∈ Stmt.nodesOfList function.body, regime.places node.offset

/-- A call may refer to it: it takes as many arguments as it is bound under, and its body is
suitable. -/
def Callable.Suits (regime : Regime) (key : String × Nat) : Callable → Prop
  | .builtin _ => key.2 = 1
  | .user function _ => key.2 = function.arity ∧ function.Suits regime

/-- The reason is no miscount of arguments, and no exhaustion unless loops are allowed. -/
def Stop.Regular (loops : Prop) : Stop → Prop
  | .error found => found.fault.isMiscount = false
  | .exhausted => loops

/-- The reason is regular, and a fault is raised at one of the places, if at any. -/
structure Stop.Obeys (regime : Regime) (stop : Stop) : Prop where
  regular : stop.Regular regime.loops
  placed : ∀ found, stop = .error found → ∀ offset ∈ found.offset, regime.places offset

theorem Stop.Obeys.error {regime : Regime} {fault : RuntimeFault} {offset : Option Nat}
    (ordinary : fault.isMiscount = false) (placed : ∀ place ∈ offset, regime.places place) :
    (Stop.error ⟨fault, offset⟩).Obeys regime :=
  ⟨ordinary, by rintro _ ⟨⟩; exact placed⟩

namespace Scope

variable {V F : Type} {suits : String × Nat → F → Prop} {scope : Scope V F}

/-- Functions are bound under names and numbers that suit them only. -/
def Binds (suits : String × Nat → F → Prop) (scope : Scope V F) : Prop :=
  ∃ shadow : Scope Unit Unit, shadow.Mirrors (fun _ _ => True) (fun key _ => suits key) scope

namespace Binds

theorem empty : (Scope.empty : Scope V F).Binds suits :=
  ⟨.empty, .empty⟩

theorem findFunction (binds : scope.Binds suits) {name : String} {arity : Nat} {function : F}
    (found : scope.findFunction? name arity = some function) : suits (name, arity) function := by
  obtain ⟨shadow, mirrors⟩ := binds
  have both := mirrors.sees.findFunction name arity
  rw [found] at both
  generalize shadow.findFunction? name arity = other at both
  cases both with
  | some holds => exact holds

theorem pushUnder (binds : scope.Binds suits) (outer : Nat) :
    (scope.pushUnder outer).Binds suits :=
  let ⟨_, mirrors⟩ := binds
  ⟨_, mirrors.pushUnder outer⟩

theorem pop (binds : scope.Binds suits) : scope.pop.Binds suits :=
  let ⟨_, mirrors⟩ := binds
  ⟨_, mirrors.pop⟩

theorem defineVariable (binds : scope.Binds suits) (name : String) (value : V) :
    (scope.defineVariable name value).Binds suits :=
  let ⟨shadow, mirrors⟩ := binds
  ⟨shadow.defineVariable name (), mirrors.defineVariable name trivial⟩

theorem defineFunction (binds : scope.Binds suits) (name : String) (arity : Nat) {function : F}
    (holds : suits (name, arity) function) :
    (scope.defineFunction name arity function).Binds suits :=
  let ⟨shadow, mirrors⟩ := binds
  ⟨shadow.defineFunction name arity (), mirrors.defineFunction name arity holds⟩

theorem updateVariable (binds : scope.Binds suits) (name : String) (change : V → V) :
    (scope.updateVariable name change).Binds suits :=
  let ⟨_, mirrors⟩ := binds
  ⟨_, mirrors.updateVariable fun _ _ _ _ => trivial⟩

end Binds

end Scope

variable {regime : Regime} {α β : Type}

/-- All functions that the machine binds suit, and all lines were printed at the places. -/
structure Machine.Obeys (regime : Regime) (machine : Machine) : Prop where
  binds : machine.environment.Binds (Callable.Suits regime)
  lines : ∀ line ∈ machine.printed, regime.places line.offset

/-- The action leaves a machine as it should be, and stops for regular reasons only. -/
def Exec.Regular (regime : Regime) (action : Exec α) : Prop :=
  ∀ machine, machine.Obeys regime → action.Ends machine (fun _ after => after.Obeys regime)
    fun stop after => after.Obeys regime ∧ stop.Obeys regime

namespace Exec.Regular

protected theorem pure (value : α) : Regular regime (pure value) :=
  fun _ obeys => .pure obeys

/-- The second action need be regular only for values that the first one can have. -/
theorem bind_of_ok {action : Exec α} {next : α → Exec β} (regular : Regular regime action)
    (later : ∀ machine value after, machine.Obeys regime → action machine = (.ok value, after) →
      Regular regime (next value)) : Regular regime (action >>= next) := by
  intro machine obeys
  have first := regular machine obeys
  apply Ends.bind
  unfold Ends at first ⊢
  cases ended : action machine with
  | mk result after =>
      rw [ended] at first
      cases result with
      | ok value => exact later machine value after obeys ended after first
      | error stop => exact first

theorem of_error {action : Exec α} (regular : Regular regime action) {machine : Machine}
    (obeys : machine.Obeys regime) {stop : Stop} (stopped : (action machine).1 = .error stop) :
    stop.Obeys regime := by
  have ends := regular machine obeys
  unfold Ends at ends
  split at ends
  · rename_i ended
    rw [ended] at stopped
    cases stopped
  · rename_i ended
    rw [ended] at stopped
    obtain rfl := Except.error.inj stopped
    exact ends.2

protected theorem bind {action : Exec α} {next : α → Exec β} (regular : Regular regime action)
    (later : ∀ value, Regular regime (next value)) : Regular regime (action >>= next) :=
  regular.bind_of_ok fun _ value _ _ _ => later value

theorem look (view : Machine → α) : Regular regime (look view) :=
  fun _ obeys => .look obeys

theorem raise {fault : RuntimeFault} (ordinary : fault.isMiscount = false)
    {offset : Option Nat} (placed : ∀ place ∈ offset, regime.places place) :
    Regular regime (raise fault offset : Exec α) :=
  fun _ obeys => .raise ⟨obeys, .error ordinary placed⟩

theorem modifyEnvironment {change : Environment → Environment}
    (keeps : ∀ environment : Environment, environment.Binds (Callable.Suits regime) →
      (change environment).Binds (Callable.Suits regime)) :
    Regular regime (modifyEnvironment change) :=
  fun _ obeys => .modify ⟨keeps _ obeys.binds, obeys.lines⟩

theorem allocate (elements : List Value) : Regular regime (allocate elements) :=
  fun _ obeys => ends_allocate ⟨obeys.binds, obeys.lines⟩

section Places

variable {offset : Nat} (placed : regime.places offset)

include placed

/-- A fault that is no miscount is raised at a place. -/
theorem obeys_at {fault : RuntimeFault} (ordinary : fault.isMiscount = false) :
    (Stop.error ⟨fault, some offset⟩).Obeys regime :=
  .error ordinary (forall_mem_some placed)

theorem raiseAt {fault : RuntimeFault} (ordinary : fault.isMiscount = false) :
    Regular regime (Exec.raise fault (some offset) : Exec α) :=
  raise ordinary (forall_mem_some placed)

theorem liftAt {outcome : Except RuntimeFault α} (benign : Benign outcome) :
    Regular regime (Exec.liftAt offset outcome) := by
  cases outcome with
  | ok value => exact .pure value
  | error fault => exact raiseAt placed (RuntimeFault.isMiscount_of_isStatic (benign fault rfl))

theorem truth (value : Value) : Regular regime (Exec.truth value offset) :=
  liftAt placed value.benign_toBoolean

theorem integer (value : Value) : Regular regime (Exec.integer value offset) :=
  liftAt placed value.benign_toInteger

theorem cell (value : Value) : Regular regime (Exec.cell value offset) :=
  liftAt placed value.benign_toCell

theorem findVariable (name : String) : Regular regime (Exec.findVariable name offset) :=
  fun _ obeys => .findVariable (fun _ _ => obeys) fun _ => ⟨obeys, obeys_at placed rfl⟩

theorem findFunction (name : String) (arity : Nat) :
    Regular regime (Exec.findFunction name arity offset) :=
  fun _ obeys => .findFunction (fun _ _ => obeys) fun _ => ⟨obeys, obeys_at placed rfl⟩

theorem requireMutable (name : String) : Regular regime (Exec.requireMutable name offset) :=
  fun _ obeys => .requireMutable (fun _ _ _ => obeys) (fun _ _ _ => ⟨obeys, obeys_at placed rfl⟩)
    fun _ => ⟨obeys, obeys_at placed rfl⟩

theorem assignVariable (name : String) (value : Value) :
    Regular regime (Exec.assignVariable name offset value) :=
  (findVariable placed name).bind fun _ =>
    modifyEnvironment fun _ binds => binds.updateVariable name _

theorem positionIn (index : Int) (length : Nat) :
    Regular regime (Exec.positionIn index length offset) := by
  unfold Exec.positionIn
  split
  · exact .pure _
  · exact raiseAt placed rfl

theorem element (cell : Nat) (index : Int) : Regular regime (Exec.element cell index offset) :=
  (look _).bind fun _ => (positionIn placed index _).bind fun _ => .pure _

theorem operator (op : BinaryOp) (left right : Value) :
    Regular regime (Exec.operator op left right offset) :=
  (look _).bind_of_ok fun machine outcome _ _ looked => by
    obtain rfl : Value.applyOperator machine.store op left right = outcome :=
      Except.ok.inj (congrArg Prod.fst looked)
    exact (liftAt placed (Value.benign_applyOperator _ _ _ _)).bind fun _ => .pure _

theorem printLine (text : String) : Regular regime (Exec.printLine text offset) :=
  fun _ obeys => .modify ⟨obeys.binds, List.forall_mem_cons.mpr ⟨placed, obeys.lines⟩⟩

/-- A built-in function raises a miscount only if it does not have its one argument. -/
theorem builtin (builtin : Builtin) {arguments : List Value} (single : arguments.length = 1) :
    Regular regime (builtin.call arguments offset) := by
  cases builtin with
  | print => exact (look _).bind fun texts => (printLine placed _).bind fun _ => .pure _
  | logarithm =>
      obtain ⟨argument, rfl⟩ := List.length_eq_one_iff.mp single
      exact (liftAt placed argument.benign_logarithm).bind fun _ => .pure _

theorem refuseCall (callable : Callable) (arguments : List Value) :
    Regular regime (Exec.refuseCall callable arguments offset) :=
  (look _).bind fun _ => raiseAt placed rfl

end Places

theorem declare (name : String) {offset : Option Nat}
    (placed : ∀ place ∈ offset, regime.places place) (binding : Binding) :
    Regular regime (declare name offset binding) :=
  fun _ obeys => .declare (fun _ => ⟨obeys.binds.defineVariable name binding, obeys.lines⟩)
    fun _ => ⟨obeys, .error rfl placed⟩

theorem storeElement (cell : Nat) (index : Int) {indexOffset valueOffset : Nat} (value : Value)
    (indexPlaced : regime.places indexOffset) (valuePlaced : regime.places valueOffset) :
    Regular regime (storeElement cell index indexOffset value valueOffset) :=
  fun _ obeys => ends_storeElement (fun _ _ _ => ⟨obeys.binds, obeys.lines⟩)
    (fun _ => ⟨obeys, obeys_at valuePlaced rfl⟩) fun _ _ => ⟨obeys, obeys_at indexPlaced rfl⟩

theorem inFrame {action : Exec α} (regular : Regular regime action)
    (enter : Environment → Environment)
    (enters : ∀ environment : Environment, environment.Binds (Callable.Suits regime) →
      (enter environment).Binds (Callable.Suits regime)) :
    Regular regime (inFrame enter action) := by
  intro machine obeys
  have inside := regular { machine with environment := enter machine.environment }
    ⟨enters _ obeys.binds, obeys.lines⟩
  unfold Ends Exec.inFrame at *
  cases ended : action { machine with environment := enter machine.environment } with
  | mk result after =>
      rw [ended] at inside
      cases result with
      | ok value => exact ⟨inside.binds.pop, inside.lines⟩
      | error stop => exact ⟨⟨inside.1.binds.pop, inside.1.lines⟩, inside.2⟩

theorem inBlock {action : Exec α} (regular : Regular regime action) :
    Regular regime (inBlock action) :=
  regular.inFrame Scope.push fun _ binds => binds.pushUnder _

theorem inCall {action : Exec α} (regular : Regular regime action) (home : Nat) :
    Regular regime (inCall home action) := by
  intro machine obeys
  have framed := regular.inFrame (Scope.pushUnder · home) fun _ binds => binds.pushUnder home
  have inside := framed { machine with depth := machine.depth + 1 } ⟨obeys.binds, obeys.lines⟩
  unfold Ends Exec.inCall at *
  cases ended : Exec.inFrame (Scope.pushUnder · home) action
      { machine with depth := machine.depth + 1 } with
  | mk result after =>
      rw [ended] at inside
      cases result with
      | ok value => exact ⟨inside.binds, inside.lines⟩
      | error stop => exact ⟨⟨inside.1.binds, inside.1.lines⟩, inside.2⟩

theorem repeatWhile {test : Exec Bool} {body : Exec Flow} (tests : Regular regime test)
    (bodies : Regular regime body) (allowed : regime.loops) (budget : Nat) :
    Regular regime (repeatWhile test body budget) := by
  induction budget with
  | zero => exact fun _ obeys => .stop ⟨obeys, allowed, nofun⟩
  | succ budget induction =>
      apply tests.bind
      intro holds
      cases holds with
      | false => exact .pure _
      | true =>
          apply bodies.bind
          intro flow
          cases flow with
          | normal => exact induction
          | returned value => exact .pure _

end Exec.Regular

/-- Calls from the places, of what suits the number of arguments, are regular. -/
def Invoker.Regular (regime : Regime) (invoke : Invoker) : Prop :=
  ∀ callable arguments offset name, callable.Suits regime (name, arguments.length) →
    regime.places offset → Exec.Regular regime (invoke callable arguments offset)

theorem Expr.length_of_evaluateAll {invoke : Invoker} {exprs : List Expr} {machine after : Machine}
    {values : List Value} (ended : evaluateAll invoke exprs machine = (.ok values, after)) :
    values.length = exprs.length := by
  induction exprs generalizing machine after values with
  | nil =>
      cases ended
      rfl
  | cons first rest induction =>
      cases here : first.evaluate invoke machine with
      | mk result between =>
          cases result with
          | error stop =>
              rw [evaluateAll, Exec.bind_of_error here] at ended
              cases ended
          | ok value =>
              rw [evaluateAll, Exec.bind_of_ok here] at ended
              cases later : evaluateAll invoke rest between with
              | mk result last =>
                  cases result with
                  | error stop =>
                      rw [Exec.bind_of_error later] at ended
                      cases ended
                  | ok others =>
                      rw [Exec.bind_of_ok later] at ended
                      cases ended
                      rw [List.length_cons, List.length_cons, induction later]

section Bodies

open Exec

variable {invoke : Invoker}

/-- The second operand of a logical operator. -/
theorem Exec.Regular.decision {operand : Exec Value} (regular : operand.Regular regime)
    {offset : Nat} (placed : regime.places offset) :
    Regular regime (do
      let second ← operand
      let value ← Exec.truth second offset
      pure (Value.scalar (.boolean value))) :=
  regular.bind fun second => (Regular.truth placed second).bind fun _ => .pure _

mutual

theorem Expr.evaluate_regular (invokes : invoke.Regular regime) : ∀ expr : Expr,
    (∀ node ∈ expr.nodes, regime.places node.offset) → (expr.evaluate invoke).Regular regime
  | .literal _ value, _ => .pure _
  | .group _ inner, placed => Expr.evaluate_regular invokes inner (List.forall_mem_cons.mp placed).2
  | .binary note op left right, placed => by
      obtain ⟨here, inside⟩ := List.forall_mem_cons.mp placed
      obtain ⟨inLeft, inRight⟩ := List.forall_mem_append.mp inside
      apply (Expr.evaluate_regular invokes left inLeft).bind
      intro first
      have atLeft := inLeft _ left.mem_nodes
      have atRight := inRight _ right.mem_nodes
      have second := Expr.evaluate_regular invokes right inRight
      cases op with
      | and =>
          apply (Regular.truth atLeft first).bind
          intro holds
          cases holds with
          | false => exact .pure _
          | true => exact second.decision atRight
      | or =>
          apply (Regular.truth atLeft first).bind
          intro holds
          cases holds with
          | false => exact second.decision atRight
          | true => exact .pure _
      | _ => exact second.bind fun _ => .operator here _ _ _
  | .access note name, placed =>
      (Regular.findVariable (placed _ (Expr.mem_nodes _)) name).bind fun _ => .pure _
  | .element note name index, placed => by
      obtain ⟨here, inIndex⟩ := List.forall_mem_cons.mp placed
      have atIndex := inIndex _ index.mem_nodes
      apply (Regular.findVariable here name).bind
      intro binding
      apply (Expr.evaluate_regular invokes index inIndex).bind
      intro value
      apply (Regular.integer atIndex value).bind
      intro position
      apply (Regular.cell here binding.value).bind
      intro cell
      exact .element atIndex cell position
  | .call note name arguments, placed => by
      obtain ⟨here, inArguments⟩ := List.forall_mem_cons.mp placed
      apply (Regular.findFunction here name arguments.length).bind_of_ok
      intro machine callable _ obeys found
      have suits : callable.Suits regime (name, arguments.length) := by
        have ends : Ends (Exec.findFunction name arguments.length note.offset) machine
            (fun callable _ => callable.Suits regime (name, arguments.length))
            fun _ _ => True :=
          .findFunction (fun _ found => obeys.binds.findFunction found) fun _ => trivial
        exact ends.of_ok (congrArg Prod.fst found)
      apply (Expr.evaluateAll_regular invokes arguments inArguments).bind_of_ok
      intro _ values _ _ ended
      rw [← Expr.length_of_evaluateAll ended] at suits
      exact invokes callable values note.offset name suits here
  | .list _ elements, placed => by
      obtain ⟨-, inElements⟩ := List.forall_mem_cons.mp placed
      exact (Expr.evaluateAll_regular invokes elements inElements).bind fun values =>
        .allocate values

theorem Expr.evaluateAll_regular (invokes : invoke.Regular regime) : ∀ exprs : List Expr,
    (∀ node ∈ Expr.nodesOfList exprs, regime.places node.offset) →
      (Expr.evaluateAll invoke exprs).Regular regime
  | [], _ => .pure _
  | first :: rest, placed => by
      obtain ⟨inFirst, inRest⟩ := List.forall_mem_append.mp placed
      apply (Expr.evaluate_regular invokes first inFirst).bind
      intro _
      exact (Expr.evaluateAll_regular invokes rest inRest).bind fun _ => .pure _

end

theorem Expr.evaluateOption_regular (invokes : invoke.Regular regime) {value : Option Expr}
    (placed : ∀ node ∈ Expr.nodesOfOption value, regime.places node.offset) :
    (Expr.evaluateOption invoke value).Regular regime := by
  cases value with
  | none => exact .pure _
  | some expr => exact Expr.evaluate_regular invokes expr placed

theorem Expr.evaluateCondition_regular (invokes : invoke.Regular regime) {expr : Expr}
    (placed : ∀ node ∈ expr.nodes, regime.places node.offset) :
    (expr.evaluateCondition invoke).Regular regime :=
  (Expr.evaluate_regular invokes expr placed).bind fun value =>
    .truth (placed _ expr.mem_nodes) value

theorem Exec.assign_regular (invokes : invoke.Regular regime) {receiver value : Expr}
    (inReceiver : ∀ node ∈ receiver.nodes, regime.places node.offset)
    (inValue : ∀ node ∈ value.nodes, regime.places node.offset) :
    (Exec.assign invoke receiver value).Regular regime := by
  have here := inReceiver _ receiver.mem_nodes
  have newValues := Expr.evaluate_regular invokes value inValue
  cases receiver with
  | access note name =>
      apply (Regular.requireMutable here name).bind
      intro _
      apply newValues.bind
      intro newValue
      exact .assignVariable here name newValue
  | element note name index =>
      obtain ⟨-, inIndex⟩ := List.forall_mem_cons.mp inReceiver
      have atIndex := inIndex _ index.mem_nodes
      apply (Regular.requireMutable here name).bind
      intro _
      apply ((Expr.evaluate_regular invokes index inIndex).bind fun value =>
        .integer atIndex value).bind
      intro position
      apply newValues.bind
      intro newValue
      apply (Regular.findVariable here name).bind
      intro binding
      apply (Regular.cell here binding.value).bind
      intro cell
      exact .storeElement cell position newValue atIndex (inValue _ value.mem_nodes)
  | _ => exact .raiseAt here rfl

variable {budget : Nat}

mutual

theorem Stmt.execute_regular (invokes : invoke.Regular regime) : ∀ stmt : Stmt,
    stmt.Throughout (Stmt.Admitted regime.loops) →
      (∀ node ∈ stmt.nodes, regime.places node.offset) →
        (stmt.execute invoke budget).Regular regime
  | .expression value, _, placed =>
      (Expr.evaluate_regular invokes value placed).bind fun _ => .pure _
  | .declaration name _ value, _, placed => by
      apply Regular.bind _ fun _ => .pure _
      exact (Expr.evaluateOption_regular invokes placed).bind fun _ =>
        .declare name (Expr.forall_mem_offset placed) _
  | .assignment receiver value, _, placed => by
      obtain ⟨inReceiver, inValue⟩ := List.forall_mem_append.mp placed
      exact (Exec.assign_regular invokes inReceiver inValue).bind fun _ => .pure _
  | .branch condition thenBlock elseBlock, admitted, placed => by
      obtain ⟨thenAdmitted, elseAdmitted⟩ := Stmt.throughout_branch admitted
      simp only [Stmt.nodes, List.forall_mem_append] at placed
      obtain ⟨inCondition, inThen, inElse⟩ := placed
      apply (Expr.evaluateCondition_regular invokes inCondition).bind
      intro holds
      cases holds with
      | false => exact (Stmt.executeAll_regular invokes elseBlock elseAdmitted inElse).inBlock
      | true => exact (Stmt.executeAll_regular invokes thenBlock thenAdmitted inThen).inBlock
  | .switch condition cases, admitted, placed => by
      obtain ⟨-, casesAdmitted⟩ := List.forall_mem_cons.mp admitted
      obtain ⟨inCondition, inCases⟩ := List.forall_mem_append.mp placed
      apply (Expr.evaluate_regular invokes condition inCondition).bind
      intro selector
      exact Case.executeFirst_regular invokes selector cases casesAdmitted inCases
  | .loop condition body, admitted, placed => by
      obtain ⟨here, bodyAdmitted⟩ := List.forall_mem_cons.mp admitted
      obtain ⟨inCondition, inBody⟩ := List.forall_mem_append.mp placed
      have bodies := Stmt.executeAll_regular invokes body bodyAdmitted inBody
      exact (Expr.evaluateCondition_regular invokes inCondition).repeatWhile bodies.inBlock
        (here rfl) budget
  | .result value, _, placed => (Expr.evaluate_regular invokes value placed).bind fun _ => .pure _

theorem Stmt.executeAll_regular (invokes : invoke.Regular regime) : ∀ stmts : List Stmt,
    (∀ part ∈ Stmt.partsOfBlock stmts, part.Admitted regime.loops) →
      (∀ node ∈ Stmt.nodesOfList stmts, regime.places node.offset) →
        (Stmt.executeAll invoke budget stmts).Regular regime
  | [], _, _ => .pure _
  | stmt :: rest, admitted, placed => by
      obtain ⟨first, later⟩ := Stmt.forall_partsOfBlock_cons.mp admitted
      obtain ⟨inFirst, inLater⟩ := List.forall_mem_append.mp placed
      apply (Stmt.execute_regular invokes stmt first inFirst).bind
      intro flow
      cases flow with
      | normal => exact Stmt.executeAll_regular invokes rest later inLater
      | returned value => exact .pure _

theorem Case.executeFirst_regular (invokes : invoke.Regular regime) (selector : Value) :
    ∀ cases : List Case, (∀ part ∈ Case.partsOfCases cases, part.Admitted regime.loops) →
      (∀ node ∈ Case.nodesOfList cases, regime.places node.offset) →
        (Case.executeFirst invoke budget selector cases).Regular regime
  | [], _, _ => .pure _
  | .mk none body :: _, admitted, placed => by
      obtain ⟨bodyAdmitted, -⟩ := Stmt.forall_partsOfCases_cons.mp admitted
      obtain ⟨inBody, -⟩ := List.forall_mem_append.mp placed
      exact (Stmt.executeAll_regular invokes body bodyAdmitted inBody).inBlock
  | .mk (some value) body :: rest, admitted, placed => by
      obtain ⟨bodyAdmitted, later⟩ := Stmt.forall_partsOfCases_cons.mp admitted
      obtain ⟨inCase, inLater⟩ := List.forall_mem_append.mp placed
      obtain ⟨inValue, inBody⟩ := List.forall_mem_append.mp inCase
      apply (Expr.evaluate_regular invokes value inValue).bind
      intro candidate
      apply (Regular.look _).bind
      intro equal
      cases equal with
      | false => exact Case.executeFirst_regular invokes selector rest later inLater
      | true => exact (Stmt.executeAll_regular invokes body bodyAdmitted inBody).inBlock

end

theorem Exec.bindParameters_regular (bindings : List (String × Value)) :
    (Exec.bindParameters bindings).Regular regime := by
  induction bindings with
  | nil => exact .pure _
  | cons binding rest induction =>
      apply Regular.bind (.modifyEnvironment fun _ binds => binds.defineVariable _ _)
      exact fun _ => induction

theorem Exec.runBody_regular (invokes : invoke.Regular regime) {function : Function}
    (suits : function.Suits regime) (arguments : List Value) :
    (Exec.runBody invoke budget function arguments).Regular regime := by
  apply (Exec.bindParameters_regular _).bind
  intro _
  apply (Stmt.executeAll_regular invokes function.body suits.admitted suits.placed).bind
  intro flow
  cases flow <;> exact .pure _

theorem Exec.invokeWith_regular (invokes : invoke.Regular regime) :
    (Exec.invokeWith invoke budget).Regular regime := by
  intro callable arguments offset name suits placed
  cases callable with
  | builtin builtin => exact .builtin placed builtin suits
  | user function home =>
      obtain ⟨counted, suits⟩ := suits
      change Regular regime (if arguments.length ≠ function.arity then _ else _)
      rw [if_neg (not_not_intro counted)]
      apply (Regular.look _).bind
      intro full
      cases full with
      | true => exact .refuseCall placed (.user function home) arguments
      | false => exact (Exec.runBody_regular invokes suits arguments).inCall home

theorem Exec.invoke_regular (budget room : Nat) :
    (Exec.invoke budget room).Regular regime := by
  induction room with
  | zero => exact fun callable arguments _ _ _ placed => .refuseCall placed callable arguments
  | succ room induction => exact Exec.invokeWith_regular induction

end Bodies

section Programs

open Exec

variable {invoke : Invoker}

theorem Exec.defineGlobals_regular (invokes : invoke.Regular regime) {globals : List Global}
    (here : ∀ item ∈ globals, regime.places item.offset)
    (placed : ∀ item ∈ globals, ∀ node ∈ Expr.nodesOfOption item.value,
      regime.places node.offset) : (Exec.defineGlobals invoke globals).Regular regime := by
  induction globals with
  | nil => exact .pure _
  | cons global rest induction =>
      obtain ⟨first, later⟩ := List.forall_mem_cons.mp here
      obtain ⟨inFirst, inLater⟩ := List.forall_mem_cons.mp placed
      apply Regular.bind _ fun _ => induction later inLater
      exact (Expr.evaluateOption_regular invokes inFirst).bind fun _ =>
        .declare _ (forall_mem_some first) _

theorem Exec.defineFunction_regular {function : Function} (here : regime.places function.offset)
    (suits : function.Suits regime) : (Exec.defineFunction function).Regular regime := by
  apply (Regular.look _).bind
  intro environment
  split
  · exact .raiseAt here rfl
  · exact .modifyEnvironment fun _ binds => binds.defineFunction _ _ ⟨rfl, suits⟩

theorem Exec.defineFunctions_regular {functions : List Function}
    (here : ∀ item ∈ functions, regime.places item.offset)
    (suits : ∀ function ∈ functions, function.Suits regime) :
    (Exec.defineFunctions functions).Regular regime := by
  induction functions with
  | nil => exact .pure _
  | cons function rest induction =>
      obtain ⟨first, later⟩ := List.forall_mem_cons.mp here
      obtain ⟨firstSuits, laterSuit⟩ := List.forall_mem_cons.mp suits
      exact (Exec.defineFunction_regular first firstSuits).bind fun _ => induction later laterSuit

theorem Machine.rootEnvironment_binds :
    Machine.rootEnvironment.Binds (Callable.Suits regime) :=
  let suits := Callable.Suits regime
  have print : suits (Builtin.print.name, 1) (.builtin .print) := rfl
  have logarithm : suits (Builtin.logarithm.name, 1) (.builtin .logarithm) := rfl
  (Scope.Binds.empty.defineFunction _ _ print).defineFunction _ _ logarithm

/-- Programs whose parts suit make definitions that suit. -/
theorem Program.definitions_regular (invokes : invoke.Regular regime) {program : Program}
    (admitted : ∀ stmt ∈ program.statements, stmt.Admitted regime.loops)
    (placed : program.Placed regime.places) :
    (Exec.defineGlobals invoke program.globals).Regular regime ∧
      (Exec.defineFunctions program.functions).Regular regime := by
  obtain ⟨inGlobals, inBodies⟩ := List.forall_mem_append.mp placed.nodes
  have suits : ∀ function ∈ program.functions, function.Suits regime :=
    fun function member => ⟨List.forall_mem_flatMap.mp admitted function member,
      List.forall_mem_flatMap.mp inBodies function member⟩
  exact ⟨Exec.defineGlobals_regular invokes placed.globals (List.forall_mem_flatMap.mp inGlobals),
    Exec.defineFunctions_regular placed.functions suits⟩

/-- The call of `main` is made at offset zero. -/
theorem Exec.callMain_regular (invokes : invoke.Regular regime) (here : regime.places 0) :
    (Exec.callMain invoke).Regular regime := by
  apply (Regular.look _).bind_of_ok
  intro machine found _ obeys looked
  obtain rfl : machine.environment.findFunction? "main" 0 = found :=
    Except.ok.inj (congrArg Prod.fst looked)
  cases found : machine.environment.findFunction? "main" 0 with
  | none => exact .raise rfl nofun
  | some callable =>
      exact invokes callable [] 0 "main" (obeys.binds.findFunction found) here

/-- A run in which no more than so many calls can be nested, whatever the machine allows. -/
def Program.executeWithin (budget room : Nat) (program : Program) : Exec Value :=
  fun machine =>
    (do
      Exec.defineGlobals (Exec.invoke budget room) program.globals
      Exec.defineFunctions program.functions
      Exec.callMain (Exec.invoke budget room) : Exec Value) machine.reset

/-- The machine itself has room for as many nested calls as it allows. -/
theorem Program.execute_eq_executeWithin (budget : Nat) (program : Program) (machine : Machine) :
    program.execute budget machine = program.executeWithin budget machine.room machine :=
  rfl

/-- No run miscounts arguments, and only programs with loops are exhausted. -/
theorem Program.stops_regularly {loops : Prop} {program : Program}
    (admitted : ∀ stmt ∈ program.statements, stmt.Admitted loops) {budget room : Nat}
    {machine : Machine} {stop : Stop}
    (stopped : (program.executeWithin budget room machine).1 = .error stop) :
    stop.Regular loops := by
  let regime : Regime := ⟨loops, fun _ => True⟩
  have invokes : (Exec.invoke budget room).Regular regime := Exec.invoke_regular budget room
  obtain ⟨globals, functions⟩ :=
    Program.definitions_regular invokes admitted program.placed_anywhere
  have regular := globals.bind fun _ => functions.bind fun _ =>
    Exec.callMain_regular invokes trivial
  have obeys : machine.reset.Obeys regime := ⟨Machine.rootEnvironment_binds, fun _ _ => trivial⟩
  exact (regular.of_error obeys stopped).regular

end Programs

end Procedural
