import Procedural.Proofs.Execution.Modest
import Procedural.Proofs.Execution.Staging

/-!
# Accords

An accord relates actions of the machine to actions on a stage.  Once single actions, blocks
and calls are related, so is everything that is built from them: expressions, statements,
bodies of functions and whole programs.  The induction over programs is made here once, for
every accord.

Closed actions leave the newest frame with the names that it had, open actions may bind
names there.
-/

namespace Procedural

variable {M : Type → Type} [Monad M]

/-- Related actions of the machine and of a stage.  The two may have different budgets for the
rounds of loops.  The last three fields say that what the staging adds to an evaluation, a store
or a return keeps the relation, and need no proof where it adds nothing. -/
structure Staging.Accord (staging : Staging M) (budget budget' : Nat) where
  Closed : {α : Type} → Exec α → M α → Prop
  Open : {α : Type} → Exec α → M α → Prop
  /-- What calls can refer to. -/
  Callee : Callable → Prop
  pure {α : Type} (value : α) : Closed (pure value) (pure value)
  bind {α β : Type} {action : Exec α} {staged : M α} {next : α → Exec β} {next' : α → M β} :
    Closed action staged → (∀ value, Closed (next value) (next' value)) →
      Closed (action >>= next) (staged >>= next')
  open_of_closed {α : Type} {action : Exec α} {staged : M α} :
    Closed action staged → Open action staged
  bind_open {α β : Type} {action : Exec α} {staged : M α} {next : α → Exec β} {next' : α → M β} :
    Open action staged → (∀ value, Open (next value) (next' value)) →
      Open (action >>= next) (staged >>= next')
  act {α : Type} {action : Exec α} : action.Modest → Closed action (staging.act action)
  findFunction {β : Type} (name : String) (arity offset : Nat) {next : Callable → Exec β}
      {next' : Callable → M β} :
    (∀ callable, Callee callable → Closed (next callable) (next' callable)) →
      Closed (Exec.findFunction name arity offset >>= next)
        (staging.act (Exec.findFunction name arity offset) >>= next')
  assignVariable (name : String) (offset : Nat) {value : Exec Value} {value' : M Value} :
    Closed value value' →
      Closed (do
        Exec.requireMutable name offset
        let newValue ← value
        Exec.assignVariable name offset newValue) (do
        staging.act (Exec.requireMutable name offset)
        let newValue ← value'
        staging.act (Exec.assignVariable name offset newValue))
  declare (name : String) (offset : Option Nat) (binding : Binding) (ty : Ty) :
    Open (Exec.declare name offset binding) (staging.declare name offset binding ty)
  bindParameters (function : Function) (arguments : List Value) :
    Open (Exec.bindParameters (function.parameters.zip arguments))
      (staging.bindParameters function arguments)
  inBlock {α : Type} {action : Exec α} {staged : M α} :
    Open action staged → Closed (Exec.inBlock action) (staging.inBlock staged)
  repeatWhile {test : Exec Bool} {test' : M Bool} {body : Exec Flow} {body' : M Flow} :
    Closed test test' → Closed body body' →
      Closed (Exec.repeatWhile test body budget) (staging.repeatWhile test' body' budget')
  call (function : Function) (home : Nat) (arguments : List Value) (offset : Nat)
      {body : Exec Value} {body' : M Value} :
    Callee (.user function home) → Open body body' →
      Closed (Staging.plain.callWithin function home arguments offset body)
        (staging.callWithin function home arguments offset body')
  refuse (callable : Callable) (arguments : List Value) (offset : Nat) :
    Closed (Exec.refuseCall callable arguments offset)
      (staging.act (Exec.refuseCall callable arguments offset))
  evaluating (expr : Expr) {evaluation : Exec Value} {evaluation' : M Value} :
    Closed evaluation evaluation' →
      Closed evaluation (staging.evaluating expr evaluation') := by intros; assumption
  storing (receiver : Expr) (cell : Nat) (value : Value) {store : Exec Unit} {store' : M Unit} :
    Closed store store' →
      Closed store (staging.storing receiver cell value store') := by intros; assumption
  returning (function : Function) {body : Exec Value} {body' : M Value} :
    Open body body' → Open body (staging.returning function body') := by intros; assumption

namespace Staging.Accord

variable {staging : Staging M} {budget budget' : Nat} (accord : staging.Accord budget budget')

/-- Calls of what calls can refer to are related. -/
def Invokes (invoke : Invoker) (invoke' : StagedInvoker M) : Prop :=
  ∀ callable, accord.Callee callable → ∀ arguments offset,
    accord.Closed (invoke callable arguments offset) (invoke' callable arguments offset)

/-- The statement is open, and closed unless it is a declaration. -/
def Carries (stmt : Stmt) (action : Exec Flow) (staged : M Flow) : Prop :=
  accord.Open action staged ∧
    ((∀ name typeName value, stmt ≠ .declaration name typeName value) →
      accord.Closed action staged)

variable {accord}

theorem Carries.of_closed {stmt : Stmt} {action : Exec Flow} {staged : M Flow}
    (closed : accord.Closed action staged) : accord.Carries stmt action staged :=
  ⟨accord.open_of_closed closed, fun _ => closed⟩

/-- Loops of one budget are related as soon as their rounds are. -/
theorem repeatWhile_of_rounds (staging : Staging M)
    (Closed : {α : Type} → Exec α → M α → Prop)
    (pure : ∀ {α : Type} (value : α), Closed (Pure.pure value) (Pure.pure value))
    (bind : ∀ {α β : Type} {action : Exec α} {staged : M α} {next : α → Exec β}
      {next' : α → M β}, Closed action staged → (∀ value, Closed (next value) (next' value)) →
        Closed (action >>= next) (staged >>= next'))
    (stop : Closed (Exec.stop .exhausted : Exec Flow) (staging.act (Exec.stop .exhausted)))
    (test : Exec Bool) (test' : M Bool) (body : Exec Flow) (body' : M Flow)
    (tests : Closed test test') (bodies : Closed body body') (budget : Nat) :
    Closed (Exec.repeatWhile test body budget) (staging.repeatWhile test' body' budget) := by
  induction budget with
  | zero => exact stop
  | succ budget induction =>
      apply bind tests
      intro holds
      cases holds with
      | false => exact pure Flow.normal
      | true =>
          apply bind bodies
          intro flow
          cases flow with
          | normal => exact induction
          | returned value => exact pure (Flow.returned value)

section Expressions

variable {invoke : Invoker} {invoke' : StagedInvoker M}

theorem truth (value : Value) (offset : Nat) :
    accord.Closed (Exec.truth value offset) (staging.act (Exec.truth value offset)) :=
  accord.act (.truth value offset)

/-- The second operand of a logical operator. -/
theorem decision {operand : Exec Value} {operand' : M Value}
    (evaluates : accord.Closed operand operand') (offset : Nat) :
    accord.Closed (do
        let second ← operand
        let value ← Exec.truth second offset
        Pure.pure (Value.scalar (.boolean value))) (do
        let second ← operand'
        let value ← staging.act (Exec.truth second offset)
        Pure.pure (Value.scalar (.boolean value))) :=
  accord.bind evaluates fun second => accord.bind (truth second offset) fun _ => accord.pure _

mutual

theorem evaluate (invokes : accord.Invokes invoke invoke') : ∀ expr : Expr,
    accord.Closed (expr.evaluate invoke) (expr.stage staging invoke')
  | .literal _ value => accord.evaluating _ (accord.pure _)
  | .group _ inner => accord.evaluating _ (evaluate invokes inner)
  | .binary note op left right => by
      apply accord.evaluating
      apply accord.bind (evaluate invokes left)
      intro first
      have second := evaluate invokes right
      cases op with
      | and =>
          apply accord.bind (truth first left.offset)
          intro holds
          cases holds with
          | false => exact accord.pure _
          | true => exact decision second right.offset
      | or =>
          apply accord.bind (truth first left.offset)
          intro holds
          cases holds with
          | false => exact decision second right.offset
          | true => exact accord.pure _
      | _ => exact accord.bind second fun _ => accord.act (.operator _ _ _ _)
  | .access note name => by
      apply accord.evaluating
      exact accord.bind (accord.act (.findVariable name note.offset)) fun _ => accord.pure _
  | .element note name index => by
      apply accord.evaluating
      apply accord.bind (accord.act (.findVariable name note.offset))
      intro binding
      apply accord.bind (evaluate invokes index)
      intro value
      apply accord.bind (accord.act (.integer value index.offset))
      intro position
      apply accord.bind (accord.act (.cell binding.value note.offset))
      intro cell
      exact accord.act (.element cell position index.offset)
  | .call note name arguments => by
      apply accord.evaluating
      apply accord.findFunction name arguments.length note.offset
      intro callable callee
      apply accord.bind (evaluateAll invokes arguments)
      intro values
      exact invokes callable callee values note.offset
  | .list _ elements => by
      apply accord.evaluating
      exact accord.bind (evaluateAll invokes elements) fun values => accord.act (.allocate values)

theorem evaluateAll (invokes : accord.Invokes invoke invoke') : ∀ exprs : List Expr,
    accord.Closed (Expr.evaluateAll invoke exprs) (Expr.stageAll staging invoke' exprs)
  | [] => accord.pure _
  | first :: rest =>
      accord.bind (evaluate invokes first) fun _ =>
        accord.bind (evaluateAll invokes rest) fun _ => accord.pure _

end

theorem evaluateOption (invokes : accord.Invokes invoke invoke') (value : Option Expr) :
    accord.Closed (Expr.evaluateOption invoke value) (Expr.stageOption staging invoke' value) := by
  cases value with
  | none => exact accord.pure _
  | some expr => exact evaluate invokes expr

theorem evaluateCondition (invokes : accord.Invokes invoke invoke') (expr : Expr) :
    accord.Closed (expr.evaluateCondition invoke) (expr.stageCondition staging invoke') :=
  accord.bind (evaluate invokes expr) fun value => truth value expr.offset

theorem evaluateIndex (invokes : accord.Invokes invoke invoke') (expr : Expr) :
    accord.Closed (expr.evaluateIndex invoke) (expr.stageIndex staging invoke') :=
  accord.bind (evaluate invokes expr) fun value => accord.act (.integer value expr.offset)

end Expressions

section Statements

variable {invoke : Invoker} {invoke' : StagedInvoker M}

theorem assign (invokes : accord.Invokes invoke invoke') (receiver value : Expr) :
    accord.Closed (Exec.assign invoke receiver value) (staging.assign invoke' receiver value) := by
  cases receiver with
  | access note name => exact accord.assignVariable name note.offset (evaluate invokes value)
  | element note name index =>
      apply accord.bind (accord.act (.requireMutable name note.offset))
      intro _
      apply accord.bind (evaluateIndex invokes index)
      intro position
      apply accord.bind (evaluate invokes value)
      intro newValue
      apply accord.bind (accord.act (.findVariable name note.offset))
      intro binding
      apply accord.bind (accord.act (.cell binding.value note.offset))
      intro cell
      apply accord.storing
      exact accord.act (.storeElement cell position index.offset newValue value.offset)
  | _ => exact accord.act (.raise _ _)

theorem declareLocal (invokes : accord.Invokes invoke invoke') (name : String)
    (written : Option String) (value : Option Expr) :
    accord.Open (Exec.declareLocal invoke name value)
      (staging.declareLocal invoke' name written value) :=
  accord.bind_open (accord.open_of_closed (evaluateOption invokes value)) fun _ =>
    accord.declare _ _ _ _

mutual

theorem execute (invokes : accord.Invokes invoke invoke') : ∀ stmt : Stmt,
    accord.Carries stmt (stmt.execute invoke budget) (stmt.stage staging invoke' budget')
  | .expression value =>
      .of_closed (accord.bind (evaluate invokes value) fun _ => accord.pure _)
  | .declaration name written value =>
      ⟨accord.bind_open (declareLocal invokes name written value) fun _ =>
        accord.open_of_closed (accord.pure _), fun other => absurd rfl (other _ _ _)⟩
  | .assignment receiver value =>
      .of_closed (accord.bind (assign invokes receiver value) fun _ => accord.pure _)
  | .branch condition thenBlock elseBlock => by
      apply Carries.of_closed
      apply accord.bind (evaluateCondition invokes condition)
      intro holds
      cases holds with
      | false => exact accord.inBlock (executeAll invokes elseBlock)
      | true => exact accord.inBlock (executeAll invokes thenBlock)
  | .switch condition cases =>
      .of_closed (accord.bind (evaluate invokes condition) fun selector =>
        executeFirst invokes selector cases)
  | .loop condition body =>
      .of_closed (accord.repeatWhile (evaluateCondition invokes condition)
        (accord.inBlock (executeAll invokes body)))
  | .result value =>
      .of_closed (accord.bind (evaluate invokes value) fun _ => accord.pure _)

theorem executeAll (invokes : accord.Invokes invoke invoke') : ∀ stmts : List Stmt,
    accord.Open (Stmt.executeAll invoke budget stmts) (Stmt.stageAll staging invoke' budget' stmts)
  | [] => accord.open_of_closed (accord.pure _)
  | stmt :: rest => by
      apply accord.bind_open (execute invokes stmt).1
      intro flow
      cases flow with
      | normal => exact executeAll invokes rest
      | returned value => exact accord.open_of_closed (accord.pure _)

theorem executeFirst (invokes : accord.Invokes invoke invoke') (selector : Value) :
    ∀ cases : List Case,
    accord.Closed (Case.executeFirst invoke budget selector cases)
      (Case.stageFirst staging invoke' budget' selector cases)
  | [] => accord.pure _
  | .mk none body :: _ => accord.inBlock (executeAll invokes body)
  | .mk (some value) body :: rest => by
      apply accord.bind (evaluate invokes value)
      intro candidate
      apply accord.bind (accord.act (.lookStore fun store => store.same candidate selector))
      intro equal
      cases equal with
      | false => exact executeFirst invokes selector rest
      | true => exact accord.inBlock (executeAll invokes body)

end

end Statements

section Calls

variable {invoke : Invoker} {invoke' : StagedInvoker M}

theorem runBody (invokes : accord.Invokes invoke invoke') (function : Function)
    (arguments : List Value) :
    accord.Open (Exec.runBody invoke budget function arguments)
      (staging.runBody invoke' budget' function arguments) := by
  apply accord.returning
  apply accord.bind_open (accord.bindParameters function arguments)
  intro _
  apply accord.bind_open (executeAll invokes function.body)
  intro flow
  cases flow <;> exact accord.open_of_closed (accord.pure _)

theorem invokeWith (invokes : accord.Invokes invoke invoke') :
    accord.Invokes (Exec.invokeWith invoke budget) (staging.invokeWith invoke' budget') := by
  intro callable callee arguments offset
  cases callable with
  | builtin builtin => exact accord.act (.builtin builtin arguments offset)
  | user function home =>
      simp only [Exec.invokeWith, Staging.invokeWith]
      split
      · exact accord.act (.raise _ _)
      · exact accord.call function home arguments offset callee (runBody invokes function arguments)

theorem invokes (room : Nat) :
    accord.Invokes (Exec.invoke budget room) (staging.invoke budget' room) := by
  induction room with
  | zero => exact fun callable _ arguments offset => accord.refuse callable arguments offset
  | succ room induction => exact invokeWith induction

end Calls

section Programs

variable {invoke : Invoker} {invoke' : StagedInvoker M} {program : Program}

/-- A relation that holds of closed actions and of definitions holds of the run of a program. -/
theorem run (invokes : accord.Invokes invoke invoke') (callees : ∀ callable, accord.Callee callable)
    {Whole : {α : Type} → Exec α → M α → Prop}
    (closed : ∀ {α : Type} {action : Exec α} {staged : M α},
      accord.Closed action staged → Whole action staged)
    (bind : ∀ {α β : Type} {action : Exec α} {staged : M α} {next : α → Exec β}
      {next' : α → M β}, Whole action staged → (∀ value, Whole (next value) (next' value)) →
        Whole (action >>= next) (staged >>= next'))
    (declare : ∀ name offset binding ty, Whole (Exec.declare name offset binding)
      (staging.declare name offset binding ty))
    (defineFunction : ∀ function ∈ program.functions, Whole (Exec.defineFunction function)
      (staging.defineFunction function)) :
    Whole (do
      Exec.defineGlobals invoke program.globals
      Exec.defineFunctions program.functions
      Exec.callMain invoke) (program.stage staging invoke') := by
  have globals : ∀ globals : List Global,
      Whole (Exec.defineGlobals invoke globals) (staging.defineGlobals invoke' globals) := by
    intro globals
    induction globals with
    | nil => exact closed (accord.pure _)
    | cons global rest induction =>
        have first : Whole (Exec.defineGlobal invoke global)
            (staging.defineGlobal invoke' global) :=
          bind (closed (evaluateOption invokes global.value)) fun _ => declare _ _ _ _
        exact bind first fun _ => induction
  have functions : ∀ functions : List Function,
      (∀ function ∈ functions, function ∈ program.functions) →
      Whole (Exec.defineFunctions functions) (staging.defineFunctions functions) := by
    intro functions included
    induction functions with
    | nil => exact closed (accord.pure _)
    | cons function rest induction =>
        obtain ⟨first, later⟩ := List.forall_mem_cons.mp included
        exact bind (defineFunction function first) fun _ => induction later
  apply bind (globals program.globals)
  intro _
  apply bind (functions program.functions fun _ => id)
  intro _
  apply closed
  apply accord.bind (accord.act (.look fun view => view.functionOf "main" 0))
  intro found
  cases found with
  | none => exact accord.act (.raise _ _)
  | some callable => exact invokes callable (callees callable) [] 0

end Programs

/-- What each of two accords relates. -/
def and (first second : staging.Accord budget budget') (same : second.Callee = first.Callee) :
    staging.Accord budget budget' where
  Closed action staged := first.Closed action staged ∧ second.Closed action staged
  Open action staged := first.Open action staged ∧ second.Open action staged
  Callee := first.Callee
  pure value := ⟨first.pure value, second.pure value⟩
  bind both later :=
    ⟨first.bind both.1 fun value => (later value).1,
      second.bind both.2 fun value => (later value).2⟩
  open_of_closed both := ⟨first.open_of_closed both.1, second.open_of_closed both.2⟩
  bind_open both later :=
    ⟨first.bind_open both.1 fun value => (later value).1,
      second.bind_open both.2 fun value => (later value).2⟩
  act modest := ⟨first.act modest, second.act modest⟩
  findFunction name arity offset _ _ later :=
    ⟨first.findFunction name arity offset fun callable callee => (later callable callee).1,
      second.findFunction name arity offset fun callable callee =>
        (later callable (same ▸ callee)).2⟩
  assignVariable name offset _ _ both :=
    ⟨first.assignVariable name offset both.1, second.assignVariable name offset both.2⟩
  declare name offset binding ty :=
    ⟨first.declare name offset binding ty, second.declare name offset binding ty⟩
  bindParameters function arguments :=
    ⟨first.bindParameters function arguments, second.bindParameters function arguments⟩
  inBlock both := ⟨first.inBlock both.1, second.inBlock both.2⟩
  repeatWhile tests bodies :=
    ⟨first.repeatWhile tests.1 bodies.1, second.repeatWhile tests.2 bodies.2⟩
  call function home arguments offset _ _ callee both :=
    ⟨first.call function home arguments offset callee both.1,
      second.call function home arguments offset (same ▸ callee) both.2⟩
  refuse callable arguments offset :=
    ⟨first.refuse callable arguments offset, second.refuse callable arguments offset⟩
  evaluating expr _ _ both := ⟨first.evaluating expr both.1, second.evaluating expr both.2⟩
  storing receiver cell value _ _ both :=
    ⟨first.storing receiver cell value both.1, second.storing receiver cell value both.2⟩
  returning function _ _ both :=
    ⟨first.returning function both.1, second.returning function both.2⟩

end Staging.Accord

/-- A relation that holds of all blind actions.  For it there is no difference between closed and
open actions, and calls can refer to anything. -/
structure Staging.BlindAccord (staging : Staging M) (budget budget' : Nat) where
  Related : {α : Type} → Exec α → M α → Prop
  pure {α : Type} (value : α) : Related (pure value) (pure value)
  bind {α β : Type} {action : Exec α} {staged : M α} {next : α → Exec β} {next' : α → M β} :
    Related action staged → (∀ value, Related (next value) (next' value)) →
      Related (action >>= next) (staged >>= next')
  blind {α : Type} {action : Exec α} : action.Blind → Related action (staging.act action)
  inBlock {α : Type} {action : Exec α} {staged : M α} :
    Related action staged → Related (Exec.inBlock action) (staging.inBlock staged)
  repeatWhile {test : Exec Bool} {test' : M Bool} {body : Exec Flow} {body' : M Flow} :
    Related test test' → Related body body' →
      Related (Exec.repeatWhile test body budget) (staging.repeatWhile test' body' budget')
  call (function : Function) (home : Nat) (arguments : List Value) (offset : Nat)
      {body : Exec Value} {body' : M Value} : Related body body' →
    Related (Staging.plain.callWithin function home arguments offset body)
      (staging.callWithin function home arguments offset body')
  refuse (callable : Callable) (arguments : List Value) (offset : Nat) :
    Related (Exec.refuseCall callable arguments offset)
      (staging.act (Exec.refuseCall callable arguments offset))
  evaluating (expr : Expr) {evaluation : Exec Value} {evaluation' : M Value} :
    Related evaluation evaluation' →
      Related evaluation (staging.evaluating expr evaluation') := by intros; assumption
  storing (receiver : Expr) (cell : Nat) (value : Value) {store : Exec Unit} {store' : M Unit} :
    Related store store' →
      Related store (staging.storing receiver cell value store') := by intros; assumption
  returning (function : Function) {body : Exec Value} {body' : M Value} :
    Related body body' → Related body (staging.returning function body') := by
      intros; assumption
  declare (name : String) (offset : Option Nat) (binding : Binding) (ty : Ty) :
    Related (Exec.declare name offset binding) (staging.act (Exec.declare name offset binding)) →
      Related (Exec.declare name offset binding) (staging.declare name offset binding ty) := by
        intros; assumption
  bindParameters (function : Function) (arguments : List Value) :
    Related (Exec.bindParameters (function.parameters.zip arguments))
        (staging.act (Exec.bindParameters (function.parameters.zip arguments))) →
      Related (Exec.bindParameters (function.parameters.zip arguments))
        (staging.bindParameters function arguments) := by intros; assumption
  defineFunction (function : Function) :
    Related (Exec.defineFunction function) (staging.act (Exec.defineFunction function)) →
      Related (Exec.defineFunction function) (staging.defineFunction function) := by
        intros; assumption

namespace Staging.BlindAccord

variable {staging : Staging M} {budget budget' : Nat} (accord : staging.BlindAccord budget budget')

theorem modest {α : Type} {action : Exec α} (modest : action.Modest) :
    accord.Related action (staging.act action) :=
  accord.blind (.modest modest)

def toAccord : staging.Accord budget budget' where
  Closed := accord.Related
  Open := accord.Related
  Callee _ := True
  pure := accord.pure
  bind := accord.bind
  open_of_closed related := related
  bind_open := accord.bind
  act := accord.modest
  findFunction name arity offset _ _ later :=
    accord.bind (accord.modest (.findFunction name arity offset)) fun callable =>
      later callable trivial
  assignVariable name offset _ _ related :=
    accord.bind (accord.modest (.requireMutable name offset)) fun _ =>
      accord.bind related fun value => accord.blind (.assignVariable name offset value)
  declare name offset binding ty :=
    accord.declare name offset binding ty (accord.blind (.declare name offset binding))
  bindParameters function arguments :=
    accord.bindParameters function arguments (accord.blind (.bindParameters _))
  inBlock := accord.inBlock
  repeatWhile := accord.repeatWhile
  call function home arguments offset _ _ _ := accord.call function home arguments offset
  refuse := accord.refuse
  evaluating := accord.evaluating
  storing := accord.storing
  returning := accord.returning

theorem run {invoke : Invoker} {invoke' : StagedInvoker M}
    (invokes : accord.toAccord.Invokes invoke invoke') (program : Program) :
    accord.Related (do
      Exec.defineGlobals invoke program.globals
      Exec.defineFunctions program.functions
      Exec.callMain invoke) (program.stage staging invoke') := by
  apply accord.toAccord.run invokes (fun _ => trivial) id accord.bind
  · exact accord.toAccord.declare
  · exact fun function _ => accord.defineFunction function (accord.blind (.defineFunction function))

/-- On the plain stage actions are the actions of the machine. -/
def plain (budget : Nat) : Staging.plain.BlindAccord budget budget where
  Related action staged := action = staged
  pure _ := rfl
  bind same later := by rw [same, funext later]
  blind _ := rfl
  inBlock same := by
    rw [same]
    rfl
  repeatWhile tests bodies :=
    Accord.repeatWhile_of_rounds .plain (· = ·) (fun _ => rfl)
      (fun same later => by rw [same, funext later]) rfl _ _ _ _ tests bodies budget
  call _ _ _ _ _ _ same := by rw [same]
  refuse _ _ _ := rfl

end Staging.BlindAccord

theorem Staging.invoke_plain (budget room : Nat) :
    Staging.plain.invoke budget room = Exec.invoke budget room := by
  funext callable arguments offset
  let accord := (Staging.BlindAccord.plain budget).toAccord
  exact (accord.invokes room callable trivial arguments offset).symm

theorem Program.stage_plain (program : Program) (invoke : Invoker) :
    program.stage .plain invoke = (do
      Exec.defineGlobals invoke program.globals
      Exec.defineFunctions program.functions
      Exec.callMain invoke) :=
  ((Staging.BlindAccord.plain 0).run (fun _ _ _ _ => rfl) program).symm

end Procedural
