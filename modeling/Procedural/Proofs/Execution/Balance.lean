import Procedural.Proofs.Execution.Chronicle
import Procedural.Proofs.Execution.Logic
import Procedural.Proofs.Scope.Keeping

/-!
# Balanced runs

However an expression, a statement or a call ends, it leaves the scope with the frames that
it found, and these bind the names that they bound before.  Only a declaration adds a name,
to the newest frame.  So an assignment finds its variable again once its operands are
evaluated, and the frame that a block or a call removes is the one that it added.
-/

namespace Procedural

variable {α β : Type} {functions : List Function}

namespace Exec

theorem requireMutable_ok {name : String} {offset : Nat} {machine : Machine}
    (succeeds : (requireMutable name offset machine).1 = .ok ()) :
    ∃ binding, (requireMutable name offset machine).2.environment.findVariable? name =
      some binding ∧ binding.mutable = true := by
  have ends : Ends (requireMutable name offset) machine
      (fun _ after => ∃ binding, after.environment.findVariable? name = some binding ∧
        binding.mutable = true) fun _ _ => True :=
    .requireMutable (fun binding found mutable => ⟨binding, found, mutable⟩)
      (fun _ _ _ => trivial) fun _ => trivial
  exact ends.of_ok succeeds

theorem assignVariable_keeps {name : String} (offset : Nat) {machine : Machine}
    {binding : Binding} (found : machine.environment.findVariable? name = some binding)
    (mutable : binding.mutable = true) (value : Value) :
    machine.environment.Keeps (assignVariable name offset value machine).2.environment := by
  let keeps (after : Machine) : Prop := machine.environment.Keeps after.environment
  have ends : Ends (assignVariable name offset value) machine (fun _ => keeps) fun _ => keeps :=
    .bind (.findVariable (fun _ _ => (Scope.Keeps.refl _).assign found mutable value)
      fun _ => Scope.Keeps.refl _)
  exact Ends.leaves_iff.mp ends

end Exec

/-- The account leads from a scope to a related one, and the root changes as it may on the way. -/
structure Account.Follows (functions : List Function) (related : Environment → Environment → Prop)
    (before : Environment) (account : Account α) : Prop where
  ends : related before account.machine.environment
  passes : Scope.Passage functions before
    (account.instants.map fun instant => instant.machine.environment) account.machine.environment

/-- From every scope of a kind the action leads to a related one. -/
def Chronicled.Leads (functions : List Function) (starts : Environment → Prop)
    (related : Environment → Environment → Prop) (chronicled : Chronicled α) : Prop :=
  ∀ calls machine, starts machine.environment →
    (chronicled calls machine).Follows functions related machine.environment

namespace Chronicled

variable {starts : Environment → Prop} {related : Environment → Environment → Prop}

theorem follows_bind
    (trans : ∀ first second third, related first second → related second third →
      related first third)
    {chronicled : Chronicled α} {next : α → Chronicled β} {calls : List Function}
    {machine : Machine}
    (follows : (chronicled calls machine).Follows functions related machine.environment)
    (later : ∀ value, (chronicled calls machine).result = .ok value →
      (next value calls (chronicled calls machine).machine).Follows functions related
        (chronicled calls machine).machine.environment) :
    ((chronicled >>= next) calls machine).Follows functions related machine.environment := by
  apply bind_cases
  · exact fun stop _ => ⟨follows.ends, follows.passes⟩
  · intro value succeeds
    have second := later value succeeds
    refine ⟨trans _ _ _ follows.ends second.ends, ?_⟩
    rw [List.map_append]
    exact follows.passes.trans second.passes

namespace Leads

theorem bind
    (trans : ∀ first second third, related first second → related second third →
      related first third)
    (carries : ∀ before after, starts before → related before after → starts after)
    {chronicled : Chronicled α} {next : α → Chronicled β}
    (leads : chronicled.Leads functions starts related)
    (later : ∀ value, (next value).Leads functions starts related) :
    (chronicled >>= next).Leads functions starts related := by
  intro calls machine started
  have follows := leads calls machine started
  exact follows_bind trans follows fun value _ =>
    later value calls _ (carries _ _ started follows.ends)

theorem act {action : Exec α}
    (does : ∀ machine, starts machine.environment →
      related machine.environment (action machine).2.environment ∧
        Scope.Precedes functions machine.environment (action machine).2.environment) :
    (Chronicled.act action).Leads functions starts related := by
  intro calls machine started
  obtain ⟨ends, precedes⟩ := does machine started
  exact ⟨ends, .single precedes⟩

end Leads

/-- It keeps the scope. -/
def Keeps (functions : List Function) : Chronicled α → Prop :=
  Leads functions (fun _ => True) Scope.Keeps

/-- It keeps all frames but the newest one, which is not the root. -/
def KeepsBelow (functions : List Function) : Chronicled α → Prop :=
  Leads functions (fun environment => 0 < environment.current) Scope.KeepsBelow

theorem Keeps.bind {chronicled : Chronicled α} {next : α → Chronicled β}
    (keeps : chronicled.Keeps functions) (later : ∀ value, (next value).Keeps functions) :
    (chronicled >>= next).Keeps functions :=
  Leads.bind (fun _ _ _ => .trans) (fun _ _ _ _ => trivial) keeps later

theorem Keeps.pure (value : α) : (Chronicled.pure value).Keeps functions :=
  fun _ _ _ => ⟨.refl _, .nil (.refl _)⟩

/-- An action does not touch the scope. -/
theorem Keeps.still (action : Exec α)
    (still : ∀ machine, (action machine).2.environment = machine.environment) :
    (Chronicled.act action).Keeps functions := by
  apply Leads.act
  intro machine _
  rw [still machine]
  exact ⟨.refl _, .refl _⟩

theorem Keeps.modest {action : Exec α} (modest : action.Modest) :
    (Chronicled.act action).Keeps functions :=
  .still action modest.environment

theorem Keeps.below {chronicled : Chronicled α} (keeps : chronicled.Keeps functions) :
    chronicled.KeepsBelow functions := by
  intro calls machine _
  have follows := keeps calls machine trivial
  exact ⟨.of_keeps follows.ends, follows.passes⟩

theorem KeepsBelow.bind {chronicled : Chronicled α} {next : α → Chronicled β}
    (keeps : chronicled.KeepsBelow functions)
    (later : ∀ value, (next value).KeepsBelow functions) :
    (chronicled >>= next).KeepsBelow functions := by
  apply Leads.bind (fun _ _ _ => .trans) _ keeps later
  intro before after inside keeps
  rw [keeps.current]
  exact inside

/-- The frame that is removed after an action is the one that it was taken in. -/
theorem KeepsBelow.inFrame {chronicled : Chronicled α} (keeps : chronicled.KeepsBelow functions)
    (outer : Environment → Nat) : (Chronicled.inFrame outer chronicled).Keeps functions := by
  intro calls machine _
  let entered := machine.enter (outer machine.environment)
  let inside := (chronicled calls entered).machine
  -- whatever the action binds in the new frame, the frames below it are kept
  have follows := keeps calls entered (Nat.succ_pos _)
  have enters : Scope.Precedes functions machine.environment entered.environment := .of_root rfl
  have leaves : Scope.Precedes functions inside.environment inside.leave.environment :=
    .of_root rfl
  refine ⟨follows.ends.leave, ?_⟩
  change Scope.Passage functions _ (_ :: List.map _ (_ ++ [_])) _
  rw [List.map_append]
  exact (Scope.Passage.single enters).trans (follows.passes.trans (.single leaves))

theorem KeepsBelow.inCall {chronicled : Chronicled α} (keeps : chronicled.KeepsBelow functions)
    (function : Function) (home : Nat) :
    (Chronicled.inCall function home chronicled).Keeps functions := by
  intro calls machine _
  have follows := keeps.inFrame (fun _ => home) (function :: calls) machine.deeper trivial
  refine ⟨follows.ends, ?_⟩
  change Scope.Passage functions _ (_ :: List.map _ (_ ++ [_])) _
  rw [List.map_append]
  exact (Scope.Passage.single (.refl _)).trans (follows.passes.trans (.single (.refl _)))

theorem KeepsBelow.declare (name : String) (offset : Option Nat) (binding : Binding) :
    (Chronicled.act (Exec.declare name offset binding)).KeepsBelow functions := by
  apply Leads.act
  intro machine inside
  let keeps (after : Machine) : Prop :=
    machine.environment.KeepsBelow after.environment ∧
      Scope.Precedes functions machine.environment after.environment
  have ends : (Exec.declare name offset binding).Ends machine (fun _ => keeps) fun _ => keeps :=
    .declare (fun unbound => ⟨(Scope.KeepsBelow.defineVariable inside name binding).1,
        .defineVariable unbound binding⟩)
      fun _ => ⟨.of_keeps (.refl _), .refl _⟩
  exact Exec.Ends.leaves_iff.mp ends

theorem KeepsBelow.bindParameters (bindings : List (String × Value)) :
    (Chronicled.act (Exec.bindParameters bindings)).KeepsBelow functions := by
  apply Leads.act
  intro machine inside
  have both : machine.environment.KeepsBelow
        (Exec.bindParameters bindings machine).2.environment ∧
      (Exec.bindParameters bindings machine).2.environment.root = machine.environment.root := by
    induction bindings generalizing machine with
    | nil => exact ⟨.of_keeps (.refl _), rfl⟩
    | cons binding rest induction =>
        obtain ⟨keeps, same⟩ :=
          Scope.KeepsBelow.defineVariable inside binding.1 ⟨binding.2, true⟩
        obtain ⟨keepsLater, sameLater⟩ := induction
          { machine with
            environment := machine.environment.defineVariable binding.1 ⟨binding.2, true⟩ }
          (keeps.current ▸ inside)
        exact ⟨keeps.trans keepsLater, sameLater.trans same⟩
  exact ⟨both.1, .of_root both.2⟩

/-- When its new value is known, the variable of an assignment is still there, and may change. -/
theorem Keeps.assignVariable (name : String) (offset : Nat) {value : Chronicled Value}
    (keeps : value.Keeps functions) :
    Keeps functions (do
      Chronicled.act (Exec.requireMutable name offset)
      let newValue ← value
      Chronicled.act (Exec.assignVariable name offset newValue)) := by
  intro calls machine _
  apply follows_bind (fun _ _ _ => .trans)
    (Keeps.modest (.requireMutable name offset) calls machine trivial)
  intro _ succeeds
  obtain ⟨binding, found, mutable⟩ := Exec.requireMutable_ok succeeds
  have evaluates := keeps calls (Exec.requireMutable name offset machine).2 trivial
  apply follows_bind (fun _ _ _ => .trans) evaluates
  intro newValue _
  -- evaluation may have changed the value, but not that there is a variable that may change
  obtain ⟨binding', found', becomes⟩ := evaluates.ends.findVariable found
  have assigns := Exec.assignVariable_keeps offset found' (becomes.mutable.trans mutable) newValue
  exact ⟨assigns, .single (.of_keeps assigns)⟩

theorem Keeps.callWithin (function : Function) (home : Nat) (arguments : List Value)
    (offset : Nat) {body : Chronicled Value} (keeps : body.KeepsBelow functions) :
    (Staging.chronicled.callWithin function home arguments offset body).Keeps functions := by
  apply Keeps.bind (.still (Exec.look _) fun _ => rfl)
  intro full
  cases full with
  | true => exact .still (Exec.refuseCall (.user function home) arguments offset) fun _ => rfl
  | false => exact keeps.inCall function home

end Chronicled

open Chronicled in
/-- Runs keep the scope; the functions are those that may come to be bound. -/
def Staging.Accord.balancing (functions : List Function) (budget : Nat) :
    Staging.chronicled.Accord budget budget where
  Closed _ := Chronicled.Keeps functions
  Open _ := KeepsBelow functions
  Callee _ := True
  pure _ := Keeps.pure _
  bind := Keeps.bind
  open_of_closed := Keeps.below
  bind_open := KeepsBelow.bind
  act := Keeps.modest
  findFunction name arity offset _ _ later :=
    (Keeps.modest (.findFunction name arity offset)).bind fun callable => later callable trivial
  assignVariable name offset _ _ := Keeps.assignVariable name offset
  declare name offset binding _ := KeepsBelow.declare name offset binding
  bindParameters _ _ := KeepsBelow.bindParameters _
  inBlock keeps := keeps.inFrame Scope.current
  repeatWhile {test test' body body'} tests bodies :=
    repeatWhile_of_rounds .chronicled (fun _ => Chronicled.Keeps functions) Keeps.pure
      Keeps.bind (.modest (.stop _)) test test' body body' tests bodies budget
  call function home arguments offset _ _ _ := Keeps.callWithin function home arguments offset
  refuse callable arguments offset :=
    .still (Exec.refuseCall callable arguments offset) fun _ => rfl

/-- It starts and ends at the root. -/
def Chronicled.StaysAtRoot (functions : List Function) : Chronicled α → Prop :=
  Leads functions Scope.Alone fun _ after => after.Alone

namespace Chronicled.StaysAtRoot

theorem of_keeps {chronicled : Chronicled α} (keeps : chronicled.Keeps functions) :
    chronicled.StaysAtRoot functions := by
  intro calls machine alone
  have follows := keeps calls machine trivial
  exact ⟨List.length_eq_zero_iff.mp
    (follows.ends.current.trans (List.length_eq_zero_iff.mpr alone)), follows.passes⟩

theorem bind {chronicled : Chronicled α} {next : α → Chronicled β}
    (stays : chronicled.StaysAtRoot functions)
    (later : ∀ value, (next value).StaysAtRoot functions) :
    (chronicled >>= next).StaysAtRoot functions := by
  apply Leads.bind _ _ stays later
  · exact fun _ _ _ _ alone => alone
  · exact fun _ _ _ alone => alone

theorem declare (name : String) (offset : Option Nat) (binding : Binding) :
    (Chronicled.act (Exec.declare name offset binding)).StaysAtRoot functions := by
  apply Leads.act
  intro machine alone
  let stays (after : Machine) : Prop :=
    after.environment.Alone ∧ Scope.Precedes functions machine.environment after.environment
  have ends : (Exec.declare name offset binding).Ends machine (fun _ => stays) fun _ => stays :=
    .declare (fun unbound => ⟨alone.defineVariable name binding, .defineVariable unbound binding⟩)
      fun _ => ⟨alone, .refl _⟩
  exact Exec.Ends.leaves_iff.mp ends

theorem defineFunction {function : Function} (member : function ∈ functions) :
    (Chronicled.act (Exec.defineFunction function)).StaysAtRoot functions := by
  apply Leads.act
  intro machine alone
  let stays (after : Machine) : Prop :=
    after.environment.Alone ∧ Scope.Precedes functions machine.environment after.environment
  have ends : (Exec.defineFunction function).Ends machine (fun _ => stays) fun _ => stays := by
    apply Exec.Ends.bind
    apply Exec.Ends.look
    split
    · exact ⟨alone, .refl _⟩
    · exact ⟨alone.defineFunction _ _ _, .defineFunction member alone⟩
  exact Exec.Ends.leaves_iff.mp ends

end Chronicled.StaysAtRoot

/-- A run begins at the root, where it binds its functions, and ends there. -/
theorem Program.account_follows (budget : Nat) (program : Program) (start : Machine) :
    (program.account budget start).Follows program.functions (fun _ after => after.Alone)
      Machine.rootEnvironment := by
  let accord := Staging.Accord.balancing program.functions budget
  have closed : ∀ {α : Type} {action : Exec α} {chronicled : Chronicled α},
      accord.Closed action chronicled → chronicled.StaysAtRoot program.functions :=
    fun keeps => Chronicled.StaysAtRoot.of_keeps keeps
  exact accord.run (accord.invokes start.reset.room) (fun _ => trivial) closed
    Chronicled.StaysAtRoot.bind (fun name offset binding _ => .declare name offset binding)
    (fun _ => Chronicled.StaysAtRoot.defineFunction) [] start.reset rfl

/-- What a statement leaves of a scope: a declaration that succeeds adds its name to the newest
frame, and nothing else changes. -/
def Stmt.Leaves (stmt : Stmt) (before : Environment) (result : Except Stop Flow)
    (after : Environment) : Prop :=
  match stmt, result with
  | .declaration name _ _, .ok _ =>
      before.definesVariable name = false ∧
        ∃ value, (before.defineVariable name ⟨value, true⟩).Keeps after
  | _, _ => before.Keeps after

/-- If the variable of an assignment may change, then it is found again after the operands, and
may change then. -/
def Exec.FindsAgain (name : String) (offset : Nat) (operands : Exec α) (machine : Machine) : Prop :=
  (Exec.requireMutable name offset machine).1 = .ok () →
    ∃ binding, (operands machine).2.environment.findVariable? name = some binding ∧
      binding.mutable = true

/-- However it ends, what is carried out on a machine leaves the scope in balance. -/
structure Machine.Balanced (invoke : Invoker) (budget : Nat) (machine : Machine) : Prop where
  expression : ∀ expr : Expr,
    machine.environment.Keeps (expr.evaluate invoke machine).2.environment
  call : ∀ callable arguments offset,
    machine.environment.Keeps (invoke callable arguments offset machine).2.environment
  statement : ∀ stmt : Stmt, stmt.Leaves machine.environment
    (stmt.execute invoke budget machine).1 (stmt.execute invoke budget machine).2.environment
  /-- What is removed after a block is the one frame that was added for it. -/
  block : ∀ stmts : List Stmt,
    (Stmt.executeAll invoke budget stmts
      (machine.enter machine.environment.current)).2.environment.current =
        machine.environment.current + 1 ∧
    machine.environment.Keeps
      (Exec.inBlock (Stmt.executeAll invoke budget stmts) machine).2.environment
  body : ∀ (function : Function) (home : Nat) (arguments : List Value),
    (Exec.runBody invoke budget function arguments
      (machine.deeper.enter home)).2.environment.current = machine.environment.current + 1 ∧
    machine.environment.Keeps
      (Exec.inCall home (Exec.runBody invoke budget function arguments) machine).2.environment
  assignment : ∀ (name : String) (offset : Nat) (value : Expr),
    Exec.FindsAgain name offset (value.evaluate invoke) machine
  elementAssignment : ∀ (name : String) (offset : Nat) (index value : Expr),
    Exec.FindsAgain name offset (do
      let position ← index.evaluateIndex invoke
      let newValue ← value.evaluate invoke
      pure (position, newValue)) machine
  /-- A global variable is bound to its initial value. -/
  global : ∀ global : Global,
    (Exec.defineGlobal invoke global machine).1 = .ok () →
      ∃ value, (Expr.evaluateOption invoke global.value machine).1 = .ok value ∧
        (Exec.defineGlobal invoke global machine).2.environment =
          (Expr.evaluateOption invoke global.value machine).2.environment.defineVariable
            global.name ⟨value, global.mutable⟩

/-- Actions keep the scope, and chronicling changes nothing. -/
def Staging.Accord.keeping (budget : Nat) : Staging.chronicled.Accord budget budget :=
  (BlindAccord.telling budget).toAccord.and (.balancing [] budget) rfl

namespace Machine

variable {budget : Nat} {action : Exec α} {chronicled : Chronicled α}

theorem keeps_of_accord (both : (Staging.Accord.keeping budget).Closed action chronicled)
    (machine : Machine) : machine.environment.Keeps (action machine).2.environment := by
  obtain ⟨tells, keeps⟩ := both
  have same : action machine = _ := tells [] machine
  rw [same]
  exact (keeps [] machine trivial).ends

theorem keepsBelow_of_accord (both : (Staging.Accord.keeping budget).Open action chronicled)
    (machine : Machine) (outer : Nat) :
    (action (machine.enter outer)).2.environment.current = machine.environment.current + 1 ∧
      machine.environment.Keeps (action (machine.enter outer)).2.environment.pop := by
  obtain ⟨tells, keeps⟩ := both
  have same : action (machine.enter outer) = _ := tells [] _
  rw [same]
  have follows := keeps [] (machine.enter outer) (Nat.succ_pos _)
  exact ⟨follows.ends.current, follows.ends.leave⟩

theorem findsAgain_of_keeps {operands : Exec α} {machine : Machine}
    (keeps : machine.environment.Keeps (operands machine).2.environment) (name : String)
    (offset : Nat) : Exec.FindsAgain name offset operands machine := by
  intro succeeds
  obtain ⟨binding, found, mutable⟩ := Exec.requireMutable_ok succeeds
  rw [(Exec.Modest.requireMutable name offset).environment machine] at found
  obtain ⟨binding', found', becomes⟩ := keeps.findVariable found
  exact ⟨binding', found', becomes.mutable.trans mutable⟩

end Machine

theorem Stmt.leaves_declaration {invoke : Invoker} {budget : Nat} {machine : Machine}
    {value : Option Expr}
    (keeps : machine.environment.Keeps
      (Expr.evaluateOption invoke value machine).2.environment)
    (name : String) (typeName : Option String) :
    (Stmt.declaration name typeName value).Leaves machine.environment
      ((Stmt.declaration name typeName value).execute invoke budget machine).1
      ((Stmt.declaration name typeName value).execute invoke budget machine).2.environment := by
  have ends : ((Stmt.declaration name typeName value).execute invoke budget).Ends machine
      (fun _ after => machine.environment.definesVariable name = false ∧
        ∃ value, (machine.environment.defineVariable name ⟨value, true⟩).Keeps after.environment)
      fun _ after => machine.environment.Keeps after.environment := by
    apply Exec.Ends.bind
    apply Exec.Ends.bind
    apply (Exec.Ends.leaves_iff.mpr keeps).imp _ fun _ _ => id
    intro initial after keeps
    apply Exec.Ends.declare
    · intro unbound
      exact ⟨(keeps.definesVariable name).symm.trans unbound, initial, keeps.defineVariable name _⟩
    · exact fun _ => keeps
  unfold Exec.Ends at ends
  unfold Leaves
  split at ends <;> rename_i ended <;> rw [ended] <;> exact ends

theorem Exec.defineGlobal_binds {invoke : Invoker} {global : Global} {machine : Machine}
    (succeeds : (defineGlobal invoke global machine).1 = .ok ()) :
    ∃ value, (Expr.evaluateOption invoke global.value machine).1 = .ok value ∧
      (defineGlobal invoke global machine).2.environment =
        (Expr.evaluateOption invoke global.value machine).2.environment.defineVariable
          global.name ⟨value, global.mutable⟩ := by
  have ends : Ends (defineGlobal invoke global) machine
      (fun _ after => ∃ value, (Expr.evaluateOption invoke global.value machine).1 = .ok value ∧
        after.environment =
          (Expr.evaluateOption invoke global.value machine).2.environment.defineVariable
            global.name ⟨value, global.mutable⟩)
      fun _ _ => True := by
    apply Ends.bind
    apply (Ends.self _ machine).imp _ fun _ _ _ => trivial
    intro value after ended
    rw [ended]
    exact .declare (fun _ => ⟨value, rfl, rfl⟩) fun _ => trivial
  exact ends.of_ok succeeds

/-- Whatever is carried out, and however it ends, scopes stay in balance; and in the course of a run
no constant of the root ever changes. -/
theorem Program.scopes_balanced (program : Program) (budget : Nat) (start : Machine) :
    (∀ room machine, Machine.Balanced (Exec.invoke budget room) budget machine) ∧
      ((program.chronicle budget start).map (fun instant => instant.machine.environment) ++
        [(program.execute budget start).2.environment]).Pairwise Scope.KeepsConstants := by
  constructor
  · intro room machine
    let accord := Staging.Accord.keeping budget
    have invokes := accord.invokes room
    have keeps {α : Type} {action : Exec α} {chronicled : Chronicled α}
        (both : accord.Closed action chronicled) :
        machine.environment.Keeps (action machine).2.environment :=
      Machine.keeps_of_accord both machine
    constructor
    case expression => exact fun expr => keeps (accord.evaluate invokes expr)
    case call =>
      exact fun callable arguments offset => keeps (invokes callable trivial arguments offset)
    case statement =>
      intro stmt
      cases stmt with
      | declaration name typeName value =>
          exact Stmt.leaves_declaration (keeps (accord.evaluateOption invokes value)) name typeName
      | _ => exact keeps ((accord.execute invokes _).2 nofun)
    case block =>
      exact fun stmts => Machine.keepsBelow_of_accord (accord.executeAll invokes stmts) machine _
    case body =>
      exact fun function home arguments => Machine.keepsBelow_of_accord
        (accord.runBody invokes function arguments) machine.deeper home
    case assignment =>
      exact fun name offset value =>
        Machine.findsAgain_of_keeps (keeps (accord.evaluate invokes value)) name offset
    case elementAssignment =>
      intro name offset index value
      have operands := accord.bind (accord.evaluateIndex invokes index) fun position =>
        accord.bind (accord.evaluate invokes value) fun newValue => accord.pure (position, newValue)
      exact Machine.findsAgain_of_keeps (keeps operands) name offset
    case global => exact fun global => Exec.defineGlobal_binds
  · rw [program.account_tells budget start]
    exact (program.account_follows budget start).passes.imp fun precedes => precedes.constants

end Procedural
