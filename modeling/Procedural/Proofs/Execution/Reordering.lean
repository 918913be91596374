import Procedural.Proofs.Execution.Balance
import Procedural.Proofs.Reader.FromText
import Procedural.Proofs.Typing.Reordering
import Procedural.Tool

/-!
# Functions in another order

What a machine does depends on what names refer to, not on the order in which the root holds
its functions.  So nothing about a program depends on the order of its functions as long as
they can be told apart, by their names and numbers of parameters, from each other and from
the built-in ones.
-/

namespace Procedural

variable {α β : Type}

/-- The machines differ at most in how the root holds its functions. -/
structure Machine.Equivalent (machine machine' : Machine) : Prop where
  environment : machine.environment.Equivalent machine'.environment
  store : machine.store = machine'.store
  printed : machine.printed = machine'.printed
  depth : machine.depth = machine'.depth
  limit : machine.limit = machine'.limit

namespace Machine.Equivalent

variable {machine machine' : Machine}

theorem refl (machine : Machine) : machine.Equivalent machine :=
  ⟨.refl machine.environment, rfl, rfl, rfl, rfl⟩

theorem view (equivalent : machine.Equivalent machine') : machine.view = machine'.view := by
  unfold Machine.view
  rw [equivalent.environment.findVariable, equivalent.environment.findFunction, equivalent.store]

/-- The machines are still equivalent with equivalent scopes in the place of theirs. -/
theorem withEnvironment (equivalent : machine.Equivalent machine')
    {environment environment' : Environment} (scopes : environment.Equivalent environment') :
    Machine.Equivalent { machine with environment }
      { machine' with environment := environment' } :=
  ⟨scopes, equivalent.store, equivalent.printed, equivalent.depth, equivalent.limit⟩

end Machine.Equivalent

namespace Exec

/-- The action ends alike on equivalent machines, and leaves equivalent ones. -/
def Respects (action : Exec α) : Prop :=
  ∀ machine machine' : Machine, machine.Equivalent machine' →
    (action machine).1 = (action machine').1 ∧
      (action machine).2.Equivalent (action machine').2

namespace Respects

theorem modest {action : Exec α} (modest : action.Modest) : action.Respects := by
  intro machine machine' equivalent
  obtain ⟨deed, does⟩ := modest
  rw [does, does, equivalent.view]
  refine ⟨rfl, equivalent.environment, rfl, ?_, equivalent.depth, equivalent.limit⟩
  exact congrArg ((deed machine'.view).printed ++ ·) equivalent.printed

protected theorem pure (value : α) : Respects (pure value) :=
  modest (.pure value)

protected theorem bind {action : Exec α} {next : α → Exec β} (respects : action.Respects)
    (later : ∀ value, (next value).Respects) : (action >>= next).Respects := by
  intro machine machine' equivalent
  obtain ⟨same, after⟩ := respects machine machine' equivalent
  generalize ended : action machine = outcome at same after
  generalize ended' : action machine' = outcome' at same after
  obtain ⟨result, between⟩ := outcome
  obtain ⟨result', between'⟩ := outcome'
  obtain rfl : result = result' := same
  cases result with
  | error stop =>
      rw [bind_of_error ended, bind_of_error ended']
      exact ⟨rfl, after⟩
  | ok value =>
      rw [bind_of_ok ended, bind_of_ok ended']
      exact later value between between' after

theorem look {see : Machine → α}
    (same : ∀ machine machine' : Machine, machine.Equivalent machine' →
      see machine = see machine') : Respects (look see) :=
  fun machine machine' equivalent =>
    ⟨congrArg Except.ok (same machine machine' equivalent), equivalent⟩

theorem modifyEnvironment {change : Environment → Environment}
    (keeps : ∀ environment environment' : Environment, environment.Equivalent environment' →
      (change environment).Equivalent (change environment')) :
    Respects (modifyEnvironment change) :=
  fun _ _ equivalent =>
    ⟨rfl, equivalent.withEnvironment (keeps _ _ equivalent.environment)⟩

theorem assignVariable (name : String) (offset : Nat) (value : Value) :
    Respects (assignVariable name offset value) :=
  (modest (.findVariable name offset)).bind fun _ =>
    modifyEnvironment fun _ _ scopes => scopes.updateVariable name _

theorem declare (name : String) (offset : Option Nat) (binding : Binding) :
    Respects (declare name offset binding) := by
  apply (look fun _ _ equivalent => equivalent.environment.definesVariable name).bind
  intro bound
  split
  · exact modest (.raise _ _)
  · exact modifyEnvironment fun _ _ scopes => scopes.defineVariable name binding

theorem bindParameters (bindings : List (String × Value)) :
    Respects (bindParameters bindings) := by
  induction bindings with
  | nil => exact .pure ()
  | cons binding rest induction =>
      exact (modifyEnvironment fun _ _ scopes => scopes.defineVariable _ _).bind
        fun _ => induction

theorem inFrame {action : Exec α} (respects : action.Respects)
    {enter : Environment → Environment}
    (enters : ∀ environment environment' : Environment, environment.Equivalent environment' →
      (enter environment).Equivalent (enter environment')) :
    Respects (inFrame enter action) := by
  intro machine machine' equivalent
  obtain ⟨same, after⟩ :=
    respects _ _ (equivalent.withEnvironment (enters _ _ equivalent.environment))
  exact ⟨same, after.withEnvironment after.environment.pop⟩

theorem inCall {action : Exec α} (respects : action.Respects) (home : Nat) :
    Respects (inCall home action) := by
  intro machine machine' equivalent
  have deeper : machine.deeper.Equivalent machine'.deeper :=
    { equivalent with depth := congrArg (· + 1) equivalent.depth }
  obtain ⟨same, after⟩ :=
    respects.inFrame (fun _ _ scopes => scopes.pushUnder home) _ _ deeper
  exact ⟨same, { after with depth := congrArg (· - 1) after.depth }⟩

theorem refuseCall (callable : Callable) (arguments : List Value) (offset : Nat) :
    Respects (refuseCall callable arguments offset) :=
  (look fun _ _ equivalent => equivalent.limit).bind fun _ => modest (.raise _ _)

theorem callWithin (function : Function) (home : Nat) (arguments : List Value) (offset : Nat)
    {body : Exec Value} (respects : body.Respects) :
    Respects (Staging.plain.callWithin function home arguments offset body) := by
  apply Respects.bind (look fun _ _ equivalent => by rw [equivalent.limit, equivalent.depth])
  intro full
  cases full with
  | true => exact refuseCall (.user function home) arguments offset
  | false => exact respects.inCall home

end Respects

end Exec

open Exec in
/-- Runs respect equivalence. -/
def Staging.Accord.respecting (budget : Nat) : Staging.plain.Accord budget budget where
  Closed action _ := action.Respects
  Open action _ := action.Respects
  Callee _ := True
  pure := Respects.pure
  bind := Respects.bind
  open_of_closed respects := respects
  bind_open := Respects.bind
  act := Respects.modest
  findFunction name arity offset _ _ later :=
    (Respects.modest (.findFunction name arity offset)).bind fun callable =>
      later callable trivial
  assignVariable name offset _ _ respects :=
    (Respects.modest (.requireMutable name offset)).bind fun _ =>
      respects.bind fun value => .assignVariable name offset value
  declare name offset binding _ := Respects.declare name offset binding
  bindParameters _ _ := Respects.bindParameters _
  inBlock respects := respects.inFrame fun _ _ scopes => scopes.push
  repeatWhile {test test' body body'} tests bodies :=
    repeatWhile_of_rounds .plain (fun action _ => action.Respects) Respects.pure
      Respects.bind (.modest (.stop _)) test test' body body' tests bodies budget
  call function home arguments offset _ _ _ := Respects.callWithin function home arguments offset
  refuse := Respects.refuseCall

theorem Exec.callMain_respects (budget room : Nat) :
    Respects (callMain (invoke budget room)) := by
  let accord := Staging.Accord.respecting budget
  apply Respects.bind (.modest (.look fun view => view.functionOf "main" 0))
  intro found
  cases found with
  | none => exact .modest (.raise _ _)
  | some callable => exact accord.invokes room callable trivial [] 0

/-- A global variable is bound at the root, next to the functions that it has. -/
theorem Exec.root_of_defineGlobal {budget room : Nat} {global : Global} {machine : Machine}
    (alone : machine.environment.Alone)
    (succeeds : (defineGlobal (invoke budget room) global machine).1 = .ok ()) :
    let after := (defineGlobal (invoke budget room) global machine).2
    after.environment.Alone ∧
      after.environment.root.functionBindings = machine.environment.root.functionBindings := by
  let accord := Staging.Accord.keeping budget
  have keeps := Machine.keeps_of_accord
    (accord.evaluateOption (accord.invokes room) global.value) machine
  obtain ⟨value, -, binds⟩ := defineGlobal_binds succeeds
  generalize (Expr.evaluateOption _ global.value machine).2.environment = evaluated at keeps binds
  have evaluatedAlone : evaluated.Alone :=
    List.length_eq_zero_iff.mp (keeps.current.trans (List.length_eq_zero_iff.mpr alone))
  dsimp only
  rw [binds, keeps.functionBindings]
  refine ⟨evaluatedAlone.defineVariable _ _, ?_⟩
  rw [evaluatedAlone.eq]
  rfl

theorem Exec.root_of_defineGlobals {budget room : Nat} {globals : List Global} :
    ∀ {machine after : Machine}, machine.environment.Alone →
      defineGlobals (invoke budget room) globals machine = (.ok (), after) →
      after.environment.Alone ∧
        after.environment.root.functionBindings = machine.environment.root.functionBindings := by
  induction globals with
  | nil =>
      intro machine after alone ended
      cases ended
      exact ⟨alone, rfl⟩
  | cons global rest induction =>
      intro machine after alone ended
      cases first : defineGlobal (invoke budget room) global machine with
      | mk result between =>
          cases result with
          | error stop =>
              rw [defineGlobals, bind_of_error first] at ended
              cases ended
          | ok _ =>
              rw [defineGlobals, bind_of_ok first] at ended
              have here := root_of_defineGlobal alone (congrArg Prod.fst first)
              rw [first] at here
              have later := induction here.1 ended
              exact ⟨later.1, later.2.trans here.2⟩

/-- What calls of a function of the program refer to. -/
def Function.entry (function : Function) : (String × Nat) × Callable :=
  (function.key, .user function 0)

theorem Exec.defineFunction_of_free {function : Function} {machine : Machine}
    (alone : machine.environment.Alone)
    (free : machine.environment.definesFunction function.name function.arity = false) :
    defineFunction function machine = (.ok (), { machine with
      environment := machine.environment.defineFunction function.name function.arity
        (.user function 0) }) := by
  have home : machine.environment.current = 0 := List.length_eq_zero_iff.mpr alone
  unfold defineFunction
  rw [bind_of_ok (show look (fun machine => machine.environment) machine = _ from rfl),
    if_neg (Bool.eq_false_iff.mp free), ← home]
  rfl

/-- Functions whose names are free, with their numbers of parameters, are all bound. -/
theorem Exec.defineFunctions_of_admits {functions : List Function} :
    ∀ {machine : Machine}, machine.environment.Alone →
      machine.environment.Admits (functions.map Function.key) →
      defineFunctions functions machine = (.ok (), { machine with
        environment := machine.environment.defineFunctions (functions.map Function.entry) }) := by
  induction functions with
  | nil => exact fun _ _ => rfl
  | cons function rest induction =>
      intro machine alone admits
      obtain ⟨free, later⟩ := (Scope.admits_cons (Callable.user function 0)).mp admits
      rw [defineFunctions, bind_of_ok (defineFunction_of_free alone free)]
      exact induction (alone.defineFunction _ _ _) later

/-- The functions of the program differ in name or number of parameters from each other and from
the built-in functions. -/
structure Program.Distinct (program : Program) : Prop where
  functions : (program.functions.map Function.key).Nodup
  builtins : ∀ function ∈ program.functions, ∀ builtin : Builtin,
    function.key ≠ (builtin.name, 1)

namespace Program

variable {program program' : Program}

theorem Distinct.admits (distinct : program.Distinct) {environment : Environment}
    (alone : environment.Alone)
    (same : environment.root.functionBindings = Machine.rootEnvironment.root.functionBindings) :
    environment.Admits (program.functions.map Function.key) := by
  refine ⟨distinct.functions, fun key member => ?_⟩
  obtain ⟨function, known, rfl⟩ := List.mem_map.mp member
  have different := distinct.builtins function known
  have unbound : Machine.rootEnvironment.root.functionBindings.lookup function.key = none := by
    rw [List.lookup_eq_none_iff]
    intro binding bound
    have builtin : binding.1 = (Builtin.logarithm.name, 1) ∨
        binding.1 = (Builtin.print.name, 1) := by
      rcases List.mem_cons.mp bound with rfl | rest
      · exact .inl rfl
      · rcases List.mem_singleton.mp rest with rfl
        exact .inr rfl
    rcases builtin with named | named <;> rw [named, bne_iff_ne] <;> exact different _
  unfold Scope.definesFunction Frame.findFunction?
  rw [alone.newest, same]
  exact congrArg Option.isSome unbound

/-- With its functions in another order a program is carried out alike. -/
theorem Reorders.execute (reordered : program.Reorders program') (distinct : program.Distinct)
    (budget : Nat) (machine : Machine) :
    (program.execute budget machine).1 = (program'.execute budget machine).1 ∧
      (program.execute budget machine).2.Equivalent (program'.execute budget machine).2 := by
  let room := machine.reset.room
  change let ended := (do
        Exec.defineGlobals (Exec.invoke budget room) program.globals
        Exec.defineFunctions program.functions
        Exec.callMain (Exec.invoke budget room) : Exec Value) machine.reset
    let ended' := (do
        Exec.defineGlobals (Exec.invoke budget room) program'.globals
        Exec.defineFunctions program'.functions
        Exec.callMain (Exec.invoke budget room) : Exec Value) machine.reset
    ended.1 = ended'.1 ∧ ended.2.Equivalent ended'.2
  rw [← reordered.globals]
  cases globals : Exec.defineGlobals (Exec.invoke budget room) program.globals machine.reset with
  | mk result after =>
      cases result with
      | error stop =>
          rw [Exec.bind_of_error globals, Exec.bind_of_error globals]
          exact ⟨rfl, .refl after⟩
      | ok _ =>
          have ⟨alone, same⟩ := Exec.root_of_defineGlobals
            (show machine.reset.environment.Alone from rfl) globals
          have admits := distinct.admits alone same
          have admits' := admits.perm (reordered.functions.map Function.key)
          have scopes := alone.defineFunctions_perm (reordered.functions.map Function.entry)
            (by rw [List.map_map]; exact distinct.functions)
          rw [Exec.bind_of_ok globals, Exec.bind_of_ok globals,
            Exec.bind_of_ok (Exec.defineFunctions_of_admits alone admits),
            Exec.bind_of_ok (Exec.defineFunctions_of_admits alone admits')]
          have between := (Machine.Equivalent.refl after).withEnvironment scopes
          exact Exec.callMain_respects budget room _ _ between

theorem Reorders.run (reordered : program.Reorders program') (distinct : program.Distinct)
    (budget : Nat) (machine : Machine) :
    (program.run budget machine).1 = (program'.run budget machine).1 ∧
      (program.run budget machine).2.output = (program'.run budget machine).2.output := by
  obtain ⟨same, after⟩ := reordered.execute distinct budget machine
  constructor
  · change (program.execute budget machine).1.map
        (program.execute budget machine).2.store.datum =
      (program'.execute budget machine).1.map (program'.execute budget machine).2.store.datum
    rw [same, after.store]
  · exact congrArg List.reverse after.printed

/-- The order of functions does not matter: to a check in no case, nor to a run if all functions
differ in name or number of parameters. -/
theorem run_reordered (reordered : program.Reorders program') :
    (program.check.verdict = .ok () ↔ program'.check.verdict = .ok ()) ∧
      (program.check.verdict = .ok () → ∃ annotate : Function → Function,
        program.check.tree.functions = program.functions.map annotate ∧
        program'.check.tree.functions = program'.functions.map annotate ∧
        program.check.tree.globals = program'.check.tree.globals) ∧
      (program.Distinct → ∀ budget machine,
        (program.run budget machine).1 = (program'.run budget machine).1 ∧
        (program.run budget machine).2.output = (program'.run budget machine).2.output) := by
  refine ⟨⟨fun accepted => ?_, fun accepted => ?_⟩, fun accepted => ?_, ?_⟩
  · exact (reordered.check accepted).1
  · exact (reordered.symm.check accepted).1
  · exact (reordered.check accepted).2
  · exact reordered.run

/-- Two functions have one name; both are defined before the function that calls them. -/
theorem run_reordered_overloaded :
    ∃ program, Program.ofText
        ("FUN main ( ) : Integer DO RETURN f ( 2 ) ; END FUN f ( ) : Integer DO RETURN 7 ; END " ++
          "FUN f ( n : Integer ) : Integer DO RETURN n + f ( ) ; END") = .ok program ∧
      let reversed : Program := ⟨program.globals, program.functions.reverse⟩
      program.Reorders reversed ∧ program.check.verdict = .ok () ∧
        reversed.check.verdict = .ok () ∧ program.Distinct ∧
        (reversed.run 0 (.start 9)).1 = .ok (.scalar (.integer 9)) := by
  have happens : (Program.ofText
        ("FUN main ( ) : Integer DO RETURN f ( 2 ) ; END FUN f ( ) : Integer DO RETURN 7 ; END " ++
          "FUN f ( n : Integer ) : Integer DO RETURN n + f ( ) ; END")).toOption.map
      (fun program => (program.functions.map Function.key, program.check.verdict,
        (program.execute 0 (.start 9)).1)) =
      some ([("main", 0), ("f", 0), ("f", 1)], .ok (), .ok (.scalar (.integer 9))) := by
    decide +kernel
  obtain ⟨program, read, found⟩ := exists_of_ofText happens
  simp only [Prod.mk.injEq] at found
  obtain ⟨keys, accepted, result⟩ := found
  have reordered : program.Reorders ⟨program.globals, program.functions.reverse⟩ :=
    ⟨rfl, program.functions.reverse_perm.symm⟩
  have distinct : program.Distinct := by
    refine ⟨keys ▸ by decide, fun function member builtin => ?_⟩
    have known : function.key ∈ program.functions.map Function.key :=
      List.mem_map_of_mem member
    rw [keys] at known
    intro same
    rw [same] at known
    cases builtin <;> exact absurd known (by decide)
  obtain ⟨accepts, -, runs⟩ := run_reordered reordered
  have runsTo : (program.run 0 (.start 9)).1 = .ok (.scalar (.integer 9)) := by
    change (program.execute 0 (.start 9)).1.map _ = _
    rw [result]
    simp only [Except.map, Store.datum, Store.expand]
  exact ⟨program, read, reordered, accepted, accepts.mp accepted, distinct,
    (runs distinct 0 (.start 9)).1.symm.trans runsTo⟩

end Program

end Procedural
