import Procedural.Proofs.Execution.Balance
import Procedural.Proofs.Scope.Hidden
import Procedural.Tool

/-!
# Isolated calls

A call runs in a frame under the root, although the frames of its caller are between.  They
are hidden from everything that happens in the call: it commutes with hiding frames.  So
what a call does depends on the root, the lists and the limits only, and it leaves the
frames of its caller as they are.
-/

namespace Procedural

variable {α β : Type}

/-- The function runs under the root. -/
def Callable.Rooted : Callable → Prop
  | .builtin _ => True
  | .user _ home => home = 0

namespace Machine

/-- The machine with its frames above hidden ones. -/
def above (machine : Machine) (hidden : List (Frame Binding Callable)) : Machine :=
  { machine with environment := machine.environment.above hidden }

/-- All functions that are bound run under the root. -/
def Rooted (machine : Machine) : Prop :=
  ∀ callable ∈ machine.environment.functions, callable.Rooted

theorem view_above {machine : Machine} (hidden : List (Frame Binding Callable))
    (inside : 0 < machine.environment.current) : (machine.above hidden).view = machine.view := by
  unfold view above
  rw [Scope.findVariable?_above hidden _ inside, Scope.findFunction?_above hidden _ inside]

theorem leave_above {machine : Machine} (hidden : List (Frame Binding Callable))
    (inside : 0 < machine.environment.current) :
    (machine.above hidden).leave = machine.leave.above hidden :=
  congrArg (fun environment => { machine with environment })
    (machine.environment.pop_above hidden inside)

end Machine

namespace Exec

theorem findFunction_ok {name : String} {arity offset : Nat} {machine : Machine}
    {callable : Callable} (found : (findFunction name arity offset machine).1 = .ok callable) :
    callable ∈ machine.environment.functions := by
  have ends : Ends (findFunction name arity offset) machine
      (fun callable _ => callable ∈ machine.environment.functions) fun _ _ => True :=
    .findFunction (fun _ found => Scope.mem_functions_of_findFunction _ found) fun _ => trivial
  exact ends.of_ok found

/-- On this machine the action does the same above hidden frames, and adds no frames. -/
structure OverlooksAt (action : Exec α) (hidden : List (Frame Binding Callable))
    (machine : Machine) : Prop where
  same : action (machine.above hidden) = ((action machine).1, (action machine).2.above hidden)
  current : (action machine).2.environment.current = machine.environment.current
  rooted : (action machine).2.Rooted

/-- The action overlooks hidden frames if there are so many frames above them. -/
def Overlooks (least : Nat) (action : Exec α) : Prop :=
  ∀ hidden machine, least ≤ machine.environment.current → machine.Rooted →
    OverlooksAt action hidden machine

variable {hidden : List (Frame Binding Callable)} {machine : Machine}

theorem OverlooksAt.bind {action : Exec α} {next : α → Exec β}
    (first : OverlooksAt action hidden machine)
    (later : ∀ value, (action machine).1 = .ok value →
      OverlooksAt (next value) hidden (action machine).2) :
    OverlooksAt (action >>= next) hidden machine := by
  obtain ⟨same, current, rooted⟩ := first
  generalize ended : action machine = outcome at same current rooted later
  obtain ⟨result, after⟩ := outcome
  cases result with
  | error stop =>
      refine ⟨?_, ?_, ?_⟩
      · rw [bind_of_error same, bind_of_error ended]
      · rw [bind_of_error ended]
        exact current
      · rw [bind_of_error ended]
        exact rooted
  | ok value =>
      have second := later value rfl
      refine ⟨?_, ?_, ?_⟩
      · rw [bind_of_ok same, bind_of_ok ended]
        exact second.same
      · rw [bind_of_ok ended]
        exact second.current.trans current
      · rw [bind_of_ok ended]
        exact second.rooted

namespace Overlooks

theorem mono {action : Exec α} (overlooks : Overlooks 0 action) : Overlooks 1 action :=
  fun hidden machine _ => overlooks hidden machine (Nat.zero_le _)

protected theorem bind {least : Nat} {action : Exec α} {next : α → Exec β}
    (overlooks : Overlooks least action) (later : ∀ value, Overlooks least (next value)) :
    Overlooks least (action >>= next) := by
  intro hidden machine inside rooted
  have first := overlooks hidden machine inside rooted
  exact first.bind fun value _ =>
    later value hidden _ (first.current.symm ▸ inside) first.rooted

theorem modest {action : Exec α} (modest : action.Modest) : Overlooks 1 action := by
  intro hidden machine inside rooted
  obtain ⟨deed, does⟩ := modest
  have same := does (machine.above hidden)
  rw [Machine.view_above hidden inside] at same
  refine ⟨?_, ?_, ?_⟩
  · rw [same, does]
    rfl
  · rw [does]
    rfl
  · rw [does]
    exact rooted

protected theorem pure (value : α) : Overlooks 1 (pure value) :=
  modest (.pure value)

/-- A change of the newest frames commutes with hiding frames. -/
theorem modifyEnvironment {change : Environment → Environment}
    (commutes : ∀ environment : Environment, 0 < environment.current →
      change (environment.above hidden) = (change environment).above hidden)
    (current : ∀ environment, (change environment).current = environment.current)
    (functions : ∀ environment, (change environment).functions = environment.functions)
    (inside : 0 < machine.environment.current) (rooted : machine.Rooted) :
    OverlooksAt (modifyEnvironment change) hidden machine := by
  refine ⟨?_, current machine.environment, ?_⟩
  · exact congrArg (fun environment => (Except.ok (), { machine with environment }))
      (commutes machine.environment inside)
  · unfold Machine.Rooted
    exact (functions machine.environment).symm ▸ rooted

theorem updateVariable (name : String) (change : Binding → Binding) :
    Overlooks 1 (Exec.modifyEnvironment fun environment =>
      environment.updateVariable name change) :=
  fun hidden _ => modifyEnvironment
    (fun environment inside => environment.updateVariable_above hidden inside name change)
    (fun environment => environment.current_updateVariable name change)
    fun environment => environment.functions_updateVariable name change

theorem defineVariable (name : String) (binding : Binding) :
    Overlooks 1 (Exec.modifyEnvironment fun environment =>
      environment.defineVariable name binding) :=
  fun hidden _ => modifyEnvironment
    (fun environment inside => environment.defineVariable_above hidden inside name binding)
    (fun environment => environment.current_defineVariable name binding)
    fun environment => environment.functions_defineVariable name binding

theorem assignVariable (name : String) (offset : Nat) (value : Value) :
    Overlooks 1 (assignVariable name offset value) :=
  (modest (.findVariable name offset)).bind fun _ => updateVariable _ _

theorem declare (name : String) (offset : Option Nat) (binding : Binding) :
    Overlooks 1 (declare name offset binding) := by
  apply Overlooks.bind
  · intro hidden machine inside rooted
    refine ⟨?_, rfl, rooted⟩
    change (Except.ok ((machine.environment.above hidden).definesVariable name), _) = _
    rw [machine.environment.definesVariable_above hidden inside]
    rfl
  · intro bound
    split
    · exact modest (.raise _ _)
    · exact defineVariable name binding

theorem bindParameters (bindings : List (String × Value)) :
    Overlooks 1 (bindParameters bindings) := by
  induction bindings with
  | nil => exact .pure ()
  | cons binding rest induction =>
      exact (defineVariable binding.1 ⟨binding.2, true⟩).bind fun _ => induction

/-- A frame is entered and left in the same way above hidden frames. -/
theorem inFrame {action : Exec α} (overlooks : Overlooks 1 action)
    {enter : Environment → Environment}
    (enters : enter (machine.environment.above hidden) =
      (enter machine.environment).above hidden)
    (deeper : (enter machine.environment).current = machine.environment.current + 1)
    (functions : (enter machine.environment).functions = machine.environment.functions)
    (rooted : machine.Rooted) : OverlooksAt (Exec.inFrame enter action) hidden machine := by
  let entered : Machine := { machine with environment := enter machine.environment }
  have rootedInside : entered.Rooted := by
    unfold Machine.Rooted
    exact functions.symm ▸ rooted
  have inside := overlooks hidden entered (deeper.symm ▸ Nat.succ_pos _) rootedInside
  have current := inside.current.trans deeper
  refine ⟨?_, ?_, ?_⟩
  · change (let ended := action { machine with
        environment := enter (machine.environment.above hidden) }
      (ended.1, ended.2.leave)) = _
    rw [enters]
    change (let ended := action (entered.above hidden)
      (ended.1, ended.2.leave)) = _
    rw [inside.same]
    exact congrArg (Prod.mk _) (Machine.leave_above hidden (current.symm ▸ Nat.succ_pos _))
  · change (action entered).2.environment.pop.current = _
    rw [Scope.current_pop, current]
    rfl
  · exact fun callable member => inside.rooted callable (Scope.mem_functions_of_pop _ member)

theorem inBlock {action : Exec α} (overlooks : Overlooks 1 action) :
    Overlooks 1 (inBlock action) :=
  fun hidden machine inside =>
    overlooks.inFrame (machine.environment.push_above hidden inside) rfl rfl

theorem inCall {action : Exec α} (overlooks : Overlooks 1 action) :
    Overlooks 0 (inCall 0 action) := by
  intro hidden machine _ rooted
  have enters := machine.environment.pushUnder_root_above hidden
  have inside : OverlooksAt (Exec.inFrame (Scope.pushUnder · 0) action) hidden machine.deeper :=
    overlooks.inFrame enters rfl rfl rooted
  refine ⟨?_, inside.current, inside.rooted⟩
  change (let ended := Exec.inFrame (Scope.pushUnder · 0) action (machine.deeper.above hidden)
    (ended.1, ended.2.shallower)) = _
  rw [inside.same]
  rfl

theorem refuseCall (callable : Callable) (arguments : List Value) (offset : Nat) :
    Overlooks 0 (refuseCall callable arguments offset) :=
  fun _ _ _ rooted => ⟨rfl, rfl, rooted⟩

theorem callWithin (function : Function) (arguments : List Value) (offset : Nat)
    {body : Exec Value} (overlooks : Overlooks 1 body) :
    Overlooks 0 (Staging.plain.callWithin function 0 arguments offset body) := by
  apply Overlooks.bind (fun _ _ _ rooted => ⟨rfl, rfl, rooted⟩)
  intro full
  cases full with
  | true => exact refuseCall (.user function 0) arguments offset
  | false => exact overlooks.inCall

theorem builtin (builtin : Builtin) (arguments : List Value) (offset : Nat) :
    Overlooks 0 (builtin.call arguments offset) := by
  intro hidden machine _ rooted
  cases builtin with
  | print => exact ⟨rfl, rfl, rooted⟩
  | logarithm =>
      unfold Builtin.call
      cases Value.logarithm arguments <;> exact ⟨rfl, rfl, rooted⟩

end Overlooks

end Exec

open Exec in
/-- Runs overlook hidden frames; what is called runs under the root. -/
def Staging.Accord.isolating (budget : Nat) : Staging.plain.Accord budget budget where
  Closed action _ := Overlooks 1 action
  Open action _ := Overlooks 1 action
  Callee := Callable.Rooted
  pure := Overlooks.pure
  bind := Overlooks.bind
  open_of_closed overlooks := overlooks
  bind_open := Overlooks.bind
  act := Overlooks.modest
  findFunction name arity offset _ _ later := by
    intro hidden machine inside rooted
    have first := Overlooks.modest (.findFunction name arity offset) hidden machine inside rooted
    apply first.bind
    intro callable found
    exact later callable (rooted callable (findFunction_ok found)) hidden _
      (first.current.symm ▸ inside) first.rooted
  assignVariable name offset _ _ overlooks :=
    (Overlooks.modest (.requireMutable name offset)).bind fun _ =>
      overlooks.bind fun value => .assignVariable name offset value
  declare name offset binding _ := Overlooks.declare name offset binding
  bindParameters _ _ := Overlooks.bindParameters _
  inBlock := Overlooks.inBlock
  repeatWhile {test test' body body'} tests bodies :=
    repeatWhile_of_rounds .plain (fun action _ => Overlooks 1 action) Overlooks.pure
      Overlooks.bind (.modest (.stop _)) test test' body body' tests bodies budget
  call function home arguments offset _ _ := by
    rintro rfl overlooks
    exact (Overlooks.callWithin function arguments offset overlooks).mono
  refuse callable arguments offset := (Overlooks.refuseCall callable arguments offset).mono

/-- A call overlooks all frames but the root. -/
theorem Exec.invoke_overlooks (budget room : Nat) {callable : Callable} (rooted : callable.Rooted)
    (arguments : List Value) (offset : Nat) :
    Overlooks 0 (invoke budget room callable arguments offset) := by
  let accord := Staging.Accord.isolating budget
  cases room with
  | zero => exact .refuseCall callable arguments offset
  | succ room =>
      cases callable with
      | builtin builtin => exact .builtin builtin arguments offset
      | user function home =>
          obtain rfl : home = 0 := rooted
          have body := accord.runBody (accord.invokes room) function arguments
          change Overlooks 0 (invokeWith _ budget _ arguments offset)
          unfold invokeWith
          dsimp only
          split
          · exact fun _ _ _ rooted => ⟨rfl, rfl, rooted⟩
          · exact .callWithin function arguments offset body

namespace Program

/-- What calls of the program can refer to. -/
def callees (program : Program) : List Callable :=
  Builtin.all.map .builtin ++ program.functions.map (.user · 0)

/-- Some run of the program comes to the machine. -/
def Reaches (program : Program) (machine : Machine) : Prop :=
  ∃ budget start, ∃ instant ∈ program.chronicle budget start, instant.machine = machine

variable {program : Program}

theorem rooted_of_mem_callees {callable : Callable} (callee : callable ∈ program.callees) :
    callable.Rooted := by
  rcases List.mem_append.mp callee with builtin | user
  · obtain ⟨_, _, rfl⟩ := List.mem_map.mp builtin
    exact trivial
  · obtain ⟨_, _, rfl⟩ := List.mem_map.mp user
    rfl

/-- Only callees of the program are ever bound at the root. -/
theorem Reaches.mem_callees {machine : Machine} (reached : program.Reaches machine) :
    ∀ entry ∈ machine.environment.root.functionBindings, entry.2 ∈ program.callees := by
  obtain ⟨budget, start, instant, member, rfl⟩ := reached
  have precedes : Scope.Precedes program.functions Machine.rootEnvironment
      instant.machine.environment := by
    rcases List.mem_cons.mp member with rfl | later
    · exact .refl _
    · apply List.rel_of_pairwise_cons (program.account_follows budget start).passes
      exact List.mem_append_left _ (List.mem_map_of_mem later)
  have builtins : Machine.rootEnvironment.root.functionBindings =
    (Builtin.all.map fun builtin => ((builtin.name, 1), Callable.builtin builtin)).reverse := rfl
  intro entry bound
  rcases precedes.functions entry bound with builtin | ⟨function, known, user⟩
  · rw [builtins, List.mem_reverse] at builtin
    obtain ⟨builtin, known, rfl⟩ := List.mem_map.mp builtin
    exact List.mem_append_left _ (List.mem_map_of_mem known)
  · rw [user]
    exact List.mem_append_right _ (List.mem_map_of_mem known)

end Program

namespace Machine

/-- The machines differ in the frames above the root only. -/
structure Alike (machine machine' : Machine) : Prop where
  root : machine.environment.root = machine'.environment.root
  store : machine.store = machine'.store
  printed : machine.printed = machine'.printed
  depth : machine.depth = machine'.depth
  limit : machine.limit = machine'.limit

/-- The machine without the frames above the root. -/
def atRoot (machine : Machine) : Machine :=
  { machine with environment := ⟨[], machine.environment.root⟩ }

end Machine

/-- From a reached machine and from any other that differs in its frames above the root only, a call
ends alike, and the machines are alike afterwards.  In neither do the frames above the root
change. -/
theorem Program.call_isolated (program : Program) {machine machine' : Machine}
    (reached : program.Reaches machine) (alike : machine.Alike machine') {callable : Callable}
    (callee : callable ∈ program.callees) (arguments : List Value) (offset budget room : Nat) :
    let ended := Exec.invoke budget room callable arguments offset machine
    let ended' := Exec.invoke budget room callable arguments offset machine'
    ended.1 = ended'.1 ∧ ended.2.Alike ended'.2 ∧
      ended.2.environment.inner = machine.environment.inner ∧
      ended'.2.environment.inner = machine'.environment.inner := by
  have rooted := rooted_of_mem_callees callee
  have rootedMachine : machine.atRoot.Rooted := by
    intro bound member
    obtain ⟨key, isBound⟩ := Scope.mem_functions_alone member
    exact rooted_of_mem_callees (reached.mem_callees _ isBound)
  have overlooks (hidden : List (Frame Binding Callable)) :=
    Exec.invoke_overlooks budget room rooted arguments offset hidden machine.atRoot
      (Nat.zero_le _) rootedMachine
  -- both machines are one machine without callers, with different frames below
  have above : machine = machine.atRoot.above machine.environment.inner := rfl
  have above' : machine' = machine.atRoot.above machine'.environment.inner := by
    obtain ⟨⟨inner, root⟩, store, printed, depth, limit⟩ := machine
    obtain ⟨⟨inner', root'⟩, store', printed', depth', limit'⟩ := machine'
    obtain ⟨rfl, rfl, rfl, rfl, rfl⟩ := alike
    rfl
  have alone : (Exec.invoke budget room callable arguments offset
      machine.atRoot).2.environment.inner = [] :=
    List.length_eq_zero_iff.mp (overlooks []).current
  intro ended ended'
  have endedEq : ended = _ :=
    (congrArg _ above).trans (overlooks machine.environment.inner).same
  have endedEq' : ended' = _ :=
    (congrArg _ above').trans (overlooks machine'.environment.inner).same
  rw [endedEq, endedEq']
  refine ⟨rfl, ⟨rfl, rfl, rfl, rfl, rfl⟩, ?_, ?_⟩
  · exact congrArg (Scope.pile _) alone
  · exact congrArg (Scope.pile _) alone

theorem Program.call_isolated_local :
    ∃ program function machine,
      Program.ofText
        "FUN f ( x : Integer ) : Any DO RETURN x ; END FUN main ( ) DO LET a = 1 ; f ( a ) ; END" =
          .ok program ∧
      function ∈ program.functions ∧ program.Reaches machine ∧
      machine.environment.definesVariable "a" = true ∧
      let ended := Exec.invoke 0 2 (.user function 0) [.scalar (.integer 1)] 0 machine
      let ended' := Exec.invoke 0 2 (.user function 0) [.scalar (.integer 1)] 0 machine.atRoot
      ended.1.isOk = true ∧ ended.1 = ended'.1 ∧
        ended.2.environment.inner = machine.environment.inner := by
  have happens : ((Program.ofText
      "FUN f ( x : Integer ) : Any DO RETURN x ; END FUN main ( ) DO LET a = 1 ; f ( a ) ; END"
      ).toOption.bind fun program => program.functions.head?.map fun function =>
        (program.chronicle 0 (.start 2)).any fun instant =>
          instant.machine.environment.definesVariable "a" &&
            (Exec.invoke 0 2 (.user function 0) [.scalar (.integer 1)] 0
              instant.machine).1.isOk) = some true := by
    decide +kernel
  cases read : Program.ofText
      "FUN f ( x : Integer ) : Any DO RETURN x ; END FUN main ( ) DO LET a = 1 ; f ( a ) ; END" with
  | error problem =>
      rw [read] at happens
      cases happens
  | ok program =>
      simp only [read, Except.toOption, Option.bind_some, Option.map_eq_some_iff,
        List.any_eq_true, Bool.and_eq_true] at happens
      obtain ⟨function, first, instant, occurs, defines, succeeds⟩ := happens
      have known := List.mem_of_head? first
      have reached : program.Reaches instant.machine := ⟨0, .start 2, instant, occurs, rfl⟩
      have callee : .user function 0 ∈ program.callees :=
        List.mem_append_right _ (List.mem_map_of_mem known)
      have isolated := program.call_isolated reached
        (⟨rfl, rfl, rfl, rfl, rfl⟩ : instant.machine.Alike instant.machine.atRoot) callee
        [.scalar (.integer 1)] 0 0 2
      exact ⟨program, function, instant.machine, rfl, known, reached, defines, succeeds,
        isolated.1, isolated.2.2.1⟩

end Procedural
