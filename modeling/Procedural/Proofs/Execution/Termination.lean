import Procedural.Proofs.Execution.Limit
import Procedural.Proofs.Execution.Lists
import Procedural.Proofs.Execution.Reasons
import Procedural.Proofs.Reader.FromText
import Procedural.Proofs.Typing.Annotation

/-!
# Termination

A run is given two bounds: on the nesting of calls and on the rounds of loops.  The machine
refuses calls that are nested too deeply before the first bound could take effect, and the
second one takes effect in loops only.  So a run of a program without loops does not depend
on the bounds: the recursion over calls and program text comes to an end by itself, as does
the recursion through lists.
-/

namespace Procedural

variable {α β : Type} {room : Nat}

/-- From a machine that has so much room or less, the second action does what the first one does,
unless that is exhausted. -/
structure Exec.Settles (room : Nat) (low high : Exec α) : Prop where
  depth : ∀ machine, (low machine).2.depth = machine.depth
  limit : ∀ machine, (low machine).2.limit = machine.limit
  same : ∀ machine, machine.room ≤ room →
    (low machine).1 = .error .exhausted ∨ high machine = low machine

namespace Exec.Settles

theorem blind {action : Exec α} (blind : action.Blind) : Settles room action action := by
  refine ⟨fun machine => ?_, fun machine => ?_, fun machine _ => .inr rfl⟩
  all_goals
    obtain ⟨deed, does⟩ := blind
    rw [does]
    rfl

protected theorem pure (value : α) : Settles room (pure value) (pure value) :=
  blind (.modest (.pure value))

protected theorem bind {low high : Exec α} {next next' : α → Exec β}
    (settles : Settles room low high) (later : ∀ value, Settles room (next value) (next' value)) :
    Settles room (low >>= next) (high >>= next') := by
  refine ⟨fun machine => ?_, fun machine => ?_, fun machine enough => ?_⟩
  all_goals
    have depth := settles.depth machine
    have limit := settles.limit machine
    cases ended : low machine with
    | mk result after => ?_
    rw [ended] at depth limit
  · cases result with
    | error stop => rwa [bind_of_error ended]
    | ok value =>
        rw [bind_of_ok ended]
        exact ((later value).depth after).trans depth
  · cases result with
    | error stop => rwa [bind_of_error ended]
    | ok value =>
        rw [bind_of_ok ended]
        exact ((later value).limit after).trans limit
  · have first := settles.same machine enough
    rw [ended] at first
    cases result with
    | error stop =>
        rw [bind_of_error ended]
        refine first.imp (fun exhausted => ?_) bind_of_error
        exact congrArg Except.error (Except.error.inj exhausted)
    | ok value =>
        rcases first with exhausted | same
        · cases exhausted
        · rw [bind_of_ok ended, bind_of_ok same]
          apply (later value).same after
          have sameRoom : after.room = machine.room := by
            unfold Machine.room
            rw [depth, limit]
          exact sameRoom.trans_le enough

theorem inFrame {low high : Exec α} (settles : Settles room low high)
    (enter : Environment → Environment) :
    Settles room (Exec.inFrame enter low) (Exec.inFrame enter high) := by
  refine ⟨fun machine => ?_, fun machine => ?_, fun machine enough => ?_⟩
  · exact settles.depth { machine with environment := enter machine.environment }
  · exact settles.limit { machine with environment := enter machine.environment }
  · have inside := settles.same { machine with environment := enter machine.environment } enough
    exact inside.imp_right (congrArg (Prod.map id Machine.leave))

/-- In a call the machine has less room than before it. -/
theorem inCall {low high : Exec α} (settles : Settles room low high) (home : Nat)
    {machine : Machine} (free : machine.depth < machine.limit) (enough : machine.room ≤ room + 1) :
    (Exec.inCall home low machine).1 = .error .exhausted ∨
      Exec.inCall home high machine = Exec.inCall home low machine := by
  have less : machine.deeper.room ≤ room := by
    unfold Machine.room Machine.deeper at *
    dsimp only
    omega
  have inside := (settles.inFrame (Scope.pushUnder · home)).same machine.deeper less
  exact inside.imp_right (congrArg (Prod.map id Machine.shallower))

/-- A machine without room for a call refuses it, so the body of a call has less room. -/
theorem callWithin (function : Function) (home : Nat) (arguments : List Value) (offset : Nat)
    {low high : Exec Value} (settles : Settles room low high) :
    Settles (room + 1) (Staging.plain.callWithin function home arguments offset low)
      (Staging.plain.callWithin function home arguments offset high) := by
  have inside := settles.inFrame (Scope.pushUnder · home)
  refine ⟨fun machine => ?_, fun machine => ?_, fun machine enough => ?_⟩
  all_goals by_cases full : machine.limit ≤ machine.depth
  · rw [callWithin_full full]
  · rw [callWithin_free (Nat.lt_of_not_le full)]
    exact congrArg (· - 1) (inside.depth machine.deeper)
  · rw [callWithin_full full]
  · rw [callWithin_free (Nat.lt_of_not_le full)]
    exact inside.limit machine.deeper
  · rw [callWithin_full full, callWithin_full full]
    exact .inr rfl
  · have free := Nat.lt_of_not_le full
    rw [callWithin_free free, callWithin_free free]
    exact settles.inCall home free enough

theorem mono {low high : Exec α} {room' : Nat} (settles : Settles room' low high)
    (less : room ≤ room') : Settles room low high :=
  ⟨settles.depth, settles.limit, fun machine enough =>
    settles.same machine (Nat.le_trans enough less)⟩

end Exec.Settles

open Exec in
/-- A run in which loops may take no rounds settles what happens whatever the budget is. -/
def Staging.BlindAccord.settling (room budget : Nat) : Staging.plain.BlindAccord 0 budget where
  Related := Settles room
  pure := Settles.pure
  bind := Settles.bind
  blind := Settles.blind
  inBlock settles := settles.inFrame Scope.push
  repeatWhile _ _ := ⟨fun _ => rfl, fun _ => rfl, fun _ _ => .inl rfl⟩
  call function home arguments offset _ _ settles :=
    (Settles.callWithin function home arguments offset settles).mono (Nat.le_succ room)
  refuse _ _ _ := ⟨fun _ => rfl, fun _ => rfl, fun _ _ => .inr rfl⟩

open Exec in
/-- How deeply calls may nest makes no difference, as long as it covers the room of the machine. -/
theorem Staging.BlindAccord.settling_invokes (budget : Nat) {room room' : Nat}
    (rooms : room ≤ room') :
    (settling room budget).toAccord.Invokes (Exec.invoke 0 room)
      (Staging.plain.invoke budget room') := by
  induction room generalizing room' with
  | zero =>
      intro callable _ arguments offset
      refine ⟨fun _ => rfl, fun _ => rfl, fun machine none => ?_⟩
      -- there is room for at least one call, if only for one that is refused
      exact absurd none (Nat.not_succ_le_zero _)
  | succ room induction =>
      cases room' with
      | zero => cases rooms
      | succ room' =>
          have invokes := induction (Nat.le_of_succ_le_succ rooms)
          intro callable _ arguments offset
          cases callable with
          | builtin builtin => exact Settles.blind (.modest (.builtin builtin arguments offset))
          | user function home =>
              have body := Accord.runBody invokes function arguments
              simp only [Exec.invoke, Exec.invokeWith, Staging.invoke, Staging.invokeWith]
              split
              · exact Settles.blind (.modest (.raise _ _))
              · exact Settles.callWithin function home arguments offset body

/-- The outcome with the least bounds is the outcome with any others, unless a loop is met. -/
theorem Program.executeWithin_settles (program : Program) {budget room : Nat} {machine : Machine}
    (enough : machine.room ≤ room) :
    (program.execute 0 machine).1 = .error .exhausted ∨
      program.executeWithin budget room machine = program.execute 0 machine := by
  have settles := (Staging.BlindAccord.settling machine.room budget).run
    (Staging.BlindAccord.settling_invokes budget enough) program
  rw [Staging.invoke_plain, Program.stage_plain] at settles
  exact settles.same machine.reset (Nat.le_refl _)

theorem Program.isLoopFree_relabel (labels : Relabelling) (program : Program) :
    (program.relabel labels).isLoopFree = program.isLoopFree := by
  unfold Program.isLoopFree
  rw [program.statements_relabel, List.all_map]
  congr
  funext stmt
  cases stmt <;> rfl

/-- Checking leaves no loop and adds none. -/
theorem Program.isLoopFree_check (program : Program) :
    program.check.tree.isLoopFree = program.isLoopFree := by
  rw [← program.isLoopFree_relabel .emptySlots, ← program.check.tree.isLoopFree_relabel .emptySlots]
  exact congrArg Program.isLoopFree program.bare_check

/-- A program without loops, annotated or not, ends with a value or a fault on any machine, which
depends neither on a bound on the rounds of loops nor on one on the nesting of calls that is not
below the room of the machine.  All the time, and where it ends, lists can be written out, compared
and searched to their ends. -/
theorem Program.terminates_of_isLoopFree {given program : Program}
    (loopFree : given.isLoopFree = true)
    (either : program = given ∨ given.annotate = .ok program) (machine : Machine) :
    ∃ (result : Except RuntimeError Value) (after : Machine),
      (∀ budget room, machine.room ≤ room →
        program.executeWithin budget room machine = (result.mapError Stop.error, after)) ∧
      (∀ budget, program.run budget machine =
        ((result.map after.store.datum).mapError Stop.error, after)) ∧
      after.store.Unfolds ∧
      ∀ budget, ∀ moment ∈ program.moments budget machine,
        moment.scene.machine.store.Unfolds := by
  have free : program.isLoopFree = true := by
    rcases either with rfl | accepted
    · exact loopFree
    · obtain ⟨_, rfl⟩ := Program.annotate_eq_ok.mp accepted
      rw [given.isLoopFree_check]
      exact loopFree
  have admitted : ∀ stmt ∈ program.statements, stmt.Admitted False := by
    intro stmt member isLoop
    have noLoop := List.all_eq_true.mp free stmt member
    rw [isLoop] at noLoop
    cases noLoop
  have notExhausted : (program.execute 0 machine).1 ≠ .error .exhausted :=
    fun exhausted => Program.stops_regularly admitted exhausted
  have within {budget room : Nat} (enough : machine.room ≤ room) :
      program.executeWithin budget room machine = program.execute 0 machine :=
    (program.executeWithin_settles enough).resolve_left notExhausted
  obtain ⟨result, equal⟩ : ∃ result : Except RuntimeError Value,
      (program.execute 0 machine).1 = result.mapError Stop.error := by
    cases ended : (program.execute 0 machine).1 with
    | ok value => exact ⟨.ok value, rfl⟩
    | error stop =>
        cases stop with
        | error found => exact ⟨.error found, rfl⟩
        | exhausted => exact absurd ended notExhausted
  have ends : program.execute 0 machine =
      (result.mapError Stop.error, (program.execute 0 machine).2) := Prod.ext equal rfl
  have sane := Program.watch_preserves program
  refine ⟨result, (program.execute 0 machine).2, fun budget room enough => ?_, fun budget => ?_,
    ?_, fun budget moment occurs => ?_⟩
  · exact (within enough).trans ends
  · have run : program.execute budget machine = program.execute 0 machine :=
      within (Nat.le_refl machine.room)
    unfold Program.run
    rw [run, ends]
    cases result <;> rfl
  · rw [← Program.watch_follows]
    exact (sane 0 machine).2.keepsLists.unfolds
  · exact ((sane budget machine).1 moment occurs).keepsLists.unfolds

theorem Program.terminates_of_isLoopFree_mutual :
    ∃ program,
      Program.ofText
        "FUN f ( ) DO g ( ) ; END FUN g ( ) DO f ( ) ; END FUN main ( ) DO f ( ) ; END" =
          .ok program ∧
      program.isLoopFree = true ∧
      ∀ budget room, (Machine.start 3).room ≤ room →
        (program.executeWithin budget room (.start 3)).1 =
          .error (.error ⟨.callDepthExceeded 3, some 38⟩) := by
  have happens : ((Program.ofText
      "FUN f ( ) DO g ( ) ; END FUN g ( ) DO f ( ) ; END FUN main ( ) DO f ( ) ; END"
      ).toOption.map fun program =>
        (program.isLoopFree, (program.execute 0 (.start 3)).1)) =
      some (true, .error (.error ⟨.callDepthExceeded 3, some 38⟩)) := by
    decide +kernel
  obtain ⟨program, read, found⟩ := Program.exists_of_ofText happens
  obtain ⟨loopFree, deep⟩ := Prod.mk.inj found
  obtain ⟨result, after, within, -, -, -⟩ :=
    Program.terminates_of_isLoopFree loopFree (.inl rfl) (.start 3)
  have least := within 0 _ (Nat.le_refl _)
  rw [← Program.execute_eq_executeWithin] at least
  refine ⟨program, read, loopFree, fun budget room enough => ?_⟩
  rw [within budget room enough, ← deep, least]

end Procedural
