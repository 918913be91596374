import Procedural.Proofs.Execution.Output
import Procedural.Proofs.Execution.Reuse
import Procedural.Tool

/-!
# Higher limits

Two runs of a program are compared, one of them with higher limits for nested calls and for
the rounds of loops.  They go on in step until the lower limits cut the first run short.
The other one may go on from there, and has then printed whatever the first one printed.
-/

namespace Procedural

variable {α β : Type}

/-- The run was cut short: calls were nested too deeply, or a loop took too many rounds. -/
inductive Stop.CutsShort : Stop → Prop where
  | calls (limit : Nat) (offset : Option Nat) :
      CutsShort (.error ⟨.callDepthExceeded limit, offset⟩)
  | rounds : CutsShort .exhausted

/-- The machine with another limit for nested calls. -/
def Machine.allowing (machine : Machine) (limit : Nat) : Machine :=
  { machine with limit }

/-- One outcome is that of the other under a higher limit, unless that was cut short. -/
inductive Exec.Extends (limit : Nat) : (low high : Except Stop α × Machine) → Prop where
  | same (result : Except Stop α) (machine : Machine) (allowed : machine.limit ≤ limit) :
      Extends limit (result, machine) (result, machine.allowing limit)
  | further (stop : Stop) (cut : stop.CutsShort) (machine : Machine)
      (high : Except Stop α × Machine) (printed : machine.printed <:+ high.2.printed) :
      Extends limit (.error stop, machine) high

/-- What is done in the end does not depend on the limit and prints nothing. -/
theorem Exec.Extends.map {limit : Nat} {low high : Except Stop α × Machine}
    (ended : Extends limit low high) (change : Machine → Machine)
    (limits : ∀ machine, (change machine).limit = machine.limit)
    (allows : ∀ machine, change (machine.allowing limit) = (change machine).allowing limit)
    (prints : ∀ machine, (change machine).printed = machine.printed) :
    Extends limit (low.1, change low.2) (high.1, change high.2) := by
  cases ended with
  | same result machine allowed =>
      change Extends limit (result, change machine) (result, change (machine.allowing limit))
      rw [allows]
      exact .same result _ (limits machine ▸ allowed)
  | further stop cut machine high printed =>
      apply Extends.further stop cut
      change (change machine).printed <:+ (change high.2).printed
      rw [prints, prints]
      exact printed

/-- The second action does what the first one does, and goes on where that is cut short. -/
structure Exec.Advances (low high : Exec α) : Prop where
  appends : high.Appends
  goesOn : ∀ machine limit, machine.limit ≤ limit →
    Extends limit (low machine) (high (machine.allowing limit))

theorem Exec.callWithin_full {machine : Machine} (full : machine.limit ≤ machine.depth)
    (function : Function) (home : Nat) (arguments : List Value) (offset : Nat)
    (body : Exec Value) :
    Staging.plain.callWithin function home arguments offset body machine =
      (.error (.error ⟨.callDepthExceeded machine.limit, some offset⟩), machine) := by
  change (if decide (machine.limit ≤ machine.depth) = true then _ else _ : Exec Value) machine = _
  rw [if_pos (decide_eq_true full)]
  rfl

theorem Exec.callWithin_free {machine : Machine} (free : machine.depth < machine.limit)
    (function : Function) (home : Nat) (arguments : List Value) (offset : Nat)
    (body : Exec Value) :
    Staging.plain.callWithin function home arguments offset body machine =
      Exec.inCall home body machine := by
  change (if decide (machine.limit ≤ machine.depth) = true then _ else _ : Exec Value) machine = _
  rw [decide_eq_false (Nat.not_le_of_lt free)]
  rfl

namespace Exec.Advances

variable {low high : Exec α}

/-- What is cut short at once is extended by whatever appends to the output. -/
theorem of_cut
    (stops : ∀ machine, ∃ reason : Stop, reason.CutsShort ∧ low machine = (.error reason, machine))
    (appends : high.Appends) : Advances low high := by
  refine ⟨appends, fun machine limit _ => ?_⟩
  obtain ⟨reason, cut, stopped⟩ := stops machine
  rw [stopped]
  exact .further reason cut machine _ (appends.printed (machine.allowing limit))

theorem blind {action : Exec α} (blind : action.Blind) : Advances action action := by
  refine ⟨.blind blind, fun machine limit allowed => ?_⟩
  obtain ⟨deed, does⟩ := blind
  rw [does, does]
  exact .same _ _ allowed

theorem modest {action : Exec α} (modest : action.Modest) : Advances action action :=
  blind (.modest modest)

protected theorem pure (value : α) : Advances (pure value) (pure value) :=
  modest (.pure value)

protected theorem bind {next next' : α → Exec β} (advances : Advances low high)
    (later : ∀ value, Advances (next value) (next' value)) :
    Advances (low >>= next) (high >>= next') := by
  refine ⟨advances.appends.bind fun value => (later value).appends, fun machine limit allowed => ?_⟩
  have first := advances.goesOn machine limit allowed
  generalize ended : low machine = outcome at first
  generalize ended' : high (machine.allowing limit) = outcome' at first
  cases first with
  | same result after allowed =>
      cases result with
      | ok value =>
          rw [bind_of_ok ended, bind_of_ok ended']
          exact (later value).goesOn after limit allowed
      | error stop =>
          rw [bind_of_error ended, bind_of_error ended']
          exact .same (.error stop) after allowed
  | further stop cut after _ printed =>
      rw [bind_of_error ended]
      apply Extends.further stop cut after
      -- the second run may go on alone, but all that it can do is to print more
      obtain ⟨result, after'⟩ := outcome'
      cases result with
      | error stop =>
          rw [bind_of_error ended']
          exact printed
      | ok value =>
          rw [bind_of_ok ended']
          exact printed.trans ((later value).appends.printed after')

theorem inFrame (advances : Advances low high) (enter : Environment → Environment) :
    Advances (Exec.inFrame enter low) (Exec.inFrame enter high) := by
  refine ⟨advances.appends.inFrame enter, fun machine limit allowed => ?_⟩
  have inside := advances.goesOn { machine with environment := enter machine.environment } limit
    allowed
  exact inside.map Machine.leave (fun _ => rfl) (fun _ => rfl) fun _ => rfl

theorem inCall (advances : Advances low high) (home : Nat) :
    Advances (Exec.inCall home low) (Exec.inCall home high) := by
  refine ⟨advances.appends.inCall home, fun machine limit allowed => ?_⟩
  have inside := (advances.inFrame (Scope.pushUnder · home)).goesOn machine.deeper limit allowed
  exact inside.map Machine.shallower (fun _ => rfl) (fun _ => rfl) fun _ => rfl

theorem refuseCall (callable : Callable) (arguments : List Value) (offset : Nat)
    {high : Exec Value} (appends : high.Appends) :
    Advances (Exec.refuseCall callable arguments offset) high :=
  .of_cut (fun machine => ⟨.error ⟨.callDepthExceeded machine.limit, some offset⟩, .calls _ _, rfl⟩)
    appends

/-- Whoever may make a call under the lower limit may make it under the higher one. -/
theorem callWithin (function : Function) (home : Nat) (arguments : List Value) (offset : Nat)
    {body body' : Exec Value} (advances : Advances body body') :
    Advances (Staging.plain.callWithin function home arguments offset body)
      (Staging.plain.callWithin function home arguments offset body') := by
  have appends := advances.appends.callWithin function home arguments offset
  refine ⟨appends, fun machine limit allowed => ?_⟩
  by_cases full : machine.limit ≤ machine.depth
  · rw [callWithin_full full]
    exact .further _ (.calls _ _) machine _ (appends.printed (machine.allowing limit))
  · have free := Nat.lt_of_not_le full
    have free' : (machine.allowing limit).depth < (machine.allowing limit).limit :=
      Nat.lt_of_lt_of_le free allowed
    rw [callWithin_free free, callWithin_free free']
    exact (advances.inCall home).goesOn machine limit allowed

/-- A loop that may take more rounds does what the loop with fewer rounds does, and goes on. -/
theorem repeatWhile {test test' : Exec Bool} {body body' : Exec Flow} {budget budget' : Nat}
    (budgets : budget ≤ budget') (tests : Advances test test') (bodies : Advances body body') :
    Advances (Exec.repeatWhile test body budget)
      (Staging.plain.repeatWhile test' body' budget') := by
  induction budget generalizing budget' with
  | zero =>
      apply of_cut fun machine => ⟨.exhausted, .rounds, rfl⟩
      exact tests.appends.repeatWhile bodies.appends budget'
  | succ budget induction =>
      cases budget' with
      | zero => cases budgets
      | succ budget' =>
          apply tests.bind
          intro holds
          cases holds with
          | false => exact .pure Flow.normal
          | true =>
              apply bodies.bind
              intro flow
              cases flow with
              | normal => exact induction (Nat.le_of_succ_le_succ budgets)
              | returned value => exact .pure (Flow.returned value)

end Exec.Advances

open Exec in
/-- Runs are advanced by runs with higher limits. -/
def Staging.BlindAccord.advancing {budget budget' : Nat} (budgets : budget ≤ budget') :
    Staging.plain.BlindAccord budget budget' where
  Related := Advances
  pure := Advances.pure
  bind := Advances.bind
  blind := Advances.blind
  inBlock advances := advances.inFrame Scope.push
  repeatWhile := Advances.repeatWhile budgets
  call := Advances.callWithin
  refuse callable arguments offset :=
    Advances.refuseCall callable arguments offset (.refuseCall callable arguments offset)

/-- Calls that may nest more deeply advance calls that may nest less deeply. -/
theorem Staging.BlindAccord.advancing_invokes {budget budget' room room' : Nat}
    (budgets : budget ≤ budget') (rooms : room ≤ room') :
    (advancing budgets).toAccord.Invokes (Exec.invoke budget room)
      (Staging.plain.invoke budget' room') := by
  induction room generalizing room' with
  | zero =>
      intro callable _ arguments offset
      have appends := Exec.invoke_appends budget' room' callable arguments offset
      exact .refuseCall callable arguments offset appends
  | succ room induction =>
      cases room' with
      | zero => cases rooms
      | succ room' => exact Accord.invokeWith (induction (Nat.le_of_succ_le_succ rooms))

/-- One run of a program extends another one whose limits are lower. -/
theorem Program.execute_extends (program : Program) {budget budget' limit limit' : Nat}
    (budgets : budget ≤ budget') (limits : limit ≤ limit') :
    Exec.Extends limit' (program.execute budget (.start limit))
      (program.execute budget' (.start limit')) := by
  let accord := Staging.BlindAccord.advancing budgets
  have rooms : (Machine.start limit).room ≤ (Machine.start limit').room :=
    Nat.add_le_add_right limits 1
  have advances := accord.run (Staging.BlindAccord.advancing_invokes budgets rooms) program
  rw [Staging.invoke_plain, Program.stage_plain] at advances
  exact advances.goesOn (.start limit) limit' limits

namespace Exec.Extends

variable {limit : Nat} {low high : Except Stop α × Machine}

theorem printed (ended : Extends limit low high) : low.2.printed <:+ high.2.printed := by
  cases ended with
  | same => exact List.suffix_refl _
  | further _ _ _ _ printed => exact printed

theorem eq_of_not_cut (ended : Extends limit low high)
    (completed : ∀ stop : Stop, stop.CutsShort → low.1 ≠ .error stop) :
    high = (low.1, low.2.allowing limit) := by
  cases ended with
  | same => rfl
  | further stop cut => exact absurd rfl (completed stop cut)

end Exec.Extends

/-- With higher limits, a run that was not cut short has the same result and prints the same lines.
In any case the lines that it prints come first.  No more calls are ever active than are allowed. -/
theorem Program.run_of_limit_le (program : Program) {budget budget' limit limit' : Nat}
    (budgets : budget ≤ budget') (limits : limit ≤ limit') :
    let low := program.run budget (.start limit)
    let high := program.run budget' (.start limit')
    ((∀ stop : Stop, stop.CutsShort → low.1 ≠ .error stop) →
        high.1 = low.1 ∧ high.2.output = low.2.output) ∧
      low.2.output <+: high.2.output ∧
      ∀ instant ∈ program.chronicle budget (.start limit), instant.calls.length ≤ limit := by
  intro low high
  have ended := program.execute_extends budgets limits
  have afresh : program.RunsAfresh budget (.start limit) := Program.runsAfresh rfl
  refine ⟨fun completed => ?_, List.reverse_prefix.mpr ended.printed,
    fun instant member => (afresh.chronicle instant member).allowed⟩
  have same := ended.eq_of_not_cut fun stop cut stopped =>
    completed stop cut (congrArg (Except.map _) stopped)
  have highEq : high = (low.1, low.2.allowing limit') := by
    change ((program.execute budget' (.start limit')).1.map
      (program.execute budget' (.start limit')).2.store.datum,
        (program.execute budget' (.start limit')).2) = _
    rw [same]
    rfl
  rw [highEq]
  exact ⟨rfl, rfl⟩

theorem Program.run_of_limit_le_nested :
    ∃ program,
      Program.ofText
        "FUN f ( ) DO print ( 2 ) ; END FUN main ( ) DO print ( 1 ) ; f ( ) ; END" =
          .ok program ∧
      (program.run 0 (.start 1)).2.output <+: (program.run 0 (.start 2)).2.output ∧
      (program.run 0 (.start 1)).2.output.length = 1 ∧
      (program.run 0 (.start 2)).2.output.length = 2 ∧
      (program.run 1 (.start 3)).1 = (program.run 0 (.start 2)).1 := by
  have happens : ((Program.ofText
      "FUN f ( ) DO print ( 2 ) ; END FUN main ( ) DO print ( 1 ) ; f ( ) ; END"
      ).toOption.map fun program => (program.run 0 (.start 2)).1.isOk &&
        decide ((program.run 0 (.start 1)).2.output.length = 1) &&
        decide ((program.run 0 (.start 2)).2.output.length = 2)) = some true := by
    decide +kernel
  cases read : Program.ofText
      "FUN f ( ) DO print ( 2 ) ; END FUN main ( ) DO print ( 1 ) ; f ( ) ; END" with
  | error problem =>
      rw [read] at happens
      cases happens
  | ok program =>
      simp only [read, Except.toOption, Option.map_some, Option.some.injEq, Bool.and_eq_true,
        decide_eq_true_eq] at happens
      obtain ⟨⟨succeeds, one⟩, two⟩ := happens
      have raised := Program.run_of_limit_le program (Nat.le_refl 0) (Nat.le_succ 1)
      have completed : ∀ stop : Stop, stop.CutsShort →
          (program.run 0 (.start 2)).1 ≠ .error stop := by
        intro stop _ stopped
        rw [stopped] at succeeds
        cases succeeds
      have same := (Program.run_of_limit_le program (Nat.zero_le 1) (Nat.le_succ 2)).1 completed
      exact ⟨program, rfl, raised.2.1, one, two, same.1⟩

end Procedural
