import Procedural.Proofs.Execution.Chronicle
import Procedural.Proofs.Execution.Output

/-!
# Reused machines

At every instant a machine counts the calls that are active then, and there are no more of
them than it allows.  However a run ends, no call is active any more.  So the next run does
what it would do on a new machine, and its lines come after those of the runs before.
-/

namespace Procedural

variable {α β : Type}

/-- The machine counts the active calls, which are not too many.  So the count is positive as long
as there is a call to be left. -/
structure Machine.Counts (machine : Machine) (calls : List Function) (limit : Nat) : Prop where
  counted : machine.depth = calls.length
  fixed : machine.limit = limit
  allowed : calls.length ≤ limit

/-- The count is right at every instant, and in the end the same calls are active as before. -/
structure Account.Counts (account : Account α) (calls : List Function) (limit : Nat) : Prop where
  ended : account.machine.Counts calls limit
  inside : ∀ instant ∈ account.instants, instant.machine.Counts instant.calls limit

def Chronicled.Counts (chronicled : Chronicled α) : Prop :=
  ∀ calls machine limit, machine.Counts calls limit → (chronicled calls machine).Counts calls limit

namespace Chronicled

theorem counts_bind {chronicled : Chronicled α} {next : α → Chronicled β}
    {calls : List Function} {machine : Machine} {limit : Nat}
    (counts : (chronicled calls machine).Counts calls limit)
    (later : ∀ value, (chronicled calls machine).result = .ok value →
      (next value calls (chronicled calls machine).machine).Counts calls limit) :
    ((chronicled >>= next) calls machine).Counts calls limit := by
  refine @bind_cases _ _ (·.Counts calls limit) _ _ _ _ ?_ ?_
  · exact fun stop _ => ⟨counts.ended, counts.inside⟩
  · intro value succeeds
    have second := later value succeeds
    exact ⟨second.ended, List.forall_mem_append.mpr ⟨counts.inside, second.inside⟩⟩

/-- The instants of a frame or a call: there is one before and one after those inside. -/
theorem counts_around {first last : Instant} {inside : Account α} {limit : Nat}
    (before : first.machine.Counts first.calls limit)
    (counts : inside.Counts first.calls limit) (after : last.machine.Counts last.calls limit) :
    Account.Counts ⟨inside.result, last.machine, first :: (inside.instants ++ [last])⟩ last.calls
      limit :=
  ⟨after, List.forall_mem_cons.mpr ⟨before, List.forall_mem_append.mpr
    ⟨counts.inside, List.forall_mem_singleton.mpr after⟩⟩⟩

namespace Counts

protected theorem pure (value : α) : Counts (pure value) :=
  fun _ _ _ counts => ⟨counts, List.forall_mem_nil _⟩

protected theorem bind {chronicled : Chronicled α} {next : α → Chronicled β}
    (counting : chronicled.Counts) (later : ∀ value, (next value).Counts) :
    (chronicled >>= next).Counts := by
  intro calls machine limit counts
  have first := counting calls machine limit counts
  exact counts_bind first fun value _ => later value calls _ limit first.ended

/-- An action changes neither count nor limit. -/
theorem still {action : Exec α}
    (still : ∀ machine, (action machine).2.depth = machine.depth ∧
      (action machine).2.limit = machine.limit) : Counts (Chronicled.act action) := by
  intro calls machine limit counts
  obtain ⟨depth, limit'⟩ := still machine
  have after : (action machine).2.Counts calls limit :=
    ⟨depth.trans counts.counted, limit'.trans counts.fixed, counts.allowed⟩
  exact ⟨after, List.forall_mem_singleton.mpr after⟩

theorem blind {action : Exec α} (blind : action.Blind) : Counts (Chronicled.act action) := by
  obtain ⟨deed, does⟩ := blind
  apply still
  intro machine
  rw [does]
  exact ⟨rfl, rfl⟩

theorem inFrame {chronicled : Chronicled α} (counting : chronicled.Counts)
    (outer : Environment → Nat) : Counts (Chronicled.inFrame outer chronicled) := by
  intro calls machine limit counts
  let entered := machine.enter (outer machine.environment)
  have before : entered.Counts calls limit := ⟨counts.counted, counts.fixed, counts.allowed⟩
  have inside := counting calls entered limit before
  have after : (chronicled calls entered).machine.leave.Counts calls limit :=
    ⟨inside.ended.counted, inside.ended.fixed, counts.allowed⟩
  exact @counts_around _ ⟨calls, entered⟩ ⟨calls, _⟩ _ limit before inside after

/-- A call that is allowed is counted while it is active. -/
theorem inCall {chronicled : Chronicled α} (counting : chronicled.Counts) (function : Function)
    (home : Nat) {calls : List Function} {machine : Machine} {limit : Nat}
    (counts : machine.Counts calls limit) (allowed : calls.length < limit) :
    (Chronicled.inCall function home chronicled calls machine).Counts calls limit := by
  have before : machine.deeper.Counts (function :: calls) limit :=
    ⟨congrArg (· + 1) counts.counted, counts.fixed, allowed⟩
  have inside := counting.inFrame (fun _ => home) _ _ limit before
  have after : (Chronicled.inFrame (fun _ => home) chronicled (function :: calls)
      machine.deeper).machine.shallower.Counts calls limit :=
    ⟨congrArg (· - 1) inside.ended.counted, inside.ended.fixed, counts.allowed⟩
  exact @counts_around _ ⟨function :: calls, machine.deeper⟩ ⟨calls, _⟩ _ limit before inside after

theorem refuseCall (callable : Callable) (arguments : List Value) (offset : Nat) :
    Counts (Chronicled.act (Exec.refuseCall callable arguments offset)) :=
  still fun _ => ⟨rfl, rfl⟩

/-- A call is made only if fewer calls are active than are allowed. -/
theorem callWithin (function : Function) (home : Nat) (arguments : List Value) (offset : Nat)
    {body : Chronicled Value} (counting : body.Counts) :
    (Staging.chronicled.callWithin function home arguments offset body).Counts := by
  intro calls machine limit counts
  have looks : (Chronicled.act (Exec.look fun machine : Machine =>
      decide (machine.limit ≤ machine.depth)) calls machine).Counts calls limit :=
    still (fun _ => ⟨rfl, rfl⟩) calls machine limit counts
  apply counts_bind looks
  intro full looked
  have same : decide (machine.limit ≤ machine.depth) = full := Except.ok.inj looked
  cases full with
  | true => exact refuseCall (.user function home) arguments offset calls machine limit counts
  | false =>
      have allowed := Nat.lt_of_not_le (of_decide_eq_false same)
      rw [counts.counted, counts.fixed] at allowed
      exact counting.inCall function home counts allowed

end Counts

end Chronicled

open Chronicled in
/-- Runs count their calls. -/
def Staging.BlindAccord.counting (budget : Nat) :
    Staging.chronicled.BlindAccord budget budget where
  Related _ := Counts
  pure := Counts.pure
  bind := Counts.bind
  blind := Counts.blind
  inBlock counting := counting.inFrame Scope.current
  repeatWhile {test test' body body'} tests bodies :=
    Accord.repeatWhile_of_rounds .chronicled (fun _ => Counts) Counts.pure Counts.bind
      (.blind (.modest (.stop _))) test test' body body' tests bodies budget
  call function home arguments offset _ _ := Counts.callWithin function home arguments offset
  refuse := Counts.refuseCall

/-- At every instant of a run that begins with no active call the count is right, and in the end no
call is active. -/
theorem Program.account_counts (budget : Nat) (program : Program) {machine : Machine}
    (idle : machine.depth = 0) :
    (program.account budget machine).Counts [] machine.limit := by
  let accord := Staging.BlindAccord.counting budget
  have counting := accord.run (accord.toAccord.invokes machine.reset.room) program
  exact counting [] machine.reset machine.limit ⟨idle, rfl, Nat.zero_le _⟩

namespace Machine

/-- A machine on which lines were printed, with no active call. -/
def idle (printed : List PrintedLine) (limit : Nat) : Machine :=
  { start limit with printed }

/-- The machine after programs were run on it, one after the other, each with a budget. -/
def afterRuns (machine : Machine) : List (Nat × Program) → Machine
  | [] => machine
  | (budget, program) :: rest => (program.run budget machine).2.afterRuns rest

end Machine

/-- A program runs on the machine as it does on a new one, and at every instant the machine counts
the active calls. -/
structure Program.RunsAfresh (budget : Nat) (program : Program) (machine : Machine) : Prop where
  result : (program.run budget machine).1 = (program.run budget (.start machine.limit)).1
  output : (program.run budget machine).2.output =
    machine.output ++ (program.run budget (.start machine.limit)).2.output
  chronicle : ∀ instant ∈ program.chronicle budget machine,
    instant.machine.Counts instant.calls machine.limit
  depth : (program.run budget machine).2.depth = machine.depth
  limit : (program.run budget machine).2.limit = machine.limit

namespace Program

variable {budget : Nat} {program : Program} {machine : Machine}

/-- Only the lines of earlier runs are carried over. -/
theorem run_eq_over (idle : machine.depth = 0) :
    program.run budget machine =
      ((program.run budget (.start machine.limit)).1,
        (program.run budget (.start machine.limit)).2.over machine.printed) := by
  obtain ⟨environment, store, printed, depth, limit⟩ := machine
  obtain rfl : depth = 0 := idle
  have appends := program.execute_appends budget (.start limit) printed
  have same : program.execute budget ⟨environment, store, printed, 0, limit⟩ =
    program.execute budget ((Machine.start limit).over printed) := rfl
  unfold run
  rw [same, appends]
  rfl

theorem run_counts (idle : machine.depth = 0) :
    (program.run budget machine).2.Counts [] machine.limit := by
  have counts := program.account_counts budget idle
  have same : (program.run budget machine).2 = (program.account budget machine).machine :=
    congrArg Prod.snd (program.account_tells budget machine)
  rw [same]
  exact counts.ended

theorem runsAfresh (idle : machine.depth = 0) : program.RunsAfresh budget machine where
  result := by rw [run_eq_over idle]
  output := by
    rw [run_eq_over idle]
    exact List.reverse_append
  chronicle := List.forall_mem_cons.mpr
    ⟨⟨idle, rfl, Nat.zero_le _⟩, (program.account_counts budget idle).inside⟩
  depth := (run_counts idle).counted.trans idle.symm
  limit := (run_counts idle).fixed

end Program

namespace Machine

theorem afterRuns_spec (machine : Machine) (idle : machine.depth = 0)
    (runs : List (Nat × Program)) :
    (machine.afterRuns runs).depth = 0 ∧ (machine.afterRuns runs).limit = machine.limit ∧
      (machine.afterRuns runs).output = machine.output ++ runs.flatMap fun (budget, program) =>
        (program.run budget (.start machine.limit)).2.output := by
  induction runs generalizing machine with
  | nil => exact ⟨idle, rfl, (List.append_nil _).symm⟩
  | cons run rest induction =>
      obtain ⟨budget, program⟩ := run
      have afresh : program.RunsAfresh budget machine := Program.runsAfresh idle
      obtain ⟨depth, limit, output⟩ := induction _ (afresh.depth.trans idle)
      refine ⟨depth, limit.trans afresh.limit, ?_⟩
      rw [afresh.output, afresh.limit, List.append_assoc] at output
      exact output

/-- However the runs on a machine ended, it is idle again, it has printed their lines one after the
other, and any program runs on it afresh. -/
theorem reusable (printed : List PrintedLine) (limit : Nat) (runs : List (Nat × Program)) :
    let machine := (idle printed limit).afterRuns runs
    machine.depth = 0 ∧ machine.limit = limit ∧
      machine.output = (idle printed limit).output ++
        (runs.flatMap fun (budget, program) => (program.run budget (.start limit)).2.output) ∧
      ∀ budget (program : Program), program.RunsAfresh budget machine := by
  obtain ⟨depth, fixed, output⟩ := afterRuns_spec (idle printed limit) rfl runs
  exact ⟨depth, fixed, output, fun _ _ => Program.runsAfresh depth⟩

end Machine

end Procedural
