import Procedural.Proofs.Execution.Relabelled
import Procedural.Proofs.Layout.Relabelled
import Procedural.Proofs.Reader.FromText
import Procedural.Proofs.Typing.Annotation

/-!
# Checking a program does not change what it does

Neither a run nor the canonical layout looks at the slots that checking fills in.  A text
that passes the checks therefore gives the same report whether it was checked or not.
-/

namespace Procedural

theorem Stop.relabel_emptySlots : Stop.relabel .emptySlots = id := by
  funext stop
  cases stop with
  | error reason =>
      obtain ⟨fault, offset⟩ := reason
      cases offset <;> rfl
  | exhausted => rfl

theorem PrintedLine.relabel_emptySlots : PrintedLine.relabel .emptySlots = id :=
  rfl

namespace Machine

/-- The machine without annotations in the bodies of its functions. -/
abbrev bare (machine : Machine) : Machine :=
  machine.relabel .emptySlots

theorem printed_bare (machine : Machine) : machine.bare.printed = machine.printed :=
  List.map_id machine.printed

/-- A run starts with no functions of an earlier program. -/
theorem reset_bare (machine : Machine) : machine.bare.reset = machine.reset := by
  have printed := machine.printed_bare
  simp only [reset, printed]
  rfl

end Machine

namespace Program

variable {left right : Program} (budget : Nat) (machine : Machine)

theorem run_bare_machine (program : Program) :
    program.run budget machine.bare = program.run budget machine := by
  have same : program.execute budget machine.bare = program.execute budget machine := by
    unfold execute
    rw [Machine.reset_bare]
  simp only [run, same]

theorem run_bare (program : Program) :
    program.bare.run budget machine =
      ((program.run budget machine).1, (program.run budget machine).2.bare) := by
  have ran := program.run_relabel .emptySlots budget machine
  have result : (program.run budget machine).1.mapError id = (program.run budget machine).1 := by
    cases (program.run budget machine).1 <;> rfl
  rw [Stop.relabel_emptySlots, result] at ran
  rw [← run_bare_machine]
  exact ran

/-- Programs that differ in annotations only have the same result and the same output. -/
theorem run_of_bare_eq (same : left.bare = right.bare) :
    (left.run budget machine).1 = (right.run budget machine).1 ∧
      (left.run budget machine).2.output = (right.run budget machine).2.output := by
  have ran : (left.bare.run budget machine) = right.bare.run budget machine := by rw [same]
  rw [run_bare, run_bare, Prod.mk.injEq] at ran
  refine ⟨ran.1, congrArg List.reverse ?_⟩
  rw [← Machine.printed_bare, ran.2, Machine.printed_bare]

theorem format_of_bare_eq (same : left.bare = right.bare) : left.format = right.format := by
  rw [← format_relabel .emptySlots left, ← format_relabel .emptySlots right]
  exact congrArg format same

theorem runFresh_of_bare_eq (settings : RunSettings) (same : left.bare = right.bare) :
    left.runFresh settings = right.runFresh settings := by
  obtain ⟨result, output⟩ := run_of_bare_eq settings.budget (.start settings.callLimit) same
  simp only [runFresh, result, output]

end Program

/-- A text that passes the checks comes to the same with them and without them. -/
theorem runText_of_accept {text : String} {annotated : Program}
    (accepted : Program.accept text = .ok annotated) (limit budget : Nat) :
    runText ⟨true, limit, budget⟩ text = runText ⟨false, limit, budget⟩ text := by
  obtain ⟨program, read, passed⟩ := Program.accept_eq_ok.mp accepted
  have checked : Program.ofText text >>= Program.annotateIf true = .ok annotated := by
    rw [read]
    exact passed
  have unchecked : Program.ofText text >>= Program.annotateIf false = .ok program := by
    rw [read]
    rfl
  obtain ⟨_, rfl⟩ := Program.annotate_eq_ok.mp passed
  unfold runText
  rw [checked, unchecked]
  exact Program.runFresh_of_bare_eq ⟨true, limit, budget⟩ program.bare_check

/-- Checking fills in slots and does nothing else, whether it passes or stops part-way; runs and
the canonical layout do not look at the slots; so an accepted text runs alike with and without
being checked, at every limit. -/
theorem Program.check_annotates_only :
    (∀ program : Program, program.check.tree.bare = program.bare) ∧
      (∀ left right : Program, left.bare = right.bare →
        (∀ budget machine, (left.run budget machine).1 = (right.run budget machine).1 ∧
          (left.run budget machine).2.output = (right.run budget machine).2.output) ∧
        left.format = right.format) ∧
      ∀ text annotated, Program.accept text = .ok annotated → ∀ limit budget,
        runText ⟨true, limit, budget⟩ text = runText ⟨false, limit, budget⟩ text :=
  ⟨Program.bare_check,
    fun _ _ same => ⟨fun budget machine => run_of_bare_eq budget machine same,
      format_of_bare_eq same⟩,
    fun _ _ accepted => runText_of_accept accepted⟩

/-- Only the annotated program declares its variable as an `int`, yet both run and are laid out
alike. -/
theorem Program.check_annotates_only_local :
    ∃ text program annotated, text = "FUN main ( ) : Integer DO LET x = 1 ; RETURN x ; END" ∧
      Program.ofText text = .ok program ∧ program.annotate = .ok annotated ∧
      annotated.toJava ≠ program.toJava ∧ annotated.bare = program.bare ∧
      (∀ budget machine, (annotated.run budget machine).1 = (program.run budget machine).1 ∧
        (annotated.run budget machine).2.output = (program.run budget machine).2.output) ∧
      annotated.format = program.format ∧
      ∀ limit budget, runText ⟨true, limit, budget⟩ text = runText ⟨false, limit, budget⟩ text := by
  obtain ⟨bare, alike, runs⟩ := Program.check_annotates_only
  have written : ((ofText "FUN main ( ) : Integer DO LET x = 1 ; RETURN x ; END").toOption.bind
      fun program => program.annotate.toOption.map fun annotated =>
        decide (annotated.toJava ≠ program.toJava)) = some true := by
    decide +kernel
  cases read : ofText "FUN main ( ) : Integer DO LET x = 1 ; RETURN x ; END" with
  | error problem =>
      rw [read] at written
      cases written
  | ok program =>
      cases passed : program.annotate with
      | error problem =>
          rw [read] at written
          simp [Except.toOption, passed] at written
      | ok annotated =>
          simp only [read, Except.toOption, Option.bind_some, passed, Option.map_some,
            Option.some.injEq, decide_eq_true_eq] at written
          have same : annotated.bare = program.bare := by
            obtain ⟨-, rfl⟩ := annotate_eq_ok.mp passed
            exact bare program
          exact ⟨_, program, annotated, rfl, read, passed, written, same, (alike _ _ same).1,
            (alike _ _ same).2, runs _ _ (accept_eq_ok.mpr ⟨program, read, passed⟩)⟩

end Procedural
