import Procedural.Proofs.Execution.Relabelled
import Procedural.Proofs.Syntax.Unplaced

/-!
# Runs do not depend on places

A program without its offsets runs as the program does: with the same value, the same
printed texts and the same fault, at forgotten places.
-/

namespace Procedural

/-- The error with its place forgotten, if it has one. -/
def RuntimeError.unplaced (error : RuntimeError) : RuntimeError :=
  { error with offset := error.offset.map fun _ => 0 }

def Stop.unplaced : Stop → Stop
  | .error reason => .error reason.unplaced
  | .exhausted => .exhausted

theorem Stop.relabel_forgetPlaces : Stop.relabel .forgetPlaces = Stop.unplaced := by
  funext stop
  cases stop <;> rfl

/-- A function of the program carries offsets in its body; a built-in function has none. -/
def Callable.unplaced : Callable → Callable
  | .builtin name => .builtin name
  | .user function home => .user function.unplaced home

theorem Callable.relabel_forgetPlaces : Callable.relabel .forgetPlaces = Callable.unplaced := by
  funext callable
  cases callable with
  | builtin name => rfl
  | user function home =>
      simp only [relabel, unplaced, Function.relabel_forgetPlaces]

/-- The printed text without the place of the call that printed it. -/
def PrintedLine.unplaced (line : PrintedLine) : PrintedLine :=
  { line with offset := 0 }

theorem PrintedLine.relabel_forgetPlaces :
    PrintedLine.relabel .forgetPlaces = PrintedLine.unplaced :=
  rfl

namespace Machine

/-- The machine with all offsets forgotten, in its functions and its output. -/
def unplaced (machine : Machine) : Machine :=
  { machine with
    environment := machine.environment.mapFunctions Callable.unplaced
    printed := machine.printed.map PrintedLine.unplaced }

theorem relabel_forgetPlaces (machine : Machine) :
    machine.relabel .forgetPlaces = machine.unplaced := by
  simp only [relabel, unplaced, Callable.relabel_forgetPlaces, PrintedLine.relabel_forgetPlaces]

theorem output_unplaced (machine : Machine) :
    machine.unplaced.output = machine.output.map PrintedLine.unplaced :=
  List.map_reverse.symm

end Machine

/-- A program without places has the result of the program, up to the place of a fault. -/
theorem Program.run_unplaced (budget : Nat) (program : Program) (machine : Machine) :
    program.unplaced.run budget machine.unplaced =
      ((program.run budget machine).1.mapError Stop.unplaced,
        (program.run budget machine).2.unplaced) := by
  have ran := program.run_relabel .forgetPlaces budget machine
  rwa [Program.relabel_forgetPlaces, Machine.relabel_forgetPlaces, Machine.relabel_forgetPlaces,
    Stop.relabel_forgetPlaces] at ran

end Procedural
