import Procedural.Proofs.Execution.Erasure
import Procedural.Proofs.Execution.TypedPrograms
import Procedural.Proofs.Typing.ProgramDerivation

/-!
# Accepted programs have no faults about their text

If only names count, every accepted program is typed, with list literals and whether or
not its tree is annotated.  So no run of it looks up a name in vain, declares one twice,
passes a wrong number of arguments or assigns to what may not change.
-/

namespace Procedural

/-- Types promise nothing about values. -/
def Discipline.names (marked : Bool) : Discipline where
  marked := marked
  Fits _ _ := True
  Lists _ _ := True
  Keeps _ := True
  Allows _ _ _ := True
  fits_of_unmarked _ _ _ := trivial
  fits_nil _ := trivial
  fits_scalar _ := trivial
  fits_accepted _ _ := trivial
  fits_operator _ _ _ _ := trivial
  fits_list _ := trivial
  fits_element _ _ _ := trivial
  keeps_empty := trivial
  keeps_allocate _ _ _ := trivial
  keeps_setElement _ _ _ _ _ := trivial

/-- No run of an accepted program, annotated or as it was read, fails for a reason that lies in the
program text: whatever machine it runs on, and however deeply its calls may nest. -/
theorem Program.not_isStatic_of_execute {text : String} {given annotated program : Program}
    (read : Program.ofText text = .ok given) (accepted : given.annotate = .ok annotated)
    (either : program = given ∨ program = annotated) {budget : Nat} {machine : Machine}
    {error : RuntimeError} (failed : (program.execute budget machine).1 = .error (.error error)) :
    error.fault.isStatic = false := by
  obtain ⟨passes, rfl⟩ := Program.annotate_eq_ok.mp accepted
  obtain ⟨marked, same⟩ : ∃ marked,
      program = (Discipline.names marked).select given given.check.tree := by
    rcases either with rfl | rfl
    · exact ⟨false, rfl⟩
    · exact ⟨true, rfl⟩
  obtain ⟨between, after, typing⟩ :=
    Program.typing_of_ofText (Discipline.names marked) read passes fun _ _ _ => trivial
  rw [← same] at typing
  rw [← Program.watch_follows] at failed
  have permitted := (Discipline.names marked).permits_of_allows fun _ _ _ => trivial
  exact (Program.watch_ensures typing budget machine).2 (fun moment _ => permitted moment)
    (.error error) failed

theorem Program.not_isStatic_of_execute_division :
    ∃ given annotated error,
      Program.ofText "FUN main ( ) : Integer DO RETURN 1 / 0 ; END" = .ok given ∧
      given.annotate = .ok annotated ∧
      (annotated.execute 0 (.start 1)).1 = .error (.error error) ∧
      error.fault = .divisionByZero ∧ error.fault.isStatic = false := by
  have ends : ((Program.ofText "FUN main ( ) : Integer DO RETURN 1 / 0 ; END").toOption.bind
      fun given => given.annotate.toOption.map fun annotated =>
        (annotated.execute 0 (.start 1)).1) =
      some (.error (.error ⟨.divisionByZero, some 33⟩)) := by
    decide +kernel
  cases read : Program.ofText "FUN main ( ) : Integer DO RETURN 1 / 0 ; END" with
  | error problem =>
      rw [read] at ends
      cases ends
  | ok given =>
      cases accepted : given.annotate with
      | error problem =>
          simp only [read, Except.toOption, Option.bind_some, accepted] at ends
          cases ends
      | ok annotated =>
          simp only [read, Except.toOption, Option.bind_some, accepted, Option.map_some,
            Option.some.injEq] at ends
          exact ⟨given, annotated, _, rfl, accepted, ends, rfl,
            Program.not_isStatic_of_execute read accepted (.inr rfl) ends⟩

end Procedural
