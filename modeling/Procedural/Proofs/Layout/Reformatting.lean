import Procedural.Proofs.Execution.Unplaced
import Procedural.Proofs.Layout.RoundTrip
import Procedural.Proofs.Typing.Unplaced
import Procedural.Tool

/-!
# The canonical layout means the same

The canonical layout of a program is read as the program up to offsets.  What the tool does
with a program reaches offsets only where it reports a place, so it treats a text and its
canonical layout alike.
-/

namespace Procedural

/-- The token with its place forgotten. -/
def Token.unplaced (token : Token) : Token :=
  { token with offset := 0 }

def LexicalError.unplaced (error : LexicalError) : LexicalError :=
  { error with offset := 0 }

def ReadingError.unplaced : ReadingError → ReadingError
  | .unexpected what found => .unexpected what found.unplaced
  | .unexpectedEnd what _ => .unexpectedEnd what 0
  | .invalidLiteral found => .invalidLiteral found.unplaced

/-- The problem with its place forgotten; its pass, its reason and its wording stay. -/
def Problem.unplaced : Problem → Problem
  | .lexical error => .lexical error.unplaced
  | .reading error => .reading error.unplaced
  | .typing error => .typing error.unplaced
  | .runtime error => .runtime error.unplaced

def Failure.unplaced : Failure → Failure
  | .problem found => .problem found.unplaced
  | .exhausted => .exhausted

/-- What a run comes to, with the places of its failure and of its prints forgotten. -/
def RunReport.unplaced (report : RunReport) : RunReport :=
  ⟨report.outcome.mapError Failure.unplaced, report.lines.map PrintedLine.unplaced⟩

theorem Problem.message_unplaced (problem : Problem) :
    problem.unplaced.kind = problem.kind ∧ problem.unplaced.message = problem.message := by
  cases problem with
  | reading error => cases error <;> exact ⟨rfl, rfl⟩
  | _ => exact ⟨rfl, rfl⟩

theorem Failure.unplaced_ofStop (stop : Stop) :
    Failure.ofStop stop.unplaced = (Failure.ofStop stop).unplaced := by
  cases stop <;> rfl

namespace Program

theorem annotate_unplaced (program : Program) :
    program.unplaced.annotate = (program.annotate.map unplaced).mapError Problem.unplaced := by
  simp only [annotate, check_unplaced, Checked.unplaced]
  cases program.check.verdict <;> rfl

theorem annotateIf_unplaced (analyze : Bool) (program : Program) :
    program.unplaced.annotateIf analyze =
      ((program.annotateIf analyze).map unplaced).mapError Problem.unplaced := by
  cases analyze with
  | true => exact program.annotate_unplaced
  | false => rfl

theorem runFresh_unplaced (settings : RunSettings) (program : Program) :
    program.unplaced.runFresh settings = (program.runFresh settings).unplaced := by
  have start : (Machine.start settings.callLimit).unplaced = .start settings.callLimit := rfl
  have run := program.run_unplaced settings.budget (.start settings.callLimit)
  rw [start] at run
  simp only [runFresh, run, RunReport.unplaced, Machine.output_unplaced]
  cases (program.run settings.budget (.start settings.callLimit)).1 with
  | ok datum => rfl
  | error stop => simp only [Except.mapError_error, Failure.unplaced_ofStop]

variable {text : String} {program : Program}

theorem unplaced_accept (read : ofText text = .ok program) :
    ((accept text).map unplaced).mapError Problem.unplaced = program.unplaced.annotate := by
  rw [annotate_unplaced, accept, read]
  rfl

theorem unplaced_toJava (read : ofText text = .ok program) :
    ((accept text).map toJava).mapError Problem.unplaced =
      program.unplaced.annotate.map toJava := by
  rw [annotate_unplaced, accept, read]
  change (program.annotate.map toJava).mapError Problem.unplaced = _
  cases program.annotate with
  | ok annotated => exact congrArg Except.ok annotated.toJava_unplaced.symm
  | error problem => rfl

theorem unplaced_runText (settings : RunSettings) (read : ofText text = .ok program) :
    (runText settings text).unplaced =
      match program.unplaced.annotateIf settings.analyze with
      | .error problem => ⟨.error (.problem problem), []⟩
      | .ok annotated => annotated.runFresh settings := by
  rw [annotateIf_unplaced, runText, read]
  change (match program.annotateIf settings.analyze with
    | .error problem => ⟨.error (.problem problem), []⟩
    | .ok annotated => annotated.runFresh settings : RunReport).unplaced = _
  cases program.annotateIf settings.analyze with
  | ok annotated => exact (annotated.runFresh_unplaced settings).symm
  | error problem => rfl

/-- Up to places, a text and its canonical layout are accepted alike, written as the same Java
class and run alike.  The budget of a run is arbitrary, so that a run without end stays one. -/
theorem format_faithful (read : ofText text = .ok program) :
    (∀ settings,
      (runText settings program.format).unplaced = (runText settings text).unplaced) ∧
    ((accept program.format).map unplaced).mapError Problem.unplaced =
      ((accept text).map unplaced).mapError Problem.unplaced ∧
    ((accept program.format).map toJava).mapError Problem.unplaced =
      ((accept text).map toJava).mapError Problem.unplaced := by
  obtain ⟨again, readAgain, same⟩ := exists_ofText_format read
  refine ⟨fun settings => ?_, ?_, ?_⟩
  · rw [unplaced_runText settings readAgain, unplaced_runText settings read, same]
  · rw [unplaced_accept readAgain, unplaced_accept read, same]
  · rw [unplaced_toJava readAgain, unplaced_toJava read, same]

/-- The digits of a numeral are written as they were read: `0.50` divides to two places. -/
theorem format_faithful_quotient :
    ∃ text program,
      text = "FUN main ( ) : Decimal DO print ( 0.50 / 0.4 ) ; RETURN 2.0 / 0.00 ; END" ∧
      ofText text = .ok program ∧
      program.format = "FUN main ( ) : Decimal DO\n    print ( 0.50 / 0.4 ) ;\n" ++
        "    RETURN 2.0 / 0.00 ;\nEND\n" ∧
      (∀ settings,
        (runText settings program.format).unplaced = (runText settings text).unplaced) ∧
      ((accept program.format).map unplaced).mapError Problem.unplaced =
        ((accept text).map unplaced).mapError Problem.unplaced ∧
      ((accept program.format).map toJava).mapError Problem.unplaced =
        ((accept text).map toJava).mapError Problem.unplaced := by
  have formatted : ((ofText
      "FUN main ( ) : Decimal DO print ( 0.50 / 0.4 ) ; RETURN 2.0 / 0.00 ; END").map
        format).toOption = some ("FUN main ( ) : Decimal DO\n    print ( 0.50 / 0.4 ) ;\n" ++
          "    RETURN 2.0 / 0.00 ;\nEND\n") := by
    decide +kernel
  cases read : ofText
      "FUN main ( ) : Decimal DO print ( 0.50 / 0.4 ) ; RETURN 2.0 / 0.00 ; END" with
  | error problem =>
      rw [read] at formatted
      cases formatted
  | ok program =>
      rw [read] at formatted
      exact ⟨_, program, rfl, read, Option.some.inj formatted, format_faithful read⟩

end Program

end Procedural
