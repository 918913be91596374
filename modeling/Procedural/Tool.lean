import Procedural.Diagnostic.Report
import Procedural.Execution.Program
import Procedural.Layout.Java
import Procedural.Layout.Outline
import Procedural.Options
import Procedural.Typing.Program

/-!
# The tool

The passes over a program are joined here: reading, checking, running, and writing in
one of the output forms.  The first problem of any pass ends the work.
-/

namespace Procedural

def Program.ofText (text : String) : Except Problem Program :=
  match tokenize text with
  | .error error => .error (.lexical error)
  | .ok tokens =>
      match Program.ofTokens tokens with
      | .error error => .error (.reading error)
      | .ok program => .ok program

def Program.annotate (program : Program) : Except Problem Program :=
  let checked := program.check
  match checked.verdict with
  | .error error => .error (.typing error)
  | .ok () => .ok checked.tree

/-- Checks a program if that is wanted. -/
def Program.annotateIf (analyze : Bool) (program : Program) : Except Problem Program :=
  if analyze then program.annotate else .ok program

def Program.accept (text : String) : Except Problem Program := do
  let program ← Program.ofText text
  program.annotate

structure RunSettings where
  analyze : Bool
  callLimit : Nat
  budget : Nat

/-- Why a run ends without a value: a problem, or a loop that takes too many rounds. -/
inductive Failure where
  | problem (problem : Problem)
  | exhausted
  deriving DecidableEq, Repr

/-- The failure that a stop amounts to. -/
def Failure.ofStop : Stop → Failure
  | .error error => .problem (.runtime error)
  | .exhausted => .exhausted

/-- What a run comes to, with the lines it printed. -/
structure RunReport where
  outcome : Except Failure Datum
  lines : List PrintedLine

/-- Runs a program that was read, on a fresh machine. -/
def Program.runFresh (settings : RunSettings) (program : Program) : RunReport :=
  let (result, machine) := program.run settings.budget (.start settings.callLimit)
  ⟨result.mapError Failure.ofStop, machine.output⟩

/-- Reads, checks if that is wanted, and runs a program. -/
def runText (settings : RunSettings) (text : String) : RunReport :=
  match Program.ofText text >>= Program.annotateIf settings.analyze with
  | .error problem => ⟨.error (.problem problem), []⟩
  | .ok program => program.runFresh settings

def Token.listingLine (token : Token) : String :=
  let number := toString token.offset
  spaces (5 - number.length) ++ number ++ "  " ++ token.describe ++ "\n"

def listTokens (text : String) : Except Problem String :=
  match tokenize text with
  | .error error => .error (.lexical error)
  | .ok tokens => .ok (String.join (tokens.map Token.listingLine))

/-- The line that sums up a program without problems. -/
def Program.summary (program : Program) : String :=
  s!"ok: {program.globals.length} global(s), {program.functions.length} function(s)\n"

/-- What the tool writes: the output of its mode, or the reason that there is none, and the lines
that the program printed before. -/
structure Response where
  outcome : Except Failure String
  lines : List PrintedLine

namespace Response

/-- The response of a mode in which the program prints nothing. -/
def silent (outcome : Except Problem String) : Response :=
  ⟨outcome.mapError .problem, []⟩

def ofRun (report : RunReport) : Response :=
  ⟨report.outcome.map fun datum => s!"=> {datum.text}\n", report.lines⟩

end Response

/-- Treats a program text as a mode asks for. -/
def respond (mode : Mode) (settings : RunSettings) (text : String) : Response :=
  match mode with
  | .run => .ofRun (runText settings text)
  | .check => .silent ((Program.accept text).map Program.summary)
  | .java => .silent ((Program.accept text).map Program.toJava)
  | .format => .silent ((Program.ofText text).map Program.format)
  | .tokens => .silent (listTokens text)
  | .outline => .silent ((Program.ofText text).map Program.outlineText)

/-- A bound on the rounds of a loop that no run reaches in practice. -/
def ampleBudget : Nat := 4611686018427387904

def Command.settings (command : Command) : RunSettings :=
  ⟨command.analyze, command.callLimit, ampleBudget⟩

def Failure.report (failure : Failure) (text fileName : String) (color : Bool) : String :=
  match failure with
  | .problem found => found.report text fileName color
  | .exhausted => "error: a loop takes too many rounds\n"

/-- What a process leaves behind. -/
structure ProcessResult where
  code : Nat
  output : String
  errors : String
  deriving DecidableEq, Repr

namespace ProcessResult

/-- The process that follows a command on the text of its file. -/
def ofText (command : Command) (terminal : Bool) (text : String) : ProcessResult :=
  let response := respond command.mode command.settings text
  let printed := String.join (response.lines.map fun line => line.text ++ "\n")
  match response.outcome with
  | .ok output => ⟨0, printed ++ output, ""⟩
  | .error failure =>
      ⟨1, printed, failure.report text command.file (command.color.isOn terminal)⟩

def unreadable (command : Command) (reason : String) : ProcessResult :=
  ⟨1, "", s!"error: could not read '{command.file}': {reason}\n"⟩

def versionLine : String := "plc 0.1.0\n"

def usageLine : String := "Usage: plc [OPTIONS] <FILE>\n"

def ofUsage : UsageError → ProcessResult
  | .displayVersion => ⟨0, versionLine, ""⟩
  | .displayHelp => ⟨0, usageLine, ""⟩
  | _ => ⟨2, "", "error: invalid arguments\n\n" ++ usageLine⟩

end ProcessResult

end Procedural
