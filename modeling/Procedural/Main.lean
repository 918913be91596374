import Procedural.Tool

/-!
# The command line program

The program reads the file that its command line names, hands the text to the tool,
and writes what the tool answers.
-/

namespace Procedural

/-- The number of a system error, which some calls report with its sign turned. -/
def systemNumber (code : UInt32) : UInt32 :=
  min code (0 - code)

/-- Why a file could not be read, with the number that the system gives the reason. -/
def readingFailure : IO.Error → String
  | .noFileOrDirectory .. => "No such file or directory (os error 2)"
  | .permissionDenied .. => "Permission denied (os error 13)"
  | .inappropriateType _ code _ =>
      if systemNumber code = 20 then "Not a directory (os error 20)"
      else "Is a directory (os error 21)"
  | .invalidArgument _ code _ =>
      if systemNumber code = 36 then "File name too long (os error 36)"
      else "Invalid argument (os error 22)"
  | error => toString error

def follow (arguments : List String) (terminal : Bool) : IO ProcessResult := do
  match Command.ofArguments defaultCallLimit arguments with
  | .error error => pure (.ofUsage error)
  | .ok command =>
      try
        match String.fromUTF8? (← IO.FS.readBinFile command.file) with
        | some text => pure (.ofText command terminal text)
        | none => pure (.unreadable command "stream did not contain valid UTF-8")
      catch error =>
        pure (.unreadable command (readingFailure error))

end Procedural

def main (arguments : List String) : IO UInt32 := do
  let errors ← IO.getStderr
  let result ← Procedural.follow arguments (← errors.isTty)
  (← IO.getStdout).putStr result.output
  errors.putStr result.errors
  pure result.code.toUInt32
