import Procedural.Diagnostic.Position
import Procedural.Problem

/-!
# Reports of problems

A report names the problem; if its place is known it shows the line of the program
and a caret below the place.  Colour is added to some parts of it and changes
nothing else.
-/

namespace Procedural

/-- The parts of a report that can be coloured. -/
inductive Emphasis where
  | alarm
  | strong
  | gutter
  deriving DecidableEq, Repr

/-- Adds the control sequences of an emphasis around a text. -/
def Emphasis.paint (emphasis : Emphasis) (color : Bool) (text : String) : String :=
  if color then
    match emphasis with
    | .alarm => "\x1b[38;5;9m\x1b[1m" ++ text ++ "\x1b[0m"
    | .strong => "\x1b[1m" ++ text ++ "\x1b[0m"
    | .gutter => "\x1b[38;5;12m" ++ text ++ "\x1b[39m"
  else text

def spaces (count : Nat) : String :=
  String.ofList (List.replicate count ' ')

namespace Problem

def headline (problem : Problem) (color : Bool) : String :=
  Emphasis.alarm.paint color s!"error[{problem.kind}]" ++ ": " ++
    Emphasis.strong.paint color problem.message ++ "\n"

/-- The lines that show a place in a program. -/
def excerpt (source fileName : String) (color : Bool) (offset : Nat) : String :=
  let text := source.toList
  let position := Position.ofOffset text offset
  let number := toString position.line
  let margin := spaces (number.length + 1)
  let bar := Emphasis.gutter.paint color "|"
  let arrow := Emphasis.gutter.paint color "-->"
  let place :=
    spaces number.length ++ s!"{arrow} {fileName}:{position.line}:{position.column}\n"
  match lineText? text position.line with
  | none => place
  | some line =>
      let caret := Emphasis.alarm.paint color "^"
      place ++ margin ++ bar ++ "\n" ++
        Emphasis.gutter.paint color number ++ " " ++ bar ++ " " ++ String.ofList line ++ "\n" ++
        margin ++ bar ++ " " ++ spaces (position.column - 1) ++ caret ++ "\n"

def report (problem : Problem) (source fileName : String) (color : Bool) : String :=
  problem.headline color ++
    match problem.offset with
    | none => ""
    | some offset => excerpt source fileName color offset

end Problem

end Procedural
