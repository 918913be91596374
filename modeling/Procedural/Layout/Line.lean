/-!
# Lines of text

Output is built as a list of lines.  A line is a depth of nesting and some words;
it is written with four spaces for each depth and one space between words.
-/

namespace Procedural

/-- A line of output before it is written. -/
structure Line where
  depth : Nat
  words : List String
  deriving DecidableEq, Repr

namespace Line

/-- A line without words at no depth, which is written as an empty line. -/
def blank : Line :=
  ⟨0, []⟩

/-- A line of a single piece of text. -/
def ofText (depth : Nat) (text : String) : Line :=
  ⟨depth, [text]⟩

/-- The spaces that one depth of nesting is written with. -/
def indentWidth : Nat := 4

def text (line : Line) : String :=
  String.ofList (List.replicate (indentWidth * line.depth) ' ') ++
    " ".intercalate line.words ++ "\n"

def textList (lines : List Line) : String :=
  String.join (lines.map text)

end Line

end Procedural
