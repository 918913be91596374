/-!
# Lines and columns

Lines and columns count from one, and columns count characters.  An offset inside a
character belongs to the position after it, and an offset beyond the text to the
position behind its last character.
-/

namespace Procedural

/-- A line and a column. -/
structure Position where
  line : Nat
  column : Nat
  deriving DecidableEq, Repr

namespace Position

def first : Position :=
  ⟨1, 1⟩

def next (position : Position) (c : Char) : Position :=
  if c = '\n' then ⟨position.line + 1, 1⟩ else ⟨position.line, position.column + 1⟩

/-- The position of an offset in a text that starts at a given offset and position. -/
def ofOffsetFrom (start : Nat) (position : Position) (offset : Nat) : List Char → Position
  | [] => position
  | c :: rest =>
      if offset ≤ start then position
      else ofOffsetFrom (start + c.utf8Size) (position.next c) offset rest

def ofOffset (text : List Char) (offset : Nat) : Position :=
  ofOffsetFrom 0 first offset text

end Position

/-- The lines of a text, without their line breaks. -/
def splitLines : List Char → List (List Char)
  | [] => [[]]
  | c :: rest =>
      if c = '\n' then [] :: splitLines rest
      else
        match splitLines rest with
        | [] => [[c]]
        | line :: lines => (c :: line) :: lines

/-- Drops the carriage returns at the end of a line. -/
def stripReturns (line : List Char) : List Char :=
  (line.reverse.dropWhile (· == '\r')).reverse

/-- The text of a line as it is shown. -/
def lineText? (text : List Char) (line : Nat) : Option (List Char) :=
  (splitLines text)[line - 1]?.map stripReturns

end Procedural
