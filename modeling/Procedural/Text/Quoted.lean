/-!
# Quoted text

Character and string literals write a few characters as a backslash and one more
character.  `encode` writes both kinds of quote with a backslash, so one text has
one encoding whichever quote surrounds it; `decode` reads every encoding back and
takes any other character after a backslash as itself.
-/

namespace Procedural.Quoted

/-- The characters that may follow a backslash. -/
def isEscape (c : Char) : Bool :=
  c == 'b' || c == 'n' || c == 'r' || c == 't' || c == '\'' || c == '"' || c == '\\'

def encodeChar : Char → List Char
  | '\x08' => ['\\', 'b']
  | '\n' => ['\\', 'n']
  | '\r' => ['\\', 'r']
  | '\t' => ['\\', 't']
  | '\\' => ['\\', '\\']
  | '\'' => ['\\', '\'']
  | '"' => ['\\', '"']
  | c => [c]

def encode (cs : List Char) : List Char :=
  cs.flatMap encodeChar

def quote (delimiter : Char) (cs : List Char) : List Char :=
  delimiter :: encode cs ++ [delimiter]

/-- The character that a backslash and one more character stand for. -/
def escaped : Char → Char
  | 'b' => '\x08'
  | 'n' => '\n'
  | 'r' => '\r'
  | 't' => '\t'
  | c => c

/-- Replaces each backslash and the character after it; a backslash at the end stays. -/
def decode : List Char → List Char
  | [] => []
  | '\\' :: c :: rest => escaped c :: decode rest
  | c :: rest => c :: decode rest

/-- Drops the first and the last character. -/
def unquote (cs : List Char) : List Char :=
  cs.tail.dropLast

end Procedural.Quoted
