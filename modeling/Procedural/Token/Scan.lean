import Procedural.Text.Quoted
import Procedural.Token.Basic

/-!
# Scanning one token

The first character decides the class of a token, except that a minus sign starts
a number when a digit follows it.  Identifiers and numbers take the longest run of
their characters and must then be followed by white space, a semicolon or the end
of the text; other tokens may touch their neighbours.  A scan accounts for all
characters it looked at: what it took and what it left make up the text again.
-/

namespace Procedural

/-- The classes of tokens that need a terminator, as messages name them. -/
inductive WordKind where
  | identifier
  | number
  deriving DecidableEq, Repr

/-- Why no token starts at a place. -/
inductive LexicalFault where
  | unexpectedCharacter (found : Char) (after : WordKind)
  | leadingZero
  | missingFraction
  | emptyCharacter
  | invalidCharacter
  | unterminatedCharacter
  | unterminatedString
  | lineBreak
  | invalidEscape
  deriving DecidableEq, Repr

/-- The fault concerns the token as a whole and not the place where scanning stopped. -/
def LexicalFault.concernsStart : LexicalFault → Bool
  | .emptyCharacter | .unterminatedCharacter | .unterminatedString => true
  | _ => false

/-- The word for a class of tokens that needs a terminator. -/
def WordKind.name : WordKind → String
  | .identifier => "identifier"
  | .number => "number"

def LexicalFault.message : LexicalFault → String
  | .unexpectedCharacter found after => s!"unexpected character '{found}' after {after.name}"
  | .leadingZero => "number has a leading zero"
  | .missingFraction => "expected a digit after the decimal point"
  | .emptyCharacter => "empty character literal"
  | .invalidCharacter => "character literal holds more than one character"
  | .unterminatedCharacter => "unterminated character literal"
  | .unterminatedString => "unterminated string literal"
  | .lineBreak => "line break inside literal"
  | .invalidEscape => "invalid escape sequence"

/-- What the start of a text yields: a token or a fault, with the characters taken and left. -/
inductive Scan where
  | token (kind : TokenKind) (lexeme rest : List Char)
  | fault (why : LexicalFault) (taken rest : List Char)
  deriving Repr

namespace Scan

/-- The same scan after some characters that were taken before it. -/
def after (before : List Char) : Scan → Scan
  | token kind lexeme rest => token kind (before ++ lexeme) rest
  | fault why taken rest => fault why (before ++ taken) rest

/-- White space between tokens. -/
def isBlank (c : Char) : Bool :=
  c == ' ' || c == '\x08' || c == '\n' || c == '\r' || c == '\t'

/-- Characters that end a line, which no literal contains. -/
def isLineBreak (c : Char) : Bool :=
  c == '\n' || c == '\r'

/-- Characters that may follow an identifier or a number. -/
def isTerminator (c : Char) : Bool :=
  isBlank c || c == ';'

def startsIdentifier (c : Char) : Bool :=
  c.isAlpha || c == '@'

def continuesIdentifier (c : Char) : Bool :=
  c.isAlphanum || c == '_' || c == '-'

/-- A complete identifier or number, if a terminator follows. -/
def word (kind : TokenKind) (wordKind : WordKind) (lexeme : List Char) : List Char → Scan
  | [] => token kind lexeme []
  | c :: rest =>
      if isTerminator c then token kind lexeme (c :: rest)
      else fault (.unexpectedCharacter c wordKind) lexeme (c :: rest)

def identifier (first : Char) (cs : List Char) : Scan :=
  word .identifier .identifier (first :: cs.takeWhile continuesIdentifier)
    (cs.dropWhile continuesIdentifier)

def fraction (whole cs : List Char) : Scan :=
  let digits := cs.takeWhile Char.isDigit
  if digits.isEmpty then fault .missingFraction (whole ++ ['.']) cs
  else word .decimal .number (whole ++ '.' :: digits) (cs.dropWhile Char.isDigit)

/-- Digits follow a zero. -/
def hasLeadingZero : List Char → Bool
  | '0' :: c :: _ => c.isDigit
  | _ => false

/-- A number that starts with a digit. -/
def number (cs : List Char) : Scan :=
  if hasLeadingZero cs then fault .leadingZero [] cs
  else
    let whole := cs.takeWhile Char.isDigit
    match cs.dropWhile Char.isDigit with
    | '.' :: rest => fraction whole rest
    | rest => word .integer .number whole rest

/-- The end of a character literal whose content was taken. -/
def closeCharacter (taken : List Char) : List Char → Scan
  | [] => fault .unterminatedCharacter taken []
  | c :: rest =>
      if c = '\'' then token .character (taken ++ ['\'']) rest
      else fault .invalidCharacter taken (c :: rest)

def character : List Char → Scan
  | [] => fault .unterminatedCharacter [] []
  | '\\' :: c :: rest =>
      if Quoted.isEscape c then closeCharacter ['\\', c] rest
      else fault .invalidEscape ['\\'] (c :: rest)
  | '\\' :: [] => fault .invalidEscape ['\\'] []
  | c :: rest =>
      if c = '\'' then fault .emptyCharacter [] (c :: rest)
      else if isLineBreak c then fault .lineBreak [] (c :: rest)
      else closeCharacter [c] rest

def string : List Char → Scan
  | [] => fault .unterminatedString [] []
  | '\\' :: c :: rest =>
      if Quoted.isEscape c then (string rest).after ['\\', c]
      else fault .invalidEscape ['\\'] (c :: rest)
  | '\\' :: [] => fault .invalidEscape ['\\'] []
  | c :: rest =>
      if c = '"' then token .string ['"'] rest
      else if isLineBreak c then fault .lineBreak [] (c :: rest)
      else (string rest).after [c]

/-- Operators that are written with two characters. -/
def isPair (first second : Char) : Bool :=
  match first, second with
  | '<', '=' | '>', '=' | '=', '=' | '!', '=' | '&', '&' | '|', '|' => true
  | _, _ => false

/-- An operator: two characters where they form a pair, else one. -/
def operator (first : Char) : List Char → Scan
  | second :: rest =>
      if isPair first second then token .operator [first, second] rest
      else token .operator [first] (second :: rest)
  | [] => token .operator [first] []

def startsWithDigit : List Char → Bool
  | c :: _ => c.isDigit
  | [] => false

/-- Scans the token that a character which is not white space starts. -/
def first (c : Char) (cs : List Char) : Scan :=
  if startsIdentifier c then identifier c cs
  else if c.isDigit then number (c :: cs)
  else if c = '-' ∧ startsWithDigit cs then (number cs).after ['-']
  else if c = '\'' then (character cs).after ['\'']
  else if c = '"' then (string cs).after ['"']
  else operator c cs

end Scan

end Procedural
