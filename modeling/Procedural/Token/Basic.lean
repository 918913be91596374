/-!
# Tokens

A token is a class, the exact characters it was written with, and the byte offset
at which it starts.  Literals keep their quotes, so a keyword or an operator is
recognised by its characters alone.
-/

namespace Procedural

inductive TokenKind where
  | identifier
  | integer
  | decimal
  | character
  | string
  | operator
  deriving DecidableEq, Repr, Inhabited

/-- The word for a class in listings and messages. -/
def TokenKind.name : TokenKind → String
  | .identifier => "identifier"
  | .integer => "integer"
  | .decimal => "decimal"
  | .character => "character"
  | .string => "string"
  | .operator => "operator"

/-- One token of a program. -/
structure Token where
  kind : TokenKind
  literal : String
  offset : Nat
  deriving DecidableEq, Repr, Inhabited

namespace Token

/-- The offset of the first byte after the token. -/
def stop (token : Token) : Nat :=
  token.offset + token.literal.utf8ByteSize

/-- A token as listings and messages show it. -/
def describe (token : Token) : String :=
  s!"{token.kind.name} '{token.literal}'"

end Token

end Procedural
