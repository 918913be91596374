import Procedural.Text.Utf8
import Procedural.Token.Scan

/-!
# The tokens of a text

Tokens are scanned from left to right with white space between them.  The first
fault ends a round of scanning; the cursor it leaves behind is where a further
round would go on.
-/

namespace Procedural

/-- A lexical fault at a byte offset. -/
structure LexicalError where
  why : LexicalFault
  offset : Nat
  deriving DecidableEq, Repr

/-- A place in a text: what follows it, and its byte offset. -/
structure Cursor where
  rest : List Char
  offset : Nat
  deriving Repr

namespace Cursor

def ofString (text : String) : Cursor :=
  ⟨text.toList, 0⟩

/-- Takes some characters that were scanned, and continues with the rest. -/
def advance (cursor : Cursor) (taken rest : List Char) : Cursor :=
  ⟨rest, cursor.offset + byteLength taken⟩

def skipBlanks (cursor : Cursor) : Cursor :=
  cursor.advance (cursor.rest.takeWhile Scan.isBlank) (cursor.rest.dropWhile Scan.isBlank)

/-- Scans tokens up to the end of the text or the first fault.  The budget bounds the number of
characters that are left, so a budget of zero means that none is left. -/
def tokensWithin : Nat → Cursor → Except LexicalError (List Token) × Cursor
  | 0, cursor => (.ok [], cursor)
  | budget + 1, cursor =>
      let start := cursor.skipBlanks
      match start.rest with
      | [] => (.ok [], start)
      | c :: cs =>
          match Scan.first c cs with
          | .fault why taken rest =>
              let stop := start.advance taken rest
              let offset := if why.concernsStart then start.offset else stop.offset
              (.error ⟨why, offset⟩, stop)
          | .token kind lexeme rest =>
              match tokensWithin budget (start.advance lexeme rest) with
              | (.ok tokens, stop) =>
                  (.ok (⟨kind, String.ofList lexeme, start.offset⟩ :: tokens), stop)
              | (.error error, stop) => (.error error, stop)

def tokens (cursor : Cursor) : Except LexicalError (List Token) × Cursor :=
  cursor.tokensWithin cursor.rest.length

/-- Further rounds of scanning, each from where the one before stopped. -/
def rounds : Nat → Cursor → List (Except LexicalError (List Token))
  | 0, _ => []
  | count + 1, cursor =>
      let (outcome, stop) := cursor.tokens
      outcome :: rounds count stop

end Cursor

/-- The tokens of a text, or its first lexical fault. -/
def tokenize (text : String) : Except LexicalError (List Token) :=
  (Cursor.ofString text).tokens.1

end Procedural
