import Procedural.Execution.Fault
import Procedural.Reader.Program
import Procedural.Token.Stream
import Procedural.Typing.Basic

/-!
# Problems

A problem is the error of any pass over a program, with its wording and the place
that it concerns.
-/

namespace Procedural

/-- The error of one of the passes. -/
inductive Problem where
  | lexical (error : LexicalError)
  | reading (error : ReadingError)
  | typing (error : TypingError)
  | runtime (error : RuntimeError)
  deriving DecidableEq, Repr

namespace Problem

/-- The word for the pass that found the problem. -/
def kind : Problem → String
  | lexical _ => "lex"
  | reading _ => "parse"
  | typing _ => "analysis"
  | runtime _ => "runtime"

def message : Problem → String
  | lexical error => error.why.message
  | reading error => error.message
  | typing error => error.fault.message
  | runtime error => error.fault.message

def offset : Problem → Option Nat
  | lexical error => some error.offset
  | reading error => some error.offset
  | typing error => error.offset
  | runtime error => error.offset

end Problem

end Procedural
