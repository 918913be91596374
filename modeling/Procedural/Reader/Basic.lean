import Procedural.Token.Basic

/-!
# Readers

A reader consumes tokens from the front of a list.  Its outcome names the tokens
it left, also when it fails, and a failure always concerns the first of them.  A
reader never looks further than that token.
-/

namespace Procedural

/-- What should have stood at a place. -/
inductive Expectation where
  | definition
  | symbol (literal context : String)
  | identifier (context : String)
  | typeOrValue (name : String)
  | expression
  deriving DecidableEq, Repr

def Expectation.describe : Expectation → String
  | .definition => "'FUN', 'VAR', 'VAL' or 'LIST'"
  | .symbol literal context => s!"'{literal}' {context}"
  | .identifier context => s!"identifier {context}"
  | .typeOrValue name => s!"':' or '=' in declaration of '{name}'"
  | .expression => "expression"

/-- Why a reader cannot go on. -/
inductive Obstacle where
  | expected (what : Expectation)
  | invalidLiteral (token : Token)
  deriving DecidableEq, Repr

/-- What a reader comes to, with the tokens it leaves. -/
inductive Outcome (α : Type) where
  | ok (value : α) (rest : List Token)
  | fail (why : Obstacle) (rest : List Token)

/-- A function that consumes tokens. -/
def Reader (α : Type) : Type :=
  List Token → Outcome α

namespace Reader

protected def pure (value : α) : Reader α :=
  fun tokens => .ok value tokens

protected def bind (reader : Reader α) (next : α → Reader β) : Reader β :=
  fun tokens =>
    match reader tokens with
    | .ok value rest => next value rest
    | .fail why rest => .fail why rest

instance : Monad Reader where
  pure := Reader.pure
  bind := Reader.bind

def fail (why : Obstacle) : Reader α :=
  fun tokens => .fail why tokens

/-- Fails for want of something at the current token. -/
def missing (what : Expectation) : Reader α :=
  fail (.expected what)

/-- The current token has the given characters. -/
def sees (literal : String) : Reader Bool :=
  fun tokens =>
    match tokens with
    | [] => .ok false []
    | token :: rest => .ok (token.literal == literal) (token :: rest)

/-- Consumes the current token if it has the given characters. -/
def accept (literal : String) : Reader Bool :=
  fun tokens =>
    match tokens with
    | [] => .ok false []
    | token :: rest =>
        if token.literal = literal then .ok true rest else .ok false (token :: rest)

/-- Consumes a token with the given characters. -/
def symbol (literal context : String) : Reader Token :=
  fun tokens =>
    match tokens with
    | [] => .fail (.expected (.symbol literal context)) []
    | token :: rest =>
        if token.literal = literal then .ok token rest
        else .fail (.expected (.symbol literal context)) (token :: rest)

def identifier (context : String) : Reader String :=
  fun tokens =>
    match tokens with
    | [] => .fail (.expected (.identifier context)) []
    | token :: rest =>
        if token.kind = .identifier then .ok token.literal rest
        else .fail (.expected (.identifier context)) (token :: rest)

/-- Reads an item that an introducing symbol announces. -/
def introduced (literal : String) (item : Reader α) : Reader (Option α) := do
  if ← accept literal then
    let value ← item
    pure (some value)
  else
    pure none

/-- Reads further items, each after a comma.  The budget bounds the number of tokens left. -/
def furtherItems (item : Reader α) : Nat → Reader (List α)
  | 0 => pure []
  | budget + 1 => do
      if ← accept "," then
        let value ← item
        let values ← furtherItems item budget
        pure (value :: values)
      else
        pure []

/-- Reads one or more items with commas between them. -/
def items (item : Reader α) (budget : Nat) : Reader (List α) := do
  let value ← item
  let values ← furtherItems item budget
  pure (value :: values)

/-- Reads items with commas between them, or none if the closing symbol follows. -/
def itemsUnless (closing : String) (item : Reader α) (budget : Nat) : Reader (List α) := do
  if ← sees closing then pure [] else items item budget

end Reader

end Procedural
