import Procedural.Reader.Expr
import Procedural.Syntax.Program

/-!
# Reading statements

A statement is recognised by its first word; any other beginning starts an
expression, which may be the receiver of an assignment.  A block ends before a
closing word or at the end of input, and what follows it decides whether that
end was right.
-/

namespace Procedural.Reader

/-- The words that end an ordinary block. -/
def blockClosers : List String := ["END", "ELSE"]

/-- The words that end the body of a case. -/
def caseClosers : List String := ["END", "ELSE", "CASE", "DEFAULT"]

/-- Reads statements up to a closing word. -/
def block (statement : Reader Stmt) (closers : List String) : Nat → Reader (List Stmt)
  | 0 => pure []
  | budget + 1 => fun tokens =>
      match tokens with
      | [] => .ok [] []
      | token :: rest =>
          if closers.contains token.literal then .ok [] (token :: rest)
          else
            (do
              let stmt ← statement
              let stmts ← block statement closers budget
              pure (stmt :: stmts) : Reader (List Stmt)) (token :: rest)

def declaration (expression : Reader Expr) : Reader Stmt := do
  let name ← identifier "after 'LET'"
  let typeName ← introduced ":" (identifier s!"as type of '{name}'")
  let value ← introduced "=" expression
  if typeName.isNone && value.isNone then
    missing (.typeOrValue name)
  else
    let _ ← symbol ";" "after declaration"
    pure (.declaration name typeName value)

def cases (expression : Reader Expr) (body : Reader (List Stmt)) : Nat → Reader (List Case)
  | 0 => pure []
  | budget + 1 => do
      if ← accept "CASE" then
        let value ← expression
        let _ ← symbol ":" "after case value"
        let stmts ← body
        let rest ← cases expression body budget
        pure (.mk (some value) stmts :: rest)
      else
        pure []

def switch (expression : Reader Expr) (body : Reader (List Stmt)) (budget : Nat) :
    Reader Stmt := do
  let condition ← expression
  let valued ← cases expression body budget
  let _ ← symbol "DEFAULT" "in switch"
  let stmts ← body
  let _ ← symbol "END" "after switch"
  pure (.switch condition (valued ++ [.mk none stmts]))

def branch (expression : Reader Expr) (body : Reader (List Stmt)) : Reader Stmt := do
  let condition ← expression
  let _ ← symbol "DO" "after if condition"
  let thenBlock ← body
  let elseBlock ← introduced "ELSE" body
  let _ ← symbol "END" "after if statement"
  pure (.branch condition thenBlock (elseBlock.getD []))

def loop (expression : Reader Expr) (body : Reader (List Stmt)) : Reader Stmt := do
  let condition ← expression
  let _ ← symbol "DO" "after while condition"
  let stmts ← body
  let _ ← symbol "END" "after while body"
  pure (.loop condition stmts)

def result (expression : Reader Expr) : Reader Stmt := do
  let value ← expression
  let _ ← symbol ";" "after return value"
  pure (.result value)

/-- Reads an assignment or an expression that stands as a statement. -/
def simple (expression : Reader Expr) : Reader Stmt := do
  let first ← expression
  match ← introduced "=" expression with
  | some value =>
      let _ ← symbol ";" "after assignment"
      pure (.assignment first value)
  | none =>
      let _ ← symbol ";" "after expression"
      pure (.expression first)

def statement : Nat → Reader Stmt
  | 0 => missing .expression
  | budget + 1 => do
      let nested := expression budget
      let body := block (statement budget) blockClosers budget
      if ← accept "LET" then declaration nested
      else if ← accept "SWITCH" then
        switch nested (block (statement budget) caseClosers budget) budget
      else if ← accept "IF" then branch nested body
      else if ← accept "WHILE" then loop nested body
      else if ← accept "RETURN" then result nested
      else simple (expression (budget + 1))

end Procedural.Reader
