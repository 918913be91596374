import Procedural.Reader.Program

/-!
# Recursive descent without budgets

The readers of programs carry budgets, so that they come to an end by definition.  Here the
same readers are written without them: loops and calls go on for as long as the tokens make
them.  What such a reader comes to is found by running it to some depth of calls, where every
round of a loop counts as a call.  A run that reaches this depth has no outcome, so a reader
that goes on for ever has none at any depth.
-/

namespace Procedural

/-- A reader that may not come to an end.  Like other readers it leaves tokens also when it
fails. -/
abbrev Descent (α : Type) : Type :=
  ExceptT Obstacle (StateT (List Token) Option) α

/-- What a descent comes to if it has an outcome. -/
def Outcome.ends {α : Type} : Outcome α → Except Obstacle α × List Token
  | ok value rest => (.ok value, rest)
  | fail why rest => (.error why, rest)

namespace Descent

variable {α : Type}

def read (descent : Descent α) (tokens : List Token) : Option (Except Obstacle α × List Token) :=
  descent.run.run tokens

/-- A call that is too deep. -/
def pending : Descent α := ExceptT.mk fun _ => none

/-- A reader that looks at one token at most. -/
def single (reader : Reader α) : Descent α :=
  ExceptT.mk fun tokens => some (reader tokens).ends

def fail (why : Obstacle) : Descent α := single (.fail why)

def missing (what : Expectation) : Descent α := single (.missing what)

/-- The current token, unless all tokens are consumed. -/
def peek : Descent (Option Token) := single fun tokens => .ok tokens.head? tokens

/-- Consumes the current token. -/
def advance : Descent Unit := single fun tokens => .ok () tokens.tail

/-- The offset of the current token, if there is one. -/
def here : Descent Nat :=
  single fun tokens => .ok ((tokens.head?.map Token.offset).getD 0) tokens

def sees (literal : String) : Descent Bool := single (.sees literal)

def accept (literal : String) : Descent Bool := single (.accept literal)

def symbol (literal context : String) : Descent Token := single (.symbol literal context)

def identifier (context : String) : Descent String := single (.identifier context)

def operator (level : Level) : Descent (Option BinaryOp) := single (.operator level)

/-- Reads an item that an introducing symbol announces. -/
def introduced (literal : String) (item : Descent α) : Descent (Option α) := do
  if ← accept literal then
    let value ← item
    pure (some value)
  else
    pure none

mutual

def expression : Nat → Descent Expr
  | 0 => pending
  | depth + 1 => operands depth .logical

def operands : Nat → Level → Descent Expr
  | 0, _ => pending
  | depth + 1, level => do
      let left ← operand depth level
      furtherOperands depth level left

def furtherOperands : Nat → Level → Expr → Descent Expr
  | 0, _, _ => pending
  | depth + 1, level, left => do
      match ← operator level with
      | none => pure left
      | some op =>
          let right ← operand depth level
          furtherOperands depth level (.binary (.at left.offset) op left right)

/-- Reads an operand of the operators of a level. -/
def operand : Nat → Level → Descent Expr
  | 0, _ => pending
  | depth + 1, .logical => operands depth .comparison
  | depth + 1, .comparison => operands depth .additive
  | depth + 1, .additive => operands depth .multiplicative
  | depth + 1, .multiplicative => primary depth

def primary : Nat → Descent Expr
  | 0 => pending
  | depth + 1 => do
      match ← peek with
      | none => missing .expression
      | some token =>
          if token.isLiteral then
            match token.scalar? with
            | some value =>
                advance
                pure (.literal (.at token.offset) value)
            | none => fail (.invalidLiteral token)
          else if ← accept "(" then
            let inner ← expression depth
            let _ ← symbol ")" "to close group"
            pure (.group (.at token.offset) inner)
          else if token.kind = .identifier then
            advance
            afterName depth token.offset token.literal
          else missing .expression

def afterName : Nat → Nat → String → Descent Expr
  | 0, _, _ => pending
  | depth + 1, offset, name => do
      if ← accept "(" then
        let arguments ← arguments depth
        let _ ← symbol ")" s!"after arguments to '{name}'"
        pure (.call (.at offset) name arguments)
      else if ← accept "[" then
        let index ← expression depth
        let _ ← symbol "]" "after index"
        pure (.element (.at offset) name index)
      else
        pure (.access (.at offset) name)

def arguments : Nat → Descent (List Expr)
  | 0 => pending
  | depth + 1 => do
      if ← sees ")" then pure [] else expressions depth

/-- Reads one or more expressions with commas between them. -/
def expressions : Nat → Descent (List Expr)
  | 0 => pending
  | depth + 1 => do
      let first ← expression depth
      let others ← furtherExpressions depth
      pure (first :: others)

def furtherExpressions : Nat → Descent (List Expr)
  | 0 => pending
  | depth + 1 => do
      if ← accept "," then expressions depth else pure []

end

def declaration (depth : Nat) : Descent Stmt := do
  let name ← identifier "after 'LET'"
  let typeName ← introduced ":" (identifier s!"as type of '{name}'")
  let value ← introduced "=" (expression depth)
  if typeName.isNone && value.isNone then
    missing (.typeOrValue name)
  else
    let _ ← symbol ";" "after declaration"
    pure (.declaration name typeName value)

def result (depth : Nat) : Descent Stmt := do
  let value ← expression depth
  let _ ← symbol ";" "after return value"
  pure (.result value)

def simple (depth : Nat) : Descent Stmt := do
  let first ← expression depth
  if ← accept "=" then
    let value ← expression depth
    let _ ← symbol ";" "after assignment"
    pure (.assignment first value)
  else
    let _ ← symbol ";" "after expression"
    pure (.expression first)

mutual

def statement : Nat → Descent Stmt
  | 0 => pending
  | depth + 1 => do
      if ← accept "LET" then declaration depth
      else if ← accept "SWITCH" then switch depth
      else if ← accept "IF" then branch depth
      else if ← accept "WHILE" then loop depth
      else if ← accept "RETURN" then result depth
      else simple depth

/-- Reads statements up to a closing word or the end of input. -/
def block (closers : List String) : Nat → Descent (List Stmt)
  | 0 => pending
  | depth + 1 => do
      match ← peek with
      | none => pure []
      | some token =>
          if closers.contains token.literal then pure []
          else
            let stmt ← statement depth
            let stmts ← block closers depth
            pure (stmt :: stmts)

def switch : Nat → Descent Stmt
  | 0 => pending
  | depth + 1 => do
      let condition ← expression depth
      let valued ← cases depth
      let _ ← symbol "DEFAULT" "in switch"
      let stmts ← block Reader.caseClosers depth
      let _ ← symbol "END" "after switch"
      pure (.switch condition (valued ++ [.mk none stmts]))

def cases : Nat → Descent (List Case)
  | 0 => pending
  | depth + 1 => do
      if ← accept "CASE" then
        let value ← expression depth
        let _ ← symbol ":" "after case value"
        let stmts ← block Reader.caseClosers depth
        let rest ← cases depth
        pure (.mk (some value) stmts :: rest)
      else
        pure []

def branch : Nat → Descent Stmt
  | 0 => pending
  | depth + 1 => do
      let condition ← expression depth
      let _ ← symbol "DO" "after if condition"
      let thenBlock ← block Reader.blockClosers depth
      let elseBlock ← introduced "ELSE" (block Reader.blockClosers depth)
      let _ ← symbol "END" "after if statement"
      pure (.branch condition thenBlock (elseBlock.getD []))

def loop : Nat → Descent Stmt
  | 0 => pending
  | depth + 1 => do
      let condition ← expression depth
      let _ ← symbol "DO" "after while condition"
      let stmts ← block Reader.blockClosers depth
      let _ ← symbol "END" "after while body"
      pure (.loop condition stmts)

end

def typedName (context : String) : Descent (String × String) := do
  let name ← identifier context
  let _ ← symbol ":" s!"before type of '{name}'"
  let typeName ← identifier s!"as type of '{name}'"
  pure (name, typeName)

/-- Reads a list variable after its keyword. -/
def listGlobal (depth offset : Nat) : Descent Global := do
  let (name, typeName) ← typedName "in list declaration"
  let _ ← symbol "=" "after list name"
  let bracket ← symbol "[" "to open list literal"
  let elements ← expressions depth
  let _ ← symbol "]" "to close list literal"
  pure ⟨name, typeName, true, some (.list (.at bracket.offset) elements), offset, none⟩

def mutableGlobal (depth offset : Nat) : Descent Global := do
  let (name, typeName) ← typedName "in variable declaration"
  let value ← introduced "=" (expression depth)
  pure ⟨name, typeName, true, value, offset, none⟩

def immutableGlobal (depth offset : Nat) : Descent Global := do
  let (name, typeName) ← typedName "in value declaration"
  let _ ← symbol "=" "after immutable value name"
  let value ← expression depth
  pure ⟨name, typeName, false, some value, offset, none⟩

def globalBody (depth offset : Nat) : Descent Global := do
  if ← accept "LIST" then listGlobal depth offset
  else if ← accept "VAR" then mutableGlobal depth offset
  else
    let _ ← symbol "VAL" "at start of global"
    immutableGlobal depth offset

/-- Reads a global variable, whatever stands here. -/
def global (depth : Nat) : Descent Global := do
  let offset ← here
  let global ← globalBody depth offset
  let _ ← symbol ";" "after global declaration"
  pure global

mutual

/-- Reads one or more parameters with commas between them. -/
def parameters : Nat → Descent (List (String × String))
  | 0 => pending
  | depth + 1 => do
      let first ← typedName "in parameter list"
      let others ← furtherParameters depth
      pure (first :: others)

def furtherParameters : Nat → Descent (List (String × String))
  | 0 => pending
  | depth + 1 => do
      if ← accept "," then parameters depth else pure []

end

def anyParameters (depth : Nat) : Descent (List (String × String)) := do
  if ← sees ")" then pure [] else parameters depth

/-- Reads a function, whatever stands here. -/
def function (depth : Nat) : Descent Function := do
  let offset ← here
  let _ ← symbol "FUN" "at start of function"
  let name ← identifier "after 'FUN'"
  let _ ← symbol "(" "after function name"
  let parameters ← anyParameters depth
  let _ ← symbol ")" "after parameters"
  let returnType ← introduced ":" (identifier "as return type")
  let _ ← symbol "DO" "before function body"
  let body ← block Reader.blockClosers depth
  let _ ← symbol "END" "after function body"
  pure ⟨name, parameters.map Prod.fst, parameters.map Prod.snd, returnType, body, offset, none⟩

/-- Reads definitions up to the end of input. -/
def program : Nat → Descent Program
  | 0 => pending
  | depth + 1 => do
      match ← peek with
      | none => pure ⟨[], []⟩
      | some token =>
          if token.literal = "FUN" then
            let first ← function depth
            let others ← program depth
            pure ((Reader.Definition.function first).before others)
          else if ["VAR", "VAL", "LIST"].contains token.literal then
            let first ← global depth
            let others ← program depth
            pure ((Reader.Definition.global first).before others)
          else missing .definition

end Descent

end Procedural
