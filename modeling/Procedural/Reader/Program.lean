import Procedural.Reader.Stmt

/-!
# Reading programs

A program is a sequence of global variables and functions.  A reading error names
what was expected and the token found instead; at the end of input it points behind
the last token.
-/

namespace Procedural

/-- Why tokens are not a program. -/
inductive ReadingError where
  | unexpected (what : Expectation) (found : Token)
  | unexpectedEnd (what : Expectation) (offset : Nat)
  | invalidLiteral (found : Token)
  deriving DecidableEq, Repr

namespace ReadingError

def offset : ReadingError → Nat
  | unexpected _ found => found.offset
  | unexpectedEnd _ offset => offset
  | invalidLiteral found => found.offset

def message : ReadingError → String
  | unexpected what found => s!"expected {what.describe}, found {found.describe}"
  | unexpectedEnd what _ => s!"expected {what.describe}, found end of input"
  | invalidLiteral found => s!"invalid {found.kind.name} literal '{found.literal}'"

end ReadingError

namespace Reader

def typedName (context : String) : Reader (String × String) := do
  let name ← identifier context
  let _ ← symbol ":" s!"before type of '{name}'"
  let typeName ← identifier s!"as type of '{name}'"
  pure (name, typeName)

/-- Reads a list variable after its keyword. -/
def listGlobal (expression : Reader Expr) (budget offset : Nat) : Reader Global := do
  let (name, typeName) ← typedName "in list declaration"
  let _ ← symbol "=" "after list name"
  let bracket ← symbol "[" "to open list literal"
  let elements ← items expression budget
  let _ ← symbol "]" "to close list literal"
  pure ⟨name, typeName, true, some (.list (.at bracket.offset) elements), offset, none⟩

def mutableGlobal (expression : Reader Expr) (offset : Nat) : Reader Global := do
  let (name, typeName) ← typedName "in variable declaration"
  let value ← introduced "=" expression
  pure ⟨name, typeName, true, value, offset, none⟩

def immutableGlobal (expression : Reader Expr) (offset : Nat) : Reader Global := do
  let (name, typeName) ← typedName "in value declaration"
  let _ ← symbol "=" "after immutable value name"
  let value ← expression
  pure ⟨name, typeName, false, some value, offset, none⟩

/-- Reads the rest of a global variable and its semicolon. -/
def finishGlobal (body : Reader Global) : Reader Global := do
  let global ← body
  let _ ← symbol ";" "after global declaration"
  pure global

def function (budget offset : Nat) : Reader Function := do
  let name ← identifier "after 'FUN'"
  let _ ← symbol "(" "after function name"
  let parameters ← itemsUnless ")" (typedName "in parameter list") budget
  let _ ← symbol ")" "after parameters"
  let returnType ← introduced ":" (identifier "as return type")
  let _ ← symbol "DO" "before function body"
  let body ← block (statement budget) blockClosers budget
  let _ ← symbol "END" "after function body"
  pure ⟨name, parameters.map Prod.fst, parameters.map Prod.snd, returnType, body, offset, none⟩

/-- A definition of either kind. -/
inductive Definition where
  | global (item : Global)
  | function (item : Function)

/-- Reads a definition, which its first token announces. -/
def definition (budget : Nat) : Reader Definition :=
  fun tokens =>
    match tokens with
    | [] => .fail (.expected .definition) []
    | token :: rest =>
        let global := fun body : Reader Global => Definition.global <$> finishGlobal body
        if token.literal = "FUN" then
          (Definition.function <$> function budget token.offset) rest
        else if token.literal = "LIST" then
          global (listGlobal (expression budget) budget token.offset) rest
        else if token.literal = "VAR" then
          global (mutableGlobal (expression budget) token.offset) rest
        else if token.literal = "VAL" then
          global (immutableGlobal (expression budget) token.offset) rest
        else .fail (.expected .definition) (token :: rest)

/-- The program with one more definition in front. -/
def Definition.before (program : Program) : Definition → Program
  | global item => { program with globals := item :: program.globals }
  | function item => { program with functions := item :: program.functions }

/-- Reads definitions up to the end of input. -/
def program : Nat → Reader Program
  | 0 => pure ⟨[], []⟩
  | budget + 1 => fun tokens =>
      match tokens with
      | [] => .ok ⟨[], []⟩ []
      | token :: rest =>
          (do
            let first ← definition budget
            let others ← program budget
            pure (first.before others) : Reader Program) (token :: rest)

end Reader

/-- Tokens that are still to be read, and the offset behind the last token of the whole list. -/
structure TokenStream where
  rest : List Token
  stop : Nat

namespace TokenStream

def ofList (tokens : List Token) : TokenStream :=
  ⟨tokens, (tokens.getLast?.map Token.stop).getD 0⟩

/-- The error that a reader's failure amounts to. -/
def error (stream : TokenStream) : Obstacle → List Token → ReadingError
  | .invalidLiteral token, _ => .invalidLiteral token
  | .expected what, [] => .unexpectedEnd what stream.stop
  | .expected what, token :: _ => .unexpected what token

/-- Reads a program from the remaining tokens; what is left is the place of a further attempt. -/
def readProgram (stream : TokenStream) : Except ReadingError Program × TokenStream :=
  match Reader.program stream.rest.length stream.rest with
  | .ok program rest => (.ok program, { stream with rest })
  | .fail why rest => (.error (stream.error why rest), { stream with rest })

/-- Repeated attempts, each from where the one before stopped. -/
def attempts : Nat → TokenStream → List (Except ReadingError Program)
  | 0, _ => []
  | count + 1, stream =>
      let (outcome, stream) := stream.readProgram
      outcome :: attempts count stream

end TokenStream

/-- The program that a list of tokens is. -/
def Program.ofTokens (tokens : List Token) : Except ReadingError Program :=
  (TokenStream.ofList tokens).readProgram.1

end Procedural
