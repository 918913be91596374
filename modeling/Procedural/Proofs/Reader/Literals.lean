import Procedural.Proofs.Reader.FromText
import Procedural.Proofs.Reader.Stumbling
import Procedural.Proofs.Text.QuotedText

/-!
# Literals are never refused

The scanner and the reader of literals are written separately, but they agree: a token of a
number or a character has one value, which its characters spell.  So no reader ever comes
to a literal without a value.
-/

namespace Procedural

open Numeral Scan

/-- The value that the characters of a token spell, for the classes in which this can fail: signed
digits, signed digits with a point among them, and one character between quotes. -/
inductive Scalar.SpelledBy : Scalar → TokenKind → List Char → Prop where
  | integer {sign whole : List Char} : IsSign sign → IsWhole whole →
      SpelledBy (.integer (withSign sign (valueOf whole))) .integer (sign ++ whole)
  | decimal {sign whole fraction : List Char} : IsSign sign → IsWhole whole →
      IsFraction fraction →
      SpelledBy (.decimal ⟨withSign sign (valueOf (whole ++ fraction)), fraction.length⟩) .decimal
        (sign ++ (whole ++ '.' :: fraction))
  | plain {c : Char} : c ≠ '\'' → c ≠ '\\' → isLineBreak c = false →
      SpelledBy (.character c) .character ['\'', c, '\'']
  | escape {c : Char} : Quoted.isEscape c = true →
      SpelledBy (.character (Quoted.escaped c)) .character ['\'', '\\', c, '\'']

/-- A scanned number or character denotes what it spells. -/
theorem Token.IsLexical.spells {token : Token} (lexical : token.IsLexical)
    (kind : token.kind ∈ [TokenKind.integer, .decimal, .character]) :
    ∃ value, Scalar.SpelledBy value token.kind token.literal.toList ∧
      token.scalar? = some value := by
  obtain ⟨itsKind, literal, offset⟩ := token
  unfold Token.IsLexical at lexical
  unfold Token.scalar?
  dsimp only at lexical kind ⊢
  generalize literal.toList = cs at lexical
  cases lexical with
  | integer isSign isWhole =>
      refine ⟨_, .integer isSign isWhole, ?_⟩
      rw [Numeral.integer?_eq isSign isWhole.nonempty isWhole.digits]
      rfl
  | decimal isSign isWhole isFraction =>
      refine ⟨_, .decimal isSign isWhole isFraction, ?_⟩
      rw [Decimal.ofNumeral?_eq isSign isWhole isFraction]
      rfl
  | character isBody =>
      cases isBody with
      | @plain c notQuote notBackslash notBreak =>
          refine ⟨_, .plain notQuote notBackslash notBreak, ?_⟩
          have decoded : Quoted.decode (Quoted.unquote ['\'', c, '\'']) = [c] :=
            Quoted.decode_cons notBackslash []
          rw [List.singleton_append, decoded]
          rfl
      | escape isEscape => exact ⟨_, .escape isEscape, rfl⟩
  | _ => simp at kind

/-- Whatever is read as a literal denotes something. -/
def AllDenote (tokens : List Token) : Prop :=
  ∀ token ∈ tokens, token.isLiteral = true → ∃ value, token.scalar? = some value

theorem AllDenote.later {token : Token} {rest : List Token} (denote : AllDenote (token :: rest)) :
    AllDenote rest :=
  (List.forall_mem_cons.mp denote).2

variable {α β : Type}

/-- The outcome leaves tokens that denote something, or expects something else than the next token;
in no case it is about a literal. -/
def Outcome.Literate : Outcome α → Prop
  | .ok _ rest => AllDenote rest
  | .fail why _ => ∃ what, why = .expected what

namespace Reader

/-- The reader does not stumble over literals that denote something. -/
def Literate (reader : Reader α) : Prop :=
  ∀ tokens, AllDenote tokens → (reader tokens).Literate

namespace Literate

protected theorem pure (value : α) : Literate (pure value) :=
  fun _ denote => denote

protected theorem bind {reader : Reader α} {next : α → Reader β} (first : Literate reader)
    (later : ∀ value, Literate (next value)) : Literate (reader >>= next) := by
  intro tokens denote
  have here := first tokens denote
  cases read : reader tokens with
  | ok value rest =>
      rw [read] at here
      rw [bind_of_ok read]
      exact later value rest here
  | fail why rest =>
      rw [read] at here
      rw [bind_of_fail read]
      exact here

theorem map (change : α → β) {reader : Reader α} (literate : Literate reader) :
    Literate (change <$> reader) :=
  literate.bind fun value => .pure (change value)

theorem missing (what : Expectation) : Literate (missing what : Reader α) :=
  fun _ _ => ⟨what, rfl⟩

theorem symbol (literal context : String) : Literate (symbol literal context) := by
  intro tokens denote
  unfold Reader.symbol
  split
  · exact ⟨_, rfl⟩
  · split
    · exact denote.later
    · exact ⟨_, rfl⟩

theorem identifier (context : String) : Literate (identifier context) := by
  intro tokens denote
  unfold Reader.identifier
  split
  · exact ⟨_, rfl⟩
  · split
    · exact denote.later
    · exact ⟨_, rfl⟩

theorem accept (literal : String) : Literate (accept literal) := by
  intro tokens denote
  unfold Reader.accept
  split
  · exact denote
  · split
    · exact denote.later
    · exact denote

theorem sees (literal : String) : Literate (sees literal) := by
  intro tokens denote
  unfold Reader.sees
  split <;> exact denote

theorem operator (level : Level) : Literate (operator level) := by
  intro tokens denote
  unfold Reader.operator
  split
  · exact denote
  · split
    · exact denote.later
    · exact denote

/-- A choice by whether a symbol stands here. -/
theorem ifAccept (literal : String) {yes no : Reader α} (ifSo : Literate yes)
    (ifNot : Literate no) : Literate (do if ← Reader.accept literal then yes else no) := by
  apply (accept literal).bind
  intro accepted
  cases accepted with
  | true => exact ifSo
  | false => exact ifNot

theorem introduced (literal : String) {item : Reader α} (literate : Literate item) :
    Literate (introduced literal item) :=
  ifAccept literal (literate.bind fun _ => .pure _) (.pure none)

theorem furtherItems {item : Reader α} (literate : Literate item) (budget : Nat) :
    Literate (furtherItems item budget) := by
  induction budget with
  | zero => exact .pure _
  | succ budget induction =>
      apply ifAccept ","
      · exact literate.bind fun _ => induction.bind fun _ => .pure _
      · exact .pure _

theorem items {item : Reader α} (literate : Literate item) (budget : Nat) :
    Literate (items item budget) :=
  literate.bind fun _ => (literate.furtherItems budget).bind fun _ => .pure _

theorem itemsUnless (closing : String) {item : Reader α} (literate : Literate item)
    (budget : Nat) : Literate (itemsUnless closing item budget) := by
  apply (sees closing).bind
  intro seen
  cases seen with
  | true => exact .pure _
  | false => exact literate.items budget

section Expressions

theorem furtherOperands (level : Level) {operand : Reader Expr} (literate : Literate operand)
    (budget : Nat) : ∀ left, Literate (furtherOperands level operand budget left) := by
  induction budget with
  | zero => exact .pure
  | succ budget induction =>
      intro left
      apply (operator level).bind
      intro found
      cases found with
      | none => exact .pure left
      | some op => exact literate.bind fun _ => induction _

theorem operands (level : Level) {operand : Reader Expr} (literate : Literate operand)
    (budget : Nat) : Literate (operands level operand budget) :=
  literate.bind (literate.furtherOperands level budget)

theorem afterName {expression : Reader Expr} (literate : Literate expression)
    (budget offset : Nat) (name : String) : Literate (afterName expression budget offset name) := by
  apply ifAccept "("
  · apply (literate.itemsUnless ")" budget).bind
    exact fun _ => (symbol _ _).bind fun _ => .pure _
  · apply (literate.introduced "[").bind
    intro index
    cases index with
    | none => exact .pure _
    | some index => exact (symbol _ _).bind fun _ => .pure _

theorem closeGroup {expression : Reader Expr} (literate : Literate expression) (offset : Nat) :
    Literate (closeGroup expression offset) :=
  literate.bind fun _ => (symbol _ _).bind fun _ => .pure _

/-- This is the only reader that could fail over a literal. -/
theorem primary {expression : Reader Expr} (literate : Literate expression) (budget : Nat) :
    Literate (primary expression budget) := by
  intro tokens denote
  unfold Reader.primary
  split
  · exact ⟨_, rfl⟩
  next token later =>
    split
    next isLiteral =>
      obtain ⟨value, found⟩ := denote token List.mem_cons_self isLiteral
      rw [found]
      exact denote.later
    · split
      · exact literate.closeGroup _ _ denote.later
      · split
        · exact literate.afterName _ _ _ _ denote.later
        · exact ⟨_, rfl⟩

theorem expression (budget : Nat) : Literate (expression budget) := by
  induction budget with
  | zero => exact missing _
  | succ budget induction =>
      have innermost := induction.primary (budget + 1)
      have products := innermost.operands .multiplicative (budget + 1)
      have sums := products.operands .additive (budget + 1)
      have comparisons := sums.operands .comparison (budget + 1)
      exact comparisons.operands .logical (budget + 1)

end Expressions

section Statements

theorem block {statement : Reader Stmt} (literate : Literate statement) (closers : List String)
    (budget : Nat) : Literate (block statement closers budget) := by
  induction budget with
  | zero => exact .pure _
  | succ budget induction =>
      intro tokens denote
      unfold Reader.block
      split
      · exact denote
      · split
        · exact denote
        · exact (literate.bind fun _ => induction.bind fun _ => .pure _) _ denote

variable {expression : Reader Expr} {body : Reader (List Stmt)}

theorem declaration (literate : Literate expression) : Literate (declaration expression) := by
  apply (identifier _).bind
  intro name
  apply ((identifier _).introduced ":").bind
  intro typeName
  apply (literate.introduced "=").bind
  intro value
  split
  · exact missing _
  · exact (symbol _ _).bind fun _ => .pure _

theorem cases (literate : Literate expression) (bodies : Literate body) (budget : Nat) :
    Literate (cases expression body budget) := by
  induction budget with
  | zero => exact .pure _
  | succ budget induction =>
      apply ifAccept "CASE"
      · apply literate.bind
        intro value
        apply (symbol _ _).bind
        intro _
        exact bodies.bind fun _ => induction.bind fun _ => .pure _
      · exact .pure _

theorem switch (literate : Literate expression) (bodies : Literate body) (budget : Nat) :
    Literate (switch expression body budget) := by
  apply literate.bind
  intro condition
  apply (literate.cases bodies budget).bind
  intro valued
  apply (symbol _ _).bind
  intro _
  exact bodies.bind fun _ => (symbol _ _).bind fun _ => .pure _

theorem branch (literate : Literate expression) (bodies : Literate body) :
    Literate (branch expression body) := by
  apply literate.bind
  intro condition
  apply (symbol _ _).bind
  intro _
  apply bodies.bind
  intro thenBlock
  exact (bodies.introduced "ELSE").bind fun _ => (symbol _ _).bind fun _ => .pure _

theorem loop (literate : Literate expression) (bodies : Literate body) :
    Literate (loop expression body) := by
  apply literate.bind
  intro condition
  apply (symbol _ _).bind
  intro _
  exact bodies.bind fun _ => (symbol _ _).bind fun _ => .pure _

theorem result (literate : Literate expression) : Literate (result expression) :=
  literate.bind fun _ => (symbol _ _).bind fun _ => .pure _

theorem simple (literate : Literate expression) : Literate (simple expression) := by
  apply literate.bind
  intro first
  apply (literate.introduced "=").bind
  intro value
  cases value with
  | none => exact (symbol _ _).bind fun _ => .pure _
  | some value => exact (symbol _ _).bind fun _ => .pure _

theorem statement (budget : Nat) : Literate (statement budget) := by
  induction budget with
  | zero => exact missing _
  | succ budget induction =>
      have nested := Literate.expression budget
      have body := induction.block blockClosers budget
      apply ifAccept "LET" nested.declaration
      apply ifAccept "SWITCH" (nested.switch (induction.block caseClosers budget) budget)
      apply ifAccept "IF" (nested.branch body)
      apply ifAccept "WHILE" (nested.loop body)
      apply ifAccept "RETURN" nested.result
      exact (Literate.expression (budget + 1)).simple

end Statements

section Programs

theorem typedName (context : String) : Literate (typedName context) := by
  apply (identifier context).bind
  intro name
  exact (symbol _ _).bind fun _ => (identifier _).bind fun _ => .pure _

variable {expression : Reader Expr}

theorem listGlobal (literate : Literate expression) (budget offset : Nat) :
    Literate (listGlobal expression budget offset) := by
  apply (typedName _).bind
  intro names
  apply (symbol _ _).bind
  intro _
  apply (symbol _ _).bind
  intro bracket
  exact (literate.items budget).bind fun _ => (symbol _ _).bind fun _ => .pure _

theorem mutableGlobal (literate : Literate expression) (offset : Nat) :
    Literate (mutableGlobal expression offset) := by
  apply (typedName _).bind
  intro names
  exact (literate.introduced "=").bind fun _ => .pure _

theorem immutableGlobal (literate : Literate expression) (offset : Nat) :
    Literate (immutableGlobal expression offset) := by
  apply (typedName _).bind
  intro names
  exact (symbol _ _).bind fun _ => literate.bind fun _ => .pure _

theorem finishGlobal {body : Reader Global} (literate : Literate body) :
    Literate (Definition.global <$> finishGlobal body) :=
  map _ (literate.bind fun _ => (symbol _ _).bind fun _ => .pure _)

theorem function (budget offset : Nat) : Literate (function budget offset) := by
  apply (identifier _).bind
  intro name
  apply (symbol _ _).bind
  intro _
  apply ((typedName _).itemsUnless ")" budget).bind
  intro parameters
  apply (symbol _ _).bind
  intro _
  apply ((identifier _).introduced ":").bind
  intro returnType
  apply (symbol _ _).bind
  intro _
  apply ((statement budget).block blockClosers budget).bind
  intro body
  exact (symbol _ _).bind fun _ => .pure _

theorem definition (budget : Nat) : Literate (definition budget) := by
  have nested := expression budget
  intro tokens denote
  unfold Reader.definition
  split
  · exact ⟨_, rfl⟩
  · dsimp only
    split
    · exact (function _ _).map _ _ denote.later
    split
    · exact (nested.listGlobal _ _).finishGlobal _ denote.later
    split
    · exact (nested.mutableGlobal _).finishGlobal _ denote.later
    split
    · exact (nested.immutableGlobal _).finishGlobal _ denote.later
    · exact ⟨_, rfl⟩

theorem program (budget : Nat) : Literate (program budget) := by
  induction budget with
  | zero => exact .pure _
  | succ budget induction =>
      intro tokens denote
      unfold Reader.program
      split
      · exact denote
      · exact ((definition budget).bind fun _ => induction.bind fun _ => .pure _) _ denote

end Programs

end Literate

end Reader

/-- No literal of a text is refused for having no value. -/
theorem Program.ofText_ne_invalidLiteral (text : String) (token : Token) :
    Program.ofText text ≠ .error (.reading (.invalidLiteral token)) := by
  intro refused
  unfold Program.ofText at refused
  cases scanned : tokenize text with
  | error error =>
      rw [scanned] at refused
      cases refused
  | ok tokens =>
      simp only [scanned] at refused
      cases outcome : Program.ofTokens tokens with
      | ok program =>
          rw [outcome] at refused
          cases refused
      | error error =>
          rw [outcome] at refused
          cases refused
          obtain ⟨why, rest, failed, same⟩ := Program.ofTokens_eq_error outcome
          have denote : AllDenote tokens := fun token member =>
            (isLexical_of_tokenize scanned token member).denotes
          have literate := Reader.Literate.program tokens.length tokens denote
          rw [failed] at literate
          obtain ⟨what, rfl⟩ := literate
          cases rest <;> cases same

end Procedural
