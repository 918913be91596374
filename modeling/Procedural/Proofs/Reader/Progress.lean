import Procedural.Proofs.Reader.Termination

/-!
# Progress in reading

Whatever the tokens are and wherever among them a method starts, it comes to an end, and its
position moves neither back nor behind the last token.  Every phrase that is read has one token
at least, and nothing is left behind a program.
-/

namespace Procedural

/-- The methods of the descent, with their arguments. -/
inductive Method : Type → Type where
  | advance : Method Unit
  | accept (literal : String) : Method Bool
  | symbol (literal context : String) : Method Token
  | identifier (context : String) : Method String
  | operator (level : Level) : Method (Option BinaryOp)
  | primary : Method Expr
  | operands (level : Level) : Method Expr
  | expression : Method Expr
  | declaration : Method Stmt
  | switch : Method Stmt
  | branch : Method Stmt
  | loop : Method Stmt
  | statement : Method Stmt
  | block (closers : List String) : Method (List Stmt)
  | typedName (context : String) : Method (String × String)
  | listGlobal (offset : Nat) : Method Global
  | global : Method Global
  | function : Method Function
  | program : Method Program

namespace Method

variable {α : Type}

def descent : Method α → Nat → Descent α
  | advance, _ => .advance
  | accept literal, _ => .accept literal
  | symbol literal context, _ => .symbol literal context
  | identifier context, _ => .identifier context
  | operator level, _ => .operator level
  | primary, depth => .primary depth
  | operands level, depth => .operands depth level
  | expression, depth => .expression depth
  | declaration, depth => .declaration depth
  | switch, depth => .switch depth
  | branch, depth => .branch depth
  | loop, depth => .loop depth
  | statement, depth => .statement depth
  | block closers, depth => .block closers depth
  | typedName context, _ => .typedName context
  | listGlobal offset, depth => .listGlobal depth offset
  | global, depth => .global depth
  | function, depth => .function depth
  | program, depth => .program depth

/-- The reader that does the same within a budget. -/
def reader : Method α → Nat → Reader α
  | advance, _ => fun tokens => .ok () tokens.tail
  | accept literal, _ => .accept literal
  | symbol literal context, _ => .symbol literal context
  | identifier context, _ => .identifier context
  | operator level, _ => .operator level
  | primary, budget => .primary (.expression budget) (budget + 1)
  | operands level, budget =>
      .tier (.primary (.expression budget) (budget + 1)) (budget + 1) (level :: level.tighter)
  | expression, budget => .expression budget
  | declaration, budget => .declaration (.expression budget)
  | switch, budget =>
      .switch (.expression budget) (.block (.statement budget) Reader.caseClosers budget) budget
  | branch, budget =>
      .branch (.expression budget) (.block (.statement budget) Reader.blockClosers budget)
  | loop, budget =>
      .loop (.expression budget) (.block (.statement budget) Reader.blockClosers budget)
  | statement, budget => .statement budget
  | block closers, budget => .block (.statement budget) closers (budget + 1)
  | typedName context, _ => .typedName context
  | listGlobal offset, budget => .listGlobal (.expression budget) budget offset
  | global, budget => fun tokens => Reader.globalFrom budget (startOf tokens) tokens
  | function, budget => fun tokens => Reader.functionFrom budget (startOf tokens) tokens
  | program, budget => .program budget

/-- How many tokens a method that succeeds consumes at least. -/
def least : Method α → Nat
  | advance | accept _ | operator _ | block _ | program => 0
  | _ => 1

/-- Where a method that succeeds may stop in a list of tokens. -/
def MayStop (method : Method α) (start stop size : Nat) : Prop :=
  match method with
  | program => stop = size
  | method => start + method.least ≤ stop

/-- From some depth on a descent comes to an outcome, and so do readers whose budgets cover the
tokens. -/
structure ComesTo (method : Method α) (tokens : List Token) (outcome : Except Obstacle α)
    (rest : List Token) : Prop where
  descends : ∃ enough, ∀ depth, enough ≤ depth →
    (method.descent depth).read tokens = some (outcome, rest)
  reads : ∀ budget, tokens.length ≤ budget →
    (method.reader budget tokens).ends = (outcome, rest)

variable {tokens : List Token} {budget : Nat}

theorem ends_single {reader : Reader α} (leaves : (reader tokens).rest <:+ tokens) :
    Descent.Ends (fun _ => .single reader) tokens (reader tokens) 0 := by
  refine .single leaves fun value rest same => ?_
  rw [same] at leaves
  exact leaves.length_le

theorem ends (method : Method α) (covers : tokens.length ≤ budget) :
    Descent.Ends method.descent tokens (method.reader budget tokens) method.least := by
  have expressions := Descent.reads_expression (tokens.length + 1)
  have stmts := Descent.reads_statement (tokens.length + 1)
  have fits := Nat.lt_succ_self tokens.length
  have covers' := Nat.le_succ_of_le covers
  cases method with
  | advance => exact ends_single (List.tail_suffix tokens)
  | accept literal => exact ends_single ((@Reader.steady_accept 0 0 literal).leaves tokens)
  | symbol literal context => exact Descent.ends_symbol literal context
  | identifier context => exact Descent.ends_identifier context
  | operator level => exact ends_single ((@Reader.steady_operator 0 0 level).leaves tokens)
  | primary => exact expressions.primary (Nat.lt_succ_of_lt fits) covers'
  | operands level => exact expressions.operands level (Nat.lt_succ_of_lt fits) covers'
  | expression => exact Descent.ends_expression covers
  | declaration => exact Descent.ends_declaration covers
  | switch => exact stmts.switch fits covers
  | branch => exact stmts.branch fits covers
  | loop => exact stmts.loop fits covers
  | statement => exact stmts tokens fits budget covers
  | block closers => exact stmts.block closers budget (Nat.lt_succ_of_le covers) fits covers
  | typedName context => exact Descent.ends_typedName context
  | listGlobal offset => exact Descent.ends_listGlobal covers offset
  | global => exact Descent.ends_global covers'
  | function => exact Descent.ends_function covers'
  | program => exact Descent.ends_program budget covers

/-- The budget makes no difference where it covers the tokens. -/
theorem comesTo (method : Method α) (covers : tokens.length ≤ budget) :
    method.ComesTo tokens (method.reader budget tokens).ends.1
      (method.reader budget tokens).rest := by
  have split (outcome : Outcome α) : outcome.ends = (outcome.ends.1, outcome.rest) := by
    cases outcome <;> rfl
  obtain ⟨enough, known⟩ := (method.ends covers).comes
  refine ⟨⟨enough, fun depth deep => ?_⟩, fun budget' covers' => ?_⟩
  · rw [known depth deep, split]
  · rw [(method.ends covers').unique (method.ends covers), split]

theorem mayStop (method : Method α) {start : Nat} {value : α} {rest : List Token}
    (covers : (tokens.drop start).length ≤ budget) (inside : start ≤ tokens.length)
    (succeeds : method.reader budget (tokens.drop start) = .ok value rest) :
    method.MayStop start (tokens.length - rest.length) tokens.length := by
  have taken := (method.ends covers).takes value rest succeeds
  rw [List.length_drop] at taken
  cases method with
  | program =>
      obtain rfl := Reader.rest_of_program budget covers succeeds
      rfl
  | _ =>
      simp only [MayStop]
      omega

/-- Started at any place in any tokens, every method comes to an end, at no earlier place and not
behind the last token.  After a success the place is a later one, or for some methods the same,
and no token is left after a program. -/
theorem progresses (method : Method α) (tokens : List Token) (start : Fin (tokens.length + 1)) :
    ∃ (outcome : Except Obstacle α) (stop : Fin (tokens.length + 1)),
      method.ComesTo (tokens.drop start) outcome (tokens.drop stop) ∧ start ≤ stop ∧
      ∀ value, outcome = .ok value → method.MayStop start stop tokens.length := by
  have covers := Nat.le_refl (tokens.drop start).length
  generalize reached : method.reader (tokens.drop start).length (tokens.drop start) = found
  have comes := method.comesTo covers
  have leaves := (method.ends covers).leaves
  rw [reached] at comes leaves
  have shorter := leaves.length_le
  rw [List.length_drop] at shorter
  have inside := start.is_le
  have place : found.rest = tokens.drop (tokens.length - found.rest.length) :=
    List.suffix_iff_eq_drop.mp (leaves.trans (List.drop_suffix start tokens))
  refine ⟨found.ends.1, ⟨tokens.length - found.rest.length, Nat.lt_succ_of_le (Nat.sub_le _ _)⟩,
    place ▸ comes, Fin.le_def.mpr (by dsimp only; omega), fun value succeeds => ?_⟩
  cases found with
  | ok _ rest => exact method.mayStop covers inside reached
  | fail why rest => cases succeeds

end Method

end Procedural
