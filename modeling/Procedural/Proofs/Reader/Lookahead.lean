import Procedural.Proofs.Reader.Exactness

/-!
# Readers look at one token

What a reader comes to does not depend on tokens behind the first one that it leaves.
Two readers are compared, each on as many tokens as its budget covers, so budgets do not
matter either.
-/

namespace Procedural

open Grammar

namespace Outcome

variable {α : Type}

/-- The tokens that an outcome leaves. -/
def rest : Outcome α → List Token
  | ok _ rest => rest
  | fail _ rest => rest

/-- The same outcome with further tokens behind those that it leaves. -/
def before (tail : List Token) : Outcome α → Outcome α
  | ok value rest => ok value (rest ++ tail)
  | fail why rest => fail why (rest ++ tail)

@[simp] theorem rest_before (outcome : Outcome α) (tail : List Token) :
    (outcome.before tail).rest = outcome.rest ++ tail := by
  cases outcome <;> rfl

end Outcome

namespace Reader

variable {α β : Type}

/-- The first reader leaves an end of its tokens.  If that end is not behind the tokens that both
readers start with, the second reader comes to the same. -/
structure Steady (reader reader' : Reader α) (size size' : Nat) : Prop where
  leaves : ∀ tokens, (reader tokens).rest <:+ tokens
  same : ∀ (front tail tail' : List Token) (outcome : Outcome α), front ≠ [] →
    (front ++ tail).length ≤ size → (front ++ tail').length ≤ size' → outcome.rest ≠ [] →
    reader (front ++ tail) = outcome.before tail → reader' (front ++ tail') = outcome.before tail'

section Rules

variable {reader reader' : Reader α} {next next' : α → Reader β} {size size' : Nat}

theorem Steady.shorter (steady : Steady reader reader' size size') {less less' : Nat}
    (below : less ≤ size) (below' : less' ≤ size') : Steady reader reader' less less' := by
  refine ⟨steady.leaves, ?_⟩
  intro front tail tail' outcome nonempty fits fits'
  exact steady.same front tail tail' outcome nonempty (Nat.le_trans fits below)
    (Nat.le_trans fits' below')

/-- Without room for a token there is nothing to compare. -/
theorem Steady.of_no_room (leaves : ∀ tokens, (reader tokens).rest <:+ tokens)
    (none : size = 0 ∨ size' = 0) : Steady reader reader' size size' := by
  refine ⟨leaves, ?_⟩
  intro front tail tail' outcome nonempty fits fits'
  have positive := List.length_pos_iff.mpr nonempty
  rw [List.length_append] at fits fits'
  omega

/-- What a reader does with a token that stands first. -/
inductive Choice (reader : Reader α) (token : Token) : Prop where
  | takes (value : α) : (∀ rest, reader (token :: rest) = .ok value rest) → Choice reader token
  | keeps (value : α) : (∀ rest, reader (token :: rest) = .ok value (token :: rest)) →
      Choice reader token
  | refuses (why : Obstacle) : (∀ rest, reader (token :: rest) = .fail why (token :: rest)) →
      Choice reader token

/-- A reader that takes one token at most and looks at no other is steady. -/
theorem Steady.of_choice (choice : ∀ token, Choice reader token)
    (atEnd : (reader []).rest = []) : Steady reader reader size size' := by
  constructor
  · intro tokens
    cases tokens with
    | nil => exact List.suffix_nil.mpr atEnd
    | cons token tokens =>
        cases choice token with
        | takes value does =>
            rw [does]
            exact List.suffix_cons token tokens
        | keeps value does =>
            rw [does]
            exact List.suffix_rfl
        | refuses why does =>
            rw [does]
            exact List.suffix_rfl
  · intro front tail tail' outcome nonempty _ _ _ read
    obtain ⟨token, front, rfl⟩ := List.exists_cons_of_ne_nil nonempty
    rw [List.cons_append] at read ⊢
    cases choice token with
    | takes value does =>
        rw [does] at read ⊢
        cases outcome with
        | ok value' rest =>
            obtain ⟨rfl, split⟩ := Outcome.ok.inj read
            rw [Outcome.before, List.append_cancel_right split]
        | fail why rest => cases read
    | keeps value does =>
        rw [does] at read ⊢
        cases outcome with
        | ok value' rest =>
            obtain ⟨rfl, split⟩ := Outcome.ok.inj read
            rw [← List.cons_append] at split
            rw [Outcome.before, ← List.append_cancel_right split, List.cons_append]
        | fail why rest => cases read
    | refuses why does =>
        rw [does] at read ⊢
        cases outcome with
        | ok value' rest => cases read
        | fail why' rest =>
            obtain ⟨rfl, split⟩ := Outcome.fail.inj read
            rw [← List.cons_append] at split
            rw [Outcome.before, ← List.append_cancel_right split, List.cons_append]

/-- One steady reader after the other, where the second has room for as many tokens less as the
first has taken. -/
theorem Steady.bind (count : α → Nat) (first : Steady reader reader' size size')
    (counts : ∀ tokens value rest, reader tokens = .ok value rest →
      rest.length + count value ≤ tokens.length)
    (later : ∀ value,
      Steady (next value) (next' value) (size - count value) (size' - count value)) :
    Steady (reader >>= next) (reader' >>= next') size size' := by
  constructor
  · intro tokens
    have leaves := first.leaves tokens
    cases read : reader tokens with
    | ok value middle =>
        rw [read] at leaves
        rw [bind_of_ok read]
        exact ((later value).leaves middle).trans leaves
    | fail why middle =>
        rw [read] at leaves
        rwa [bind_of_fail read]
  · intro front tail tail' outcome nonempty fits fits' left read
    cases readFirst : reader (front ++ tail) with
    | ok value middle =>
        rw [bind_of_ok readFirst] at read
        have counted := counts _ _ _ readFirst
        obtain ⟨gone, split⟩ := (later value).leaves middle
        rw [read, Outcome.rest_before, ← List.append_assoc] at split
        subst split
        have leftFirst : gone ++ outcome.rest ≠ [] := by simp [left]
        have readFirst' := first.same front tail tail' (.ok value (gone ++ outcome.rest)) nonempty
          fits fits' leftFirst readFirst
        rw [bind_of_ok readFirst']
        simp only [List.length_append] at counted fits fits'
        exact (later value).same (gone ++ outcome.rest) tail tail' outcome leftFirst
          (by simp only [List.length_append]; omega) (by simp only [List.length_append]; omega)
          left read
    | fail why middle =>
        rw [bind_of_fail readFirst] at read
        cases outcome with
        | ok value rest => cases read
        | fail why' rest =>
            obtain ⟨rfl, rfl⟩ := Outcome.fail.inj read
            exact bind_of_fail
              (first.same front tail tail' (.fail why rest) nonempty fits fits' left readFirst)

theorem Steady.chain (first : Steady reader reader' size size')
    (later : ∀ value, Steady (next value) (next' value) size size') :
    Steady (reader >>= next) (reader' >>= next') size size' := by
  refine first.bind (fun _ => 0) ?_ later
  intro tokens value rest read
  have shorter := (first.leaves tokens).length_le
  rwa [read] at shorter

end Rules

section Primitives

variable {size size' : Nat}

theorem steady_pure (value : α) : Steady (pure value) (pure value) size size' :=
  .of_choice (fun _ => .keeps value fun _ => rfl) rfl

theorem steady_missing (what : Expectation) :
    Steady (missing what : Reader α) (missing what) size size' :=
  .of_choice (fun _ => .refuses (.expected what) fun _ => rfl) rfl

theorem steady_sees (literal : String) : Steady (sees literal) (sees literal) size size' :=
  .of_choice (fun token => .keeps (token.literal == literal) fun _ => rfl) rfl

theorem steady_symbol (literal context : String) :
    Steady (symbol literal context) (symbol literal context) size size' := by
  refine .of_choice (fun token => ?_) rfl
  by_cases spelled : token.literal = literal
  · exact .takes token fun rest => by simp [symbol, spelled]
  · exact .refuses (.expected (.symbol literal context)) fun rest => by simp [symbol, spelled]

theorem steady_identifier (context : String) :
    Steady (identifier context) (identifier context) size size' := by
  refine .of_choice (fun token => ?_) rfl
  by_cases isIdentifier : token.kind = .identifier
  · exact .takes token.literal fun rest => by simp [identifier, isIdentifier]
  · exact .refuses (.expected (.identifier context)) fun rest => by simp [identifier, isIdentifier]

theorem steady_accept (literal : String) :
    Steady (accept literal) (accept literal) size size' := by
  refine .of_choice (fun token => ?_) rfl
  by_cases spelled : token.literal = literal
  · exact .takes true fun rest => by simp [accept, spelled]
  · exact .keeps false fun rest => by simp [accept, spelled]

theorem steady_operator (level : Level) : Steady (operator level) (operator level) size size' := by
  refine .of_choice (fun token => ?_) rfl
  cases spelled : token.operatorAt? level with
  | some op => exact .takes (some op) fun rest => by simp only [operator, spelled]
  | none => exact .keeps none fun rest => by simp only [operator, spelled]

end Primitives

section Choices

variable {yes yes' no no' : Reader α} {size size' : Nat}

/-- A choice by an accepted symbol leaves less room where the symbol is taken. -/
theorem Steady.ifAccept {literal : String} (steadyYes : Steady yes yes' (size - 1) (size' - 1))
    (steadyNo : Steady no no' size size') :
    Steady (do if ← accept literal then yes else no)
      (do if ← accept literal then yes' else no') size size' := by
  refine (steady_accept literal).bind (fun accepted => if accepted then 1 else 0) ?_ ?_
  · intro tokens accepted rest read
    cases tokens with
    | nil =>
        cases read
        simp
    | cons token tokens =>
        simp only [accept] at read
        split at read <;> cases read <;> simp
  · intro accepted
    cases accepted with
    | true => exact steadyYes
    | false => exact steadyNo

theorem Steady.ifSees {literal : String} (steadyYes : Steady yes yes' size size')
    (steadyNo : Steady no no' size size') :
    Steady (do if ← sees literal then yes else no)
      (do if ← sees literal then yes' else no') size size' := by
  refine (steady_sees literal).chain ?_
  intro seen
  cases seen with
  | true => exact steadyYes
  | false => exact steadyNo

theorem Steady.introduced {literal : String} (item : Steady yes yes' size size') :
    Steady (introduced literal yes) (introduced literal yes') size size' := by
  have shorter := item.shorter (Nat.sub_le size 1) (Nat.sub_le size' 1)
  exact .ifAccept (shorter.chain fun value => steady_pure (some value)) (steady_pure none)

theorem Steady.map {change : α → β} (steady : Steady yes yes' size size') :
    Steady (change <$> yes) (change <$> yes') size size' :=
  steady.chain fun value => steady_pure (change value)

/-- A reader that goes by the first token is steady if it is so for each first token. -/
theorem Steady.of_first (atEnd : (yes []).rest = [])
    (first : ∀ token, ∃ reader reader' : Reader α,
      (∀ rest, yes (token :: rest) = reader (token :: rest)) ∧
      (∀ rest, yes' (token :: rest) = reader' (token :: rest)) ∧
      Steady reader reader' size size') : Steady yes yes' size size' := by
  constructor
  · intro tokens
    cases tokens with
    | nil => exact List.suffix_nil.mpr atEnd
    | cons token tokens =>
        obtain ⟨reader, reader', does, does', steady⟩ := first token
        rw [does]
        exact steady.leaves _
  · intro front tail tail' outcome nonempty fits fits' left read
    obtain ⟨token, front, rfl⟩ := List.exists_cons_of_ne_nil nonempty
    obtain ⟨reader, reader', does, does', steady⟩ := first token
    rw [List.cons_append, does] at read
    rw [List.cons_append, does']
    exact steady.same (token :: front) tail tail' outcome nonempty fits fits' left read

/-- Behind a symbol there is room for one token less. -/
theorem Steady.behind {literal context : String}
    (steady : Steady yes yes' (size - 1) (size' - 1)) :
    Steady (do let _ ← symbol literal context; yes) (do let _ ← symbol literal context; yes')
      size size' := by
  refine (steady_symbol literal context).bind (fun _ => 1) ?_ fun _ => steady
  intro tokens token rest read
  obtain ⟨rfl, _⟩ := symbol_eq_ok.mp read
  exact Nat.le_refl _

theorem behind_first (token : Token) (reader : Reader α) (rest : List Token) :
    reader rest = (do let _ ← symbol token.literal ""; reader) (token :: rest) := by
  have taken : symbol token.literal "" (token :: rest) = .ok token rest := complete_symbol rfl
  rw [bind_of_ok taken]

end Choices

/-- Readers with budgets are steady if each step up keeps them so; without a budget there is no
room for a token. -/
theorem Steady.of_steps {ι : Type} (readers readers' : Nat → ι → Reader α) (size size' : Nat)
    (none : ∀ i tokens, (readers 0 i tokens).rest <:+ tokens)
    (step : ∀ budget budget',
      (∀ i, Steady (readers budget i) (readers' budget' i) (min size budget)
        (min size' budget')) →
      ∀ i, Steady (readers (budget + 1) i) (readers' (budget' + 1) i) (min size (budget + 1))
        (min size' (budget' + 1))) :
    ∀ budget budget' i,
      Steady (readers budget i) (readers' budget' i) (min size budget) (min size' budget') := by
  intro budget
  induction budget with
  | zero =>
      intro budget' i
      exact .of_no_room (none i) (.inl (Nat.min_zero size))
  | succ budget induction =>
      intro budget' i
      cases budget' with
      | zero =>
          exact .of_no_room (step budget 0 (induction 0) i).leaves (.inr (Nat.min_zero size'))
      | succ budget' => exact step budget budget' (induction budget') i

section Items

variable {item item' : Reader α} {size size' budget budget' : Nat}

theorem Steady.furtherItems (steady : Steady item item' size size') (budget budget' : Nat) :
    Steady (furtherItems item budget) (furtherItems item' budget') (min size budget)
      (min size' budget') := by
  refine Steady.of_steps (fun budget (_ : Unit) => Reader.furtherItems item budget)
    (fun budget _ => Reader.furtherItems item' budget) size size' ?_ ?_ budget budget' ()
  · intro _ tokens
    exact List.suffix_rfl
  · intro budget budget' induction _
    refine .ifAccept ?_ (steady_pure [])
    refine (steady.shorter (by omega) (by omega)).chain fun value => ?_
    exact ((induction ()).shorter (by omega) (by omega)).chain fun values => steady_pure _

theorem Steady.items (steady : Steady item item' size size') (enough : size ≤ budget)
    (enough' : size' ≤ budget') : Steady (items item budget) (items item' budget') size size' := by
  have further := (steady.furtherItems budget budget').shorter
    (Nat.le_min.mpr ⟨Nat.le_refl size, enough⟩) (Nat.le_min.mpr ⟨Nat.le_refl size', enough'⟩)
  exact steady.chain fun value => further.chain fun values => steady_pure _

theorem Steady.itemsUnless {closing : String} (steady : Steady item item' size size')
    (enough : size ≤ budget) (enough' : size' ≤ budget') :
    Steady (itemsUnless closing item budget) (itemsUnless closing item' budget') size size' :=
  .ifSees (steady_pure []) (steady.items enough enough')

end Items

section Expressions

variable {reader reader' : Reader Expr} {size size' budget budget' : Nat}

theorem Steady.furtherOperands {level : Level} (operand : Steady reader reader' size size')
    (budget budget' : Nat) (left : Expr) :
    Steady (furtherOperands level reader budget left) (furtherOperands level reader' budget' left)
      (min size budget) (min size' budget') := by
  refine Steady.of_steps (Reader.furtherOperands level reader)
    (Reader.furtherOperands level reader') size size' ?_ ?_ budget budget' left
  · intro left tokens
    exact List.suffix_rfl
  · intro budget budget' induction left
    refine (steady_operator level).bind (fun found => found.elim 0 fun _ => 1) ?_ ?_
    · intro tokens found rest read
      unfold operator at read
      split at read
      · cases read
        exact Nat.le_refl _
      · split at read <;> cases read <;> simp
    · intro found
      cases found with
      | none => exact steady_pure left
      | some op =>
          refine (operand.shorter ?_ ?_).chain fun right => ?_
          · simp only [Option.elim]
            omega
          · simp only [Option.elim]
            omega
          · exact (induction _).shorter (by simp only [Option.elim]; omega)
              (by simp only [Option.elim]; omega)

theorem Steady.operands {level : Level} (operand : Steady reader reader' size size')
    (enough : size ≤ budget) (enough' : size' ≤ budget') :
    Steady (operands level reader budget) (operands level reader' budget') size size' := by
  refine operand.chain fun left => ?_
  exact (operand.furtherOperands budget budget' left).shorter
    (Nat.le_min.mpr ⟨Nat.le_refl size, enough⟩) (Nat.le_min.mpr ⟨Nat.le_refl size', enough'⟩)

theorem Steady.closeGroup (inner : Steady reader reader' size size') (offset : Nat) :
    Steady (closeGroup reader offset) (closeGroup reader' offset) size size' :=
  inner.chain fun _ => (steady_symbol _ _).chain fun _ => steady_pure _

theorem Steady.afterName (inner : Steady reader reader' size size') (enough : size ≤ budget)
    (enough' : size' ≤ budget') (offset : Nat) (name : String) :
    Steady (afterName reader budget offset name) (afterName reader' budget' offset name)
      size size' := by
  refine .ifAccept ?_ ?_
  · have shorter := inner.shorter (Nat.sub_le size 1) (Nat.sub_le size' 1)
    refine (shorter.itemsUnless (by omega) (by omega)).chain fun _ => ?_
    exact (steady_symbol _ _).chain fun _ => steady_pure _
  · refine inner.introduced.chain fun index => ?_
    cases index with
    | none => exact steady_pure _
    | some index => exact (steady_symbol _ _).chain fun _ => steady_pure _

theorem Steady.primary (inner : Steady reader reader' (size - 1) (size' - 1))
    (enough : size ≤ budget) (enough' : size' ≤ budget') :
    Steady (primary reader budget) (primary reader' budget') size size' := by
  refine .of_first rfl fun token => ?_
  by_cases isLiteral : token.isLiteral = true
  · simp only [Reader.primary, if_pos isLiteral]
    cases token.scalar? with
    | some value =>
        exact ⟨_, _, behind_first token (pure (Expr.literal (.at token.offset) value)),
          behind_first token _, .behind (steady_pure _)⟩
    | none =>
        exact ⟨fail (.invalidLiteral token), fail (.invalidLiteral token), fun _ => rfl,
          fun _ => rfl, .of_choice (fun _ => .refuses _ fun _ => rfl) rfl⟩
  simp only [Reader.primary, if_neg isLiteral]
  by_cases opened : token.literal = "("
  · simp only [if_pos opened]
    exact ⟨_, _, behind_first token _, behind_first token _,
      .behind (inner.closeGroup token.offset)⟩
  simp only [if_neg opened]
  by_cases isIdentifier : token.kind = .identifier
  · simp only [if_pos isIdentifier]
    exact ⟨_, _, behind_first token _, behind_first token _,
      .behind (inner.afterName (by omega) (by omega) token.offset token.literal)⟩
  · simp only [if_neg isIdentifier]
    exact ⟨_, _, fun _ => rfl, fun _ => rfl, steady_missing .expression⟩

theorem Steady.levels (inner : Steady reader reader' (size - 1) (size' - 1))
    (enough : size ≤ budget) (enough' : size' ≤ budget') :
    Steady (levels reader budget) (levels reader' budget') size size' :=
  ((((inner.primary enough enough').operands enough enough').operands enough enough').operands
    enough enough').operands enough enough'

theorem steady_expression (budget budget' : Nat) :
    Steady (expression budget) (expression budget') budget budget' := by
  have steady := Steady.of_steps (fun budget (_ : Unit) => expression budget)
    (fun budget _ => expression budget) budget budget' (fun _ _ => List.suffix_rfl)
    (fun budget budget' induction _ =>
      ((induction ()).shorter (by omega) (by omega)).levels (Nat.min_le_right _ _)
        (Nat.min_le_right _ _))
    budget budget' ()
  simpa only [Nat.min_self] using steady

end Expressions

theorem Sound.counts {reader : Reader α} {phrase : List Token → α → Prop}
    (sound : Sound reader phrase) (nonempty : ∀ taken value, phrase taken value → taken ≠ [])
    (tokens : List Token) (value : α) (rest : List Token)
    (read : reader tokens = .ok value rest) : rest.length + 1 ≤ tokens.length := by
  obtain ⟨taken, rfl, derived⟩ := sound _ _ _ read
  have positive := List.length_pos_iff.mpr (nonempty _ _ derived)
  rw [List.length_append]
  omega

section Statements

variable {nested nested' : Reader Expr} {body body' : Reader (List Stmt)}
variable {statement' : Reader Stmt} {size size' budget budget' : Nat}

theorem Steady.block {statement statement' : Reader Stmt}
    (steady : Steady statement statement' size size') (sound : Sound statement IsStmt)
    (closers : List String) (budget budget' : Nat) :
    Steady (block statement closers budget) (block statement' closers budget') (min size budget)
      (min size' budget') := by
  refine Steady.of_steps (fun budget (_ : Unit) => Reader.block statement closers budget)
    (fun budget _ => Reader.block statement' closers budget) size size' ?_ ?_ budget budget' ()
  · intro _ tokens
    exact List.suffix_rfl
  · intro budget budget' induction _
    refine .of_first rfl fun token => ?_
    by_cases closes : closers.contains token.literal = true
    · simp only [Reader.block, if_pos closes]
      exact ⟨pure [], pure [], fun _ => rfl, fun _ => rfl, steady_pure []⟩
    · simp only [Reader.block, if_neg closes]
      refine ⟨_, _, fun _ => rfl, fun _ => rfl, ?_⟩
      refine (steady.shorter (by omega) (by omega)).bind (fun _ => 1)
        (sound.counts fun _ _ => IsStmt.nonempty) fun stmt => ?_
      exact ((induction ()).shorter (by omega) (by omega)).chain fun stmts => steady_pure _

variable (expression : Steady nested nested' size size') (stmts : Steady body body' size size')

include expression

theorem Steady.declaration : Steady (declaration nested) (declaration nested') size size' := by
  refine (steady_identifier _).chain fun name => ?_
  refine (steady_identifier _).introduced.chain fun typeName => ?_
  refine expression.introduced.chain fun value => ?_
  split
  · exact steady_missing _
  · exact (steady_symbol _ _).chain fun _ => steady_pure _

theorem Steady.result : Steady (result nested) (result nested') size size' :=
  expression.chain fun _ => (steady_symbol _ _).chain fun _ => steady_pure _

theorem Steady.simple : Steady (simple nested) (simple nested') size size' := by
  refine expression.chain fun first => expression.introduced.chain fun value => ?_
  cases value with
  | some value => exact (steady_symbol _ _).chain fun _ => steady_pure _
  | none => exact (steady_symbol _ _).chain fun _ => steady_pure _

include stmts

theorem Steady.cases (budget budget' : Nat) :
    Steady (cases nested body budget) (cases nested' body' budget') (min size budget)
      (min size' budget') := by
  refine Steady.of_steps (fun budget (_ : Unit) => Reader.cases nested body budget)
    (fun budget _ => Reader.cases nested' body' budget) size size' ?_ ?_ budget budget' ()
  · intro _ tokens
    exact List.suffix_rfl
  · intro budget budget' induction _
    refine .ifAccept ?_ (steady_pure [])
    refine (expression.shorter (by omega) (by omega)).chain fun value => ?_
    refine (steady_symbol _ _).chain fun _ => ?_
    refine (stmts.shorter (by omega) (by omega)).chain fun stmts => ?_
    exact ((induction ()).shorter (by omega) (by omega)).chain fun rest => steady_pure _

theorem Steady.switch (enough : size ≤ budget) (enough' : size' ≤ budget') :
    Steady (switch nested body budget) (switch nested' body' budget') size size' := by
  have valued := (expression.cases stmts budget budget').shorter
    (Nat.le_min.mpr ⟨Nat.le_refl size, enough⟩) (Nat.le_min.mpr ⟨Nat.le_refl size', enough'⟩)
  refine expression.chain fun _ => valued.chain fun _ => (steady_symbol _ _).chain fun _ => ?_
  exact stmts.chain fun _ => (steady_symbol _ _).chain fun _ => steady_pure _

theorem Steady.branch : Steady (branch nested body) (branch nested' body') size size' := by
  refine expression.chain fun _ => (steady_symbol _ _).chain fun _ => stmts.chain fun _ => ?_
  exact stmts.introduced.chain fun _ => (steady_symbol _ _).chain fun _ => steady_pure _

theorem Steady.loop : Steady (loop nested body) (loop nested' body') size size' := by
  refine expression.chain fun _ => (steady_symbol _ _).chain fun _ => stmts.chain fun _ => ?_
  exact (steady_symbol _ _).chain fun _ => steady_pure _

end Statements

theorem steady_statement (budget budget' : Nat) :
    Steady (statement budget) (statement budget') budget budget' := by
  have steady := Steady.of_steps (fun budget (_ : Unit) => statement budget)
    (fun budget _ => statement budget) budget budget' (fun _ _ => List.suffix_rfl) ?_
    budget budget' ()
  · simpa only [Nat.min_self] using steady
  · intro below below' induction _
    have nested := (steady_expression below below').shorter
      (show min budget (below + 1) - 1 ≤ below by omega)
      (show min budget' (below' + 1) - 1 ≤ below' by omega)
    have body (closers : List String) :=
      ((induction ()).block (sound_statement below) closers below below').shorter
        (show min budget (below + 1) - 1 ≤ _ by omega)
        (show min budget' (below' + 1) - 1 ≤ _ by omega)
    have longer := (steady_expression (below + 1) (below' + 1)).shorter
      (Nat.min_le_right budget _) (Nat.min_le_right budget' _)
    refine .ifAccept nested.declaration (.ifAccept ?_ ?_)
    · exact nested.switch (body caseClosers) (by omega) (by omega)
    refine .ifAccept (nested.branch (body blockClosers)) ?_
    refine .ifAccept (nested.loop (body blockClosers)) ?_
    exact .ifAccept nested.result longer.simple

section Definitions

variable {nested nested' : Reader Expr} {size size' budget budget' : Nat}

theorem steady_typedName (context : String) :
    Steady (typedName context) (typedName context) size size' := by
  refine (steady_identifier _).chain fun name => (steady_symbol _ _).chain fun _ => ?_
  exact (steady_identifier _).chain fun typeName => steady_pure _

theorem Steady.finishGlobal {body body' : Reader Global} (steady : Steady body body' size size') :
    Steady (finishGlobal body) (finishGlobal body') size size' :=
  steady.chain fun _ => (steady_symbol _ _).chain fun _ => steady_pure _

theorem Steady.listGlobal (expression : Steady nested nested' size size') (enough : size ≤ budget)
    (enough' : size' ≤ budget') (offset : Nat) :
    Steady (listGlobal nested budget offset) (listGlobal nested' budget' offset) size size' := by
  refine (steady_typedName _).chain fun ⟨name, typeName⟩ => (steady_symbol _ _).chain fun _ => ?_
  refine (steady_symbol _ _).chain fun bracket => ?_
  refine (expression.items enough enough').chain fun elements => ?_
  exact (steady_symbol _ _).chain fun _ => steady_pure _

theorem Steady.mutableGlobal (expression : Steady nested nested' size size') (offset : Nat) :
    Steady (mutableGlobal nested offset) (mutableGlobal nested' offset) size size' :=
  (steady_typedName _).chain fun ⟨_, _⟩ => expression.introduced.chain fun _ => steady_pure _

theorem Steady.immutableGlobal (expression : Steady nested nested' size size') (offset : Nat) :
    Steady (immutableGlobal nested offset) (immutableGlobal nested' offset) size size' := by
  refine (steady_typedName _).chain fun ⟨name, typeName⟩ => (steady_symbol _ _).chain fun _ => ?_
  exact expression.chain fun _ => steady_pure _

theorem steady_function (offset : Nat) :
    Steady (function budget offset) (function budget' offset) budget budget' := by
  have body := (steady_statement budget budget').block (sound_statement budget) blockClosers
    budget budget'
  rw [Nat.min_self, Nat.min_self] at body
  refine (steady_identifier _).chain fun name => (steady_symbol _ _).chain fun _ => ?_
  refine ((steady_typedName _).itemsUnless (Nat.le_refl _) (Nat.le_refl _)).chain fun _ => ?_
  refine (steady_symbol _ _).chain fun _ => (steady_identifier _).introduced.chain fun _ => ?_
  refine (steady_symbol _ _).chain fun _ => body.chain fun _ => ?_
  exact (steady_symbol _ _).chain fun _ => steady_pure _

theorem steady_definition :
    Steady (definition budget) (definition budget') (budget + 1) (budget' + 1) := by
  have nested := steady_expression budget budget'
  refine .of_first rfl fun token => ?_
  simp only [definition]
  by_cases isFunction : token.literal = "FUN"
  · simp only [if_pos isFunction]
    exact ⟨_, _, behind_first token _, behind_first token _,
      .behind (steady_function token.offset).map⟩
  simp only [if_neg isFunction]
  by_cases isList : token.literal = "LIST"
  · simp only [if_pos isList]
    exact ⟨_, _, behind_first token _, behind_first token _,
      .behind (nested.listGlobal (Nat.le_refl _) (Nat.le_refl _) token.offset).finishGlobal.map⟩
  simp only [if_neg isList]
  by_cases isMutable : token.literal = "VAR"
  · simp only [if_pos isMutable]
    exact ⟨_, _, behind_first token _, behind_first token _,
      .behind (nested.mutableGlobal token.offset).finishGlobal.map⟩
  simp only [if_neg isMutable]
  by_cases isImmutable : token.literal = "VAL"
  · simp only [if_pos isImmutable]
    exact ⟨_, _, behind_first token _, behind_first token _,
      .behind (nested.immutableGlobal token.offset).finishGlobal.map⟩
  · simp only [if_neg isImmutable]
    exact ⟨_, _, fun _ => rfl, fun _ => rfl, steady_missing .definition⟩

theorem steady_program (budget budget' : Nat) :
    Steady (program budget) (program budget') budget budget' := by
  have steady := Steady.of_steps (fun budget (_ : Unit) => program budget)
    (fun budget _ => program budget) budget budget' (fun _ _ => List.suffix_rfl) ?_
    budget budget' ()
  · simpa only [Nat.min_self] using steady
  · intro below below' induction _
    refine .of_first rfl fun token => ?_
    simp only [program]
    refine ⟨_, _, fun _ => rfl, fun _ => rfl, ?_⟩
    refine (steady_definition.shorter (Nat.min_le_right _ _) (Nat.min_le_right _ _)).bind
      (fun _ => 1) (fun _ _ _ => length_lt_of_definition) fun first => ?_
    exact ((induction ()).shorter (by omega) (by omega)).chain fun others => steady_pure _

end Definitions

end Reader

end Procedural
