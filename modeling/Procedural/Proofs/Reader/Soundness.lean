import Procedural.Proofs.Reader.Grammar
import Procedural.Proofs.Reader.Rules

/-!
# Readers follow the grammar

Whatever a reader takes from the front of its tokens derives the tree that it returns.
-/

namespace Procedural

open Grammar

namespace Reader

variable {α : Type}

/-- The tokens that a success takes are a phrase of the value that it returns. -/
def Sound (reader : Reader α) (phrase : List Token → α → Prop) : Prop :=
  ∀ tokens value rest, reader tokens = .ok value rest →
    ∃ taken, tokens = taken ++ rest ∧ phrase taken value

theorem Sound.introduced {item : Reader α} {phrase : List Token → α → Prop}
    (sound : Sound item phrase) (literal : String) :
    Sound (introduced literal item) (Introduced literal phrase) := by
  intro tokens value rest read
  rcases introduced_eq_ok.mp read with
    ⟨token, tail, inner, rfl, spelled, readItem, rfl⟩ | ⟨_, rfl, rfl⟩
  · obtain ⟨taken, rfl, derived⟩ := sound _ _ _ readItem
    exact ⟨token :: taken, rfl, .some spelled derived⟩
  · exact ⟨[], rfl, .none⟩

theorem Sound.furtherItems {item : Reader α} {phrase : List Token → α → Prop}
    (sound : Sound item phrase) (budget : Nat) :
    Sound (furtherItems item budget) fun taken values =>
      ∃ parts : List (List Token × α), (∀ part ∈ parts, phrase part.1 part.2) ∧
        JoinedFurther (parts.map Prod.fst) taken ∧ parts.map Prod.snd = values := by
  induction budget with
  | zero =>
      intro tokens values rest read
      obtain ⟨rfl, rfl⟩ := pure_eq_ok.mp read
      exact ⟨[], rfl, [], by simp, .nil, rfl⟩
  | succ budget induction =>
      intro tokens values rest read
      rcases ifAccept_eq_ok.mp read with ⟨comma, tail, rfl, spelled, readItems⟩ | ⟨_, none⟩
      · obtain ⟨value, middle, readItem, readFurther⟩ := bind_eq_ok.mp readItems
        obtain ⟨later, middle', readLater, finished⟩ := bind_eq_ok.mp readFurther
        obtain ⟨rfl, rfl⟩ := pure_eq_ok.mp finished
        obtain ⟨taken, rfl, derived⟩ := sound _ _ _ readItem
        obtain ⟨takenLater, rfl, parts, all, joined, rfl⟩ := induction _ _ _ readLater
        refine ⟨comma :: (taken ++ takenLater), by simp, (taken, value) :: parts, ?_,
          .cons spelled joined, rfl⟩
        exact List.forall_mem_cons.mpr ⟨derived, all⟩
      · obtain ⟨rfl, rfl⟩ := pure_eq_ok.mp none
        exact ⟨[], rfl, [], by simp, .nil, rfl⟩

theorem Sound.items {item : Reader α} {phrase : List Token → α → Prop}
    (sound : Sound item phrase) (budget : Nat) :
    Sound (items item budget) fun taken values => Items phrase taken values ∧ values ≠ [] := by
  intro tokens values rest read
  obtain ⟨value, middle, readItem, readFurther⟩ := bind_eq_ok.mp read
  obtain ⟨later, middle', readLater, finished⟩ := bind_eq_ok.mp readFurther
  obtain ⟨rfl, rfl⟩ := pure_eq_ok.mp finished
  obtain ⟨taken, rfl, derived⟩ := sound _ _ _ readItem
  obtain ⟨takenLater, rfl, parts, all, joined, rfl⟩ := sound.furtherItems budget _ _ _ readLater
  refine ⟨taken ++ takenLater, by simp, ⟨(taken, value) :: parts, ?_, .cons joined, rfl⟩,
    by simp⟩
  exact List.forall_mem_cons.mpr ⟨derived, all⟩

theorem Sound.itemsUnless {item : Reader α} {phrase : List Token → α → Prop}
    (sound : Sound item phrase) (closing : String) (budget : Nat) :
    Sound (itemsUnless closing item budget) fun taken values =>
      Items phrase taken values ∧ StartsWithNone [closing] taken := by
  intro tokens values rest read
  rcases ifSees_eq_ok.mp read with ⟨_, _, _, none⟩ | ⟨notClosing, readItems⟩
  · obtain ⟨rfl, rfl⟩ := pure_eq_ok.mp none
    exact ⟨[], rfl, ⟨[], by simp, .nil, rfl⟩, by simp [StartsWithNone]⟩
  · obtain ⟨taken, rfl, derived, _⟩ := sound.items budget _ _ _ readItems
    refine ⟨taken, rfl, derived, ?_⟩
    intro token head
    have different := notClosing token (by simp [List.head?_append, head])
    simpa using different

theorem sound_identifier (context : String) : Sound (identifier context) IsIdentifier := by
  intro tokens name rest read
  obtain ⟨token, rfl, isIdentifier, rfl⟩ := identifier_eq_ok.mp read
  exact ⟨[token], rfl, .mk isIdentifier⟩

/-- The reader for expressions whose outermost operator belongs to some levels. -/
def tier (primary : Reader Expr) (budget : Nat) : List Level → Reader Expr
  | [] => primary
  | level :: tighter => operands level (tier primary budget tighter) budget

theorem sound_furtherOperands {level : Level} {tighter : List Level} {operand : Reader Expr}
    (sound : Sound operand (Phrase tighter)) (budget : Nat) :
    ∀ {taken : List Token} {left : Expr}, Phrase (level :: tighter) taken left →
      Sound (furtherOperands level operand budget left) fun more expr =>
        Phrase (level :: tighter) (taken ++ more) expr := by
  induction budget with
  | zero =>
      intro taken left derived tokens expr rest read
      obtain ⟨rfl, rfl⟩ := pure_eq_ok.mp read
      exact ⟨[], rfl, by simpa using derived⟩
  | succ budget induction =>
      intro taken left derived tokens expr rest read
      obtain ⟨found, middle, readOperator, readMore⟩ := bind_eq_ok.mp read
      unfold operator at readOperator
      split at readOperator
      · cases readOperator
        obtain ⟨rfl, rfl⟩ := pure_eq_ok.mp readMore
        exact ⟨[], rfl, by simpa using derived⟩
      next token tail =>
        split at readOperator
        next op spelled =>
          cases readOperator
          obtain ⟨right, middle, readRight, readLater⟩ := bind_eq_ok.mp readMore
          obtain ⟨rightTokens, rfl, derivedRight⟩ := sound _ _ _ readRight
          have joined := Phrase.binary derived spelled derivedRight
          obtain ⟨later, rfl, derivedLater⟩ := induction joined _ _ _ readLater
          exact ⟨token :: (rightTokens ++ later), by simp, by simpa using derivedLater⟩
        next =>
          cases readOperator
          obtain ⟨rfl, rfl⟩ := pure_eq_ok.mp readMore
          exact ⟨[], rfl, by simpa using derived⟩

theorem Sound.tier {primary : Reader Expr} (sound : Sound primary (Phrase [])) (budget : Nat)
    (levels : List Level) : Sound (tier primary budget levels) (Phrase levels) := by
  induction levels with
  | nil => exact sound
  | cons level tighter induction =>
      intro tokens expr rest read
      obtain ⟨left, middle, readLeft, readMore⟩ := bind_eq_ok.mp read
      obtain ⟨taken, rfl, derived⟩ := induction _ _ _ readLeft
      obtain ⟨more, rfl, derivedMore⟩ :=
        sound_furtherOperands induction budget (.tighter derived) _ _ _ readMore
      exact ⟨taken ++ more, by simp, derivedMore⟩

theorem Sound.afterName {expression : Reader Expr} (sound : Sound expression IsExpr)
    (budget : Nat) {name : Token} (isName : name.IsName) {tokens rest : List Token}
    {expr : Expr}
    (read : afterName expression budget name.offset name.literal tokens = .ok expr rest) :
    ∃ taken, name :: tokens = taken ++ rest ∧ Phrase [] taken expr := by
  rcases ifAccept_eq_ok.mp read with ⟨opening, tail, rfl, spelled, readCall⟩ | ⟨_, readIndex⟩
  · obtain ⟨arguments, middle, readItems, readClosing⟩ := bind_eq_ok.mp readCall
    obtain ⟨closing, middle', readSymbol, finished⟩ := bind_eq_ok.mp readClosing
    obtain ⟨rfl, rfl⟩ := pure_eq_ok.mp finished
    obtain ⟨rfl, closed⟩ := symbol_eq_ok.mp readSymbol
    obtain ⟨taken, rfl, ⟨parts, all, joined, rfl⟩, starts⟩ :=
      sound.itemsUnless ")" budget _ _ _ readItems
    exact ⟨name :: opening :: (taken ++ [closing]), by simp,
      .call isName spelled all joined starts closed⟩
  · obtain ⟨index, middle, readIntroduced, readRest⟩ := bind_eq_ok.mp readIndex
    rcases introduced_eq_ok.mp readIntroduced with
      ⟨opening, tail, value, rfl, spelled, readValue, rfl⟩ | ⟨_, rfl, rfl⟩
    · obtain ⟨closing, middle', readSymbol, finished⟩ := bind_eq_ok.mp readRest
      obtain ⟨rfl, rfl⟩ := pure_eq_ok.mp finished
      obtain ⟨rfl, closed⟩ := symbol_eq_ok.mp readSymbol
      obtain ⟨taken, rfl, derived⟩ := sound _ _ _ readValue
      exact ⟨name :: opening :: (taken ++ [closing]), by simp,
        .element isName spelled derived closed⟩
    · obtain ⟨rfl, rfl⟩ := pure_eq_ok.mp readRest
      exact ⟨[name], rfl, .access isName⟩

theorem Sound.primary {expression : Reader Expr} (sound : Sound expression IsExpr)
    (budget : Nat) : Sound (primary expression budget) (Phrase []) := by
  intro tokens expr rest read
  unfold Reader.primary at read
  split at read
  · cases read
  next token tail =>
    split at read
    next isLiteral =>
      split at read
      next value denoted =>
        cases read
        exact ⟨[token], rfl, .literal isLiteral denoted⟩
      · cases read
    next notLiteral =>
      have notLiteral : token.isLiteral = false := by simpa using notLiteral
      split at read
      next spelled =>
        obtain ⟨inner, middle, readInner, readClosing⟩ := bind_eq_ok.mp read
        obtain ⟨closing, middle', readSymbol, finished⟩ := bind_eq_ok.mp readClosing
        obtain ⟨rfl, rfl⟩ := pure_eq_ok.mp finished
        obtain ⟨rfl, closed⟩ := symbol_eq_ok.mp readSymbol
        obtain ⟨taken, rfl, derived⟩ := sound _ _ _ readInner
        exact ⟨token :: (taken ++ [closing]), by simp,
          .group ⟨spelled, notLiteral⟩ derived closed⟩
      next notOpening =>
        split at read
        next isIdentifier =>
          exact sound.afterName budget ⟨isIdentifier, notLiteral, notOpening⟩ read
        · cases read

/-- What is read as an expression is one. -/
theorem sound_expression (budget : Nat) : Sound (expression budget) IsExpr := by
  induction budget with
  | zero => exact fun _ _ _ read => absurd read missing_ne_ok
  | succ budget induction =>
      have sound := (induction.primary (budget + 1)).tier (budget + 1) Level.all
      exact sound

/-- What a block takes, up to one of its closing words, are statements. -/
theorem Sound.block {statement : Reader Stmt} (sound : Sound statement IsStmt)
    (closers : List String) (budget : Nat) :
    Sound (block statement closers budget) (IsBlock closers) := by
  induction budget with
  | zero =>
      intro tokens stmts rest read
      obtain ⟨rfl, rfl⟩ := pure_eq_ok.mp read
      exact ⟨[], rfl, .nil⟩
  | succ budget induction =>
      intro tokens stmts rest read
      unfold Reader.block at read
      split at read
      · cases read
        exact ⟨[], rfl, .nil⟩
      next token tail =>
        split at read
        · cases read
          exact ⟨[], rfl, .nil⟩
        next notCloser =>
          obtain ⟨stmt, middle, readStmt, readMore⟩ := bind_eq_ok.mp read
          obtain ⟨later, middle', readLater, finished⟩ := bind_eq_ok.mp readMore
          obtain ⟨rfl, rfl⟩ := pure_eq_ok.mp finished
          obtain ⟨taken, split, derived⟩ := sound _ _ _ readStmt
          obtain ⟨takenLater, rfl, derivedLater⟩ := induction _ _ _ readLater
          refine ⟨taken ++ takenLater, by simp [split], .cons ?_ derived derivedLater⟩
          intro first head
          cases taken with
          | nil => cases head
          | cons taken₀ taken =>
              cases head
              cases split
              simpa using notCloser

theorem Sound.cases {expression : Reader Expr} {body : Reader (List Stmt)}
    (sound : Sound expression IsExpr) (soundBody : Sound body (IsBlock caseClosers))
    (budget : Nat) : Sound (cases expression body budget) IsCases := by
  induction budget with
  | zero =>
      intro tokens found rest read
      obtain ⟨rfl, rfl⟩ := pure_eq_ok.mp read
      exact ⟨[], rfl, .nil⟩
  | succ budget induction =>
      intro tokens found rest read
      rcases ifAccept_eq_ok.mp read with ⟨keyword, tail, rfl, spelled, readCase⟩ | ⟨_, none⟩
      · obtain ⟨value, _, readValue, readCase⟩ := bind_eq_ok.mp readCase
        obtain ⟨colon, _, readColon, readCase⟩ := bind_eq_ok.mp readCase
        obtain ⟨stmts, _, readBody, readCase⟩ := bind_eq_ok.mp readCase
        obtain ⟨later, _, readLater, finished⟩ := bind_eq_ok.mp readCase
        obtain ⟨rfl, rfl⟩ := pure_eq_ok.mp finished
        obtain ⟨taken, rfl, derived⟩ := sound _ _ _ readValue
        obtain ⟨rfl, colonSpelled⟩ := symbol_eq_ok.mp readColon
        obtain ⟨bodyTokens, rfl, derivedBody⟩ := soundBody _ _ _ readBody
        obtain ⟨laterTokens, rfl, derivedLater⟩ := induction _ _ _ readLater
        exact ⟨keyword :: (taken ++ colon :: (bodyTokens ++ laterTokens)), by simp,
          .cons spelled derived colonSpelled derivedBody derivedLater⟩
      · obtain ⟨rfl, rfl⟩ := pure_eq_ok.mp none
        exact ⟨[], rfl, .nil⟩

section Statements

variable {expression : Reader Expr} (sound : Sound expression IsExpr)
variable {keyword : Token} {tokens rest : List Token} {stmt : Stmt}

include sound

theorem sound_declaration (spelled : keyword.literal = "LET")
    (read : declaration expression tokens = .ok stmt rest) :
    ∃ taken, keyword :: tokens = taken ++ rest ∧ IsStmt taken stmt := by
  obtain ⟨name, _, readName, read⟩ := bind_eq_ok.mp read
  obtain ⟨typeName, _, readType, read⟩ := bind_eq_ok.mp read
  obtain ⟨value, _, readValue, read⟩ := bind_eq_ok.mp read
  split at read
  · exact absurd read missing_ne_ok
  next typed =>
    obtain ⟨semicolon, _, readSemicolon, finished⟩ := bind_eq_ok.mp read
    obtain ⟨rfl, rfl⟩ := pure_eq_ok.mp finished
    obtain ⟨nameToken, rfl, isIdentifier, rfl⟩ := identifier_eq_ok.mp readName
    obtain ⟨typeTokens, rfl, derivedType⟩ :=
      (sound_identifier _).introduced ":" _ _ _ readType
    obtain ⟨valueTokens, rfl, derivedValue⟩ := sound.introduced "=" _ _ _ readValue
    obtain ⟨rfl, ended⟩ := symbol_eq_ok.mp readSemicolon
    exact ⟨keyword :: nameToken :: (typeTokens ++ (valueTokens ++ [semicolon])), by simp,
      .declaration spelled isIdentifier derivedType derivedValue
        (by simpa only [Bool.not_eq_true] using typed) ended⟩

theorem sound_switch {body : Reader (List Stmt)} (soundBody : Sound body (IsBlock caseClosers))
    {budget : Nat} (spelled : keyword.literal = "SWITCH")
    (read : switch expression body budget tokens = .ok stmt rest) :
    ∃ taken, keyword :: tokens = taken ++ rest ∧ IsStmt taken stmt := by
  obtain ⟨condition, _, readCondition, read⟩ := bind_eq_ok.mp read
  obtain ⟨valued, _, readCases, read⟩ := bind_eq_ok.mp read
  obtain ⟨default, _, readDefault, read⟩ := bind_eq_ok.mp read
  obtain ⟨stmts, _, readBody, read⟩ := bind_eq_ok.mp read
  obtain ⟨closing, _, readClosing, finished⟩ := bind_eq_ok.mp read
  obtain ⟨rfl, rfl⟩ := pure_eq_ok.mp finished
  obtain ⟨taken, rfl, derived⟩ := sound _ _ _ readCondition
  obtain ⟨caseTokens, rfl, derivedCases⟩ := sound.cases soundBody budget _ _ _ readCases
  obtain ⟨rfl, defaultSpelled⟩ := symbol_eq_ok.mp readDefault
  obtain ⟨bodyTokens, rfl, derivedBody⟩ := soundBody _ _ _ readBody
  obtain ⟨rfl, closed⟩ := symbol_eq_ok.mp readClosing
  exact ⟨keyword :: (taken ++ (caseTokens ++ default :: (bodyTokens ++ [closing]))), by simp,
    .switch spelled derived derivedCases defaultSpelled derivedBody closed rfl⟩

theorem sound_branch {body : Reader (List Stmt)} (soundBody : Sound body (IsBlock blockClosers))
    (spelled : keyword.literal = "IF")
    (read : branch expression body tokens = .ok stmt rest) :
    ∃ taken, keyword :: tokens = taken ++ rest ∧ IsStmt taken stmt := by
  obtain ⟨condition, _, readCondition, read⟩ := bind_eq_ok.mp read
  obtain ⟨opening, _, readOpening, read⟩ := bind_eq_ok.mp read
  obtain ⟨thenBlock, _, readThen, read⟩ := bind_eq_ok.mp read
  obtain ⟨elseBlock, _, readElse, read⟩ := bind_eq_ok.mp read
  obtain ⟨closing, _, readClosing, finished⟩ := bind_eq_ok.mp read
  obtain ⟨rfl, rfl⟩ := pure_eq_ok.mp finished
  obtain ⟨taken, rfl, derived⟩ := sound _ _ _ readCondition
  obtain ⟨rfl, opened⟩ := symbol_eq_ok.mp readOpening
  obtain ⟨thenTokens, rfl, derivedThen⟩ := soundBody _ _ _ readThen
  obtain ⟨elseTokens, rfl, derivedElse⟩ := soundBody.introduced "ELSE" _ _ _ readElse
  obtain ⟨rfl, closed⟩ := symbol_eq_ok.mp readClosing
  cases derivedElse with
  | none =>
      exact ⟨keyword :: (taken ++ opening :: (thenTokens ++ [closing])), by simp,
        .branch spelled derived opened derivedThen closed⟩
  | @some middle elseTokens elseBlock middleSpelled derivedElse =>
      exact ⟨keyword :: (taken ++ opening :: (thenTokens ++ middle ::
          (elseTokens ++ [closing]))), by simp,
        .branchElse spelled derived opened derivedThen middleSpelled derivedElse closed⟩

theorem sound_loop {body : Reader (List Stmt)} (soundBody : Sound body (IsBlock blockClosers))
    (spelled : keyword.literal = "WHILE")
    (read : loop expression body tokens = .ok stmt rest) :
    ∃ taken, keyword :: tokens = taken ++ rest ∧ IsStmt taken stmt := by
  obtain ⟨condition, _, readCondition, read⟩ := bind_eq_ok.mp read
  obtain ⟨opening, _, readOpening, read⟩ := bind_eq_ok.mp read
  obtain ⟨stmts, _, readBody, read⟩ := bind_eq_ok.mp read
  obtain ⟨closing, _, readClosing, finished⟩ := bind_eq_ok.mp read
  obtain ⟨rfl, rfl⟩ := pure_eq_ok.mp finished
  obtain ⟨taken, rfl, derived⟩ := sound _ _ _ readCondition
  obtain ⟨rfl, opened⟩ := symbol_eq_ok.mp readOpening
  obtain ⟨bodyTokens, rfl, derivedBody⟩ := soundBody _ _ _ readBody
  obtain ⟨rfl, closed⟩ := symbol_eq_ok.mp readClosing
  exact ⟨keyword :: (taken ++ opening :: (bodyTokens ++ [closing])), by simp,
    .loop spelled derived opened derivedBody closed⟩

theorem sound_result (spelled : keyword.literal = "RETURN")
    (read : result expression tokens = .ok stmt rest) :
    ∃ taken, keyword :: tokens = taken ++ rest ∧ IsStmt taken stmt := by
  obtain ⟨value, _, readValue, read⟩ := bind_eq_ok.mp read
  obtain ⟨semicolon, _, readSemicolon, finished⟩ := bind_eq_ok.mp read
  obtain ⟨rfl, rfl⟩ := pure_eq_ok.mp finished
  obtain ⟨taken, rfl, derived⟩ := sound _ _ _ readValue
  obtain ⟨rfl, ended⟩ := symbol_eq_ok.mp readSemicolon
  exact ⟨keyword :: (taken ++ [semicolon]), by simp, .result spelled derived ended⟩

theorem sound_simple (different : StartsWithNone statementWords tokens)
    (read : simple expression tokens = .ok stmt rest) :
    ∃ taken, tokens = taken ++ rest ∧ IsStmt taken stmt := by
  obtain ⟨first, _, readFirst, readRest⟩ := bind_eq_ok.mp read
  obtain ⟨value, _, readValue, readEnd⟩ := bind_eq_ok.mp readRest
  obtain ⟨taken, rfl, derived⟩ := sound _ _ _ readFirst
  have noKeyword : StartsWithNone statementWords taken := by
    intro token head
    apply different token
    simp [List.head?_append, head]
  rcases introduced_eq_ok.mp readValue with
    ⟨equals, tail, inner, rfl, spelled, readInner, rfl⟩ | ⟨_, rfl, rfl⟩
  · obtain ⟨semicolon, _, readSemicolon, finished⟩ := bind_eq_ok.mp readEnd
    obtain ⟨rfl, rfl⟩ := pure_eq_ok.mp finished
    obtain ⟨valueTokens, rfl, derivedValue⟩ := sound _ _ _ readInner
    obtain ⟨rfl, ended⟩ := symbol_eq_ok.mp readSemicolon
    exact ⟨taken ++ equals :: (valueTokens ++ [semicolon]), by simp,
      .assignment noKeyword derived spelled derivedValue ended⟩
  · obtain ⟨semicolon, _, readSemicolon, finished⟩ := bind_eq_ok.mp readEnd
    obtain ⟨rfl, rfl⟩ := pure_eq_ok.mp finished
    obtain ⟨rfl, ended⟩ := symbol_eq_ok.mp readSemicolon
    exact ⟨taken ++ [semicolon], by simp, .expression noKeyword derived ended⟩

end Statements

theorem sound_statement (budget : Nat) : Sound (statement budget) IsStmt := by
  induction budget with
  | zero => exact fun _ _ _ read => absurd read missing_ne_ok
  | succ budget induction =>
      have sound := sound_expression budget
      have soundBody := induction.block blockClosers budget
      intro tokens stmt rest read
      rcases ifAccept_eq_ok.mp read with ⟨keyword, tail, rfl, spelled, read⟩ | ⟨notLet, read⟩
      · exact sound_declaration sound spelled read
      rcases ifAccept_eq_ok.mp read with ⟨keyword, tail, rfl, spelled, read⟩ | ⟨notSwitch, read⟩
      · exact sound_switch sound (induction.block caseClosers budget) spelled read
      rcases ifAccept_eq_ok.mp read with ⟨keyword, tail, rfl, spelled, read⟩ | ⟨notIf, read⟩
      · exact sound_branch sound soundBody spelled read
      rcases ifAccept_eq_ok.mp read with ⟨keyword, tail, rfl, spelled, read⟩ | ⟨notWhile, read⟩
      · exact sound_loop sound soundBody spelled read
      rcases ifAccept_eq_ok.mp read with ⟨keyword, tail, rfl, spelled, read⟩ | ⟨notReturn, read⟩
      · exact sound_result sound spelled read
      have different : StartsWithNone statementWords tokens := by
        intro token head
        simp [statementWords, notLet token head, notSwitch token head, notIf token head,
          notWhile token head, notReturn token head]
      exact sound_simple (sound_expression (budget + 1)) different read

theorem sound_typedName (context : String) : Sound (typedName context) IsTypedName := by
  intro tokens value rest read
  obtain ⟨name, _, readName, readRest⟩ := bind_eq_ok.mp read
  obtain ⟨colon, _, readColon, readRest⟩ := bind_eq_ok.mp readRest
  obtain ⟨typeName, _, readType, finished⟩ := bind_eq_ok.mp readRest
  obtain ⟨rfl, rfl⟩ := pure_eq_ok.mp finished
  obtain ⟨nameToken, rfl, isName, rfl⟩ := identifier_eq_ok.mp readName
  obtain ⟨rfl, spelled⟩ := symbol_eq_ok.mp readColon
  obtain ⟨typeToken, rfl, isType, rfl⟩ := identifier_eq_ok.mp readType
  exact ⟨[nameToken, colon, typeToken], rfl, .mk isName spelled isType⟩

section Definitions

variable {keyword : Token} {tokens rest : List Token} {item : Global}

theorem sound_listGlobal {expression : Reader Expr} (sound : Sound expression IsExpr)
    {budget : Nat} (spelled : keyword.literal = "LIST")
    (read : finishGlobal (listGlobal expression budget keyword.offset) tokens = .ok item rest) :
    ∃ taken, keyword :: tokens = taken ++ rest ∧ IsGlobal taken item := by
  obtain ⟨global, _, readGlobal, readEnd⟩ := bind_eq_ok.mp read
  obtain ⟨semicolon, _, readSemicolon, finished⟩ := bind_eq_ok.mp readEnd
  obtain ⟨rfl, rfl⟩ := pure_eq_ok.mp finished
  obtain ⟨⟨name, typeName⟩, _, readName, readList⟩ := bind_eq_ok.mp readGlobal
  obtain ⟨equals, _, readEquals, readList⟩ := bind_eq_ok.mp readList
  obtain ⟨bracket, _, readBracket, readList⟩ := bind_eq_ok.mp readList
  obtain ⟨elements, _, readElements, readList⟩ := bind_eq_ok.mp readList
  obtain ⟨closing, _, readClosing, finished⟩ := bind_eq_ok.mp readList
  obtain ⟨rfl, rfl⟩ := pure_eq_ok.mp finished
  obtain ⟨nameTokens, rfl, derivedName⟩ := sound_typedName _ _ _ _ readName
  obtain ⟨rfl, equalsSpelled⟩ := symbol_eq_ok.mp readEquals
  obtain ⟨rfl, opened⟩ := symbol_eq_ok.mp readBracket
  obtain ⟨taken, rfl, derived, nonempty⟩ := sound.items budget _ _ _ readElements
  obtain ⟨rfl, closed⟩ := symbol_eq_ok.mp readClosing
  obtain ⟨rfl, ended⟩ := symbol_eq_ok.mp readSemicolon
  exact ⟨keyword :: (nameTokens ++ equals :: bracket :: (taken ++ [closing, semicolon])),
    by simp, .list spelled derivedName equalsSpelled opened derived nonempty closed ended⟩

theorem sound_mutableGlobal {expression : Reader Expr} (sound : Sound expression IsExpr)
    (spelled : keyword.literal = "VAR")
    (read : finishGlobal (mutableGlobal expression keyword.offset) tokens = .ok item rest) :
    ∃ taken, keyword :: tokens = taken ++ rest ∧ IsGlobal taken item := by
  obtain ⟨global, _, readGlobal, readEnd⟩ := bind_eq_ok.mp read
  obtain ⟨semicolon, _, readSemicolon, finished⟩ := bind_eq_ok.mp readEnd
  obtain ⟨rfl, rfl⟩ := pure_eq_ok.mp finished
  obtain ⟨⟨name, typeName⟩, _, readName, readRest⟩ := bind_eq_ok.mp readGlobal
  obtain ⟨value, _, readValue, finished⟩ := bind_eq_ok.mp readRest
  obtain ⟨rfl, rfl⟩ := pure_eq_ok.mp finished
  obtain ⟨nameTokens, rfl, derivedName⟩ := sound_typedName _ _ _ _ readName
  obtain ⟨valueTokens, rfl, derivedValue⟩ := sound.introduced "=" _ _ _ readValue
  obtain ⟨rfl, ended⟩ := symbol_eq_ok.mp readSemicolon
  exact ⟨keyword :: (nameTokens ++ (valueTokens ++ [semicolon])), by simp,
    .mutable spelled derivedName derivedValue ended⟩

theorem sound_immutableGlobal {expression : Reader Expr} (sound : Sound expression IsExpr)
    (spelled : keyword.literal = "VAL")
    (read : finishGlobal (immutableGlobal expression keyword.offset) tokens = .ok item rest) :
    ∃ taken, keyword :: tokens = taken ++ rest ∧ IsGlobal taken item := by
  obtain ⟨global, _, readGlobal, readEnd⟩ := bind_eq_ok.mp read
  obtain ⟨semicolon, _, readSemicolon, finished⟩ := bind_eq_ok.mp readEnd
  obtain ⟨rfl, rfl⟩ := pure_eq_ok.mp finished
  obtain ⟨⟨name, typeName⟩, _, readName, readRest⟩ := bind_eq_ok.mp readGlobal
  obtain ⟨equals, _, readEquals, readRest⟩ := bind_eq_ok.mp readRest
  obtain ⟨value, _, readValue, finished⟩ := bind_eq_ok.mp readRest
  obtain ⟨rfl, rfl⟩ := pure_eq_ok.mp finished
  obtain ⟨nameTokens, rfl, derivedName⟩ := sound_typedName _ _ _ _ readName
  obtain ⟨rfl, equalsSpelled⟩ := symbol_eq_ok.mp readEquals
  obtain ⟨taken, rfl, derived⟩ := sound _ _ _ readValue
  obtain ⟨rfl, ended⟩ := symbol_eq_ok.mp readSemicolon
  exact ⟨keyword :: (nameTokens ++ equals :: (taken ++ [semicolon])), by simp,
    .immutable spelled derivedName equalsSpelled derived ended⟩

theorem sound_function {budget : Nat} {found : Function} (spelled : keyword.literal = "FUN")
    (read : function budget keyword.offset tokens = .ok found rest) :
    ∃ taken, keyword :: tokens = taken ++ rest ∧ IsFunction taken found := by
  obtain ⟨name, _, readName, readRest⟩ := bind_eq_ok.mp read
  obtain ⟨opening, _, readOpening, readRest⟩ := bind_eq_ok.mp readRest
  obtain ⟨parameters, _, readParameters, readRest⟩ := bind_eq_ok.mp readRest
  obtain ⟨closing, _, readClosing, readRest⟩ := bind_eq_ok.mp readRest
  obtain ⟨returnType, _, readType, readRest⟩ := bind_eq_ok.mp readRest
  obtain ⟨start, _, readStart, readRest⟩ := bind_eq_ok.mp readRest
  obtain ⟨body, _, readBody, readRest⟩ := bind_eq_ok.mp readRest
  obtain ⟨finish, _, readFinish, finished⟩ := bind_eq_ok.mp readRest
  obtain ⟨rfl, rfl⟩ := pure_eq_ok.mp finished
  obtain ⟨nameToken, rfl, isIdentifier, rfl⟩ := identifier_eq_ok.mp readName
  obtain ⟨rfl, opened⟩ := symbol_eq_ok.mp readOpening
  obtain ⟨parameterTokens, rfl, derivedParameters, starts⟩ :=
    (sound_typedName "in parameter list").itemsUnless ")" budget _ _ _ readParameters
  obtain ⟨rfl, closed⟩ := symbol_eq_ok.mp readClosing
  obtain ⟨typeTokens, rfl, derivedType⟩ := (sound_identifier _).introduced ":" _ _ _ readType
  obtain ⟨rfl, started⟩ := symbol_eq_ok.mp readStart
  obtain ⟨bodyTokens, rfl, derivedBody⟩ :=
    (sound_statement budget).block blockClosers budget _ _ _ readBody
  obtain ⟨rfl, finishSpelled⟩ := symbol_eq_ok.mp readFinish
  exact ⟨keyword :: nameToken :: opening :: (parameterTokens ++ closing ::
      (typeTokens ++ start :: (bodyTokens ++ [finish]))), by simp,
    .mk spelled isIdentifier opened derivedParameters starts closed derivedType started
      derivedBody finishSpelled⟩

theorem sound_definition {budget : Nat} {found : Definition} {program : Program}
    {later : List Token} (derivedLater : IsProgram later program)
    (read : definition budget tokens = .ok found rest) :
    ∃ taken, tokens = taken ++ rest ∧ IsProgram (taken ++ later) (found.before program) := by
  have sound := sound_expression budget
  unfold definition at read
  split at read
  · cases read
  next keyword tail =>
    split at read
    next spelled =>
      obtain ⟨function, readFunction, rfl⟩ := map_eq_ok.mp read
      obtain ⟨taken, split, derived⟩ := sound_function spelled readFunction
      exact ⟨taken, split, .function derived derivedLater⟩
    split at read
    next spelled =>
      obtain ⟨item, readGlobal, rfl⟩ := map_eq_ok.mp read
      obtain ⟨taken, split, derived⟩ := sound_listGlobal sound spelled readGlobal
      exact ⟨taken, split, .global derived derivedLater⟩
    split at read
    next spelled =>
      obtain ⟨item, readGlobal, rfl⟩ := map_eq_ok.mp read
      obtain ⟨taken, split, derived⟩ := sound_mutableGlobal sound spelled readGlobal
      exact ⟨taken, split, .global derived derivedLater⟩
    split at read
    next spelled =>
      obtain ⟨item, readGlobal, rfl⟩ := map_eq_ok.mp read
      obtain ⟨taken, split, derived⟩ := sound_immutableGlobal sound spelled readGlobal
      exact ⟨taken, split, .global derived derivedLater⟩
    · cases read

end Definitions

theorem sound_program (budget : Nat) : Sound (program budget) IsProgram := by
  induction budget with
  | zero =>
      intro tokens found rest read
      obtain ⟨rfl, rfl⟩ := pure_eq_ok.mp read
      exact ⟨[], rfl, .nil⟩
  | succ budget induction =>
      intro tokens found rest read
      unfold program at read
      split at read
      · cases read
        exact ⟨[], rfl, .nil⟩
      next token tail =>
        obtain ⟨first, _, readFirst, readRest⟩ := bind_eq_ok.mp read
        obtain ⟨others, _, readOthers, finished⟩ := bind_eq_ok.mp readRest
        obtain ⟨rfl, rfl⟩ := pure_eq_ok.mp finished
        obtain ⟨later, rfl, derivedLater⟩ := induction _ _ _ readOthers
        obtain ⟨taken, split, derived⟩ := sound_definition derivedLater readFirst
        exact ⟨taken ++ later, by simp [split], derived⟩

end Reader

end Procedural
