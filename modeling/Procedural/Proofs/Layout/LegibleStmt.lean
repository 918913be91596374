import Procedural.Proofs.Layout.Legible

/-!
# Statements that can be read again

Statements in canonical layout derive the same statements up to offsets.  An alternative
without statements is not written, which leaves the statement as it is.
-/

namespace Procedural

open Grammar Scan

def wordsOfLines (lines : List Line) : List String :=
  lines.flatMap Line.words

@[simp] theorem wordsOfLines_nil : wordsOfLines [] = [] :=
  rfl

@[simp] theorem wordsOfLines_cons (line : Line) (lines : List Line) :
    wordsOfLines (line :: lines) = line.words ++ wordsOfLines lines :=
  List.flatMap_cons ..

@[simp] theorem wordsOfLines_append (front back : List Line) :
    wordsOfLines (front ++ back) = wordsOfLines front ++ wordsOfLines back :=
  List.flatMap_append ..

theorem Legible.introduced {α : Type} (literal : String) {item : List Token → α → Prop}
    {unplaced : α → α} (write : α → List String) {value : Option α}
    (fixed : literal ∈ fixedWords)
    (legible : ∀ inner, value = some inner → Legible item unplaced (write inner) inner) :
    Legible (Introduced literal item) (Option.map unplaced)
      (value.elim [] fun inner => literal :: write inner) value := by
  cases value with
  | none =>
      refine ⟨by simp, ?_⟩
      intro tokens spells
      obtain rfl := spells.nil
      exact ⟨none, .none, rfl⟩
  | some inner =>
      obtain ⟨areWords, reads⟩ := legible inner rfl
      constructor
      · simp only [Option.elim_some, List.forall_mem_cons]
        exact ⟨isWord_fixed fixed, areWords⟩
      · intro tokens spells
        obtain ⟨token, _, rfl, spelled, _, spellsInner⟩ := spells.cons
        obtain ⟨again, derived, same⟩ := reads _ spellsInner
        exact ⟨some again, .some spelled derived, by simp [same]⟩

theorem legible_identifier {token : Token} (isIdentifier : token.kind = .identifier)
    (lexical : token.IsLexical) : Legible IsIdentifier id [token.literal] token.literal := by
  constructor
  · intro word member
    obtain rfl := List.mem_singleton.mp member
    exact ⟨_, lexical⟩
  · intro tokens spells
    obtain ⟨again, rfl, spelled, lexicalAgain⟩ := spells.single
    have same : again.kind = token.kind := lexicalAgain.kind_eq lexical spelled
    exact ⟨_, .mk (same.trans isIdentifier), spelled⟩

theorem legible_type {tokens : List Token} {typeName : Option String}
    (derived : Introduced ":" IsIdentifier tokens typeName)
    (lexical : ∀ token ∈ tokens, token.IsLexical) :
    Legible (Introduced ":" IsIdentifier) id (wordsOfType typeName) typeName := by
  have legible : ∀ inner, typeName = some inner → Legible IsIdentifier id [inner] inner := by
    rintro inner rfl
    cases derived with
    | some _ derived =>
        obtain ⟨isIdentifier⟩ := derived
        exact legible_identifier isIdentifier (lexical _ (by simp))
  have introduced := Legible.introduced ":" (fun inner => [inner]) (by decide) legible
  cases typeName <;> simpa [wordsOfType] using introduced

theorem legible_value {tokens : List Token} {value : Option Expr}
    (derived : Introduced "=" IsExpr tokens value)
    (lexical : ∀ token ∈ tokens, token.IsLexical) :
    Legible (Introduced "=" IsExpr) (Option.map Expr.unplaced) (wordsOfValue value) value := by
  have legible : ∀ inner, value = some inner →
      Legible IsExpr Expr.unplaced inner.words inner := by
    rintro inner rfl
    cases derived with
    | some _ derived => exact derived.legible fun token member => lexical token (by simp [member])
  have introduced := Legible.introduced "=" Expr.words (by decide) legible
  cases value <;> simpa [wordsOfValue] using introduced

/-- A statement starts with a keyword in canonical layout only if it was read from one. -/
theorem Grammar.IsStmt.first {tokens : List Token} {stmt : Stmt} (derived : IsStmt tokens stmt)
    (lexical : ∀ token ∈ tokens, token.IsLexical) (depth : Nat) :
    StartsLike tokens (wordsOfLines (stmt.lines depth)) := by
  have ofExpr {tokens : List Token} {value : Expr} (later : List Token) (words : List String)
      (derived : IsExpr tokens value) (lexical : ∀ token ∈ tokens, token.IsLexical) :
      StartsLike (tokens ++ later) (value.words ++ words) := by
    obtain ⟨token, word, rest, head, written, like⟩ := (derived.first lexical).1
    exact ⟨token, word, rest ++ words, by simp [List.head?_append, head], by simp [written], like⟩
  cases derived with
  | declaration spelled => exact ⟨_, "LET", _, rfl, rfl, fun _ => spelled⟩
  | switch spelled => exact ⟨_, "SWITCH", _, rfl, rfl, fun _ => spelled⟩
  | branch spelled => exact ⟨_, "IF", _, rfl, rfl, fun _ => spelled⟩
  | @branchElse _ _ _ _ _ _ _ _ _ elseBlock spelled =>
      cases elseBlock <;> exact ⟨_, "IF", _, rfl, rfl, fun _ => spelled⟩
  | loop spelled => exact ⟨_, "WHILE", _, rfl, rfl, fun _ => spelled⟩
  | result spelled => exact ⟨_, "RETURN", _, rfl, rfl, fun _ => spelled⟩
  | @expression semicolon _ _ _ derived =>
      have starts := ofExpr [semicolon] [";"] derived (List.forall_mem_append.mp lexical).1
      simpa [Stmt.lines] using starts
  | @assignment equals semicolon _ valueTokens _ value _ derived =>
      have starts := ofExpr (equals :: (valueTokens ++ [semicolon]))
        ("=" :: value.words ++ [";"]) derived
        (List.forall_mem_append.mp lexical).1
      simpa [Stmt.lines] using starts

theorem Case.linesOfCases_append (depth : Nat) (front back : List Case) :
    linesOfCases depth (front ++ back) = linesOfCases depth front ++ linesOfCases depth back := by
  induction front with
  | nil => rfl
  | cons case rest induction =>
      simp only [List.cons_append, linesOfCases, induction, List.append_assoc]

theorem legible_declaration {name : Token} {typeTokens valueTokens : List Token}
    {typeName : Option String} {value : Option Expr} (isIdentifier : name.kind = .identifier)
    (lexical : name.IsLexical) (derivedType : Introduced ":" IsIdentifier typeTokens typeName)
    (lexicalType : ∀ token ∈ typeTokens, token.IsLexical)
    (derivedValue : Introduced "=" IsExpr valueTokens value)
    (lexicalValue : ∀ token ∈ valueTokens, token.IsLexical)
    (typed : (typeName.isNone && value.isNone) = false) (depth : Nat) :
    Legible IsStmt Stmt.unplaced
      (wordsOfLines ((Stmt.declaration name.literal typeName value).lines depth))
      (.declaration name.literal typeName value) := by
  have type := legible_type derivedType lexicalType
  have initial := legible_value derivedValue lexicalValue
  have written : wordsOfLines ((Stmt.declaration name.literal typeName value).lines depth) =
      "LET" :: name.literal :: (wordsOfType typeName ++ (wordsOfValue value ++ [";"])) := by
    simp [Stmt.lines]
  rw [written]
  constructor
  · simp only [List.forall_mem_cons, List.forall_mem_append]
    exact ⟨isWord_fixed (by decide), ⟨_, lexical⟩, type.areWords, initial.areWords,
      isWord_fixed (by decide), by simp⟩
  · intro again spells
    obtain ⟨keyword, _, rfl, spelled, _, spells⟩ := spells.cons
    obtain ⟨name', _, rfl, sameName, lexicalName', spells⟩ := spells.cons
    obtain ⟨typeTokens, _, rfl, spellsType, spells⟩ := spells.append
    obtain ⟨valueTokens, _, rfl, spellsValue, spells⟩ := spells.append
    obtain ⟨semicolon, _, rfl, ended, _, spells⟩ := spells.cons
    obtain rfl := spells.nil
    have sameKind : name'.kind = name.kind := lexicalName'.kind_eq lexical sameName
    obtain ⟨typeName', derivedType', sameType⟩ := type.reads typeTokens spellsType
    have sameType : typeName' = typeName := sameType
    obtain ⟨value', derivedValue', sameValue⟩ := initial.reads valueTokens spellsValue
    have typed' : (typeName'.isNone && value'.isNone) = false := by
      have same := congrArg Option.isNone sameValue
      simp only [Option.isNone_map] at same
      rw [sameType, same, typed]
    refine ⟨_, .declaration spelled (sameKind.trans isIdentifier) derivedType' derivedValue'
      typed' ended, ?_⟩
    simp only [Stmt.unplaced, sameName, sameType, sameValue]

section Statements

variable {value : Expr} (legible : Legible IsExpr Expr.unplaced value.words value) (depth : Nat)

include legible

theorem legible_result :
    Legible IsStmt Stmt.unplaced (wordsOfLines ((Stmt.result value).lines depth))
      (.result value) := by
  have written : wordsOfLines ((Stmt.result value).lines depth) =
      "RETURN" :: (value.words ++ [";"]) := by
    simp [Stmt.lines]
  rw [written]
  constructor
  · simp only [List.forall_mem_cons, List.forall_mem_append]
    exact ⟨isWord_fixed (by decide), legible.areWords, isWord_fixed (by decide), by simp⟩
  · intro again spells
    obtain ⟨keyword, _, rfl, spelled, _, spells⟩ := spells.cons
    obtain ⟨tokens, _, rfl, spellsValue, spells⟩ := spells.append
    obtain ⟨semicolon, _, rfl, ended, _, spells⟩ := spells.cons
    obtain rfl := spells.nil
    obtain ⟨_, derived, same⟩ := legible.reads tokens spellsValue
    refine ⟨_, .result spelled derived ended, ?_⟩
    simp only [Stmt.unplaced, same]

theorem legible_expression {tokens : List Token} (like : StartsLike tokens value.words)
    (starts : StartsWithNone statementWords tokens) :
    Legible IsStmt Stmt.unplaced (wordsOfLines ((Stmt.expression value).lines depth))
      (.expression value) := by
  have written : wordsOfLines ((Stmt.expression value).lines depth) = value.words ++ [";"] := by
    simp [Stmt.lines]
  rw [written]
  constructor
  · simp only [List.forall_mem_cons, List.forall_mem_append]
    exact ⟨legible.areWords, isWord_fixed (by decide), by simp⟩
  · intro again spells
    obtain ⟨tokens, _, rfl, spellsValue, spells⟩ := spells.append
    obtain ⟨semicolon, _, rfl, ended, _, spells⟩ := spells.cons
    obtain rfl := spells.nil
    obtain ⟨_, derived, same⟩ := legible.reads tokens spellsValue
    have starts' := like.startsWithNone (by decide) starts spellsValue
    refine ⟨_, .expression starts' derived ended, ?_⟩
    simp only [Stmt.unplaced, same]

theorem legible_assignment {tokens : List Token} {stored : Expr}
    (like : StartsLike tokens value.words) (starts : StartsWithNone statementWords tokens)
    (legibleStored : Legible IsExpr Expr.unplaced stored.words stored) :
    Legible IsStmt Stmt.unplaced (wordsOfLines ((Stmt.assignment value stored).lines depth))
      (.assignment value stored) := by
  have written : wordsOfLines ((Stmt.assignment value stored).lines depth) =
      value.words ++ "=" :: (stored.words ++ [";"]) := by
    simp [Stmt.lines]
  rw [written]
  constructor
  · simp only [List.forall_mem_cons, List.forall_mem_append]
    exact ⟨legible.areWords, isWord_fixed (by decide), legibleStored.areWords,
      isWord_fixed (by decide), by simp⟩
  · intro again spells
    obtain ⟨tokens, _, rfl, spellsReceiver, spells⟩ := spells.append
    obtain ⟨equals, _, rfl, spelled, _, spells⟩ := spells.cons
    obtain ⟨storedTokens, _, rfl, spellsStored, spells⟩ := spells.append
    obtain ⟨semicolon, _, rfl, ended, _, spells⟩ := spells.cons
    obtain rfl := spells.nil
    obtain ⟨_, derived, same⟩ := legible.reads tokens spellsReceiver
    obtain ⟨_, derivedStored, sameStored⟩ := legibleStored.reads storedTokens spellsStored
    have starts' := like.startsWithNone (by decide) starts spellsReceiver
    refine ⟨_, .assignment starts' derived spelled derivedStored ended, ?_⟩
    simp only [Stmt.unplaced, same, sameStored]

theorem legible_loop {body : List Stmt}
    (legibleBody : Legible (IsBlock Reader.blockClosers) Stmt.unplacedBlock
      (wordsOfLines (Stmt.linesOfBlock (depth + 1) body)) body) :
    Legible IsStmt Stmt.unplaced (wordsOfLines ((Stmt.loop value body).lines depth))
      (.loop value body) := by
  have written : wordsOfLines ((Stmt.loop value body).lines depth) =
      "WHILE" :: (value.words ++ "DO" ::
        (wordsOfLines (Stmt.linesOfBlock (depth + 1) body) ++ ["END"])) := by
    simp [Stmt.lines]
  rw [written]
  constructor
  · simp only [List.forall_mem_cons, List.forall_mem_append]
    exact ⟨isWord_fixed (by decide), legible.areWords, isWord_fixed (by decide),
      legibleBody.areWords, isWord_fixed (by decide), by simp⟩
  · intro again spells
    obtain ⟨keyword, _, rfl, spelled, _, spells⟩ := spells.cons
    obtain ⟨tokens, _, rfl, spellsCondition, spells⟩ := spells.append
    obtain ⟨opening, _, rfl, opened, _, spells⟩ := spells.cons
    obtain ⟨bodyTokens, _, rfl, spellsBody, spells⟩ := spells.append
    obtain ⟨closing, _, rfl, closed, _, spells⟩ := spells.cons
    obtain rfl := spells.nil
    obtain ⟨_, derived, same⟩ := legible.reads tokens spellsCondition
    obtain ⟨_, derivedBody, sameBody⟩ := legibleBody.reads bodyTokens spellsBody
    refine ⟨_, .loop spelled derived opened derivedBody closed, ?_⟩
    simp only [Stmt.unplaced, same, sameBody]

theorem legible_switch {cases : List Case} {body : List Stmt}
    (legibleCases : Legible IsCases Case.unplacedCases
      (wordsOfLines (Case.linesOfCases (depth + 1) cases)) cases)
    (legibleBody : Legible (IsBlock Reader.caseClosers) Stmt.unplacedBlock
      (wordsOfLines (Stmt.linesOfBlock (depth + 1 + 1) body)) body) :
    Legible IsStmt Stmt.unplaced
      (wordsOfLines ((Stmt.switch value (cases ++ [.mk none body])).lines depth))
      (.switch value (cases ++ [.mk none body])) := by
  have written : wordsOfLines ((Stmt.switch value (cases ++ [.mk none body])).lines depth) =
      "SWITCH" :: (value.words ++ (wordsOfLines (Case.linesOfCases (depth + 1) cases) ++
        "DEFAULT" :: (wordsOfLines (Stmt.linesOfBlock (depth + 1 + 1) body) ++ ["END"]))) := by
    simp [Stmt.lines, Case.linesOfCases_append, Case.linesOfCases, Case.lines]
  rw [written]
  constructor
  · simp only [List.forall_mem_cons, List.forall_mem_append]
    exact ⟨isWord_fixed (by decide), legible.areWords, legibleCases.areWords,
      isWord_fixed (by decide), legibleBody.areWords, isWord_fixed (by decide), by simp⟩
  · intro again spells
    obtain ⟨keyword, _, rfl, spelled, _, spells⟩ := spells.cons
    obtain ⟨tokens, _, rfl, spellsCondition, spells⟩ := spells.append
    obtain ⟨caseTokens, _, rfl, spellsCases, spells⟩ := spells.append
    obtain ⟨default, _, rfl, defaultSpelled, _, spells⟩ := spells.cons
    obtain ⟨bodyTokens, _, rfl, spellsBody, spells⟩ := spells.append
    obtain ⟨closing, _, rfl, closed, _, spells⟩ := spells.cons
    obtain rfl := spells.nil
    obtain ⟨_, derived, same⟩ := legible.reads tokens spellsCondition
    obtain ⟨_, derivedCases, sameCases⟩ := legibleCases.reads caseTokens spellsCases
    obtain ⟨_, derivedBody, sameBody⟩ := legibleBody.reads bodyTokens spellsBody
    refine ⟨_, .switch spelled derived derivedCases defaultSpelled derivedBody closed rfl, ?_⟩
    simp only [Stmt.unplaced, same, Case.unplacedCases_append, sameCases, Case.unplacedCases,
      Case.unplaced, sameBody]

theorem legible_case {body : List Stmt} {cases : List Case}
    (legibleBody : Legible (IsBlock Reader.caseClosers) Stmt.unplacedBlock
      (wordsOfLines (Stmt.linesOfBlock (depth + 1) body)) body)
    (legibleLater : Legible IsCases Case.unplacedCases
      (wordsOfLines (Case.linesOfCases depth cases)) cases) :
    Legible IsCases Case.unplacedCases
      (wordsOfLines (Case.linesOfCases depth (.mk (some value) body :: cases)))
      (.mk (some value) body :: cases) := by
  have written : wordsOfLines (Case.linesOfCases depth (.mk (some value) body :: cases)) =
      "CASE" :: (value.words ++ ":" :: (wordsOfLines (Stmt.linesOfBlock (depth + 1) body) ++
        wordsOfLines (Case.linesOfCases depth cases))) := by
    simp [Case.linesOfCases, Case.lines]
  rw [written]
  constructor
  · simp only [List.forall_mem_cons, List.forall_mem_append]
    exact ⟨isWord_fixed (by decide), legible.areWords, isWord_fixed (by decide),
      legibleBody.areWords, legibleLater.areWords⟩
  · intro again spells
    obtain ⟨keyword, _, rfl, spelled, _, spells⟩ := spells.cons
    obtain ⟨tokens, _, rfl, spellsValue, spells⟩ := spells.append
    obtain ⟨colon, _, rfl, colonSpelled, _, spells⟩ := spells.cons
    obtain ⟨bodyTokens, laterTokens, rfl, spellsBody, spellsLater⟩ := spells.append
    obtain ⟨_, derived, same⟩ := legible.reads tokens spellsValue
    obtain ⟨_, derivedBody, sameBody⟩ := legibleBody.reads bodyTokens spellsBody
    obtain ⟨_, derivedLater, sameLater⟩ := legibleLater.reads laterTokens spellsLater
    refine ⟨_, .cons spelled derived colonSpelled derivedBody derivedLater, ?_⟩
    simp only [Case.unplacedCases, Case.unplaced, Option.map_some, same, sameBody, sameLater]

variable {depth} {thenBlock : List Stmt}
variable (legibleThen : Legible (IsBlock Reader.blockClosers) Stmt.unplacedBlock
  (wordsOfLines (Stmt.linesOfBlock (depth + 1) thenBlock)) thenBlock)

include legibleThen

theorem legible_branch : Legible IsStmt Stmt.unplaced
    (wordsOfLines ((Stmt.branch value thenBlock []).lines depth))
    (.branch value thenBlock []) := by
  have written : wordsOfLines ((Stmt.branch value thenBlock []).lines depth) =
      "IF" :: (value.words ++ "DO" ::
        (wordsOfLines (Stmt.linesOfBlock (depth + 1) thenBlock) ++ ["END"])) := by
    simp [Stmt.lines]
  rw [written]
  constructor
  · simp only [List.forall_mem_cons, List.forall_mem_append]
    exact ⟨isWord_fixed (by decide), legible.areWords, isWord_fixed (by decide),
      legibleThen.areWords, isWord_fixed (by decide), by simp⟩
  · intro again spells
    obtain ⟨keyword, _, rfl, spelled, _, spells⟩ := spells.cons
    obtain ⟨tokens, _, rfl, spellsCondition, spells⟩ := spells.append
    obtain ⟨opening, _, rfl, opened, _, spells⟩ := spells.cons
    obtain ⟨thenTokens, _, rfl, spellsThen, spells⟩ := spells.append
    obtain ⟨closing, _, rfl, closed, _, spells⟩ := spells.cons
    obtain rfl := spells.nil
    obtain ⟨_, derived, same⟩ := legible.reads tokens spellsCondition
    obtain ⟨_, derivedThen, sameThen⟩ := legibleThen.reads thenTokens spellsThen
    refine ⟨_, .branch spelled derived opened derivedThen closed, ?_⟩
    simp only [Stmt.unplaced, same, sameThen, Stmt.unplacedBlock]

theorem legible_branchElse {first : Stmt} {rest : List Stmt}
    (legibleElse : Legible (IsBlock Reader.blockClosers) Stmt.unplacedBlock
      (wordsOfLines (Stmt.linesOfBlock (depth + 1) (first :: rest))) (first :: rest)) :
    Legible IsStmt Stmt.unplaced
      (wordsOfLines ((Stmt.branch value thenBlock (first :: rest)).lines depth))
      (.branch value thenBlock (first :: rest)) := by
  have written : wordsOfLines ((Stmt.branch value thenBlock (first :: rest)).lines depth) =
      "IF" :: (value.words ++ "DO" ::
        (wordsOfLines (Stmt.linesOfBlock (depth + 1) thenBlock) ++ "ELSE" ::
          (wordsOfLines (Stmt.linesOfBlock (depth + 1) (first :: rest)) ++ ["END"]))) := by
    simp [Stmt.lines, Stmt.linesOfBlock]
  rw [written]
  constructor
  · simp only [List.forall_mem_cons, List.forall_mem_append]
    exact ⟨isWord_fixed (by decide), legible.areWords, isWord_fixed (by decide),
      legibleThen.areWords, isWord_fixed (by decide), legibleElse.areWords,
      isWord_fixed (by decide), by simp⟩
  · intro again spells
    obtain ⟨keyword, _, rfl, spelled, _, spells⟩ := spells.cons
    obtain ⟨tokens, _, rfl, spellsCondition, spells⟩ := spells.append
    obtain ⟨opening, _, rfl, opened, _, spells⟩ := spells.cons
    obtain ⟨thenTokens, _, rfl, spellsThen, spells⟩ := spells.append
    obtain ⟨middle, _, rfl, middleSpelled, _, spells⟩ := spells.cons
    obtain ⟨elseTokens, _, rfl, spellsElse, spells⟩ := spells.append
    obtain ⟨closing, _, rfl, closed, _, spells⟩ := spells.cons
    obtain rfl := spells.nil
    obtain ⟨_, derived, same⟩ := legible.reads tokens spellsCondition
    obtain ⟨_, derivedThen, sameThen⟩ := legibleThen.reads thenTokens spellsThen
    obtain ⟨_, derivedElse, sameElse⟩ := legibleElse.reads elseTokens spellsElse
    refine ⟨_, .branchElse spelled derived opened derivedThen middleSpelled derivedElse closed, ?_⟩
    simp only [Stmt.unplaced, same, sameThen, sameElse]

end Statements

theorem legible_cons {closers : List String} {tokens : List Token} {stmt : Stmt}
    {stmts : List Stmt} {depth : Nat} (known : closers ⊆ keywords)
    (like : StartsLike tokens (wordsOfLines (stmt.lines depth)))
    (starts : StartsWithNone closers tokens)
    (legible : Legible IsStmt Stmt.unplaced (wordsOfLines (stmt.lines depth)) stmt)
    (legibleLater : Legible (IsBlock closers) Stmt.unplacedBlock
      (wordsOfLines (Stmt.linesOfBlock depth stmts)) stmts) :
    Legible (IsBlock closers) Stmt.unplacedBlock
      (wordsOfLines (Stmt.linesOfBlock depth (stmt :: stmts))) (stmt :: stmts) := by
  rw [Stmt.linesOfBlock, wordsOfLines_append]
  constructor
  · exact List.forall_mem_append.mpr ⟨legible.areWords, legibleLater.areWords⟩
  · intro again spells
    obtain ⟨stmtTokens, laterTokens, rfl, spellsStmt, spellsLater⟩ := spells.append
    obtain ⟨_, derived, same⟩ := legible.reads stmtTokens spellsStmt
    obtain ⟨_, derivedLater, sameLater⟩ := legibleLater.reads laterTokens spellsLater
    have starts' := like.startsWithNone known starts spellsStmt
    refine ⟨_, .cons starts' derived derivedLater, ?_⟩
    simp only [Stmt.unplacedBlock, same, sameLater]

mutual

/-- Statements that were read from tokens are legible. -/
theorem Grammar.IsStmt.legible : ∀ {tokens : List Token} {stmt : Stmt}, IsStmt tokens stmt →
    (∀ token ∈ tokens, token.IsLexical) → ∀ depth,
      Legible IsStmt Stmt.unplaced (wordsOfLines (stmt.lines depth)) stmt
  | _, _, .declaration _ isIdentifier derivedType derivedValue typed _, lexical, depth => by
      simp only [List.forall_mem_cons, List.forall_mem_append] at lexical
      obtain ⟨_, lexicalName, lexicalType, lexicalValue, _⟩ := lexical
      exact legible_declaration isIdentifier lexicalName derivedType lexicalType derivedValue
        lexicalValue typed depth
  | _, _, .switch _ derivedCondition derivedCases _ derivedBody _ whole, lexical, depth => by
      simp only [List.forall_mem_cons, List.forall_mem_append] at lexical
      obtain ⟨_, lexicalCondition, lexicalCases, _, lexicalBody, _⟩ := lexical
      rw [whole]
      exact legible_switch (derivedCondition.legible lexicalCondition) depth
        (Grammar.IsCases.legible derivedCases lexicalCases (depth + 1))
        (Grammar.IsBlock.legible derivedBody (by decide) lexicalBody (depth + 1 + 1))
  | _, _, .branch _ derivedCondition _ derivedThen _, lexical, depth => by
      simp only [List.forall_mem_cons, List.forall_mem_append] at lexical
      obtain ⟨_, lexicalCondition, _, lexicalThen, _⟩ := lexical
      exact legible_branch (derivedCondition.legible lexicalCondition)
        (Grammar.IsBlock.legible derivedThen (by decide) lexicalThen (depth + 1))
  | _, .branch _ _ elseBlock, .branchElse _ derivedCondition _ derivedThen _ derivedElse _,
    lexical, depth => by
      simp only [List.forall_mem_cons, List.forall_mem_append] at lexical
      obtain ⟨_, lexicalCondition, _, lexicalThen, _, lexicalElse, _⟩ := lexical
      have legibleCondition := derivedCondition.legible lexicalCondition
      have legibleThen := Grammar.IsBlock.legible derivedThen (by decide) lexicalThen (depth + 1)
      have legibleElse := Grammar.IsBlock.legible derivedElse (by decide) lexicalElse (depth + 1)
      cases elseBlock with
      | nil => exact legible_branch legibleCondition legibleThen
      | cons first rest => exact legible_branchElse legibleCondition legibleThen legibleElse
  | _, _, .loop _ derivedCondition _ derivedBody _, lexical, depth => by
      simp only [List.forall_mem_cons, List.forall_mem_append] at lexical
      obtain ⟨_, lexicalCondition, _, lexicalBody, _⟩ := lexical
      exact legible_loop (derivedCondition.legible lexicalCondition) depth
        (Grammar.IsBlock.legible derivedBody (by decide) lexicalBody (depth + 1))
  | _, _, .result _ derivedValue _, lexical, depth => by
      simp only [List.forall_mem_cons, List.forall_mem_append] at lexical
      exact legible_result (derivedValue.legible lexical.2.1) depth
  | _, _, .expression starts derivedValue _, lexical, depth => by
      obtain ⟨lexicalValue, _⟩ := List.forall_mem_append.mp lexical
      exact legible_expression (derivedValue.legible lexicalValue) depth
        (derivedValue.first lexicalValue).1 starts
  | _, _, .assignment starts derivedReceiver _ derivedValue _, lexical, depth => by
      simp only [List.forall_mem_cons, List.forall_mem_append] at lexical
      obtain ⟨lexicalReceiver, _, lexicalValue, _⟩ := lexical
      exact legible_assignment (derivedReceiver.legible lexicalReceiver) depth
        (derivedReceiver.first lexicalReceiver).1 starts (derivedValue.legible lexicalValue)

theorem Grammar.IsBlock.legible : ∀ {closers : List String} {tokens : List Token}
    {stmts : List Stmt}, IsBlock closers tokens stmts → closers ⊆ keywords →
    (∀ token ∈ tokens, token.IsLexical) → ∀ depth,
      Legible (IsBlock closers) Stmt.unplacedBlock (wordsOfLines (Stmt.linesOfBlock depth stmts))
        stmts
  | _, _, _, .nil, _, _, _ => by
      refine ⟨by simp [Stmt.linesOfBlock], ?_⟩
      intro again spells
      obtain rfl := spells.nil
      exact ⟨[], .nil, rfl⟩
  | _, _, _, .cons starts derived derivedLater, known, lexical, depth => by
      obtain ⟨lexicalFirst, lexicalLater⟩ := List.forall_mem_append.mp lexical
      exact legible_cons known (derived.first lexicalFirst depth) starts
        (Grammar.IsStmt.legible derived lexicalFirst depth)
        (Grammar.IsBlock.legible derivedLater known lexicalLater depth)

theorem Grammar.IsCases.legible : ∀ {tokens : List Token} {cases : List Case},
    IsCases tokens cases → (∀ token ∈ tokens, token.IsLexical) → ∀ depth,
      Legible IsCases Case.unplacedCases (wordsOfLines (Case.linesOfCases depth cases)) cases
  | _, _, .nil, _, _ => by
      refine ⟨by simp [Case.linesOfCases], ?_⟩
      intro again spells
      obtain rfl := spells.nil
      exact ⟨[], .nil, rfl⟩
  | _, _, .cons _ derivedValue _ derivedBody derivedLater, lexical, depth => by
      simp only [List.forall_mem_cons, List.forall_mem_append] at lexical
      obtain ⟨_, lexicalValue, _, lexicalBody, lexicalLater⟩ := lexical
      exact legible_case (derivedValue.legible lexicalValue) depth
        (Grammar.IsBlock.legible derivedBody (by decide) lexicalBody (depth + 1))
        (Grammar.IsCases.legible derivedLater lexicalLater depth)

end

end Procedural
