import Mathlib.Logic.Nonempty
import Procedural.Proofs.Reader.Grammar

/-!
# Derivation trees

The relations of the grammar say that tokens derive a tree of syntax, and not how.  A
derivation tree records the rule at each place and how the tokens are split among its
parts, so two trees over the same tokens can be compared.  Parts without a choice, such
as a name with its type, stay relations.
-/

namespace Procedural.Grammar

/-- Derivations of expressions whose outermost operator belongs to one of some levels. -/
inductive PhraseTree : List Level → List Token → Expr → Type where
  | literal {token : Token} {value : Scalar} :
      token.isLiteral = true → token.scalar? = some value →
      PhraseTree [] [token] (.literal (.at token.offset) value)
  | group {opening closing : Token} {tokens : List Token} {inner : Expr} :
      opening.IsOpening → PhraseTree Level.all tokens inner → closing.literal = ")" →
      PhraseTree [] (opening :: (tokens ++ [closing])) (.group (.at opening.offset) inner)
  | access {name : Token} :
      name.IsName → PhraseTree [] [name] (.access (.at name.offset) name.literal)
  | element {name opening closing : Token} {tokens : List Token} {index : Expr} :
      name.IsName → opening.literal = "[" → PhraseTree Level.all tokens index →
      closing.literal = "]" →
      PhraseTree [] (name :: opening :: (tokens ++ [closing]))
        (.element (.at name.offset) name.literal index)
  | call {name opening closing : Token} {tokens : List Token}
      {parts : List (List Token × Expr)} :
      name.IsName → opening.literal = "(" →
      (∀ part ∈ parts, PhraseTree Level.all part.1 part.2) →
      Joined (parts.map Prod.fst) tokens → StartsWithNone [")"] tokens →
      closing.literal = ")" →
      PhraseTree [] (name :: opening :: (tokens ++ [closing]))
        (.call (.at name.offset) name.literal (parts.map Prod.snd))
  | binary {level : Level} {tighter : List Level} {token : Token} {op : BinaryOp}
      {leftTokens rightTokens : List Token} {left right : Expr} :
      PhraseTree (level :: tighter) leftTokens left → token.operatorAt? level = some op →
      PhraseTree tighter rightTokens right →
      PhraseTree (level :: tighter) (leftTokens ++ token :: rightTokens)
        (.binary (.at left.offset) op left right)
  | tighter {level : Level} {tighter : List Level} {tokens : List Token} {expr : Expr} :
      PhraseTree tighter tokens expr → PhraseTree (level :: tighter) tokens expr

abbrev ExprTree : List Token → Expr → Type :=
  PhraseTree Level.all

/-- Derivations of an initial value, or of nothing. -/
inductive ValueTree : List Token → Option Expr → Type where
  | none : ValueTree [] none
  | some {equals : Token} {tokens : List Token} {value : Expr} :
      equals.literal = "=" → ExprTree tokens value → ValueTree (equals :: tokens) (some value)

mutual

inductive StmtTree : List Token → Stmt → Type where
  | declaration {keyword name semicolon : Token} {typeTokens valueTokens : List Token}
      {typeName : Option String} {value : Option Expr} :
      keyword.literal = "LET" → name.kind = .identifier →
      Introduced ":" IsIdentifier typeTokens typeName → ValueTree valueTokens value →
      (typeName.isNone && value.isNone) = false → semicolon.literal = ";" →
      StmtTree (keyword :: name :: (typeTokens ++ (valueTokens ++ [semicolon])))
        (.declaration name.literal typeName value)
  | switch {keyword default closing : Token} {tokens caseTokens bodyTokens : List Token}
      {condition : Expr} {valued : List Case} {body : List Stmt} :
      keyword.literal = "SWITCH" → ExprTree tokens condition → CasesTree caseTokens valued →
      default.literal = "DEFAULT" → BlockTree Reader.caseClosers bodyTokens body →
      closing.literal = "END" →
      StmtTree (keyword :: (tokens ++ (caseTokens ++ default :: (bodyTokens ++ [closing]))))
        (.switch condition (valued ++ [.mk none body]))
  | branch {keyword opening closing : Token} {tokens thenTokens : List Token}
      {condition : Expr} {thenBlock : List Stmt} :
      keyword.literal = "IF" → ExprTree tokens condition → opening.literal = "DO" →
      BlockTree Reader.blockClosers thenTokens thenBlock → closing.literal = "END" →
      StmtTree (keyword :: (tokens ++ opening :: (thenTokens ++ [closing])))
        (.branch condition thenBlock [])
  | branchElse {keyword opening middle closing : Token}
      {tokens thenTokens elseTokens : List Token} {condition : Expr}
      {thenBlock elseBlock : List Stmt} :
      keyword.literal = "IF" → ExprTree tokens condition → opening.literal = "DO" →
      BlockTree Reader.blockClosers thenTokens thenBlock → middle.literal = "ELSE" →
      BlockTree Reader.blockClosers elseTokens elseBlock → closing.literal = "END" →
      StmtTree (keyword :: (tokens ++ opening :: (thenTokens ++ middle ::
          (elseTokens ++ [closing]))))
        (.branch condition thenBlock elseBlock)
  | loop {keyword opening closing : Token} {tokens bodyTokens : List Token}
      {condition : Expr} {body : List Stmt} :
      keyword.literal = "WHILE" → ExprTree tokens condition → opening.literal = "DO" →
      BlockTree Reader.blockClosers bodyTokens body → closing.literal = "END" →
      StmtTree (keyword :: (tokens ++ opening :: (bodyTokens ++ [closing])))
        (.loop condition body)
  | result {keyword semicolon : Token} {tokens : List Token} {value : Expr} :
      keyword.literal = "RETURN" → ExprTree tokens value → semicolon.literal = ";" →
      StmtTree (keyword :: (tokens ++ [semicolon])) (.result value)
  | expression {semicolon : Token} {tokens : List Token} {value : Expr} :
      StartsWithNone statementWords tokens → ExprTree tokens value →
      semicolon.literal = ";" → StmtTree (tokens ++ [semicolon]) (.expression value)
  | assignment {equals semicolon : Token} {tokens valueTokens : List Token}
      {receiver value : Expr} :
      StartsWithNone statementWords tokens → ExprTree tokens receiver →
      equals.literal = "=" → ExprTree valueTokens value → semicolon.literal = ";" →
      StmtTree (tokens ++ equals :: (valueTokens ++ [semicolon])) (.assignment receiver value)

/-- Derivations of statements none of which starts with a word that closes their block. -/
inductive BlockTree : List String → List Token → List Stmt → Type where
  | nil {closers : List String} : BlockTree closers [] []
  | cons {closers : List String} {tokens later : List Token} {stmt : Stmt}
      {stmts : List Stmt} :
      StartsWithNone closers tokens → StmtTree tokens stmt → BlockTree closers later stmts →
      BlockTree closers (tokens ++ later) (stmt :: stmts)

inductive CasesTree : List Token → List Case → Type where
  | nil : CasesTree [] []
  | cons {keyword colon : Token} {tokens bodyTokens later : List Token} {value : Expr}
      {body : List Stmt} {cases : List Case} :
      keyword.literal = "CASE" → ExprTree tokens value → colon.literal = ":" →
      BlockTree Reader.caseClosers bodyTokens body → CasesTree later cases →
      CasesTree (keyword :: (tokens ++ colon :: (bodyTokens ++ later)))
        (.mk (some value) body :: cases)

end

inductive GlobalTree : List Token → Global → Type where
  | list {keyword equals opening closing semicolon : Token} {nameTokens tokens : List Token}
      {name typeName : String} {parts : List (List Token × Expr)} :
      keyword.literal = "LIST" → IsTypedName nameTokens (name, typeName) →
      equals.literal = "=" → opening.literal = "[" →
      (∀ part ∈ parts, ExprTree part.1 part.2) → Joined (parts.map Prod.fst) tokens →
      parts ≠ [] → closing.literal = "]" → semicolon.literal = ";" →
      GlobalTree
        (keyword :: (nameTokens ++ equals :: opening :: (tokens ++ [closing, semicolon])))
        ⟨name, typeName, true, some (.list (.at opening.offset) (parts.map Prod.snd)),
          keyword.offset, none⟩
  | mutable {keyword semicolon : Token} {nameTokens valueTokens : List Token}
      {name typeName : String} {value : Option Expr} :
      keyword.literal = "VAR" → IsTypedName nameTokens (name, typeName) →
      ValueTree valueTokens value → semicolon.literal = ";" →
      GlobalTree (keyword :: (nameTokens ++ (valueTokens ++ [semicolon])))
        ⟨name, typeName, true, value, keyword.offset, none⟩
  | immutable {keyword equals semicolon : Token} {nameTokens tokens : List Token}
      {name typeName : String} {value : Expr} :
      keyword.literal = "VAL" → IsTypedName nameTokens (name, typeName) →
      equals.literal = "=" → ExprTree tokens value → semicolon.literal = ";" →
      GlobalTree (keyword :: (nameTokens ++ equals :: (tokens ++ [semicolon])))
        ⟨name, typeName, false, some value, keyword.offset, none⟩

inductive FunctionTree : List Token → Function → Type where
  | mk {keyword name opening closing start finish : Token}
      {parameterTokens typeTokens bodyTokens : List Token}
      {parts : List (List Token × (String × String))} {returnType : Option String}
      {body : List Stmt} :
      keyword.literal = "FUN" → name.kind = .identifier → opening.literal = "(" →
      (∀ part ∈ parts, IsTypedName part.1 part.2) →
      Joined (parts.map Prod.fst) parameterTokens →
      StartsWithNone [")"] parameterTokens → closing.literal = ")" →
      Introduced ":" IsIdentifier typeTokens returnType → start.literal = "DO" →
      BlockTree Reader.blockClosers bodyTokens body → finish.literal = "END" →
      FunctionTree
        (keyword :: name :: opening :: (parameterTokens ++ closing ::
          (typeTokens ++ start :: (bodyTokens ++ [finish]))))
        ⟨name.literal, (parts.map Prod.snd).map Prod.fst, (parts.map Prod.snd).map Prod.snd,
          returnType, body, keyword.offset, none⟩

/-- Derivations of programs. -/
inductive ProgramTree : List Token → Program → Type where
  | nil : ProgramTree [] ⟨[], []⟩
  | global {tokens later : List Token} {item : Global} {program : Program} :
      GlobalTree tokens item → ProgramTree later program →
      ProgramTree (tokens ++ later) { program with globals := item :: program.globals }
  | function {tokens later : List Token} {item : Function} {program : Program} :
      FunctionTree tokens item → ProgramTree later program →
      ProgramTree (tokens ++ later) { program with functions := item :: program.functions }

theorem nonempty_phraseTree {levels : List Level} {tokens : List Token} {expr : Expr} :
    Nonempty (PhraseTree levels tokens expr) ↔ Phrase levels tokens expr := by
  constructor
  · rintro ⟨tree⟩
    induction tree with
    | literal isLiteral denoted => exact .literal isLiteral denoted
    | group isOpening _ closed inner => exact .group isOpening inner closed
    | access isName => exact .access isName
    | element isName opened _ closed index => exact .element isName opened index closed
    | call isName opened _ joined starts closed arguments =>
        exact .call isName opened arguments joined starts closed
    | binary _ spelled _ left right => exact .binary left spelled right
    | tighter _ phrase => exact .tighter phrase
  · intro phrase
    induction phrase with
    | literal isLiteral denoted => exact ⟨.literal isLiteral denoted⟩
    | group isOpening _ closed inner => exact inner.map fun inner => .group isOpening inner closed
    | access isName => exact ⟨.access isName⟩
    | element isName opened _ closed index =>
        exact index.map fun index => .element isName opened index closed
    | call isName opened _ joined starts closed arguments =>
        exact ⟨.call isName opened (fun part member => (arguments part member).some) joined starts
          closed⟩
    | binary _ spelled _ left right =>
        obtain ⟨left⟩ := left
        exact right.map fun right => .binary left spelled right
    | tighter _ phrase => exact phrase.map .tighter

theorem nonempty_valueTree {tokens : List Token} {value : Option Expr} :
    Nonempty (ValueTree tokens value) ↔ Introduced "=" IsExpr tokens value := by
  constructor
  · rintro ⟨tree⟩
    cases tree with
    | none => exact .none
    | some spelled value => exact .some spelled (nonempty_phraseTree.mp ⟨value⟩)
  · intro introduced
    cases introduced with
    | none => exact ⟨.none⟩
    | some spelled value => exact (nonempty_phraseTree.mpr value).map (.some spelled)

theorem exists_trees {parts : List (List Token × Expr)} :
    Nonempty (∀ part ∈ parts, ExprTree part.1 part.2) ↔ ∀ part ∈ parts, IsExpr part.1 part.2 :=
  ⟨fun ⟨trees⟩ part member => nonempty_phraseTree.mp ⟨trees part member⟩,
    fun phrases => ⟨fun part member => (nonempty_phraseTree.mpr (phrases part member)).some⟩⟩

mutual

theorem StmtTree.isStmt {tokens : List Token} {stmt : Stmt} :
    StmtTree tokens stmt → IsStmt tokens stmt
  | .declaration spelled isIdentifier type value typed ended =>
      .declaration spelled isIdentifier type (nonempty_valueTree.mp ⟨value⟩) typed ended
  | .switch spelled condition cases defaultSpelled body closed =>
      .switch spelled (nonempty_phraseTree.mp ⟨condition⟩) cases.isCases defaultSpelled
        body.isBlock closed rfl
  | .branch spelled condition opened thenBlock closed =>
      .branch spelled (nonempty_phraseTree.mp ⟨condition⟩) opened thenBlock.isBlock closed
  | .branchElse spelled condition opened thenBlock middleSpelled elseBlock closed =>
      .branchElse spelled (nonempty_phraseTree.mp ⟨condition⟩) opened thenBlock.isBlock
        middleSpelled elseBlock.isBlock closed
  | .loop spelled condition opened body closed =>
      .loop spelled (nonempty_phraseTree.mp ⟨condition⟩) opened body.isBlock closed
  | .result spelled value ended => .result spelled (nonempty_phraseTree.mp ⟨value⟩) ended
  | .expression different value ended =>
      .expression different (nonempty_phraseTree.mp ⟨value⟩) ended
  | .assignment different receiver spelled value ended =>
      .assignment different (nonempty_phraseTree.mp ⟨receiver⟩) spelled
        (nonempty_phraseTree.mp ⟨value⟩) ended

theorem BlockTree.isBlock {closers : List String} {tokens : List Token} {stmts : List Stmt} :
    BlockTree closers tokens stmts → IsBlock closers tokens stmts
  | .nil => .nil
  | .cons different first later => .cons different first.isStmt later.isBlock

theorem CasesTree.isCases {tokens : List Token} {cases : List Case} :
    CasesTree tokens cases → IsCases tokens cases
  | .nil => .nil
  | .cons spelled value colonSpelled body later =>
      .cons spelled (nonempty_phraseTree.mp ⟨value⟩) colonSpelled body.isBlock later.isCases

end

mutual

theorem IsStmt.nonempty_tree {tokens : List Token} {stmt : Stmt} :
    IsStmt tokens stmt → Nonempty (StmtTree tokens stmt)
  | .declaration spelled isIdentifier type value typed ended =>
      (nonempty_valueTree.mpr value).map fun value =>
        .declaration spelled isIdentifier type value typed ended
  | .switch spelled condition cases defaultSpelled body closed whole => by
      subst whole
      obtain ⟨condition⟩ := nonempty_phraseTree.mpr condition
      obtain ⟨cases⟩ := cases.nonempty_tree
      exact body.nonempty_tree.map fun body =>
        .switch spelled condition cases defaultSpelled body closed
  | .branch spelled condition opened thenBlock closed => by
      obtain ⟨condition⟩ := nonempty_phraseTree.mpr condition
      exact thenBlock.nonempty_tree.map fun thenBlock =>
        .branch spelled condition opened thenBlock closed
  | .branchElse spelled condition opened thenBlock middleSpelled elseBlock closed => by
      obtain ⟨condition⟩ := nonempty_phraseTree.mpr condition
      obtain ⟨thenBlock⟩ := thenBlock.nonempty_tree
      exact elseBlock.nonempty_tree.map fun elseBlock =>
        .branchElse spelled condition opened thenBlock middleSpelled elseBlock closed
  | .loop spelled condition opened body closed => by
      obtain ⟨condition⟩ := nonempty_phraseTree.mpr condition
      exact body.nonempty_tree.map fun body => .loop spelled condition opened body closed
  | .result spelled value ended =>
      (nonempty_phraseTree.mpr value).map fun value => .result spelled value ended
  | .expression different value ended =>
      (nonempty_phraseTree.mpr value).map fun value => .expression different value ended
  | .assignment different receiver spelled value ended => by
      obtain ⟨receiver⟩ := nonempty_phraseTree.mpr receiver
      exact (nonempty_phraseTree.mpr value).map fun value =>
        .assignment different receiver spelled value ended

theorem IsBlock.nonempty_tree {closers : List String} {tokens : List Token} {stmts : List Stmt} :
    IsBlock closers tokens stmts → Nonempty (BlockTree closers tokens stmts)
  | .nil => ⟨.nil⟩
  | .cons different first later => by
      obtain ⟨first⟩ := first.nonempty_tree
      exact later.nonempty_tree.map fun later => .cons different first later

theorem IsCases.nonempty_tree {tokens : List Token} {cases : List Case} :
    IsCases tokens cases → Nonempty (CasesTree tokens cases)
  | .nil => ⟨.nil⟩
  | .cons spelled value colonSpelled body later => by
      obtain ⟨value⟩ := nonempty_phraseTree.mpr value
      obtain ⟨body⟩ := body.nonempty_tree
      exact later.nonempty_tree.map fun later => .cons spelled value colonSpelled body later

end

theorem nonempty_globalTree {tokens : List Token} {item : Global} :
    Nonempty (GlobalTree tokens item) ↔ IsGlobal tokens item := by
  constructor
  · rintro ⟨tree⟩
    cases tree with
    | list spelled name equalsSpelled opened elements joined nonempty closed ended =>
        exact .list spelled name equalsSpelled opened
          ⟨_, exists_trees.mp ⟨elements⟩, joined, rfl⟩ (by simpa using nonempty) closed ended
    | mutable spelled name value ended =>
        exact .mutable spelled name (nonempty_valueTree.mp ⟨value⟩) ended
    | immutable spelled name equalsSpelled value ended =>
        exact .immutable spelled name equalsSpelled (nonempty_phraseTree.mp ⟨value⟩) ended
  · intro derived
    cases derived with
    | list spelled name equalsSpelled opened elements nonempty closed ended =>
        obtain ⟨parts, elements, joined, rfl⟩ := elements
        exact (exists_trees.mpr elements).map fun elements =>
          .list spelled name equalsSpelled opened elements joined (by simpa using nonempty) closed
            ended
    | mutable spelled name value ended =>
        exact (nonempty_valueTree.mpr value).map fun value => .mutable spelled name value ended
    | immutable spelled name equalsSpelled value ended =>
        exact (nonempty_phraseTree.mpr value).map fun value =>
          .immutable spelled name equalsSpelled value ended

theorem nonempty_functionTree {tokens : List Token} {item : Function} :
    Nonempty (FunctionTree tokens item) ↔ IsFunction tokens item := by
  constructor
  · rintro ⟨⟨spelled, isIdentifier, opened, parameters, joined, starts, closed, type, started,
      body, finished⟩⟩
    exact .mk spelled isIdentifier opened ⟨_, parameters, joined, rfl⟩ starts closed type started
      body.isBlock finished
  · rintro ⟨spelled, isIdentifier, opened, ⟨parts, parameters, joined, rfl⟩, starts, closed, type,
      started, body, finished⟩
    exact body.nonempty_tree.map fun body =>
      .mk spelled isIdentifier opened parameters joined starts closed type started body finished

/-- A program has a derivation tree exactly if it is derived. -/
theorem nonempty_programTree {tokens : List Token} {program : Program} :
    Nonempty (ProgramTree tokens program) ↔ IsProgram tokens program := by
  constructor
  · rintro ⟨tree⟩
    induction tree with
    | nil => exact .nil
    | global first _ later => exact .global (nonempty_globalTree.mp ⟨first⟩) later
    | function first _ later => exact .function (nonempty_functionTree.mp ⟨first⟩) later
  · intro derived
    induction derived with
    | nil => exact ⟨.nil⟩
    | global first _ later =>
        obtain ⟨first⟩ := nonempty_globalTree.mpr first
        exact later.map fun later => .global first later
    | function first _ later =>
        obtain ⟨first⟩ := nonempty_functionTree.mpr first
        exact later.map fun later => .function first later

end Procedural.Grammar
