import Procedural.Reader.Program

/-!
# The grammar of programs

The relations of this module say which lists of tokens are expressions, statements
and programs, and which tree each of them denotes.  They mention no reader and no
bound on the number of tokens.  Expressions are layered by the levels of operators:
a layer joins phrases of the next one from the left.
-/

namespace Procedural

/-- The levels of operators, from the loosest to the tightest. -/
def Level.all : List Level :=
  [.logical, .comparison, .additive, .multiplicative]

namespace Token

/-- The token names a variable or a function where an expression is expected. -/
structure IsName (token : Token) : Prop where
  identifier : token.kind = .identifier
  notLiteral : token.isLiteral = false
  notOpening : token.literal ≠ "("

/-- The token opens a group where an expression is expected. -/
structure IsOpening (token : Token) : Prop where
  literal : token.literal = "("
  notLiteral : token.isLiteral = false

theorem level_of_operatorAt {token : Token} {level : Level} {op : BinaryOp}
    (spelled : token.operatorAt? level = some op) : op.level = level := by
  unfold Token.operatorAt? at spelled
  split at spelled
  · simpa using (Option.filter_eq_some_iff.mp spelled).2
  · cases spelled

end Token

namespace Grammar

/-- Lists of tokens with a comma before each. -/
inductive JoinedFurther : List (List Token) → List Token → Prop where
  | nil : JoinedFurther [] []
  | cons {comma : Token} {item tokens : List Token} {items : List (List Token)} :
      comma.literal = "," → JoinedFurther items tokens →
      JoinedFurther (item :: items) (comma :: (item ++ tokens))

/-- Lists of tokens with commas between them. -/
inductive Joined : List (List Token) → List Token → Prop where
  | nil : Joined [] []
  | cons {item tokens : List Token} {items : List (List Token)} :
      JoinedFurther items tokens → Joined (item :: items) (item ++ tokens)

/-- The first token has none of some spellings. -/
def StartsWithNone (words : List String) (tokens : List Token) : Prop :=
  ∀ token, tokens.head? = some token → token.literal ∉ words

/-- Expressions whose outermost operator, if it is not inside brackets, belongs to one of
some levels. -/
inductive Phrase : List Level → List Token → Expr → Prop where
  | literal {token : Token} {value : Scalar} :
      token.isLiteral = true → token.scalar? = some value →
      Phrase [] [token] (.literal (.at token.offset) value)
  | group {opening closing : Token} {tokens : List Token} {inner : Expr} :
      opening.IsOpening → Phrase Level.all tokens inner → closing.literal = ")" →
      Phrase [] (opening :: (tokens ++ [closing])) (.group (.at opening.offset) inner)
  | access {name : Token} :
      name.IsName → Phrase [] [name] (.access (.at name.offset) name.literal)
  | element {name opening closing : Token} {tokens : List Token} {index : Expr} :
      name.IsName → opening.literal = "[" → Phrase Level.all tokens index →
      closing.literal = "]" →
      Phrase [] (name :: opening :: (tokens ++ [closing]))
        (.element (.at name.offset) name.literal index)
  | call {name opening closing : Token} {tokens : List Token}
      {parts : List (List Token × Expr)} :
      name.IsName → opening.literal = "(" →
      (∀ part ∈ parts, Phrase Level.all part.1 part.2) →
      Joined (parts.map Prod.fst) tokens → StartsWithNone [")"] tokens →
      closing.literal = ")" →
      Phrase [] (name :: opening :: (tokens ++ [closing]))
        (.call (.at name.offset) name.literal (parts.map Prod.snd))
  | binary {level : Level} {tighter : List Level} {token : Token} {op : BinaryOp}
      {leftTokens rightTokens : List Token} {left right : Expr} :
      Phrase (level :: tighter) leftTokens left → token.operatorAt? level = some op →
      Phrase tighter rightTokens right →
      Phrase (level :: tighter) (leftTokens ++ token :: rightTokens)
        (.binary (.at left.offset) op left right)
  | tighter {level : Level} {tighter : List Level} {tokens : List Token} {expr : Expr} :
      Phrase tighter tokens expr → Phrase (level :: tighter) tokens expr

abbrev IsExpr : List Token → Expr → Prop :=
  Phrase Level.all

/-- An item behind an introducing symbol, or nothing. -/
inductive Introduced {α : Type} (literal : String) (item : List Token → α → Prop) :
    List Token → Option α → Prop where
  | none : Introduced literal item [] none
  | some {token : Token} {tokens : List Token} {value : α} :
      token.literal = literal → item tokens value →
      Introduced literal item (token :: tokens) (some value)

/-- Items with commas between them. -/
def Items {α : Type} (item : List Token → α → Prop) (tokens : List Token)
    (values : List α) : Prop :=
  ∃ parts : List (List Token × α), (∀ part ∈ parts, item part.1 part.2) ∧
    Joined (parts.map Prod.fst) tokens ∧ parts.map Prod.snd = values

inductive IsIdentifier : List Token → String → Prop where
  | mk {token : Token} : token.kind = .identifier → IsIdentifier [token] token.literal

/-- The words that start statements of their own. -/
def statementWords : List String := ["LET", "SWITCH", "IF", "WHILE", "RETURN"]

mutual

inductive IsStmt : List Token → Stmt → Prop where
  | declaration {keyword name semicolon : Token} {typeTokens valueTokens : List Token}
      {typeName : Option String} {value : Option Expr} :
      keyword.literal = "LET" → name.kind = .identifier →
      Introduced ":" IsIdentifier typeTokens typeName →
      Introduced "=" IsExpr valueTokens value →
      (typeName.isNone && value.isNone) = false → semicolon.literal = ";" →
      IsStmt (keyword :: name :: (typeTokens ++ (valueTokens ++ [semicolon])))
        (.declaration name.literal typeName value)
  | switch {keyword default closing : Token} {tokens caseTokens bodyTokens : List Token}
      {condition : Expr} {valued cases : List Case} {body : List Stmt} :
      keyword.literal = "SWITCH" → IsExpr tokens condition → IsCases caseTokens valued →
      default.literal = "DEFAULT" → IsBlock Reader.caseClosers bodyTokens body →
      closing.literal = "END" → cases = valued ++ [.mk none body] →
      IsStmt (keyword :: (tokens ++ (caseTokens ++ default :: (bodyTokens ++ [closing]))))
        (.switch condition cases)
  | branch {keyword opening closing : Token} {tokens thenTokens : List Token}
      {condition : Expr} {thenBlock : List Stmt} :
      keyword.literal = "IF" → IsExpr tokens condition → opening.literal = "DO" →
      IsBlock Reader.blockClosers thenTokens thenBlock → closing.literal = "END" →
      IsStmt (keyword :: (tokens ++ opening :: (thenTokens ++ [closing])))
        (.branch condition thenBlock [])
  | branchElse {keyword opening middle closing : Token}
      {tokens thenTokens elseTokens : List Token} {condition : Expr}
      {thenBlock elseBlock : List Stmt} :
      keyword.literal = "IF" → IsExpr tokens condition → opening.literal = "DO" →
      IsBlock Reader.blockClosers thenTokens thenBlock → middle.literal = "ELSE" →
      IsBlock Reader.blockClosers elseTokens elseBlock → closing.literal = "END" →
      IsStmt (keyword :: (tokens ++ opening :: (thenTokens ++ middle ::
          (elseTokens ++ [closing]))))
        (.branch condition thenBlock elseBlock)
  | loop {keyword opening closing : Token} {tokens bodyTokens : List Token}
      {condition : Expr} {body : List Stmt} :
      keyword.literal = "WHILE" → IsExpr tokens condition → opening.literal = "DO" →
      IsBlock Reader.blockClosers bodyTokens body → closing.literal = "END" →
      IsStmt (keyword :: (tokens ++ opening :: (bodyTokens ++ [closing])))
        (.loop condition body)
  | result {keyword semicolon : Token} {tokens : List Token} {value : Expr} :
      keyword.literal = "RETURN" → IsExpr tokens value → semicolon.literal = ";" →
      IsStmt (keyword :: (tokens ++ [semicolon])) (.result value)
  | expression {semicolon : Token} {tokens : List Token} {value : Expr} :
      StartsWithNone statementWords tokens → IsExpr tokens value →
      semicolon.literal = ";" → IsStmt (tokens ++ [semicolon]) (.expression value)
  | assignment {equals semicolon : Token} {tokens valueTokens : List Token}
      {receiver value : Expr} :
      StartsWithNone statementWords tokens → IsExpr tokens receiver →
      equals.literal = "=" → IsExpr valueTokens value → semicolon.literal = ";" →
      IsStmt (tokens ++ equals :: (valueTokens ++ [semicolon])) (.assignment receiver value)

/-- Statements none of which starts with one of the words that close their block. -/
inductive IsBlock : List String → List Token → List Stmt → Prop where
  | nil {closers : List String} : IsBlock closers [] []
  | cons {closers : List String} {tokens later : List Token} {stmt : Stmt}
      {stmts : List Stmt} :
      StartsWithNone closers tokens → IsStmt tokens stmt → IsBlock closers later stmts →
      IsBlock closers (tokens ++ later) (stmt :: stmts)

/-- Cases of a switch that have a value. -/
inductive IsCases : List Token → List Case → Prop where
  | nil : IsCases [] []
  | cons {keyword colon : Token} {tokens bodyTokens later : List Token} {value : Expr}
      {body : List Stmt} {cases : List Case} :
      keyword.literal = "CASE" → IsExpr tokens value → colon.literal = ":" →
      IsBlock Reader.caseClosers bodyTokens body → IsCases later cases →
      IsCases (keyword :: (tokens ++ colon :: (bodyTokens ++ later)))
        (.mk (some value) body :: cases)

end

inductive IsTypedName : List Token → String × String → Prop where
  | mk {name colon typeName : Token} :
      name.kind = .identifier → colon.literal = ":" → typeName.kind = .identifier →
      IsTypedName [name, colon, typeName] (name.literal, typeName.literal)

inductive IsGlobal : List Token → Global → Prop where
  | list {keyword equals opening closing semicolon : Token} {nameTokens tokens : List Token}
      {name typeName : String} {elements : List Expr} :
      keyword.literal = "LIST" → IsTypedName nameTokens (name, typeName) →
      equals.literal = "=" → opening.literal = "[" → Items IsExpr tokens elements →
      elements ≠ [] → closing.literal = "]" → semicolon.literal = ";" →
      IsGlobal
        (keyword :: (nameTokens ++ equals :: opening :: (tokens ++ [closing, semicolon])))
        ⟨name, typeName, true, some (.list (.at opening.offset) elements), keyword.offset, none⟩
  | mutable {keyword semicolon : Token} {nameTokens valueTokens : List Token}
      {name typeName : String} {value : Option Expr} :
      keyword.literal = "VAR" → IsTypedName nameTokens (name, typeName) →
      Introduced "=" IsExpr valueTokens value → semicolon.literal = ";" →
      IsGlobal (keyword :: (nameTokens ++ (valueTokens ++ [semicolon])))
        ⟨name, typeName, true, value, keyword.offset, none⟩
  | immutable {keyword equals semicolon : Token} {nameTokens tokens : List Token}
      {name typeName : String} {value : Expr} :
      keyword.literal = "VAL" → IsTypedName nameTokens (name, typeName) →
      equals.literal = "=" → IsExpr tokens value → semicolon.literal = ";" →
      IsGlobal (keyword :: (nameTokens ++ equals :: (tokens ++ [semicolon])))
        ⟨name, typeName, false, some value, keyword.offset, none⟩

inductive IsFunction : List Token → Function → Prop where
  | mk {keyword name opening closing start finish : Token}
      {parameterTokens typeTokens bodyTokens : List Token}
      {parameters : List (String × String)} {returnType : Option String} {body : List Stmt} :
      keyword.literal = "FUN" → name.kind = .identifier → opening.literal = "(" →
      Items IsTypedName parameterTokens parameters →
      StartsWithNone [")"] parameterTokens → closing.literal = ")" →
      Introduced ":" IsIdentifier typeTokens returnType → start.literal = "DO" →
      IsBlock Reader.blockClosers bodyTokens body → finish.literal = "END" →
      IsFunction
        (keyword :: name :: opening :: (parameterTokens ++ closing ::
          (typeTokens ++ start :: (bodyTokens ++ [finish]))))
        ⟨name.literal, parameters.map Prod.fst, parameters.map Prod.snd, returnType, body,
          keyword.offset, none⟩

/-- Programs: global variables and functions in any interleaving. -/
inductive IsProgram : List Token → Program → Prop where
  | nil : IsProgram [] ⟨[], []⟩
  | global {tokens later : List Token} {item : Global} {program : Program} :
      IsGlobal tokens item → IsProgram later program →
      IsProgram (tokens ++ later) { program with globals := item :: program.globals }
  | function {tokens later : List Token} {item : Function} {program : Program} :
      IsFunction tokens item → IsProgram later program →
      IsProgram (tokens ++ later) { program with functions := item :: program.functions }

theorem Phrase.nonempty {levels : List Level} {tokens : List Token} {expr : Expr}
    (phrase : Phrase levels tokens expr) : tokens ≠ [] := by
  induction phrase with
  | tighter _ induction => exact induction
  | _ => simp

theorem not_phrase_list {levels : List Level} {tokens : List Token} {note : Note}
    {elements : List Expr} : ¬ Phrase levels tokens (.list note elements) := by
  intro phrase
  generalize written : Expr.list note elements = expr at phrase
  induction phrase with
  | tighter _ induction => exact induction written
  | _ => cases written

end Grammar

end Procedural
