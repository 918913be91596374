import Procedural.Proofs.Reader.Completeness
import Procedural.Proofs.Reader.Trees

/-!
# Derivations are unique

Two derivations of one tree from the front of the same tokens take equally many tokens
and coincide.  A tree never leaves open where a part of it ends, because the part is
known; so no reader is needed to compare derivations.  That one list of tokens derives
one tree only is what a reader that finds every tree contributes.
-/

namespace Procedural

/-- The outermost operator of an expression. -/
def Expr.operator? : Expr → Option BinaryOp
  | .binary _ op _ _ => some op
  | _ => none

namespace Grammar

/-- The outermost operator of a phrase belongs to one of its levels. -/
theorem Phrase.level_mem {levels : List Level} {tokens : List Token} {expr : Expr}
    (phrase : Phrase levels tokens expr) {op : BinaryOp} (isBinary : expr.operator? = some op) :
    op.level ∈ levels := by
  induction phrase with
  | binary _ spelled _ _ _ =>
      cases isBinary
      rw [Token.level_of_operatorAt spelled]
      exact List.mem_cons_self
  | tighter _ induction => exact List.mem_cons_of_mem _ (induction isBinary)
  | _ => cases isBinary

section Parts

variable {α : Type}

/-- Parts that can be told apart by their values alone are told apart in a row. -/
theorem JoinedFurther.unique {items : List (List Token)} {tokens : List Token}
    (joined : JoinedFurther items tokens) :
    ∀ {parts others : List (List Token × α)} {tokens' rest rest' : List Token},
      parts.map Prod.fst = items → JoinedFurther (others.map Prod.fst) tokens' →
      (∀ part ∈ parts, ∀ other ∈ others, part.2 = other.2 → ∀ rest rest',
        part.1 ++ rest = other.1 ++ rest' → part.1 = other.1) →
      parts.map Prod.snd = others.map Prod.snd → tokens ++ rest = tokens' ++ rest' →
      parts = others ∧ tokens = tokens' := by
  induction joined with
  | nil =>
      intro parts others tokens' rest rest' fits joined' _ values _
      obtain rfl : parts = [] := by simpa using fits
      obtain rfl : others = [] := by simpa using values.symm
      cases joined'
      exact ⟨rfl, rfl⟩
  | @cons comma item tokens items spelled joined induction =>
      intro parts others tokens' rest rest' fits joined' split values same
      match parts, others, joined' with
      | part :: parts, other :: others, .cons _ joined' =>
          simp only [List.map_cons, List.cons.injEq] at fits values
          obtain ⟨rfl, fits⟩ := fits
          simp only [List.cons_append, List.append_assoc, List.cons.injEq] at same
          obtain ⟨rfl, same⟩ := same
          have first := split part List.mem_cons_self other List.mem_cons_self values.1 _ _ same
          rw [first] at same
          obtain ⟨rfl, rfl⟩ := induction fits joined'
            (fun part member other member' => split part (List.mem_cons_of_mem _ member) other
              (List.mem_cons_of_mem _ member'))
            values.2 (List.append_cancel_left same)
          obtain rfl : part = other := Prod.ext first values.1
          exact ⟨rfl, rfl⟩

theorem Joined.unique {parts others : List (List Token × α)} {tokens tokens' : List Token}
    (joined : Joined (parts.map Prod.fst) tokens)
    (joined' : Joined (others.map Prod.fst) tokens')
    (split : ∀ part ∈ parts, ∀ other ∈ others, part.2 = other.2 → ∀ rest rest',
      part.1 ++ rest = other.1 ++ rest' → part.1 = other.1)
    (values : parts.map Prod.snd = others.map Prod.snd) {rest rest' : List Token}
    (same : tokens ++ rest = tokens' ++ rest') : parts = others ∧ tokens = tokens' := by
  match parts, others, joined, joined', values with
  | [], [], .nil, .nil, _ => exact ⟨rfl, rfl⟩
  | part :: parts, other :: others, .cons joined, .cons joined', values =>
      simp only [List.map_cons, List.cons.injEq] at values
      rw [List.append_assoc, List.append_assoc] at same
      have first := split part List.mem_cons_self other List.mem_cons_self values.1 _ _ same
      rw [first] at same
      obtain ⟨rfl, rfl⟩ := joined.unique rfl joined'
        (fun part member other member' => split part (List.mem_cons_of_mem _ member) other
          (List.mem_cons_of_mem _ member'))
        values.2 (List.append_cancel_left same)
      obtain rfl : part = other := Prod.ext first values.1
      exact ⟨rfl, rfl⟩

/-- Derivations of parts in a row coincide if the values do and each derivation agrees with
every derivation of its value from the front of the same tokens. -/
theorem Joined.agree {family : List Token → α → Type} {parts others : List (List Token × α)}
    {tokens tokens' rest rest' : List Token} (joined : Joined (parts.map Prod.fst) tokens)
    (joined' : Joined (others.map Prod.fst) tokens')
    (trees : ∀ part ∈ parts, family part.1 part.2)
    (trees' : ∀ part ∈ others, family part.1 part.2)
    (agree : ∀ part (member : part ∈ parts) {tokens' : List Token} {value' : α}
      (tree' : family tokens' value') (rest rest' : List Token), part.2 = value' →
      part.1 ++ rest = tokens' ++ rest' → part.1 = tokens' ∧ HEq (trees part member) tree')
    (values : parts.map Prod.snd = others.map Prod.snd)
    (same : tokens ++ rest = tokens' ++ rest') :
    parts = others ∧ tokens = tokens' ∧ HEq trees trees' ∧ rest = rest' := by
  obtain ⟨rfl, rfl⟩ := joined.unique joined'
    (fun part member other member' value rest rest' same =>
      (agree part member (trees' other member') rest rest' value same).1)
    values same
  obtain rfl : trees = trees' := by
    funext part member
    exact eq_of_heq (agree part member (trees' part member) [] [] rfl rfl).2
  exact ⟨rfl, rfl, HEq.rfl, List.append_cancel_left same⟩

end Parts

/-- Derivations of an expression from the front of the same tokens coincide. -/
theorem PhraseTree.agree {levels : List Level} {tokens : List Token} {expr : Expr}
    (tree : PhraseTree levels tokens expr) (distinct : levels.Nodup) :
    ∀ {tokens' : List Token} {expr' : Expr} (tree' : PhraseTree levels tokens' expr')
      (rest rest' : List Token), expr = expr' → tokens ++ rest = tokens' ++ rest' →
      tokens = tokens' ∧ HEq tree tree' := by
  have allDistinct : Level.all.Nodup := by decide
  induction tree with
  | literal isLiteral denoted =>
      intro tokens' expr' tree' rest rest' equal same
      cases tree' with
      | literal =>
          obtain ⟨rfl, _⟩ := List.cons.inj same
          obtain ⟨_, rfl⟩ := Expr.literal.inj equal
          exact ⟨rfl, HEq.rfl⟩
      | _ => cases equal
  | group isOpening inner closed induction =>
      intro tokens' expr' tree' rest rest' equal same
      cases tree' with
      | group _ inner' _ =>
          obtain ⟨_, rfl⟩ := Expr.group.inj equal
          simp only [List.cons_append, List.append_assoc, List.cons.injEq] at same
          obtain ⟨rfl, same⟩ := same
          obtain ⟨rfl, rfl⟩ := induction allDistinct inner' _ _ rfl same
          obtain ⟨rfl, _⟩ := List.cons.inj (List.append_cancel_left same)
          exact ⟨rfl, HEq.rfl⟩
      | _ => cases equal
  | access isName =>
      intro tokens' expr' tree' rest rest' equal same
      cases tree' with
      | access =>
          obtain ⟨rfl, _⟩ := List.cons.inj same
          exact ⟨rfl, HEq.rfl⟩
      | _ => cases equal
  | element isName opened index closed induction =>
      intro tokens' expr' tree' rest rest' equal same
      cases tree' with
      | element _ _ index' _ =>
          obtain ⟨_, _, rfl⟩ := Expr.element.inj equal
          simp only [List.cons_append, List.append_assoc, List.cons.injEq] at same
          obtain ⟨rfl, rfl, same⟩ := same
          obtain ⟨rfl, rfl⟩ := induction allDistinct index' _ _ rfl same
          obtain ⟨rfl, _⟩ := List.cons.inj (List.append_cancel_left same)
          exact ⟨rfl, HEq.rfl⟩
      | _ => cases equal
  | call isName opened arguments joined starts closed induction =>
      intro tokens' expr' tree' rest rest' equal same
      cases tree' with
      | call _ _ arguments' joined' _ _ =>
          obtain ⟨_, _, values⟩ := Expr.call.inj equal
          simp only [List.cons_append, List.append_assoc, List.cons.injEq] at same
          obtain ⟨rfl, rfl, same⟩ := same
          obtain ⟨rfl, rfl, rfl, sameClosing⟩ := joined.agree joined' arguments arguments'
            (fun part member => induction part member allDistinct) values same
          obtain ⟨rfl, _⟩ := List.cons.inj sameClosing
          exact ⟨rfl, HEq.rfl⟩
      | _ => cases equal
  | binary left spelled right inductionLeft inductionRight =>
      intro tokens' expr' tree' rest rest' equal same
      obtain ⟨notTighter, tighterDistinct⟩ := List.nodup_cons.mp distinct
      cases tree' with
      | binary left' _ right' =>
          obtain ⟨_, rfl, rfl, rfl⟩ := Expr.binary.inj equal
          simp only [List.append_assoc, List.cons_append] at same
          obtain ⟨rfl, rfl⟩ := inductionLeft distinct left' _ _ rfl same
          obtain ⟨rfl, sameLater⟩ := List.cons.inj (List.append_cancel_left same)
          obtain ⟨rfl, rfl⟩ := inductionRight tighterDistinct right' _ _ rfl sameLater
          exact ⟨rfl, HEq.rfl⟩
      | tighter tree' =>
          subst equal
          have member := (nonempty_phraseTree.mp ⟨tree'⟩).level_mem rfl
          rw [Token.level_of_operatorAt spelled] at member
          exact absurd member notTighter
  | tighter tree induction =>
      intro tokens' expr' tree' rest rest' equal same
      obtain ⟨notTighter, tighterDistinct⟩ := List.nodup_cons.mp distinct
      cases tree' with
      | binary _ spelled _ =>
          subst equal
          have member := (nonempty_phraseTree.mp ⟨tree⟩).level_mem rfl
          rw [Token.level_of_operatorAt spelled] at member
          exact absurd member notTighter
      | tighter tree' =>
          obtain ⟨rfl, sameTree⟩ := induction tighterDistinct tree' _ _ equal same
          obtain rfl := equal
          obtain rfl := eq_of_heq sameTree
          exact ⟨rfl, HEq.rfl⟩

theorem ExprTree.unique {tokens tokens' rest rest' : List Token} {expr : Expr}
    (tree : ExprTree tokens expr) (tree' : ExprTree tokens' expr)
    (same : tokens ++ rest = tokens' ++ rest') :
    tokens = tokens' ∧ HEq tree tree' ∧ rest = rest' := by
  obtain ⟨rfl, sameTree⟩ := PhraseTree.agree tree (by decide) tree' _ _ rfl same
  exact ⟨rfl, sameTree, List.append_cancel_left same⟩

theorem ExprTree.unique_cons {tokens tokens' rest rest' : List Token} {expr : Expr}
    {next next' : Token} (tree : ExprTree tokens expr) (tree' : ExprTree tokens' expr)
    (same : tokens ++ next :: rest = tokens' ++ next' :: rest') :
    tokens = tokens' ∧ HEq tree tree' ∧ next = next' ∧ rest = rest' := by
  obtain ⟨rfl, rfl, sameNext⟩ := tree.unique tree' same
  exact ⟨rfl, HEq.rfl, List.cons.inj sameNext⟩

theorem ValueTree.unique {tokens tokens' rest rest' : List Token} {value : Option Expr}
    (tree : ValueTree tokens value) (tree' : ValueTree tokens' value)
    (same : tokens ++ rest = tokens' ++ rest') :
    tokens = tokens' ∧ HEq tree tree' ∧ rest = rest' := by
  cases tree with
  | none =>
      cases tree'
      exact ⟨rfl, HEq.rfl, same⟩
  | some spelled value =>
      cases tree' with
      | some _ value' =>
          obtain ⟨rfl, sameValue⟩ := List.cons.inj same
          obtain ⟨rfl, rfl, sameRest⟩ := value.unique value' sameValue
          exact ⟨rfl, HEq.rfl, sameRest⟩

theorem Introduced.unique {literal : String} {tokens tokens' rest rest' : List Token}
    {name : Option String} (derived : Introduced literal IsIdentifier tokens name)
    (derived' : Introduced literal IsIdentifier tokens' name)
    (same : tokens ++ rest = tokens' ++ rest') : tokens = tokens' ∧ rest = rest' := by
  cases derived with
  | none =>
      cases derived'
      exact ⟨rfl, same⟩
  | some spelled isIdentifier =>
      obtain ⟨_⟩ := isIdentifier
      cases derived' with
      | some _ isIdentifier' =>
          generalize Token.literal _ = word at isIdentifier'
          obtain ⟨_⟩ := isIdentifier'
          simp only [List.cons_append, List.nil_append, List.cons.injEq] at same
          obtain ⟨rfl, rfl, sameRest⟩ := same
          exact ⟨rfl, sameRest⟩

theorem IsTypedName.unique {tokens tokens' rest rest' : List Token}
    {value value' : String × String} (derived : IsTypedName tokens value)
    (derived' : IsTypedName tokens' value') (same : tokens ++ rest = tokens' ++ rest') :
    tokens = tokens' ∧ rest = rest' := by
  obtain ⟨_, _, _⟩ := derived
  obtain ⟨_, _, _⟩ := derived'
  simp only [List.cons_append, List.nil_append, List.cons.injEq] at same
  obtain ⟨rfl, rfl, rfl, sameRest⟩ := same
  exact ⟨rfl, sameRest⟩

mutual

/-- Derivations of a statement from the front of the same tokens coincide. -/
theorem StmtTree.unique {tokens tokens' rest rest' : List Token} {stmt stmt' : Stmt} :
    (tree : StmtTree tokens stmt) → (tree' : StmtTree tokens' stmt') → stmt = stmt' →
      tokens ++ rest = tokens' ++ rest' →
      tokens = tokens' ∧ HEq tree tree' ∧ rest = rest'
  | .declaration spelled isIdentifier type value typed ended, tree', equal, same => by
      cases tree' with
      | declaration _ _ type' value' _ _ =>
          obtain ⟨_, rfl, rfl⟩ := Stmt.declaration.inj equal
          simp only [List.cons_append, List.append_assoc, List.cons.injEq] at same
          obtain ⟨rfl, rfl, sameType⟩ := same
          obtain ⟨rfl, sameValue⟩ := type.unique type' sameType
          obtain ⟨rfl, rfl, sameEnd⟩ := value.unique value' sameValue
          obtain ⟨rfl, sameRest⟩ := List.cons.inj sameEnd
          exact ⟨rfl, HEq.rfl, sameRest⟩
      | _ => cases equal
  | .switch spelled condition cases defaultSpelled body closed, tree', equal, same => by
      cases tree' with
      | switch _ condition' cases' _ body' _ =>
          obtain ⟨rfl, sameCases⟩ := Stmt.switch.inj equal
          obtain ⟨rfl, sameDefault⟩ := List.append_inj' sameCases rfl
          cases sameDefault
          simp only [List.cons_append, List.append_assoc, List.cons.injEq] at same
          obtain ⟨rfl, sameCondition⟩ := same
          obtain ⟨rfl, rfl, sameValued⟩ := condition.unique condition' sameCondition
          obtain ⟨rfl, rfl, sameKeyword⟩ := cases.unique cases' sameValued
          obtain ⟨rfl, sameBody⟩ := List.cons.inj sameKeyword
          obtain ⟨rfl, rfl, sameEnd⟩ := body.unique body' sameBody
          obtain ⟨rfl, sameRest⟩ := List.cons.inj sameEnd
          exact ⟨rfl, HEq.rfl, sameRest⟩
      | _ => cases equal
  | .branch spelled condition opened thenBlock closed, tree', equal, same => by
      cases tree' with
      | branch _ condition' _ thenBlock' _ =>
          obtain ⟨rfl, rfl, _⟩ := Stmt.branch.inj equal
          simp only [List.cons_append, List.append_assoc, List.cons.injEq] at same
          obtain ⟨rfl, sameCondition⟩ := same
          obtain ⟨rfl, rfl, rfl, sameThen⟩ := condition.unique_cons condition' sameCondition
          obtain ⟨rfl, rfl, sameEnd⟩ := thenBlock.unique thenBlock' sameThen
          obtain ⟨rfl, sameRest⟩ := List.cons.inj sameEnd
          exact ⟨rfl, HEq.rfl, sameRest⟩
      | branchElse _ condition' _ thenBlock' middleSpelled _ _ =>
          obtain ⟨rfl, rfl, _⟩ := Stmt.branch.inj equal
          simp only [List.cons_append, List.append_assoc, List.cons.injEq] at same
          obtain ⟨rfl, sameCondition⟩ := same
          obtain ⟨rfl, rfl, rfl, sameThen⟩ := condition.unique_cons condition' sameCondition
          obtain ⟨rfl, rfl, sameEnd⟩ := thenBlock.unique thenBlock' sameThen
          obtain ⟨rfl, _⟩ := List.cons.inj sameEnd
          exact absurd (middleSpelled.symm.trans closed) (by decide)
      | _ => cases equal
  | .branchElse spelled condition opened thenBlock middleSpelled elseBlock closed, tree', equal,
      same => by
      cases tree' with
      | branch _ condition' _ thenBlock' closed' =>
          obtain ⟨rfl, rfl, _⟩ := Stmt.branch.inj equal
          simp only [List.cons_append, List.append_assoc, List.cons.injEq] at same
          obtain ⟨rfl, sameCondition⟩ := same
          obtain ⟨rfl, rfl, rfl, sameThen⟩ := condition.unique_cons condition' sameCondition
          obtain ⟨rfl, rfl, sameEnd⟩ := thenBlock.unique thenBlock' sameThen
          obtain ⟨rfl, _⟩ := List.cons.inj sameEnd
          exact absurd (middleSpelled.symm.trans closed') (by decide)
      | branchElse _ condition' _ thenBlock' _ elseBlock' _ =>
          obtain ⟨rfl, rfl, rfl⟩ := Stmt.branch.inj equal
          simp only [List.cons_append, List.append_assoc, List.cons.injEq] at same
          obtain ⟨rfl, sameCondition⟩ := same
          obtain ⟨rfl, rfl, rfl, sameThen⟩ := condition.unique_cons condition' sameCondition
          obtain ⟨rfl, rfl, sameMiddle⟩ := thenBlock.unique thenBlock' sameThen
          obtain ⟨rfl, sameElse⟩ := List.cons.inj sameMiddle
          obtain ⟨rfl, rfl, sameEnd⟩ := elseBlock.unique elseBlock' sameElse
          obtain ⟨rfl, sameRest⟩ := List.cons.inj sameEnd
          exact ⟨rfl, HEq.rfl, sameRest⟩
      | _ => cases equal
  | .loop spelled condition opened body closed, tree', equal, same => by
      cases tree' with
      | loop _ condition' _ body' _ =>
          obtain ⟨rfl, rfl⟩ := Stmt.loop.inj equal
          simp only [List.cons_append, List.append_assoc, List.cons.injEq] at same
          obtain ⟨rfl, sameCondition⟩ := same
          obtain ⟨rfl, rfl, rfl, sameBody⟩ := condition.unique_cons condition' sameCondition
          obtain ⟨rfl, rfl, sameEnd⟩ := body.unique body' sameBody
          obtain ⟨rfl, sameRest⟩ := List.cons.inj sameEnd
          exact ⟨rfl, HEq.rfl, sameRest⟩
      | _ => cases equal
  | .result spelled value ended, tree', equal, same => by
      cases tree' with
      | result _ value' _ =>
          obtain rfl := Stmt.result.inj equal
          simp only [List.cons_append, List.append_assoc, List.cons.injEq] at same
          obtain ⟨rfl, sameValue⟩ := same
          obtain ⟨rfl, rfl, rfl, sameRest⟩ := value.unique_cons value' sameValue
          exact ⟨rfl, HEq.rfl, sameRest⟩
      | _ => cases equal
  | .expression different value ended, tree', equal, same => by
      cases tree' with
      | expression _ value' _ =>
          obtain rfl := Stmt.expression.inj equal
          simp only [List.append_assoc] at same
          obtain ⟨rfl, rfl, rfl, sameRest⟩ := value.unique_cons value' same
          exact ⟨rfl, HEq.rfl, sameRest⟩
      | _ => cases equal
  | .assignment different receiver spelled value ended, tree', equal, same => by
      cases tree' with
      | assignment _ receiver' _ value' _ =>
          obtain ⟨rfl, rfl⟩ := Stmt.assignment.inj equal
          simp only [List.cons_append, List.append_assoc] at same
          obtain ⟨rfl, rfl, rfl, sameValue⟩ := receiver.unique_cons receiver' same
          obtain ⟨rfl, rfl, rfl, sameRest⟩ := value.unique_cons value' sameValue
          exact ⟨rfl, HEq.rfl, sameRest⟩
      | _ => cases equal

theorem BlockTree.unique {closers : List String} {tokens tokens' rest rest' : List Token}
    {stmts : List Stmt} : (tree : BlockTree closers tokens stmts) →
      (tree' : BlockTree closers tokens' stmts) → tokens ++ rest = tokens' ++ rest' →
      tokens = tokens' ∧ HEq tree tree' ∧ rest = rest'
  | .nil, tree', same => by
      cases tree'
      exact ⟨rfl, HEq.rfl, same⟩
  | .cons different first later, tree', same => by
      cases tree' with
      | cons _ first' later' =>
          simp only [List.append_assoc] at same
          obtain ⟨rfl, rfl, sameLater⟩ := first.unique first' rfl same
          obtain ⟨rfl, rfl, sameRest⟩ := later.unique later' sameLater
          exact ⟨rfl, HEq.rfl, sameRest⟩

theorem CasesTree.unique {tokens tokens' rest rest' : List Token} {cases : List Case} :
    (tree : CasesTree tokens cases) → (tree' : CasesTree tokens' cases) →
      tokens ++ rest = tokens' ++ rest' → tokens = tokens' ∧ HEq tree tree' ∧ rest = rest'
  | .nil, tree', same => by
      cases tree'
      exact ⟨rfl, HEq.rfl, same⟩
  | .cons spelled value colonSpelled body later, tree', same => by
      cases tree' with
      | cons _ value' _ body' later' =>
          simp only [List.cons_append, List.append_assoc, List.cons.injEq] at same
          obtain ⟨rfl, sameValue⟩ := same
          obtain ⟨rfl, rfl, rfl, sameBody⟩ := value.unique_cons value' sameValue
          obtain ⟨rfl, rfl, sameLater⟩ := body.unique body' sameBody
          obtain ⟨rfl, rfl, sameRest⟩ := later.unique later' sameLater
          exact ⟨rfl, HEq.rfl, sameRest⟩

end

theorem GlobalTree.unique {tokens tokens' rest rest' : List Token} {item item' : Global}
    (tree : GlobalTree tokens item) (tree' : GlobalTree tokens' item') (equal : item = item')
    (same : tokens ++ rest = tokens' ++ rest') :
    tokens = tokens' ∧ HEq tree tree' ∧ rest = rest' := by
  have clash {keyword keyword' : Token} {rest rest' : List Token} {word word' : String}
      (spelled : keyword.literal = word) (spelled' : keyword'.literal = word')
      (different : word ≠ word') : keyword :: rest ≠ keyword' :: rest' := by
    intro same
    rw [← spelled, ← spelled', (List.cons.inj same).1] at different
    exact different rfl
  cases tree with
  | list spelled name equalsSpelled opened elements joined nonempty closed ended =>
      cases tree' with
      | list _ name' _ _ elements' joined' _ _ _ =>
          obtain ⟨rfl, rfl, _, values, _, _⟩ := Global.mk.inj equal
          obtain ⟨_, elementValues⟩ := Expr.list.inj (Option.some.inj values)
          simp only [List.cons_append, List.append_assoc, List.nil_append, List.cons.injEq] at same
          obtain ⟨rfl, sameName⟩ := same
          obtain ⟨rfl, sameEquals⟩ := name.unique name' sameName
          simp only [List.cons.injEq] at sameEquals
          obtain ⟨rfl, rfl, sameElements⟩ := sameEquals
          obtain ⟨rfl, rfl, rfl, sameClosing⟩ :=
            joined.agree joined' elements elements'
              (fun part member => PhraseTree.agree (elements part member) (by decide))
              elementValues sameElements
          simp only [List.cons.injEq] at sameClosing
          obtain ⟨rfl, rfl, sameRest⟩ := sameClosing
          exact ⟨rfl, HEq.rfl, sameRest⟩
      | mutable spelled' => exact absurd same (clash spelled spelled' (by decide))
      | immutable spelled' => exact absurd same (clash spelled spelled' (by decide))
  | mutable spelled name value ended =>
      cases tree' with
      | list spelled' => exact absurd same (clash spelled spelled' (by decide))
      | mutable _ name' value' _ =>
          obtain ⟨rfl, rfl, _, rfl, _, _⟩ := Global.mk.inj equal
          simp only [List.cons_append, List.append_assoc, List.cons.injEq] at same
          obtain ⟨rfl, sameName⟩ := same
          obtain ⟨rfl, sameValue⟩ := name.unique name' sameName
          obtain ⟨rfl, rfl, sameEnd⟩ := value.unique value' sameValue
          obtain ⟨rfl, sameRest⟩ := List.cons.inj sameEnd
          exact ⟨rfl, HEq.rfl, sameRest⟩
      | immutable spelled' => exact absurd same (clash spelled spelled' (by decide))
  | immutable spelled name equalsSpelled value ended =>
      cases tree' with
      | list spelled' => exact absurd same (clash spelled spelled' (by decide))
      | mutable spelled' => exact absurd same (clash spelled spelled' (by decide))
      | immutable _ name' _ value' _ =>
          obtain ⟨rfl, rfl, _, values, _, _⟩ := Global.mk.inj equal
          obtain rfl := Option.some.inj values
          simp only [List.cons_append, List.append_assoc, List.cons.injEq] at same
          obtain ⟨rfl, sameName⟩ := same
          obtain ⟨rfl, sameEquals⟩ := name.unique name' sameName
          obtain ⟨rfl, sameValue⟩ := List.cons.inj sameEquals
          obtain ⟨rfl, rfl, rfl, sameRest⟩ := value.unique_cons value' sameValue
          exact ⟨rfl, HEq.rfl, sameRest⟩

theorem FunctionTree.unique {tokens tokens' rest rest' : List Token} {item item' : Function}
    (tree : FunctionTree tokens item) (tree' : FunctionTree tokens' item') (equal : item = item')
    (same : tokens ++ rest = tokens' ++ rest') :
    tokens = tokens' ∧ HEq tree tree' ∧ rest = rest' := by
  obtain ⟨spelled, isIdentifier, opened, parameters, joined, starts, closed, type, started, body,
    finished⟩ := tree
  obtain ⟨_, _, _, parameters', joined', _, _, type', _, body', _⟩ := tree'
  obtain ⟨_, names, types, rfl, rfl, _, _⟩ := Function.mk.inj equal
  have values := (List.zip_of_prod names types).trans (List.zip_of_prod rfl rfl).symm
  simp only [List.cons_append, List.append_assoc, List.cons.injEq] at same
  obtain ⟨rfl, rfl, rfl, sameParameters⟩ := same
  obtain ⟨rfl, rfl⟩ := joined.unique joined'
    (fun part member other member' _ rest rest' same =>
      ((parameters part member).unique (parameters' other member') same).1)
    values sameParameters
  obtain ⟨rfl, sameType⟩ := List.cons.inj (List.append_cancel_left sameParameters)
  obtain ⟨rfl, sameStart⟩ := type.unique type' sameType
  obtain ⟨rfl, sameBody⟩ := List.cons.inj sameStart
  obtain ⟨rfl, rfl, sameEnd⟩ := body.unique body' sameBody
  obtain ⟨rfl, sameRest⟩ := List.cons.inj sameEnd
  exact ⟨rfl, HEq.rfl, sameRest⟩

theorem GlobalTree.keyword {tokens : List Token} {item : Global} (tree : GlobalTree tokens item) :
    ∃ keyword later, tokens = keyword :: later ∧ keyword.literal ≠ "FUN" := by
  cases tree with
  | list spelled => exact ⟨_, _, rfl, by simp [spelled]⟩
  | mutable spelled => exact ⟨_, _, rfl, by simp [spelled]⟩
  | immutable spelled => exact ⟨_, _, rfl, by simp [spelled]⟩

theorem FunctionTree.keyword {tokens : List Token} {item : Function}
    (tree : FunctionTree tokens item) :
    ∃ keyword later, tokens = keyword :: later ∧ keyword.literal = "FUN" := by
  obtain ⟨spelled⟩ := tree
  exact ⟨_, _, rfl, spelled⟩

theorem withGlobal_inj {item item' : Global} {program program' : Program}
    (equal : ({ program with globals := item :: program.globals } : Program) =
      { program' with globals := item' :: program'.globals }) :
    item = item' ∧ program = program' := by
  obtain ⟨globals, functions⟩ := program
  obtain ⟨globals', functions'⟩ := program'
  obtain ⟨sameGlobals, rfl⟩ := Program.mk.inj equal
  obtain ⟨rfl, rfl⟩ := List.cons.inj sameGlobals
  exact ⟨rfl, rfl⟩

theorem withFunction_inj {item item' : Function} {program program' : Program}
    (equal : ({ program with functions := item :: program.functions } : Program) =
      { program' with functions := item' :: program'.functions }) :
    item = item' ∧ program = program' := by
  obtain ⟨globals, functions⟩ := program
  obtain ⟨globals', functions'⟩ := program'
  obtain ⟨rfl, sameFunctions⟩ := Program.mk.inj equal
  obtain ⟨rfl, rfl⟩ := List.cons.inj sameFunctions
  exact ⟨rfl, rfl⟩

/-- Derivations of a program from the same tokens coincide. -/
theorem ProgramTree.unique {tokens : List Token} {program : Program}
    (tree : ProgramTree tokens program) :
    ∀ {tokens' : List Token} {program' : Program} (tree' : ProgramTree tokens' program'),
      program = program' → tokens = tokens' → HEq tree tree' := by
  have clash {tokens tokens' later later' : List Token} {item : Global} {item' : Function}
      (first : GlobalTree tokens item) (first' : FunctionTree tokens' item') :
      tokens ++ later ≠ tokens' ++ later' := by
    intro same
    obtain ⟨keyword, rest, rfl, notFunction⟩ := first.keyword
    obtain ⟨keyword', rest', rfl, isFunction⟩ := first'.keyword
    rw [(List.cons.inj same).1] at notFunction
    exact notFunction isFunction
  induction tree with
  | nil =>
      intro tokens' program' tree' equal same
      cases tree' with
      | nil => exact HEq.rfl
      | global => exact absurd equal (by simp)
      | function => exact absurd equal (by simp)
  | global first others induction =>
      intro tokens' program' tree' equal same
      cases tree' with
      | nil => exact absurd equal (by simp)
      | global first' others' =>
          obtain ⟨rfl, rfl⟩ := withGlobal_inj equal
          obtain ⟨rfl, rfl, rfl⟩ := first.unique first' rfl same
          obtain rfl := eq_of_heq (induction others' rfl rfl)
          exact HEq.rfl
      | function first' _ => exact absurd same (clash first first')
  | function first others induction =>
      intro tokens' program' tree' equal same
      cases tree' with
      | nil => exact absurd equal (by simp)
      | global first' _ => exact absurd same.symm (clash first' first)
      | function first' others' =>
          obtain ⟨rfl, rfl⟩ := withFunction_inj equal
          obtain ⟨rfl, rfl, rfl⟩ := first.unique first' rfl same
          obtain rfl := eq_of_heq (induction others' rfl rfl)
          exact HEq.rfl

end Grammar

end Procedural
