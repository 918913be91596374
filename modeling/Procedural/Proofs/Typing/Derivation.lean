import Procedural.Proofs.Reader.Grammar
import Procedural.Proofs.Scope.Correspondence
import Procedural.Proofs.Typing.Judgement

/-!
# Checked trees are typed

What passes the check is typed by the judgements, the tree that was given as well as the
annotated one.  Only trees of the grammar are considered: in them list literals are the
values of global variables, and functions have one type for each parameter.
-/

namespace Procedural

open Typing

/-- The tree that a discipline is about: with notes the checked one, without the given one. -/
def Discipline.select {α : Type} (discipline : Discipline) (given checked : α) : α :=
  if discipline.marked then checked else given

/-- Signatures have one type for each argument. -/
def Typing.Environment.Balanced (environment : Typing.Environment) : Prop :=
  ∀ name arity signature, environment.findFunction? name arity = some signature →
    signature.parameters.length = arity

section Balanced

variable {environment : Typing.Environment}

theorem Typing.Environment.Balanced.of_findFunction {other : Typing.Environment}
    (balanced : environment.Balanced)
    (same : ∀ name arity, other.findFunction? name arity = environment.findFunction? name arity) :
    other.Balanced := by
  intro name arity signature found
  rw [same] at found
  exact balanced name arity signature found

theorem Typing.Environment.Balanced.push (balanced : environment.Balanced) :
    Balanced environment.push := by
  apply balanced.of_findFunction
  intro name arity
  unfold Scope.findFunction?
  rw [Scope.search_eq_findSome?, Scope.search_eq_findSome?, Scope.chain_push]
  rfl

theorem Typing.Environment.Balanced.defineVariable (balanced : environment.Balanced)
    (name : String) (variableType : VariableType) :
    Balanced (environment.defineVariable name variableType) := by
  apply balanced.of_findFunction
  intro other arity
  unfold Scope.findFunction?
  rw [Scope.search_eq_findSome?, Scope.search_eq_findSome?, Scope.chain_defineVariable,
    Scope.chain_eq]
  rfl

theorem Typing.Environment.Balanced.defineFunction (balanced : environment.Balanced)
    (name : String) {arity : Nat} {signature : Signature}
    (fits : signature.parameters.length = arity) :
    Balanced (environment.defineFunction name arity signature) := by
  intro other arity' signature' found
  unfold Scope.findFunction? at found
  rw [Scope.search_eq_findSome?, Scope.chain_defineFunction] at found
  simp only [List.findSome?_cons, Frame.findFunction?, Frame.defineFunction,
    List.lookup_cons] at found
  by_cases here : (other, arity') = (name, arity)
  · obtain ⟨rfl, rfl⟩ := Prod.mk.inj here
    rw [beq_self_eq_true] at found
    obtain rfl := Option.some.inj found
    exact fits
  · rw [beq_false_of_ne here] at found
    apply balanced other arity' signature'
    unfold Scope.findFunction?
    rw [Scope.search_eq_findSome?, Scope.chain_eq]
    exact found

end Balanced

section Select

variable (discipline : Discipline)

theorem Discipline.select_apply {α β : Type} (build : α → β) (given checked : α) :
    discipline.select (build given) (build checked) = build (discipline.select given checked) := by
  unfold Discipline.select
  split <;> rfl

theorem Discipline.select_apply₂ {α β γ : Type} (build : α → β → γ) (given checked : α)
    (given' checked' : β) :
    discipline.select (build given given') (build checked checked') =
      build (discipline.select given checked) (discipline.select given' checked') := by
  unfold Discipline.select
  split <;> rfl

theorem Discipline.select_apply₃ {α β γ δ : Type} (build : α → β → γ → δ) (given checked : α)
    (given' checked' : β) (given'' checked'' : γ) :
    discipline.select (build given given' given'') (build checked checked' checked'') =
      build (discipline.select given checked) (discipline.select given' checked')
        (discipline.select given'' checked'') := by
  unfold Discipline.select
  split <;> rfl

theorem Discipline.select_self {α : Type} (tree : α) : discipline.select tree tree = tree := by
  unfold Discipline.select
  split <;> rfl

theorem Discipline.noted_select (note : Note) (ty : Ty) (function : Option Signature) :
    discipline.Noted (discipline.select note { note with ty := some ty, function }) ty := by
  intro marked
  rw [Discipline.select, if_pos marked]

theorem Discipline.select_offset (note : Note) (ty : Ty) (function : Option Signature) :
    (discipline.select note { note with ty := some ty, function }).offset = note.offset := by
  unfold Discipline.select
  split <;> rfl

end Select

variable {discipline : Discipline} {environment : Typing.Environment}

theorem Typing.require_eq_ok {expected found : Ty} {offset : Option Nat} :
    require expected found offset = .ok () ↔ expected.accepts found = true := by
  unfold require
  split <;> simp_all

theorem Typing.conclude_verdict (rebuild : Note → Expr) (note : Note)
    (function : Option Signature) (outcome : Except TypingError Ty) :
    (conclude rebuild note function outcome).verdict = outcome := by
  cases outcome <;> rfl

/-- Whatever type the check finds, the expression has it. -/
def Expr.Derives (discipline : Discipline) (environment : Typing.Environment) (expr : Expr) :
    Prop :=
  ∀ ty, (expr.check environment).verdict = .ok ty →
    ExprTyping discipline environment (discipline.select expr (expr.check environment).tree) ty

theorem Expr.checkArguments_typing {types : List Ty} {exprs : List Expr}
    (derive : ∀ expr ∈ exprs, expr.Derives discipline environment)
    (lengths : types.length = exprs.length)
    (passes : (Expr.checkArguments environment types exprs).verdict = .ok ()) :
    ArgumentsTyping discipline environment
      (discipline.select exprs (Expr.checkArguments environment types exprs).tree) types := by
  induction exprs generalizing types with
  | nil =>
      obtain rfl := List.length_eq_zero_iff.mp lengths
      rw [Expr.checkArguments, Discipline.select_self]
      exact .nil
  | cons first rest induction =>
      cases types with
      | nil => cases lengths
      | cons expected types =>
          obtain ⟨here, later⟩ := List.forall_mem_cons.mp derive
          simp only [Expr.checkArguments] at passes ⊢
          cases verdict : (first.check environment).verdict with
          | error error =>
              rw [verdict] at passes
              cases passes
          | ok found =>
              cases required : require expected found (some first.offset) with
              | error error =>
                  simp only [verdict, Except.bind, required] at passes
                  cases passes
              | ok _ =>
                  simp only [verdict, Except.bind, required] at passes ⊢
                  rw [Discipline.select_apply₂]
                  exact .cons (here found verdict) (require_eq_ok.mp required)
                    (induction later (Nat.succ.inj lengths) passes)

theorem Expr.checkElements_typing {ty : Ty} {exprs : List Expr}
    (derive : ∀ expr ∈ exprs, expr.Derives discipline environment)
    (passes : (Expr.checkElements environment ty exprs).verdict = .ok ()) :
    ArgumentsTyping discipline environment
      (discipline.select exprs (Expr.checkElements environment ty exprs).tree)
      (List.replicate
        (discipline.select exprs (Expr.checkElements environment ty exprs).tree).length ty) := by
  induction exprs with
  | nil =>
      rw [Expr.checkElements, Discipline.select_self]
      exact .nil
  | cons first rest induction =>
      obtain ⟨here, later⟩ := List.forall_mem_cons.mp derive
      simp only [Expr.checkElements] at passes ⊢
      cases verdict : (first.check environment).verdict with
      | error error =>
          rw [verdict] at passes
          cases passes
      | ok found =>
          cases required : require ty found (some first.offset) with
          | error error =>
              simp only [verdict, Except.bind, required] at passes
              cases passes
          | ok _ =>
              simp only [verdict, Except.bind, required] at passes ⊢
              rw [Discipline.select_apply₂]
              exact .cons (here found verdict) (require_eq_ok.mp required)
                (induction later passes)

theorem literalType_of_ok {value : Scalar} {offset : Nat} {ty : Ty}
    (typed : literalType value offset = .ok ty) : ty = value.ty := by
  unfold literalType at typed
  split at typed
  · split at typed
    · exact (Except.ok.inj typed).symm
    · cases typed
  · split at typed
    · exact (Except.ok.inj typed).symm
    · cases typed
  · exact (Except.ok.inj typed).symm

theorem Grammar.Phrase.derives {levels : List Level} {tokens : List Token} {expr : Expr}
    (phrase : Grammar.Phrase levels tokens expr) (balanced : environment.Balanced) :
    expr.Derives discipline environment := by
  induction phrase with
  | @literal token value _ _ =>
      intro ty passes
      rw [Expr.check, conclude_verdict] at passes
      obtain rfl := literalType_of_ok passes
      simp only [Expr.check, passes, conclude]
      rw [discipline.select_apply (Expr.literal · value)]
      exact .literal (discipline.noted_select _ _ _)
  | @group opening closing tokens inner _ _ _ induction =>
      intro ty passes
      simp only [Expr.check] at passes ⊢
      by_cases binary : inner.isBinary = true
      · rw [if_pos binary] at passes ⊢
        rw [conclude_verdict] at passes
        simp only [passes, conclude]
        rw [Discipline.select_apply₂]
        exact .group (discipline.noted_select _ _ _) (induction ty passes)
      · rw [if_neg binary] at passes
        cases passes
  | @access name _ =>
      intro ty passes
      simp only [Expr.check] at passes ⊢
      cases found : environment.findVariable? name.literal with
      | none =>
          rw [found] at passes
          cases passes
      | some type =>
          simp only [found, conclude] at passes ⊢
          cases passes
          rw [discipline.select_apply (Expr.access · name.literal)]
          exact .access (discipline.noted_select _ _ _) found
  | @element name opening closing tokens index _ _ _ _ induction =>
      intro ty passes
      simp only [Expr.check] at passes ⊢
      cases found : environment.findVariable? name.literal with
      | none =>
          rw [found] at passes
          cases passes
      | some type =>
          simp only [found, conclude_verdict] at passes ⊢
          obtain ⟨indexType, verdict, required⟩ := Typing.bind_eq_ok.mp passes
          obtain ⟨_, accepted, rfl⟩ := Typing.map_eq_ok.mp required
          simp only [passes, conclude]
          rw [discipline.select_apply₂ (Expr.element · name.literal ·)]
          exact .element (discipline.noted_select _ _ _) found (induction indexType verdict)
            (require_eq_ok.mp accepted)
  | @call name opening closing tokens parts _ _ _ _ _ _ induction =>
      intro ty passes
      simp only [Expr.check] at passes ⊢
      have derive : ∀ expr ∈ parts.map Prod.snd, expr.Derives discipline environment := by
        intro expr member
        obtain ⟨part, inside, rfl⟩ := List.mem_map.mp member
        exact induction part inside
      generalize parts.map Prod.snd = arguments at passes derive ⊢
      cases found : environment.findFunction? name.literal arguments.length with
      | none =>
          rw [found] at passes
          cases passes
      | some signature =>
          have lengths := balanced _ _ _ found
          simp only [found, conclude_verdict] at passes ⊢
          obtain ⟨_, verdict, rfl⟩ := Typing.map_eq_ok.mp passes
          simp only [passes, conclude]
          rw [discipline.select_apply₂ (Expr.call · name.literal ·)]
          have typing := Expr.checkArguments_typing derive lengths verdict
          apply ExprTyping.call (discipline.noted_select _ _ _) _ typing
          rw [typing.length_eq, lengths]
          exact found
  | @binary level tighter token op leftTokens rightTokens left right _ _ _ induction induction' =>
      intro ty passes
      simp only [Expr.check] at passes ⊢
      cases verdict : (left.check environment).verdict with
      | error error =>
          rw [verdict] at passes
          cases passes
      | ok leftType =>
          simp only [verdict, conclude_verdict] at passes ⊢
          obtain ⟨rightType, verdict', result⟩ := Typing.bind_eq_ok.mp passes
          simp only [passes, conclude]
          rw [discipline.select_apply₃ (Expr.binary · op)]
          refine .binary (discipline.noted_select _ _ _) (induction leftType verdict)
            (induction' rightType verdict') ?_
          rw [discipline.select_offset]
          exact result
  | tighter _ induction => exact induction

theorem ExprTyping.noted {expr : Expr} {ty : Ty}
    (typing : ExprTyping discipline environment expr ty) : discipline.Noted expr.note ty := by
  cases typing with
  | literal noted => exact noted
  | group noted => exact noted
  | binary noted => exact noted
  | access noted => exact noted
  | element noted => exact noted
  | call noted => exact noted

theorem Expr.Derives.expected {expr : Expr} {ty : Ty}
    (derives : expr.Derives discipline environment)
    (passes : (expr.checkAgainst environment ty).verdict = .ok ()) :
    ExpectedTyping discipline environment ty
      (discipline.select expr (expr.checkAgainst environment ty).tree) := by
  obtain ⟨found, verdict, required⟩ := Typing.bind_eq_ok.mp passes
  exact ⟨found, derives found verdict, require_eq_ok.mp required⟩

theorem Typing.checkUntyped_typing {returns : Ty} {name : String} {value : Expr}
    {extended : Typing.Environment} (derives : value.Derives discipline environment)
    (passes : (checkUntyped environment name (some value)).verdict = .ok extended) :
    StmtTyping discipline returns environment
      (discipline.select (.declaration name none (some value))
        (checkUntyped environment name (some value)).tree) extended := by
  obtain ⟨ty, verdict, declared⟩ := Typing.bind_eq_ok.mp passes
  obtain ⟨fresh, rfl⟩ := declare_eq_ok.mp declared
  have typing := derives ty verdict
  simp only [checkUntyped]
  rw [discipline.select_apply (fun value => Stmt.declaration name none (some value))]
  apply StmtTyping.declaration _ _ fresh
  · intro expr member
    obtain rfl := Option.some.inj member
    exact ⟨ty, typing, by simp [Ty.accepts]⟩
  · intro marked
    simp [Java.localType, typing.noted marked]

theorem Typing.checkTyped_typing {returns : Ty} {name typeName : String} {value : Option Expr}
    {extended : Typing.Environment} (derives : ∀ expr ∈ value, expr.Derives discipline environment)
    (passes : (checkTyped environment name typeName value).verdict = .ok extended) :
    StmtTyping discipline returns environment
      (discipline.select (.declaration name (some typeName) value)
        (checkTyped environment name typeName value).tree) extended := by
  simp only [checkTyped] at passes ⊢
  unfold resolve at passes ⊢
  cases named : Ty.ofName? typeName with
  | none =>
      rw [named] at passes
      cases passes
  | some ty =>
      cases value with
      | none =>
          simp only [named] at passes ⊢
          obtain ⟨fresh, rfl⟩ := declare_eq_ok.mp passes
          rw [Discipline.select_self]
          apply StmtTyping.declaration _ _ fresh
          · intro expr member
            cases member
          · intro _
            simp [Java.localType, named]
      | some value =>
          simp only [named] at passes ⊢
          obtain ⟨_, verdict, declared⟩ := Typing.bind_eq_ok.mp passes
          obtain ⟨fresh, rfl⟩ := declare_eq_ok.mp declared
          rw [discipline.select_apply fun value =>
            Stmt.declaration name (some typeName) (some value)]
          apply StmtTyping.declaration _ _ fresh
          · intro expr member
            obtain rfl := Option.some.inj member
            exact (derives value rfl).expected verdict
          · intro _
            simp [Java.localType, named]

theorem Typing.mutable_of_found {name : String} {found : VariableType}
    (equal : environment.findVariable? name = some found)
    (changes : isImmutable environment name = false) : found.mutable = true := by
  simpa [isImmutable, equal] using changes

theorem Typing.checkAssignment_typing {returns : Ty} {receiver value : Expr}
    {extended : Typing.Environment} (derivesReceiver : receiver.Derives discipline environment)
    (derives : value.Derives discipline environment)
    (passes : (checkAssignment environment receiver value).verdict = .ok extended) :
    environment = extended ∧
      StmtTyping discipline returns environment
        (discipline.select (.assignment receiver value)
          (checkAssignment environment receiver value).tree) environment := by
  simp only [checkAssignment] at passes ⊢
  cases target : receiver.target? with
  | none =>
      rw [target] at passes
      cases passes
  | some name =>
      simp only [target] at passes ⊢
      cases verdict : (receiver.check environment).verdict with
      | error error =>
          rw [verdict] at passes
          cases passes
      | ok ty =>
          simp only [verdict] at passes ⊢
          cases immutable : isImmutable environment name with
          | true =>
              simp only [immutable] at passes
              cases passes
          | false =>
              simp only [immutable] at passes ⊢
              obtain ⟨_, expected, same⟩ := Typing.map_eq_ok.mp passes
              refine ⟨same, ?_⟩
              have valueTyping := derives.expected expected
              have receiverTyping := derivesReceiver ty verdict
              simp only [Bool.false_eq_true, if_false]
              rw [Discipline.select_apply₂]
              cases receiver with
              | access note other =>
                  obtain rfl := Option.some.inj target
                  simp only [Expr.check] at verdict ⊢
                  cases found : environment.findVariable? other with
                  | none =>
                      rw [found] at verdict
                      cases verdict
                  | some variableType =>
                      simp only [found, conclude] at verdict ⊢
                      cases verdict
                      rw [discipline.select_apply (Expr.access · other)]
                      exact .assignVariable found (mutable_of_found found immutable) valueTyping
              | element note other index =>
                  obtain rfl := Option.some.inj target
                  simp only [Expr.check] at verdict receiverTyping ⊢
                  cases found : environment.findVariable? other with
                  | none =>
                      rw [found] at verdict
                      cases verdict
                  | some variableType =>
                      simp only [found, conclude_verdict] at verdict
                      simp only [found, verdict, conclude] at receiverTyping ⊢
                      rw [discipline.select_apply₂ (Expr.element · other ·)] at receiverTyping ⊢
                      cases receiverTyping with
                      | element noted found' indexTyping accepted =>
                          exact .assignElement noted found' (mutable_of_found found' immutable)
                            ⟨_, indexTyping, accepted⟩ valueTyping
              | _ => cases target

theorem Typing.branch_typing {returns : Ty} {condition : Expr} {thenBlock elseBlock : List Stmt}
    {extended : Typing.Environment} (derives : condition.Derives discipline environment)
    (thenTyping : (Stmt.checkBlock returns environment.push thenBlock).verdict = .ok () →
      BlockTyping discipline returns environment.push
        (discipline.select thenBlock (Stmt.checkBlock returns environment.push thenBlock).tree))
    (elseTyping : (Stmt.checkBlock returns environment.push elseBlock).verdict = .ok () →
      BlockTyping discipline returns environment.push
        (discipline.select elseBlock (Stmt.checkBlock returns environment.push elseBlock).tree))
    (passes : ((Stmt.branch condition thenBlock elseBlock).check returns environment).verdict =
      .ok extended) :
    StmtTyping discipline returns environment
      (discipline.select (.branch condition thenBlock elseBlock)
        ((Stmt.branch condition thenBlock elseBlock).check returns environment).tree)
      extended := by
  simp only [Stmt.check] at passes ⊢
  cases verdict : (condition.checkAgainst environment .boolean).verdict with
  | error error =>
      rw [verdict] at passes
      cases passes
  | ok _ =>
      simp only [verdict] at passes ⊢
      cases empty : thenBlock.isEmpty with
      | true =>
          rw [empty] at passes
          cases passes
      | false =>
          simp only [empty, Bool.false_eq_true, if_false] at passes ⊢
          cases verdict' : (Stmt.checkBlock returns environment.push thenBlock).verdict with
          | error error =>
              rw [verdict'] at passes
              cases passes
          | ok _ =>
              simp only [verdict'] at passes ⊢
              obtain ⟨_, elsePasses, rfl⟩ := Typing.map_eq_ok.mp passes
              rw [Discipline.select_apply₃]
              exact .branch (derives.expected verdict) (thenTyping verdict')
                (elseTyping elsePasses)

theorem StmtTyping.balanced {returns : Ty} {extended : Typing.Environment} {stmt : Stmt}
    (typing : StmtTyping discipline returns environment stmt extended)
    (balanced : environment.Balanced) : extended.Balanced := by
  cases typing with
  | declaration => exact balanced.defineVariable _ _
  | _ => exact balanced

mutual

theorem Grammar.IsStmt.typing {returns : Ty} : ∀ {tokens : List Token} {stmt : Stmt}
    {environment extended : Typing.Environment}, Grammar.IsStmt tokens stmt →
    environment.Balanced → (stmt.check returns environment).verdict = .ok extended →
    StmtTyping discipline returns environment
      (discipline.select stmt (stmt.check returns environment).tree) extended
  | _, _, environment, _,
      @Grammar.IsStmt.declaration _ _ _ _ _ written value _ _ _ isValue one _,
      balanced, passes => by
      have derives : ∀ expr ∈ value, expr.Derives discipline environment := by
        intro expr member
        cases isValue with
        | none => cases member
        | some _ phrase =>
            obtain rfl := Option.some.inj member
            exact phrase.derives balanced
      cases written with
      | some typeName => exact checkTyped_typing derives passes
      | none =>
          cases value with
          | none => cases one
          | some value => exact checkUntyped_typing (derives value rfl) passes
  | _, _, environment, _,
      @Grammar.IsStmt.switch _ _ _ _ _ _ condition valued _ body _ isCondition isCases _ isBody
        _ rfl, balanced, passes => by
      simp only [Stmt.check] at passes ⊢
      cases verdict : (condition.check environment).verdict with
      | error error =>
          rw [verdict] at passes
          cases passes
      | ok ty =>
          simp only [verdict] at passes ⊢
          obtain ⟨_, casesPass, rfl⟩ := Typing.map_eq_ok.mp passes
          rw [Discipline.select_apply₂]
          apply StmtTyping.switch (isCondition.derives balanced ty verdict)
          apply isCases.typing balanced _ casesPass
          intro bodyPasses
          simp only [Case.checkDefault] at bodyPasses ⊢
          rw [discipline.select_apply (fun body => [Case.mk none body])]
          apply CasesTyping.cons _ (isBody.typing balanced.push bodyPasses) .nil
          intro expr member
          cases member
  | _, _, environment, _,
      @Grammar.IsStmt.branch _ _ _ _ _ condition thenBlock _ isCondition _ isThen _,
      balanced, passes => by
      exact branch_typing (isCondition.derives balanced) (isThen.typing balanced.push)
        (fun _ => by
          rw [Stmt.checkBlock, Discipline.select_self]
          exact .nil) passes
  | _, _, environment, _,
      @Grammar.IsStmt.branchElse _ _ _ _ _ _ _ condition thenBlock elseBlock _ isCondition _
        isThen _ isElse _, balanced, passes =>
      branch_typing (isCondition.derives balanced) (isThen.typing balanced.push)
        (isElse.typing balanced.push) passes
  | _, _, environment, _,
      @Grammar.IsStmt.loop _ _ _ _ _ condition body _ isCondition _ isBody _,
      balanced, passes => by
      simp only [Stmt.check] at passes ⊢
      cases verdict : (condition.checkAgainst environment .boolean).verdict with
      | error error =>
          rw [verdict] at passes
          cases passes
      | ok _ =>
          simp only [verdict] at passes ⊢
          obtain ⟨_, bodyPasses, rfl⟩ := Typing.map_eq_ok.mp passes
          rw [Discipline.select_apply₂]
          exact .loop ((isCondition.derives balanced).expected verdict)
            (isBody.typing balanced.push bodyPasses)
  | _, _, _, _, .result _ isValue _, balanced, passes => by
      simp only [Stmt.check] at passes ⊢
      obtain ⟨_, valuePasses, rfl⟩ := Typing.map_eq_ok.mp passes
      rw [Discipline.select_apply]
      exact .result ((isValue.derives balanced).expected valuePasses)
  | _, _, _, _, .expression _ isValue _, balanced, passes => by
      simp only [Stmt.check] at passes ⊢
      obtain ⟨ty, valuePasses, rfl⟩ := Typing.map_eq_ok.mp passes
      rw [Discipline.select_apply]
      exact .expression (isValue.derives balanced ty valuePasses)
  | _, _, _, _, .assignment _ isReceiver _ isValue _, balanced, passes => by
      obtain ⟨rfl, typing⟩ := checkAssignment_typing (isReceiver.derives balanced)
        (isValue.derives balanced) passes
      exact typing

theorem Grammar.IsBlock.typing {returns : Ty} : ∀ {closers : List String} {tokens : List Token}
    {stmts : List Stmt} {environment : Typing.Environment},
    Grammar.IsBlock closers tokens stmts → environment.Balanced →
    (Stmt.checkBlock returns environment stmts).verdict = .ok () →
    BlockTyping discipline returns environment
      (discipline.select stmts (Stmt.checkBlock returns environment stmts).tree)
  | _, _, _, _, .nil, _, _ => by
      rw [Stmt.checkBlock, Discipline.select_self]
      exact .nil
  | _, _, _, environment, @Grammar.IsBlock.cons _ _ _ stmt stmts _ first rest, balanced,
      passes => by
      simp only [Stmt.checkBlock] at passes ⊢
      cases verdict : (stmt.check returns environment).verdict with
      | error error =>
          rw [verdict] at passes
          cases passes
      | ok extended =>
          simp only [verdict] at passes ⊢
          have typing := first.typing balanced verdict
          rw [Discipline.select_apply₂]
          exact .cons typing (rest.typing (typing.balanced balanced) passes)

/-- The cases with a value and the default case after them. -/
theorem Grammar.IsCases.typing {returns ty : Ty} {offset : Nat} {default : Case} :
    ∀ {tokens : List Token} {cases : List Case} {environment : Typing.Environment},
    Grammar.IsCases tokens cases → environment.Balanced →
    ((default.checkDefault returns environment).verdict = .ok () →
      CasesTyping discipline returns environment
        (discipline.select [default] [(default.checkDefault returns environment).tree])) →
    (Case.checkAll returns environment ty offset (cases ++ [default])).verdict = .ok () →
    CasesTyping discipline returns environment
      (discipline.select (cases ++ [default])
        (Case.checkAll returns environment ty offset (cases ++ [default])).tree)
  | _, _, _, .nil, _, last, passes => last passes
  | _, _, environment, @Grammar.IsCases.cons _ _ _ _ _ value body cases _ isValue _ isBody rest,
      balanced, last, passes => by
      have later : (Case.checkAll returns environment ty offset (cases ++ [default])).verdict =
          .ok () → CasesTyping discipline returns environment
            (discipline.select (cases ++ [default])
              (Case.checkAll returns environment ty offset (cases ++ [default])).tree) :=
        rest.typing balanced last
      obtain ⟨next, others, further⟩ : ∃ next others, cases ++ [default] = next :: others :=
        List.exists_cons_of_ne_nil (by simp)
      rw [List.cons_append, further] at passes ⊢
      rw [further] at later
      simp only [Case.checkAll, Case.checkValued] at passes ⊢
      cases verdict : (value.checkAgainst environment ty).verdict with
      | error error =>
          rw [verdict] at passes
          cases passes
      | ok _ =>
          simp only [verdict] at passes ⊢
          cases verdict' : (Stmt.checkBlock returns environment.push body).verdict with
          | error error =>
              rw [verdict'] at passes
              cases passes
          | ok _ =>
              simp only [verdict'] at passes ⊢
              rw [Discipline.select_apply₂,
                discipline.select_apply₂ (fun value body => Case.mk (some value) body)]
              apply CasesTyping.cons _ (isBody.typing balanced.push verdict') (later passes)
              intro expr member
              obtain rfl := Option.some.inj member
              obtain ⟨found, typing, _⟩ := (isValue.derives balanced).expected verdict
              exact ⟨found, typing⟩

end

end Procedural
