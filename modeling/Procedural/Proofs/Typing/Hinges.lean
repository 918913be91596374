import Procedural.Proofs.Syntax.Settings
import Procedural.Proofs.Typing.Annotation
import Procedural.Proofs.Typing.Derivation

/-!
# What a check depends on

All that a check learns from an expression inside the tree are its annotated tree and its
type.  So a check that passes passes as well with any other expression of that type at the
same place, and fails with the faults of an expression that has none.
-/

namespace Procedural

open Typing

/-- How a passing check depends on the expression that is given at one place: it does not look at
it, or it checks it in one environment, wants one type of it and hands on its faults. -/
inductive Hinges {τ α : Type} (loose : Prop) (fits : (Expr → τ) → Prop) (given : Expr)
    (check : Expr → Checked τ α) (result : α) : Prop where
  | idle (annotated : Expr → τ) : loose → fits annotated →
      (∀ part, given.Alike part → check part = ⟨annotated part, .ok result⟩) →
      Hinges loose fits given check result
  | on (annotated : Expr → τ) {environment : Typing.Environment} {ty : Ty} : fits annotated →
      (given.check environment).verdict = .ok ty →
      (∀ part tree, given.Alike part → part.check environment = ⟨tree, .ok ty⟩ →
        check part = ⟨annotated tree, .ok result⟩) →
      (∀ part error, given.Alike part → (part.check environment).verdict = .error error →
        (check part).verdict = .error error) →
      Hinges loose fits given check result

/-- Checks the first entry of a list, and the others in view of what it yields. -/
def Checked.cons {α β γ : Type} (first : Checked α β) (given : List α)
    (others : β → Checked (List α) γ) : Checked (List α) γ :=
  match first.verdict with
  | .error error => ⟨first.tree :: given, .error error⟩
  | .ok value => ⟨first.tree :: (others value).tree, (others value).verdict⟩

section Hinges

variable {loose : Prop} {given : Expr}

/-- A check that goes on from another one's outcome hinges on what that one hinges on. -/
theorem Hinges.within {σ τ α β : Type} {fits : (Expr → σ) → Prop} {fits' : (Expr → τ) → Prop}
    {inner : Expr → Checked σ β} {outer : Expr → Checked τ α} {value : β} {result : α}
    (hinges : Hinges loose fits given inner value) (build : σ → τ)
    (builds : ∀ annotated, fits annotated → fits' fun part => build (annotated part))
    (passes : ∀ part tree, given.Alike part → inner part = ⟨tree, .ok value⟩ →
      outer part = ⟨build tree, .ok result⟩)
    (fails : ∀ part error, given.Alike part → (inner part).verdict = .error error →
      (outer part).verdict = .error error) :
    Hinges loose fits' given outer result := by
  cases hinges with
  | idle annotated unseen isFit same =>
      exact .idle _ unseen (builds annotated isFit) fun part alike =>
        passes part _ alike (same part alike)
  | on annotated isFit found passes' fails' =>
      refine .on _ (builds annotated isFit) found ?_ ?_
      · exact fun part tree alike checked =>
          passes part _ alike (passes' part tree alike checked)
      · exact fun part error alike failed => fails part error alike (fails' part error alike failed)

variable {α β γ : Type} {isSetting : (Expr → α) → Prop} {bare : α → α}
  {bareAll : List α → List α} {result : γ}

theorem Checked.cons_eq_ok {first : Checked α β} {rest : List α}
    {others : β → Checked (List α) γ} :
    (first.cons rest others).verdict = .ok result ↔
      ∃ value, first.verdict = .ok value ∧ (others value).verdict = .ok result := by
  unfold Checked.cons
  cases first.verdict <;> simp

theorem Hinges.head {inner : Expr → α} {first : Expr → Checked α β} {back : List α}
    {others : β → Checked (List α) γ}
    (hinge : ∀ value, (first given).verdict = .ok value →
      Hinges loose (Annotates isSetting bare inner) given first value)
    (cons : ∀ first rest, bareAll (first :: rest) = bare first :: bareAll rest)
    (same : ∀ value, bareAll (others value).tree = bareAll back)
    (accepted : ((first given).cons back others).verdict = .ok result) :
    Hinges loose (Annotates (IsListSetting isSetting) bareAll fun part => inner part :: back)
      given (fun part => (first part).cons back others) result := by
  obtain ⟨value, firstPasses, othersPass⟩ := Checked.cons_eq_ok.mp accepted
  refine (hinge value firstPasses).within (fun tree => tree :: (others value).tree) ?_ ?_ ?_
  · exact fun annotated annotates => annotates.head cons (same value)
  · intro part tree _ checked
    simp only [Checked.cons, checked, othersPass]
  · intro part error _ failed
    simp only [Checked.cons, failed]

theorem Hinges.tail {item : α} {items : Expr → List α} {first : Checked α β}
    {others : β → Expr → Checked (List α) γ}
    (hinge : ∀ value, first.verdict = .ok value → (others value given).verdict = .ok result →
      Hinges loose (Annotates (IsListSetting isSetting) bareAll items) given (others value) result)
    (cons : ∀ first rest, bareAll (first :: rest) = bare first :: bareAll rest)
    (same : bare first.tree = bare item)
    (accepted : (first.cons (items given) fun value => others value given).verdict =
      .ok result) :
    Hinges loose (Annotates (IsListSetting isSetting) bareAll fun part => item :: items part)
      given (fun part => first.cons (items part) fun value => others value part) result := by
  obtain ⟨value, firstPasses, othersPass⟩ := Checked.cons_eq_ok.mp accepted
  refine (hinge value firstPasses othersPass).within (fun trees => first.tree :: trees) ?_ ?_ ?_
  · exact fun annotated annotates => annotates.tail cons same
  · intro part trees _ checked
    simp only [Checked.cons, firstPasses, checked]
  · intro part error _ failed
    simp only [Checked.cons, firstPasses, failed]

end Hinges

namespace Expr

variable {loose : Prop} {given : Expr}

/-- Whatever type the check finds in a setting, that hinges on the expression there. -/
abbrev Hinge (loose : Prop) (given : Expr) (environment : Typing.Environment)
    (setting : Expr → Expr) : Prop :=
  ∀ ty, ((setting given).check environment).verdict = .ok ty →
    Hinges loose (Annotates IsSetting bare setting) given
      (fun part => (setting part).check environment) ty

variable {environment : Typing.Environment} {inner : Expr → Expr}

theorem Hinge.checkAgainst (hinge : Hinge loose given environment inner) {expected : Ty} :
    ∀ value, ((inner given).checkAgainst environment expected).verdict = .ok value →
    Hinges loose (Annotates IsSetting bare inner) given
      (fun part => (inner part).checkAgainst environment expected) value := by
  intro _ accepted
  obtain ⟨found, verdict, required⟩ := bind_eq_ok.mp accepted
  have accepts := require_eq_ok.mp required
  refine (hinge found verdict).within id (fun _ isFit => isFit) ?_ ?_
  · intro part tree _ checked
    simp only [Expr.checkAgainst, checked, Except.bind, require, if_pos accepts, id]
  · intro part error _ failed
    simp only [Expr.checkAgainst, failed, Except.bind]

theorem checkArguments_cons (ty : Ty) (types : List Ty) (item : Expr) (rest : List Expr) :
    checkArguments environment (ty :: types) (item :: rest) =
      (item.checkAgainst environment ty).cons rest
        fun _ => checkArguments environment types rest := by
  simp only [checkArguments, Checked.cons, checkAgainst]
  cases (item.check environment).verdict.bind fun found =>
    require ty found (some item.offset) <;> rfl

theorem checkElements_cons (ty : Ty) (item : Expr) (rest : List Expr) :
    checkElements environment ty (item :: rest) =
      (item.checkAgainst environment ty).cons rest
        fun _ => checkElements environment ty rest := by
  simp only [checkElements, Checked.cons, checkAgainst]
  cases (item.check environment).verdict.bind fun found =>
    require ty found (some item.offset) <;> rfl

theorem Hinge.checkArguments (hinge : Hinge loose given environment inner)
    (isSetting : IsSetting inner) (front back : List Expr) : ∀ types : List Ty,
    (¬ loose → types.length = (front ++ inner given :: back).length) →
    (Expr.checkArguments environment types (front ++ inner given :: back)).verdict = .ok () →
    Hinges loose (Annotates (IsListSetting IsSetting) bareItems
        fun part => front ++ inner part :: back) given
      (fun part => Expr.checkArguments environment types (front ++ inner part :: back)) () := by
  induction front with
  | nil =>
      intro types lengths accepted
      cases types with
      | nil =>
          refine .idle (fun part => inner part :: back) (by_contra fun tight => ?_)
            ⟨⟨[], inner, back, isSetting, rfl⟩, fun _ => rfl⟩ fun _ _ => rfl
          cases lengths tight
      | cons ty types =>
          simp only [List.nil_append, checkArguments_cons] at accepted ⊢
          exact .head hinge.checkAgainst (fun _ _ => rfl)
            (fun _ => bareItems_checkArguments environment types back) accepted
  | cons first front induction =>
      intro types lengths accepted
      cases types with
      | nil =>
          refine .idle (fun part => first :: front ++ inner part :: back)
            (by_contra fun tight => ?_) ⟨⟨first :: front, inner, back, isSetting, rfl⟩,
              fun _ => rfl⟩ fun _ _ => rfl
          cases lengths tight
      | cons ty types =>
          simp only [List.cons_append, checkArguments_cons] at accepted ⊢
          refine .tail (fun _ _ => induction types fun tight => ?_) (fun _ _ => rfl)
            (bare_checkAgainst environment ty first) accepted
          exact Nat.succ.inj (lengths tight)

theorem Hinge.checkElements (hinge : Hinge loose given environment inner)
    (front back : List Expr) (ty : Ty)
    (accepted : (Expr.checkElements environment ty (front ++ inner given :: back)).verdict =
      .ok ()) :
    Hinges loose (Annotates (IsListSetting IsSetting) bareItems
        fun part => front ++ inner part :: back) given
      (fun part => Expr.checkElements environment ty (front ++ inner part :: back)) () := by
  induction front with
  | nil =>
      simp only [List.nil_append, checkElements_cons] at accepted ⊢
      exact .head hinge.checkAgainst (fun _ _ => rfl)
        (fun _ => bareItems_checkElements environment ty back) accepted
  | cons first front induction =>
      simp only [List.cons_append, checkElements_cons] at accepted ⊢
      exact .tail (fun _ _ => induction) (fun _ _ => rfl)
        (bare_checkAgainst environment ty first) accepted

theorem Hinge.group (hinge : Hinge loose given environment inner) (isSetting : IsSetting inner)
    (note : Note) : Hinge loose given environment fun part => .group note (inner part) := by
  intro ty accepted
  simp only [check] at accepted
  split at accepted
  · next binary =>
      rw [conclude_verdict] at accepted
      refine (hinge ty accepted).within
        (fun tree => .group { note with ty := some ty, function := none } tree) ?_ ?_ ?_
      · exact fun annotated annotates => ⟨.group _ annotates.isSetting, fun part => by
          simp only [relabel, annotates.bare]; rfl⟩
      · intro part tree alike checked
        simp only [check, isSetting.isBinary_eq alike, if_pos binary, checked, conclude]
      · intro part error alike failed
        simp only [check, isSetting.isBinary_eq alike, if_pos binary, failed, conclude]
  · cases accepted

theorem Hinge.left (hinge : Hinge loose given environment inner) (note : Note) (op : BinaryOp)
    (right : Expr) :
    Hinge loose given environment fun part => .binary note op (inner part) right := by
  intro ty accepted
  cases verdict : ((inner given).check environment).verdict with
  | error error =>
      simp only [check, verdict] at accepted
      cases accepted
  | ok leftType =>
      simp only [check, verdict, conclude_verdict] at accepted
      obtain ⟨rightType, second, typed⟩ := bind_eq_ok.mp accepted
      refine (hinge leftType verdict).within (fun tree =>
        .binary { note with ty := some ty, function := none } op tree
          (right.check environment).tree) ?_ ?_ ?_
      · exact fun annotated annotates => ⟨.left _ op _ annotates.isSetting, fun part => by
          simp only [relabel, annotates.bare, bare_check]; rfl⟩
      · intro part tree _ checked
        simp only [check, checked, second, Except.bind, typed, conclude]
      · intro part error _ failed
        simp only [check, failed]

theorem Hinge.right (hinge : Hinge loose given environment inner) (note : Note) (op : BinaryOp)
    (left : Expr) :
    Hinge loose given environment fun part => .binary note op left (inner part) := by
  intro ty accepted
  cases first : (left.check environment).verdict with
  | error error =>
      simp only [check, first] at accepted
      cases accepted
  | ok leftType =>
      simp only [check, first, conclude_verdict] at accepted
      obtain ⟨rightType, verdict, typed⟩ := bind_eq_ok.mp accepted
      refine (hinge rightType verdict).within (fun tree =>
        .binary { note with ty := some ty, function := none } op (left.check environment).tree
          tree) ?_ ?_ ?_
      · exact fun annotated annotates => ⟨.right _ op _ annotates.isSetting, fun part => by
          simp only [relabel, annotates.bare, bare_check]; rfl⟩
      · intro part tree _ checked
        simp only [check, first, checked, Except.bind, typed, conclude]
      · intro part error _ failed
        simp only [check, first, failed, Except.bind, conclude]

theorem Hinge.index (hinge : Hinge loose given environment inner) (note : Note) (name : String) :
    Hinge loose given environment fun part => .element note name (inner part) := by
  intro ty accepted
  cases found : environment.findVariable? name with
  | none =>
      simp only [check, found] at accepted
      cases accepted
  | some variableType =>
      simp only [check, found, conclude_verdict] at accepted
      obtain ⟨indexType, verdict, fits⟩ := bind_eq_ok.mp accepted
      obtain ⟨_, required, rfl⟩ := map_eq_ok.mp fits
      have accepts := require_eq_ok.mp required
      refine (hinge indexType verdict).within (fun tree =>
        .element { note with ty := some variableType.ty, function := none } name tree) ?_ ?_ ?_
      · exact fun annotated annotates => ⟨.index _ name annotates.isSetting, fun part => by
          simp only [relabel, annotates.bare]; rfl⟩
      · intro part tree _ checked
        simp only [check, found, checked, Except.bind, require, if_pos accepts, Except.map,
          conclude]
      · intro part error _ failed
        simp only [check, found, failed, Except.bind, conclude]

theorem Hinge.argument (hinge : Hinge loose given environment inner) (isSetting : IsSetting inner)
    (tight : ¬ loose → environment.Balanced) (note : Note) (name : String)
    (front back : List Expr) :
    Hinge loose given environment fun part => .call note name (front ++ inner part :: back) := by
  intro ty accepted
  have arity (part : Expr) :
      (front ++ inner part :: back).length = front.length + back.length + 1 := by
    rw [List.length_append, List.length_cons, Nat.add_assoc]
  cases found : environment.findFunction? name (front.length + back.length + 1) with
  | none =>
      simp only [check, arity, found] at accepted
      cases accepted
  | some signature =>
      simp only [check, arity, found, conclude_verdict] at accepted
      obtain ⟨_, verdict, rfl⟩ := map_eq_ok.mp accepted
      have lengths (isTight : ¬ loose) :
          signature.parameters.length = (front ++ inner given :: back).length := by
        rw [arity, tight isTight name _ signature found]
      refine (hinge.checkArguments isSetting front back _ lengths verdict).within (fun trees =>
        .call { note with ty := some signature.returns, function := some signature } name
          trees) ?_ ?_ ?_
      · rintro annotated ⟨⟨front', inner', back', isInner, rfl⟩, sameBare⟩
        exact ⟨.argument _ name front' back' isInner, fun part => by
          simp only [relabel, sameBare]; rfl⟩
      · intro part trees _ checked
        simp only [check, arity, found, checked, Except.map, conclude]
      · intro part error _ failed
        simp only [check, arity, found, failed, Except.map, conclude]

theorem Hinge.element (hinge : Hinge loose given environment inner) (note : Note)
    (front back : List Expr) :
    Hinge loose given environment fun part => .list note (front ++ inner part :: back) := by
  intro ty accepted
  simp only [check, conclude_verdict] at accepted
  obtain ⟨_, verdict, rfl⟩ := map_eq_ok.mp accepted
  refine (hinge.checkElements front back _ verdict).within (fun trees =>
    .list { note with ty := some (note.ty.getD .any), function := none } trees) ?_ ?_ ?_
  · rintro annotated ⟨⟨front', inner', back', isInner, rfl⟩, sameBare⟩
    exact ⟨.element _ front' back' isInner, fun part => by
      simp only [relabel, sameBare]; rfl⟩
  · intro part trees _ checked
    simp only [check, checked, Except.map, conclude]
  · intro part error _ failed
    simp only [check, failed, Except.map, conclude]

/-- A check that passes hinges on what stands at any place of the expression. -/
theorem IsSetting.hinge (tight : ¬ loose → environment.Balanced) {setting : Expr → Expr} :
    IsSetting setting → Hinge loose given environment setting
  | .here => fun _ accepted =>
      .on (fun part => part) ⟨.here, fun _ => rfl⟩ accepted (fun _ _ _ checked => checked)
        fun _ _ _ failed => failed
  | .group note inner => (inner.hinge tight).group inner note
  | .left note op _ inner => (inner.hinge tight).left note op _
  | .right note op _ inner => (inner.hinge tight).right note op _
  | .index note name inner => (inner.hinge tight).index note name
  | .argument note name front back inner =>
      (inner.hinge tight).argument inner tight note name front back
  | .element note front back inner => (inner.hinge tight).element note front back

end Expr

section Statements

variable {loose : Prop} {given : Expr} {returns : Ty}

/-- Statements declare no functions. -/
theorem Stmt.balanced_check {environment extended : Typing.Environment} {stmt : Stmt}
    (balanced : environment.Balanced)
    (passes : (stmt.check returns environment).verdict = .ok extended) : extended.Balanced := by
  have unchanged {outcome : Except TypingError Unit}
      (passed : (outcome.map fun _ => environment) = .ok extended) : extended.Balanced := by
    obtain ⟨_, _, rfl⟩ := map_eq_ok.mp passed
    exact balanced
  have bound {name : String} {offset : Option Nat} {variableType : VariableType}
      (declared : declare environment name offset variableType = .ok extended) :
      extended.Balanced := by
    obtain ⟨_, rfl⟩ := declare_eq_ok.mp declared
    exact balanced.defineVariable name variableType
  cases stmt with
  | expression value =>
      obtain ⟨_, _, rfl⟩ := map_eq_ok.mp passes
      exact balanced
  | declaration name typeName value =>
      cases typeName with
      | none =>
          simp only [Stmt.check, checkUntyped] at passes
          cases value with
          | none => cases passes
          | some value =>
              obtain ⟨_, _, declared⟩ := bind_eq_ok.mp passes
              exact bound declared
      | some typeName =>
          simp only [Stmt.check, checkTyped] at passes
          split at passes
          · cases passes
          · exact bound passes
          · obtain ⟨_, _, declared⟩ := bind_eq_ok.mp passes
            exact bound declared
  | assignment receiver value =>
      simp only [Stmt.check, checkAssignment] at passes
      split at passes
      · cases passes
      · split at passes
        · cases passes
        · split at passes
          · cases passes
          · exact unchanged passes
  | branch condition thenBlock elseBlock =>
      simp only [Stmt.check] at passes
      split at passes
      · cases passes
      · split at passes
        · cases passes
        · split at passes
          · cases passes
          · exact unchanged passes
  | switch condition cases =>
      simp only [Stmt.check] at passes
      split at passes
      · cases passes
      · exact unchanged passes
  | loop condition body =>
      simp only [Stmt.check] at passes
      split at passes
      · cases passes
      · exact unchanged passes
  | result value => exact unchanged passes

/-- Whatever environment the check of a setting leaves, that hinges on the expression there. -/
abbrev Stmt.Hinge (loose : Prop) (given : Expr) (returns : Ty) (environment : Typing.Environment)
    (setting : Expr → Stmt) : Prop :=
  ∀ extended, ((setting given).check returns environment).verdict = .ok extended →
    Hinges loose (Annotates Stmt.IsSetting Stmt.bare setting) given
      (fun part => (setting part).check returns environment) extended

theorem Stmt.checkBlock_cons (environment : Typing.Environment) (stmt : Stmt) (rest : List Stmt) :
    Stmt.checkBlock returns environment (stmt :: rest) =
      (stmt.check returns environment).cons rest fun extended =>
        Stmt.checkBlock returns extended rest := by
  simp only [Stmt.checkBlock, Checked.cons]
  cases (stmt.check returns environment).verdict <;> rfl

theorem Stmt.Hinge.checkBlock {inner : Expr → Stmt}
    (hinge : ∀ environment : Typing.Environment, (¬ loose → environment.Balanced) →
      Stmt.Hinge loose given returns environment inner)
    (front back : List Stmt) : ∀ environment : Typing.Environment,
    (¬ loose → environment.Balanced) →
    (Stmt.checkBlock returns environment (front ++ inner given :: back)).verdict = .ok () →
    Hinges loose (Annotates (IsListSetting Stmt.IsSetting) Stmt.bareBlock
        fun part => front ++ inner part :: back) given
      (fun part => Stmt.checkBlock returns environment (front ++ inner part :: back)) () := by
  induction front with
  | nil =>
      intro environment tight accepted
      simp only [List.nil_append, Stmt.checkBlock_cons] at accepted ⊢
      exact .head (hinge environment tight) (fun _ _ => rfl)
        (fun extended => Stmt.bareBlock_checkBlock returns extended back) accepted
  | cons first front induction =>
      intro environment tight accepted
      simp only [List.cons_append, Stmt.checkBlock_cons] at accepted ⊢
      refine .tail (fun extended passes => induction extended fun isTight => ?_) (fun _ _ => rfl)
        (Stmt.bare_check returns environment first) accepted
      exact Stmt.balanced_check (tight isTight) passes

section OneExpression

variable {environment : Typing.Environment} {inner : Expr → Expr}

theorem Stmt.Hinge.expression (hinge : Expr.Hinge loose given environment inner) :
    Stmt.Hinge loose given returns environment fun part => .expression (inner part) := by
  intro extended accepted
  simp only [Stmt.check] at accepted
  obtain ⟨ty, verdict, rfl⟩ := map_eq_ok.mp accepted
  refine (hinge ty verdict).within Stmt.expression ?_ ?_ ?_
  · exact fun annotated annotates => ⟨.expression annotates.isSetting, fun part => by
      simp only [Stmt.relabel, annotates.bare]⟩
  · intro part tree _ checked
    simp only [Stmt.check, checked, Except.map]
  · intro part error _ failed
    simp only [Stmt.check, failed, Except.map]

theorem Stmt.Hinge.result (hinge : Expr.Hinge loose given environment inner) :
    Stmt.Hinge loose given returns environment fun part => .result (inner part) := by
  intro extended accepted
  simp only [Stmt.check] at accepted
  obtain ⟨_, verdict, rfl⟩ := map_eq_ok.mp accepted
  refine (hinge.checkAgainst () verdict).within Stmt.result ?_ ?_ ?_
  · exact fun annotated annotates => ⟨.result annotates.isSetting, fun part => by
      simp only [Stmt.relabel, annotates.bare]⟩
  · intro part tree _ checked
    simp only [Stmt.check, checked, Except.map]
  · intro part error _ failed
    simp only [Stmt.check, failed, Except.map]

theorem Stmt.Hinge.declaration (hinge : Expr.Hinge loose given environment inner)
    (isSetting : Expr.IsSetting inner) (name : String) (typeName : Option String) :
    Stmt.Hinge loose given returns environment
      fun part => .declaration name typeName (some (inner part)) := by
  intro extended accepted
  have builds (annotated : Expr → Expr)
      (annotates : Annotates Expr.IsSetting Expr.bare inner annotated) :
      Annotates Stmt.IsSetting Stmt.bare
        (fun part => .declaration name typeName (some (inner part)))
        fun part => .declaration name typeName (some (annotated part)) :=
    ⟨.declaration name typeName annotates.isSetting, fun part => by
      simp only [Stmt.relabel, Option.map_some, annotates.bare]⟩
  cases typeName with
  | none =>
      simp only [Stmt.check, checkUntyped] at accepted
      obtain ⟨ty, verdict, declared⟩ := bind_eq_ok.mp accepted
      refine (hinge ty verdict).within (fun tree => .declaration name none (some tree)) builds ?_ ?_
      · intro part tree alike checked
        simp only [Stmt.check, checkUntyped, checked, Except.bind, isSetting.offset_eq alike,
          declared]
      · intro part error _ failed
        simp only [Stmt.check, checkUntyped, failed, Except.bind]
  | some typeName =>
      simp only [Stmt.check, checkTyped, Option.map_some] at accepted
      cases resolved : resolve typeName (some (inner given).offset) with
      | error error =>
          simp only [resolved] at accepted
          cases accepted
      | ok ty =>
          simp only [resolved] at accepted
          obtain ⟨_, verdict, declared⟩ := bind_eq_ok.mp accepted
          refine (hinge.checkAgainst () verdict).within
            (fun tree => .declaration name (some typeName) (some tree)) builds ?_ ?_
          · intro part tree alike checked
            simp only [Stmt.check, checkTyped, Option.map_some, isSetting.offset_eq alike,
              resolved, checked, Except.bind, declared]
          · intro part error alike failed
            simp only [Stmt.check, checkTyped, Option.map_some, isSetting.offset_eq alike,
              resolved, failed, Except.bind]

theorem Stmt.Hinge.receiver (hinge : Expr.Hinge loose given environment inner)
    (isSetting : Expr.IsSetting inner) (value : Expr) :
    Stmt.Hinge loose given returns environment fun part => .assignment (inner part) value := by
  intro extended accepted
  simp only [Stmt.check, checkAssignment] at accepted
  cases target : (inner given).target? with
  | none =>
      simp only [target] at accepted
      cases accepted
  | some name =>
      cases verdict : ((inner given).check environment).verdict with
      | error error =>
          simp only [target, verdict] at accepted
          cases accepted
      | ok ty =>
          simp only [target, verdict] at accepted
          split at accepted
          · cases accepted
          next mutable =>
            obtain ⟨_, assigned, rfl⟩ := map_eq_ok.mp accepted
            refine (hinge ty verdict).within (fun tree =>
              .assignment tree (value.checkAgainst environment ty).tree) ?_ ?_ ?_
            · exact fun annotated annotates => ⟨.receiver _ annotates.isSetting, fun part => by
                simp only [Stmt.relabel, annotates.bare, Expr.bare_checkAgainst]⟩
            · intro part tree alike checked
              simp only [Stmt.check, checkAssignment, isSetting.target?_eq alike, target, checked,
                if_neg mutable, assigned, Except.map]
            · intro part error alike failed
              simp only [Stmt.check, checkAssignment, isSetting.target?_eq alike, target, failed]

theorem Stmt.Hinge.assigned (hinge : Expr.Hinge loose given environment inner) (receiver : Expr) :
    Stmt.Hinge loose given returns environment fun part => .assignment receiver (inner part) := by
  intro extended accepted
  simp only [Stmt.check, checkAssignment] at accepted
  cases target : receiver.target? with
  | none =>
      simp only [target] at accepted
      cases accepted
  | some name =>
      cases received : (receiver.check environment).verdict with
      | error error =>
          simp only [target, received] at accepted
          cases accepted
      | ok ty =>
          simp only [target, received] at accepted
          split at accepted
          · cases accepted
          next mutable =>
            obtain ⟨_, verdict, rfl⟩ := map_eq_ok.mp accepted
            refine (hinge.checkAgainst () verdict).within
              (.assignment (receiver.check environment).tree) ?_ ?_ ?_
            · exact fun annotated annotates => ⟨.assigned _ annotates.isSetting, fun part => by
                simp only [Stmt.relabel, annotates.bare, Expr.bare_check]⟩
            · intro part tree _ checked
              simp only [Stmt.check, checkAssignment, target, received, if_neg mutable, checked,
                Except.map]
            · intro part error _ failed
              simp only [Stmt.check, checkAssignment, target, received, if_neg mutable, failed,
                Except.map]

theorem Stmt.Hinge.branch (hinge : Expr.Hinge loose given environment inner)
    (thenBlock elseBlock : List Stmt) :
    Stmt.Hinge loose given returns environment
      fun part => .branch (inner part) thenBlock elseBlock := by
  intro extended accepted
  simp only [Stmt.check] at accepted
  split at accepted
  · cases accepted
  next verdict =>
    split at accepted
    · cases accepted
    next inhabited =>
      split at accepted
      · cases accepted
      next thens =>
        obtain ⟨_, elses, rfl⟩ := map_eq_ok.mp accepted
        refine (hinge.checkAgainst () verdict).within (fun tree => .branch tree
          (Stmt.checkBlock returns environment.push thenBlock).tree
          (Stmt.checkBlock returns environment.push elseBlock).tree) ?_ ?_ ?_
        · exact fun annotated annotates => ⟨.branch _ _ annotates.isSetting, fun part => by
            simp only [Stmt.relabel, annotates.bare, Stmt.bareBlock_checkBlock]⟩
        · intro part tree _ checked
          simp only [Stmt.check, checked, if_neg inhabited, thens, elses, Except.map]
        · intro part error _ failed
          simp only [Stmt.check, failed]

theorem Stmt.Hinge.switch (hinge : Expr.Hinge loose given environment inner)
    (isSetting : Expr.IsSetting inner) (cases : List Case) :
    Stmt.Hinge loose given returns environment fun part => .switch (inner part) cases := by
  intro extended accepted
  simp only [Stmt.check] at accepted
  split at accepted
  · cases accepted
  next ty verdict =>
    obtain ⟨_, others, rfl⟩ := map_eq_ok.mp accepted
    refine (hinge ty verdict).within (fun tree => .switch tree
      (Case.checkAll returns environment ty (inner given).offset cases).tree) ?_ ?_ ?_
    · exact fun annotated annotates => ⟨.switch _ annotates.isSetting, fun part => by
        simp only [Stmt.relabel, annotates.bare, Case.bareCases_checkAll]⟩
    · intro part tree alike checked
      simp only [Stmt.check, checked, isSetting.offset_eq alike, others, Except.map]
    · intro part error _ failed
      simp only [Stmt.check, failed]

theorem Stmt.Hinge.loop (hinge : Expr.Hinge loose given environment inner) (body : List Stmt) :
    Stmt.Hinge loose given returns environment fun part => .loop (inner part) body := by
  intro extended accepted
  simp only [Stmt.check] at accepted
  split at accepted
  · cases accepted
  next verdict =>
    obtain ⟨_, repeated, rfl⟩ := map_eq_ok.mp accepted
    refine (hinge.checkAgainst () verdict).within (fun tree => .loop tree
      (Stmt.checkBlock returns environment.push body).tree) ?_ ?_ ?_
    · exact fun annotated annotates => ⟨.loop _ annotates.isSetting, fun part => by
        simp only [Stmt.relabel, annotates.bare, Stmt.bareBlock_checkBlock]⟩
    · intro part tree _ checked
      simp only [Stmt.check, checked, repeated, Except.map]
    · intro part error _ failed
      simp only [Stmt.check, failed]

end OneExpression

section OneStatement

variable {environment : Typing.Environment} {inner : Expr → Stmt}

/-- A statement hinges on its part in every environment, as blocks need it. -/
abbrev Stmt.HingeEverywhere (loose : Prop) (given : Expr) (returns : Ty)
    (setting : Expr → Stmt) : Prop :=
  ∀ environment : Typing.Environment, (¬ loose → environment.Balanced) →
    Stmt.Hinge loose given returns environment setting

theorem Stmt.Hinge.thenBlock (hinge : Stmt.HingeEverywhere loose given returns inner)
    (tight : ¬ loose → environment.Balanced) (condition : Expr) (front back elseBlock : List Stmt) :
    Stmt.Hinge loose given returns environment
      fun part => .branch condition (front ++ inner part :: back) elseBlock := by
  intro extended accepted
  have inhabited (part : Expr) : ¬ (front ++ inner part :: back).isEmpty = true := by simp
  simp only [Stmt.check, if_neg (inhabited given)] at accepted
  split at accepted
  · cases accepted
  next chosen =>
    split at accepted
    · cases accepted
    next verdict =>
      obtain ⟨_, elses, rfl⟩ := map_eq_ok.mp accepted
      refine (Stmt.Hinge.checkBlock hinge front back environment.push
        (fun isTight => (tight isTight).push) verdict).within (fun trees =>
          .branch (condition.checkAgainst environment .boolean).tree trees
            (Stmt.checkBlock returns environment.push elseBlock).tree) ?_ ?_ ?_
      · rintro annotated ⟨⟨front', inner', back', isInner, rfl⟩, sameBare⟩
        exact ⟨.thenBlock _ front' back' _ isInner, fun part => by
          simp only [Stmt.relabel, sameBare, Expr.bare_checkAgainst, Stmt.bareBlock_checkBlock]⟩
      · intro part trees _ checked
        simp only [Stmt.check, chosen, if_neg (inhabited part), checked, elses, Except.map]
      · intro part error _ failed
        simp only [Stmt.check, chosen, if_neg (inhabited part), failed]

theorem Stmt.Hinge.elseBlock (hinge : Stmt.HingeEverywhere loose given returns inner)
    (tight : ¬ loose → environment.Balanced) (condition : Expr) (thenBlock front back : List Stmt) :
    Stmt.Hinge loose given returns environment
      fun part => .branch condition thenBlock (front ++ inner part :: back) := by
  intro extended accepted
  simp only [Stmt.check] at accepted
  split at accepted
  · cases accepted
  next chosen =>
    split at accepted
    · cases accepted
    next inhabited =>
      split at accepted
      · cases accepted
      next thens =>
        obtain ⟨_, verdict, rfl⟩ := map_eq_ok.mp accepted
        refine (Stmt.Hinge.checkBlock hinge front back environment.push
          (fun isTight => (tight isTight).push) verdict).within (fun trees =>
            .branch (condition.checkAgainst environment .boolean).tree
              (Stmt.checkBlock returns environment.push thenBlock).tree trees) ?_ ?_ ?_
        · rintro annotated ⟨⟨front', inner', back', isInner, rfl⟩, sameBare⟩
          exact ⟨.elseBlock _ _ front' back' isInner, fun part => by
            simp only [Stmt.relabel, sameBare, Expr.bare_checkAgainst,
              Stmt.bareBlock_checkBlock]⟩
        · intro part trees _ checked
          simp only [Stmt.check, chosen, if_neg inhabited, thens, checked, Except.map]
        · intro part error _ failed
          simp only [Stmt.check, chosen, if_neg inhabited, thens, failed, Except.map]

theorem Stmt.Hinge.body (hinge : Stmt.HingeEverywhere loose given returns inner)
    (tight : ¬ loose → environment.Balanced) (condition : Expr) (front back : List Stmt) :
    Stmt.Hinge loose given returns environment
      fun part => .loop condition (front ++ inner part :: back) := by
  intro extended accepted
  simp only [Stmt.check] at accepted
  split at accepted
  · cases accepted
  next chosen =>
    obtain ⟨_, verdict, rfl⟩ := map_eq_ok.mp accepted
    refine (Stmt.Hinge.checkBlock hinge front back environment.push
      (fun isTight => (tight isTight).push) verdict).within
        (.loop (condition.checkAgainst environment .boolean).tree) ?_ ?_ ?_
    · rintro annotated ⟨⟨front', inner', back', isInner, rfl⟩, sameBare⟩
      exact ⟨.body _ front' back' isInner, fun part => by
        simp only [Stmt.relabel, sameBare, Expr.bare_checkAgainst]⟩
    · intro part trees _ checked
      simp only [Stmt.check, chosen, checked, Except.map]
    · intro part error _ failed
      simp only [Stmt.check, chosen, failed, Except.map]

end OneStatement

section Cases

variable {environment : Typing.Environment}

/-- A case hinges on its part, whether it is the last one or has others after it. -/
structure Case.Hinge (loose : Prop) (given : Expr) (returns : Ty)
    (environment : Typing.Environment) (setting : Expr → Case) : Prop where
  valued : ∀ ty offset value,
    ((setting given).checkValued returns environment ty offset).verdict = .ok value →
    Hinges loose (Annotates Case.IsSetting Case.bare setting) given
      (fun part => (setting part).checkValued returns environment ty offset) value
  default : ((setting given).checkDefault returns environment).verdict = .ok () →
    Hinges loose (Annotates Case.IsSetting Case.bare setting) given
      (fun part => (setting part).checkDefault returns environment) ()

theorem Case.Hinge.value {inner : Expr → Expr}
    (hinge : Expr.Hinge loose given environment inner) (body : List Stmt) :
    Case.Hinge loose given returns environment fun part => .mk (some (inner part)) body where
  valued ty offset outcome accepted := by
    simp only [Case.checkValued] at accepted
    split at accepted
    · cases accepted
    next verdict =>
      have passes : (Stmt.checkBlock returns environment.push body).verdict = .ok outcome :=
        accepted
      refine (hinge.checkAgainst () verdict).within (fun tree => .mk (some tree)
        (Stmt.checkBlock returns environment.push body).tree) ?_ ?_ ?_
      · exact fun annotated annotates => ⟨.value _ annotates.isSetting, fun part => by
          simp only [Case.relabel, Option.map_some, annotates.bare, Stmt.bareBlock_checkBlock]⟩
      · intro part tree _ checked
        simp only [Case.checkValued, checked, passes]
      · intro part error _ failed
        simp only [Case.checkValued, failed]
  default accepted := by cases accepted

theorem Case.Hinge.body {inner : Expr → Stmt}
    (hinge : Stmt.HingeEverywhere loose given returns inner)
    (tight : ¬ loose → environment.Balanced) (value : Option Expr) (front back : List Stmt) :
    Case.Hinge loose given returns environment
      fun part => .mk value (front ++ inner part :: back) where
  valued ty offset _ accepted := by
    cases value with
    | none => cases accepted
    | some value =>
        simp only [Case.checkValued] at accepted
        split at accepted
        · cases accepted
        next chosen =>
          refine (Stmt.Hinge.checkBlock hinge front back environment.push
            (fun isTight => (tight isTight).push) accepted).within
              (.mk (some (value.checkAgainst environment ty).tree)) ?_ ?_ ?_
          · rintro annotated ⟨⟨front', inner', back', isInner, rfl⟩, sameBare⟩
            exact ⟨.body _ front' back' isInner, fun part => by
              simp only [Case.relabel, Option.map_some, sameBare, Expr.bare_checkAgainst]⟩
          · intro part trees _ checked
            simp only [Case.checkValued, chosen, checked]
          · intro part error _ failed
            simp only [Case.checkValued, chosen, failed]
  default accepted := by
    cases value with
    | some value => cases accepted
    | none =>
        refine (Stmt.Hinge.checkBlock hinge front back environment.push
          (fun isTight => (tight isTight).push) accepted).within (.mk none) ?_ ?_ ?_
        · rintro annotated ⟨⟨front', inner', back', isInner, rfl⟩, sameBare⟩
          exact ⟨.body _ front' back' isInner, fun part => by
            simp only [Case.relabel, sameBare]⟩
        · intro part trees _ checked
          simp only [Case.checkDefault, checked]
        · intro part error _ failed
          simp only [Case.checkDefault, failed]

theorem Case.checkAll_cons (ty : Ty) (offset : Nat) (case : Case) {rest : List Case}
    (more : rest ≠ []) :
    Case.checkAll returns environment ty offset (case :: rest) =
      (case.checkValued returns environment ty offset).cons rest
        fun _ => Case.checkAll returns environment ty offset rest := by
  obtain ⟨next, rest, rfl⟩ := List.exists_cons_of_ne_nil more
  simp only [Case.checkAll, Checked.cons]
  cases (case.checkValued returns environment ty offset).verdict <;> rfl

theorem Case.Hinge.checkAll {inner : Expr → Case}
    (hinge : Case.Hinge loose given returns environment inner) (front back : List Case) (ty : Ty)
    (offset : Nat)
    (accepted : (Case.checkAll returns environment ty offset
      (front ++ inner given :: back)).verdict = .ok ()) :
    Hinges loose (Annotates (IsListSetting Case.IsSetting) Case.bareCases
        fun part => front ++ inner part :: back) given
      (fun part => Case.checkAll returns environment ty offset (front ++ inner part :: back))
      () := by
  induction front with
  | nil =>
      cases back with
      | nil =>
          refine (hinge.default accepted).within (fun tree => [tree]) ?_ ?_ ?_
          · exact fun annotated annotates => annotates.head (fun _ _ => rfl) rfl
          · intro part tree _ checked
            simp only [List.nil_append, Case.checkAll, checked]
          · intro part error _ failed
            simp only [List.nil_append, Case.checkAll, failed]
      | cons next back =>
          simp only [List.nil_append, Case.checkAll_cons ty offset _ (List.cons_ne_nil next back)]
            at accepted ⊢
          exact .head (hinge.valued ty offset) (fun _ _ => rfl)
            (fun _ => Case.bareCases_checkAll returns environment ty offset (next :: back)) accepted
  | cons first front induction =>
      have more (part : Expr) : front ++ inner part :: back ≠ [] := by simp
      simp only [List.cons_append, Case.checkAll_cons ty offset first (more _)] at accepted ⊢
      exact .tail (fun _ _ => induction) (fun _ _ => rfl)
        (Case.bare_checkValued returns environment ty offset first) accepted

theorem Stmt.Hinge.case {inner : Expr → Case}
    (hinge : Case.Hinge loose given returns environment inner) (condition : Expr)
    (front back : List Case) :
    Stmt.Hinge loose given returns environment
      fun part => .switch condition (front ++ inner part :: back) := by
  intro extended accepted
  simp only [Stmt.check] at accepted
  split at accepted
  · cases accepted
  next ty selects =>
    obtain ⟨_, verdict, rfl⟩ := map_eq_ok.mp accepted
    refine (hinge.checkAll front back ty _ verdict).within
      (.switch (condition.check environment).tree) ?_ ?_ ?_
    · rintro annotated ⟨⟨front', inner', back', isInner, rfl⟩, sameBare⟩
      exact ⟨.case _ front' back' isInner, fun part => by
        simp only [Stmt.relabel, sameBare, Expr.bare_check]⟩
    · intro part trees _ checked
      simp only [Stmt.check, selects, checked, Except.map]
    · intro part error _ failed
      simp only [Stmt.check, selects, failed, Except.map]

end Cases

mutual

theorem Stmt.IsSetting.hinge {setting : Expr → Stmt} :
    Stmt.IsSetting setting → Stmt.HingeEverywhere loose given returns setting
  | .expression inner => fun _ tight => .expression (inner.hinge tight)
  | .declaration name typeName inner => fun _ tight =>
      .declaration (inner.hinge tight) inner name typeName
  | .receiver value inner => fun _ tight => .receiver (inner.hinge tight) inner value
  | .assigned receiver inner => fun _ tight => .assigned (inner.hinge tight) receiver
  | .branch thenBlock elseBlock inner => fun _ tight =>
      .branch (inner.hinge tight) thenBlock elseBlock
  | .thenBlock condition front back elseBlock inner => fun _ tight =>
      .thenBlock inner.hinge tight condition front back elseBlock
  | .elseBlock condition thenBlock front back inner => fun _ tight =>
      .elseBlock inner.hinge tight condition thenBlock front back
  | .switch cases inner => fun _ tight => .switch (inner.hinge tight) inner cases
  | .case condition front back inner => fun _ tight =>
      .case (inner.hinge tight) condition front back
  | .loop body inner => fun _ tight => .loop (inner.hinge tight) body
  | .body condition front back inner => fun _ tight =>
      .body inner.hinge tight condition front back
  | .result inner => fun _ tight => .result (inner.hinge tight)

theorem Case.IsSetting.hinge {setting : Expr → Case} {environment : Typing.Environment}
    (tight : ¬ loose → environment.Balanced) :
    Case.IsSetting setting → Case.Hinge loose given returns environment setting
  | .value body inner => .value (inner.hinge tight) body
  | .body value front back inner => .body inner.hinge tight value front back

end

end Statements

end Procedural
