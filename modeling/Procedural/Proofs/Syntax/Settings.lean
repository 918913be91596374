import Procedural.Proofs.Syntax.Bare

/-!
# Settings of an expression

A setting is a tree in which one expression is left open, at any depth.  It is given as the
function that puts an expression there.
-/

namespace Procedural

/-- An expression with a place for another one in it. -/
inductive Expr.IsSetting : (Expr → Expr) → Prop where
  | here : IsSetting fun part => part
  | group {inner : Expr → Expr} (note : Note) :
      IsSetting inner → IsSetting fun part => .group note (inner part)
  | left {inner : Expr → Expr} (note : Note) (op : BinaryOp) (right : Expr) :
      IsSetting inner → IsSetting fun part => .binary note op (inner part) right
  | right {inner : Expr → Expr} (note : Note) (op : BinaryOp) (left : Expr) :
      IsSetting inner → IsSetting fun part => .binary note op left (inner part)
  | index {inner : Expr → Expr} (note : Note) (name : String) :
      IsSetting inner → IsSetting fun part => .element note name (inner part)
  | argument {inner : Expr → Expr} (note : Note) (name : String) (front back : List Expr) :
      IsSetting inner → IsSetting fun part => .call note name (front ++ inner part :: back)
  | element {inner : Expr → Expr} (note : Note) (front back : List Expr) :
      IsSetting inner → IsSetting fun part => .list note (front ++ inner part :: back)

mutual

/-- A statement with a place for an expression in it. -/
inductive Stmt.IsSetting : (Expr → Stmt) → Prop where
  | expression {inner : Expr → Expr} :
      Expr.IsSetting inner → Stmt.IsSetting fun part => .expression (inner part)
  | declaration {inner : Expr → Expr} (name : String) (typeName : Option String) :
      Expr.IsSetting inner →
      Stmt.IsSetting fun part => .declaration name typeName (some (inner part))
  | receiver {inner : Expr → Expr} (value : Expr) :
      Expr.IsSetting inner → Stmt.IsSetting fun part => .assignment (inner part) value
  | assigned {inner : Expr → Expr} (receiver : Expr) :
      Expr.IsSetting inner → Stmt.IsSetting fun part => .assignment receiver (inner part)
  | branch {inner : Expr → Expr} (thenBlock elseBlock : List Stmt) :
      Expr.IsSetting inner → Stmt.IsSetting fun part => .branch (inner part) thenBlock elseBlock
  | thenBlock {inner : Expr → Stmt} (condition : Expr) (front back elseBlock : List Stmt) :
      Stmt.IsSetting inner →
      Stmt.IsSetting fun part => .branch condition (front ++ inner part :: back) elseBlock
  | elseBlock {inner : Expr → Stmt} (condition : Expr) (thenBlock front back : List Stmt) :
      Stmt.IsSetting inner →
      Stmt.IsSetting fun part => .branch condition thenBlock (front ++ inner part :: back)
  | switch {inner : Expr → Expr} (cases : List Case) :
      Expr.IsSetting inner → Stmt.IsSetting fun part => .switch (inner part) cases
  | case {inner : Expr → Case} (condition : Expr) (front back : List Case) :
      Case.IsSetting inner →
      Stmt.IsSetting fun part => .switch condition (front ++ inner part :: back)
  | loop {inner : Expr → Expr} (body : List Stmt) :
      Expr.IsSetting inner → Stmt.IsSetting fun part => .loop (inner part) body
  | body {inner : Expr → Stmt} (condition : Expr) (front back : List Stmt) :
      Stmt.IsSetting inner →
      Stmt.IsSetting fun part => .loop condition (front ++ inner part :: back)
  | result {inner : Expr → Expr} :
      Expr.IsSetting inner → Stmt.IsSetting fun part => .result (inner part)

inductive Case.IsSetting : (Expr → Case) → Prop where
  | value {inner : Expr → Expr} (body : List Stmt) :
      Expr.IsSetting inner → Case.IsSetting fun part => .mk (some (inner part)) body
  | body {inner : Expr → Stmt} (value : Option Expr) (front back : List Stmt) :
      Stmt.IsSetting inner → Case.IsSetting fun part => .mk value (front ++ inner part :: back)

end

/-- A global variable with a place for an expression in its value. -/
inductive Global.IsSetting : (Expr → Global) → Prop where
  | value {inner : Expr → Expr} (global : Global) :
      Expr.IsSetting inner → IsSetting fun part => { global with value := some (inner part) }

/-- A function with a place for an expression in its body. -/
inductive Function.IsSetting : (Expr → Function) → Prop where
  | body {inner : Expr → Stmt} (function : Function) (front back : List Stmt) :
      Stmt.IsSetting inner →
      IsSetting fun part => { function with body := front ++ inner part :: back }

/-- A program with a place for an expression in it. -/
inductive Program.IsSetting : (Expr → Program) → Prop where
  | global {inner : Expr → Global} (front back : List Global) (functions : List Function) :
      Global.IsSetting inner → IsSetting fun part => ⟨front ++ inner part :: back, functions⟩
  | function {inner : Expr → Function} (globals : List Global) (front back : List Function) :
      Function.IsSetting inner → IsSetting fun part => ⟨globals, front ++ inner part :: back⟩

/-- One entry of a list has a place for an expression in it. -/
def IsListSetting {α : Type} (isSetting : (Expr → α) → Prop) (setting : Expr → List α) : Prop :=
  ∃ front inner back, isSetting inner ∧ setting = fun part => front ++ inner part :: back

/-- A setting of the same kind that differs at most in slots, with the place where it was. -/
structure Annotates {τ : Type} (isSetting : (Expr → τ) → Prop) (bare : τ → τ)
    (setting annotated : Expr → τ) : Prop where
  isSetting : isSetting annotated
  bare : ∀ part, bare (annotated part) = bare (setting part)

section Lists

variable {α : Type} {isSetting : (Expr → α) → Prop} {bare : α → α} {bareAll : List α → List α}

theorem Annotates.head {inner annotated : Expr → α} {back back' : List α}
    (annotates : Annotates isSetting bare inner annotated)
    (cons : ∀ first rest, bareAll (first :: rest) = bare first :: bareAll rest)
    (same : bareAll back' = bareAll back) :
    Annotates (IsListSetting isSetting) bareAll (fun part => inner part :: back)
      fun part => annotated part :: back' where
  isSetting := ⟨[], annotated, back', annotates.isSetting, rfl⟩
  bare part := by rw [cons, cons, annotates.bare, same]

theorem Annotates.tail {items annotated : Expr → List α} {first first' : α}
    (annotates : Annotates (IsListSetting isSetting) bareAll items annotated)
    (cons : ∀ first rest, bareAll (first :: rest) = bare first :: bareAll rest)
    (same : bare first' = bare first) :
    Annotates (IsListSetting isSetting) bareAll (fun part => first :: items part)
      fun part => first' :: annotated part where
  isSetting := by
    obtain ⟨front, inner, back, isInner, rfl⟩ := annotates.isSetting
    exact ⟨first' :: front, inner, back, isInner, rfl⟩
  bare part := by rw [cons, cons, annotates.bare, same]

end Lists

/-- Both are binary expressions that start at one place. -/
structure Expr.Alike (expr other : Expr) : Prop where
  isBinary : expr.isBinary = true
  other_isBinary : other.isBinary = true
  offset : other.offset = expr.offset

theorem Expr.target?_of_isBinary {expr : Expr} (isBinary : expr.isBinary = true) :
    expr.target? = none := by
  cases expr with
  | binary => rfl
  | _ => cases isBinary

namespace Expr.IsSetting

variable {setting : Expr → Expr} {given part : Expr}

theorem offset_eq (isSetting : IsSetting setting) (alike : given.Alike part) :
    (setting part).offset = (setting given).offset := by
  cases isSetting with
  | here => exact alike.offset
  | _ => rfl

theorem isBinary_eq (isSetting : IsSetting setting) (alike : given.Alike part) :
    (setting part).isBinary = (setting given).isBinary := by
  cases isSetting with
  | here => rw [alike.isBinary, alike.other_isBinary]
  | _ => rfl

theorem target?_eq (isSetting : IsSetting setting) (alike : given.Alike part) :
    (setting part).target? = (setting given).target? := by
  cases isSetting with
  | here => rw [target?_of_isBinary alike.isBinary, target?_of_isBinary alike.other_isBinary]
  | _ => rfl

end Expr.IsSetting

end Procedural
