import Mathlib.Logic.Function.Basic
import Procedural.Proofs.Syntax.Relabelled

/-!
# The statements of a program

Statements stand in blocks, and blocks in statements.  What is said of all statements of a
program concerns those at any depth.  Labels do not matter for which statements there are.
-/

namespace Procedural

mutual

/-- The statements in the blocks of a statement, at any depth. -/
def Stmt.inner : Stmt → List Stmt
  | .branch _ thenBlock elseBlock => Stmt.partsOfBlock thenBlock ++ Stmt.partsOfBlock elseBlock
  | .switch _ cases => Case.partsOfCases cases
  | .loop _ body => Stmt.partsOfBlock body
  | _ => []

/-- The statements of a block, at any depth. -/
def Stmt.partsOfBlock : List Stmt → List Stmt
  | [] => []
  | stmt :: rest => (stmt :: stmt.inner) ++ Stmt.partsOfBlock rest

def Case.partsOfCases : List Case → List Stmt
  | [] => []
  | .mk _ body :: rest => Stmt.partsOfBlock body ++ Case.partsOfCases rest

end

/-- All statements of a program. -/
def Program.statements (program : Program) : List Stmt :=
  program.functions.flatMap fun function => Stmt.partsOfBlock function.body

/-- The statement and all statements inside it are of a kind. -/
abbrev Stmt.Throughout (holds : Stmt → Prop) (stmt : Stmt) : Prop :=
  ∀ part ∈ stmt :: stmt.inner, holds part

namespace Stmt

variable {holds : Stmt → Prop}

theorem forall_partsOfBlock_cons {stmt : Stmt} {rest : List Stmt} :
    (∀ part ∈ partsOfBlock (stmt :: rest), holds part) ↔
      stmt.Throughout holds ∧ ∀ part ∈ partsOfBlock rest, holds part :=
  List.forall_mem_append

theorem throughout_branch {condition : Expr} {thenBlock elseBlock : List Stmt}
    (all : (branch condition thenBlock elseBlock).Throughout holds) :
    (∀ part ∈ partsOfBlock thenBlock, holds part) ∧
      ∀ part ∈ partsOfBlock elseBlock, holds part :=
  List.forall_mem_append.mp (List.forall_mem_cons.mp all).2

theorem forall_partsOfCases_cons {value : Option Expr} {body : List Stmt} {rest : List Case} :
    (∀ part ∈ Case.partsOfCases (.mk value body :: rest), holds part) ↔
      (∀ part ∈ partsOfBlock body, holds part) ∧ ∀ part ∈ Case.partsOfCases rest, holds part :=
  List.forall_mem_append

end Stmt

section Relabelling

variable (labels : Relabelling)

mutual

theorem Stmt.inner_relabel : ∀ stmt : Stmt,
    (stmt.relabel labels).inner = stmt.inner.map (Stmt.relabel labels)
  | .branch _ thenBlock elseBlock => by
      rw [Stmt.relabel, Stmt.inner, Stmt.inner, List.map_append, Stmt.partsOfBlock_relabel,
        Stmt.partsOfBlock_relabel]
  | .switch _ cases => by
      rw [Stmt.relabel, Stmt.inner, Stmt.inner, Case.partsOfCases_relabel]
  | .loop _ body => by rw [Stmt.relabel, Stmt.inner, Stmt.inner, Stmt.partsOfBlock_relabel]
  | .expression _ | .declaration _ _ _ | .assignment _ _ | .result _ => rfl

theorem Stmt.partsOfBlock_relabel : ∀ stmts : List Stmt,
    Stmt.partsOfBlock (Stmt.relabelBlock labels stmts) =
      (Stmt.partsOfBlock stmts).map (Stmt.relabel labels)
  | [] => rfl
  | stmt :: rest => by
      rw [Stmt.relabelBlock, Stmt.partsOfBlock, Stmt.partsOfBlock, List.map_append, List.map_cons,
        Stmt.inner_relabel, Stmt.partsOfBlock_relabel]

theorem Case.partsOfCases_relabel : ∀ cases : List Case,
    Case.partsOfCases (Case.relabelCases labels cases) =
      (Case.partsOfCases cases).map (Stmt.relabel labels)
  | [] => rfl
  | .mk _ body :: rest => by
      rw [Case.relabelCases, Case.relabel, Case.partsOfCases, Case.partsOfCases, List.map_append,
        Stmt.partsOfBlock_relabel, Case.partsOfCases_relabel]

end

theorem Program.statements_relabel (program : Program) :
    (program.relabel labels).statements = program.statements.map (Stmt.relabel labels) := by
  unfold Program.statements
  change (program.functions.map (Function.relabel labels)).flatMap _ = _
  rw [List.flatMap_map, List.map_flatMap]
  exact congrArg program.functions.flatMap
    (funext fun function => Stmt.partsOfBlock_relabel labels function.body)

end Relabelling

end Procedural
