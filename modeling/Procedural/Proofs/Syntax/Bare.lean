import Procedural.Proofs.Syntax.Relabelled
import Procedural.Typing.Stmt

/-!
# Programs without annotations

Two programs differ in annotations only if they agree once all slots that checking fills in
are emptied.  Names, operators, literals, their order and all byte offsets are kept.
-/

namespace Procedural

/-- Every slot becomes empty, and the offsets stay. -/
def Relabelling.emptySlots : Relabelling :=
  ⟨id, fun _ => none, fun _ => none, rfl⟩

/-- The note with nothing but the place of its node. -/
abbrev Note.bare (note : Note) : Note :=
  note.relabel .emptySlots

namespace Expr

/-- The expression with all its slots emptied. -/
abbrev bare (expr : Expr) : Expr :=
  expr.relabel .emptySlots

abbrev bareItems (items : List Expr) : List Expr :=
  relabelItems .emptySlots items

@[simp] theorem offset_bare (expr : Expr) : expr.bare.offset = expr.offset :=
  expr.offset_relabel .emptySlots

theorem length_bareItems (items : List Expr) : (bareItems items).length = items.length :=
  length_relabelItems .emptySlots items

@[simp] theorem isBinary_bare (expr : Expr) : expr.bare.isBinary = expr.isBinary := by
  cases expr <;> rfl

@[simp] theorem target?_bare (expr : Expr) : expr.bare.target? = expr.target? := by
  cases expr <;> rfl

end Expr

abbrev Stmt.bare (stmt : Stmt) : Stmt :=
  stmt.relabel .emptySlots

abbrev Stmt.bareBlock (stmts : List Stmt) : List Stmt :=
  Stmt.relabelBlock .emptySlots stmts

abbrev Case.bare (case : Case) : Case :=
  case.relabel .emptySlots

abbrev Case.bareCases (cases : List Case) : List Case :=
  Case.relabelCases .emptySlots cases

theorem Stmt.isEmpty_bareBlock (stmts : List Stmt) :
    (bareBlock stmts).isEmpty = stmts.isEmpty := by
  cases stmts <;> rfl

abbrev Global.bare (global : Global) : Global :=
  global.relabel .emptySlots

abbrev Function.bare (function : Function) : Function :=
  function.relabel .emptySlots

/-- The program with all its slots emptied. -/
def Program.bare (program : Program) : Program :=
  program.relabel .emptySlots

end Procedural
