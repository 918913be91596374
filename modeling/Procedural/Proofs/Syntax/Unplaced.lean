import Procedural.Proofs.Syntax.Relabelled

/-!
# Programs without places

Two programs are the same except for where their parts stand in a text if they agree
once all byte offsets are forgotten.  Type annotations and the exact digits of decimal
literals are kept.
-/

namespace Procedural

def Note.unplaced (note : Note) : Note :=
  { note with offset := 0 }

namespace Expr

mutual

/-- The expression with all offsets forgotten. -/
def unplaced : Expr → Expr
  | literal note value => literal note.unplaced value
  | group note inner => group note.unplaced inner.unplaced
  | binary note op left right => binary note.unplaced op left.unplaced right.unplaced
  | access note name => access note.unplaced name
  | element note name index => element note.unplaced name index.unplaced
  | call note name arguments => call note.unplaced name (unplacedItems arguments)
  | list note elements => list note.unplaced (unplacedItems elements)

def unplacedItems : List Expr → List Expr
  | [] => []
  | first :: rest => first.unplaced :: unplacedItems rest

end

@[simp] theorem offset_unplaced (expr : Expr) : expr.unplaced.offset = 0 := by
  cases expr <;> rfl

theorem unplacedItems_eq (items : List Expr) : unplacedItems items = items.map unplaced := by
  induction items with
  | nil => rfl
  | cons first rest induction => rw [unplacedItems, induction, List.map_cons]

@[simp] theorem length_unplacedItems (items : List Expr) :
    (unplacedItems items).length = items.length := by
  rw [unplacedItems_eq, List.length_map]

theorem offset_map_unplaced (value : Option Expr) :
    (value.map Expr.unplaced).map Expr.offset = (value.map Expr.offset).map fun _ => 0 := by
  cases value with
  | none => rfl
  | some value => simp

end Expr

mutual

def Stmt.unplaced : Stmt → Stmt
  | .expression value => .expression value.unplaced
  | .declaration name typeName value => .declaration name typeName (value.map Expr.unplaced)
  | .assignment receiver value => .assignment receiver.unplaced value.unplaced
  | .branch condition thenBlock elseBlock =>
      .branch condition.unplaced (Stmt.unplacedBlock thenBlock) (Stmt.unplacedBlock elseBlock)
  | .switch condition cases => .switch condition.unplaced (Case.unplacedCases cases)
  | .loop condition body => .loop condition.unplaced (Stmt.unplacedBlock body)
  | .result value => .result value.unplaced

def Stmt.unplacedBlock : List Stmt → List Stmt
  | [] => []
  | stmt :: rest => stmt.unplaced :: Stmt.unplacedBlock rest

def Case.unplaced : Case → Case
  | .mk value body => .mk (value.map Expr.unplaced) (Stmt.unplacedBlock body)

def Case.unplacedCases : List Case → List Case
  | [] => []
  | case :: rest => case.unplaced :: Case.unplacedCases rest

end

@[simp] theorem Stmt.isEmpty_unplacedBlock (stmts : List Stmt) :
    (unplacedBlock stmts).isEmpty = stmts.isEmpty := by
  cases stmts <;> rfl

theorem Case.unplacedCases_append (front back : List Case) :
    unplacedCases (front ++ back) = unplacedCases front ++ unplacedCases back := by
  induction front with
  | nil => rfl
  | cons case rest induction =>
      simp only [List.cons_append, unplacedCases, induction]

def Global.unplaced (global : Global) : Global :=
  { global with value := global.value.map Expr.unplaced, offset := 0 }

def Function.unplaced (function : Function) : Function :=
  { function with body := Stmt.unplacedBlock function.body, offset := 0 }

def Program.unplaced (program : Program) : Program :=
  ⟨program.globals.map Global.unplaced, program.functions.map Function.unplaced⟩

/-- Every offset becomes zero, and the slots stay. -/
def Relabelling.forgetPlaces : Relabelling :=
  ⟨fun _ => 0, id, id, rfl⟩

theorem Note.relabel_forgetPlaces (note : Note) : note.relabel .forgetPlaces = note.unplaced :=
  rfl

namespace Expr

mutual

theorem relabel_forgetPlaces : ∀ expr : Expr, expr.relabel .forgetPlaces = expr.unplaced
  | literal _ _ => rfl
  | group _ inner => by
      rw [relabel, unplaced, relabel_forgetPlaces inner, Note.relabel_forgetPlaces]
  | binary _ _ left right => by
      rw [relabel, unplaced, relabel_forgetPlaces left, relabel_forgetPlaces right,
        Note.relabel_forgetPlaces]
  | access _ _ => rfl
  | element _ _ index => by
      rw [relabel, unplaced, relabel_forgetPlaces index, Note.relabel_forgetPlaces]
  | call _ _ arguments => by
      rw [relabel, unplaced, relabelItems_forgetPlaces arguments, Note.relabel_forgetPlaces]
  | list _ elements => by
      rw [relabel, unplaced, relabelItems_forgetPlaces elements, Note.relabel_forgetPlaces]

theorem relabelItems_forgetPlaces :
    ∀ items : List Expr, relabelItems .forgetPlaces items = unplacedItems items
  | [] => rfl
  | first :: rest => by
      rw [relabelItems, unplacedItems, relabel_forgetPlaces first, relabelItems_forgetPlaces rest]

end

theorem map_relabel_forgetPlaces (value : Option Expr) :
    value.map (relabel .forgetPlaces) = value.map unplaced :=
  Option.map_congr fun expr _ => expr.relabel_forgetPlaces

end Expr

mutual

theorem Stmt.relabel_forgetPlaces : ∀ stmt : Stmt, stmt.relabel .forgetPlaces = stmt.unplaced
  | .expression value => by
      rw [Stmt.relabel, Stmt.unplaced, value.relabel_forgetPlaces]
  | .declaration _ _ value => by
      rw [Stmt.relabel, Stmt.unplaced, Expr.map_relabel_forgetPlaces value]
  | .assignment receiver value => by
      rw [Stmt.relabel, Stmt.unplaced, receiver.relabel_forgetPlaces, value.relabel_forgetPlaces]
  | .branch condition thenBlock elseBlock => by
      rw [Stmt.relabel, Stmt.unplaced, condition.relabel_forgetPlaces,
        Stmt.relabelBlock_forgetPlaces thenBlock, Stmt.relabelBlock_forgetPlaces elseBlock]
  | .switch condition cases => by
      rw [Stmt.relabel, Stmt.unplaced, condition.relabel_forgetPlaces,
        Case.relabelCases_forgetPlaces cases]
  | .loop condition body => by
      rw [Stmt.relabel, Stmt.unplaced, condition.relabel_forgetPlaces,
        Stmt.relabelBlock_forgetPlaces body]
  | .result value => by
      rw [Stmt.relabel, Stmt.unplaced, value.relabel_forgetPlaces]

theorem Stmt.relabelBlock_forgetPlaces :
    ∀ stmts : List Stmt, Stmt.relabelBlock .forgetPlaces stmts = Stmt.unplacedBlock stmts
  | [] => rfl
  | stmt :: rest => by
      rw [Stmt.relabelBlock, Stmt.unplacedBlock, Stmt.relabel_forgetPlaces stmt,
        Stmt.relabelBlock_forgetPlaces rest]

theorem Case.relabel_forgetPlaces : ∀ case : Case, case.relabel .forgetPlaces = case.unplaced
  | .mk value body => by
      rw [Case.relabel, Case.unplaced, Expr.map_relabel_forgetPlaces value,
        Stmt.relabelBlock_forgetPlaces body]

theorem Case.relabelCases_forgetPlaces :
    ∀ cases : List Case, Case.relabelCases .forgetPlaces cases = Case.unplacedCases cases
  | [] => rfl
  | case :: rest => by
      rw [Case.relabelCases, Case.unplacedCases, Case.relabel_forgetPlaces case,
        Case.relabelCases_forgetPlaces rest]

end

theorem Global.relabel_forgetPlaces (global : Global) :
    global.relabel .forgetPlaces = global.unplaced := by
  rw [Global.relabel, Global.unplaced, Expr.map_relabel_forgetPlaces]
  rfl

theorem Function.relabel_forgetPlaces (function : Function) :
    function.relabel .forgetPlaces = function.unplaced := by
  rw [Function.relabel, Function.unplaced, Stmt.relabelBlock_forgetPlaces]
  rfl

theorem Program.relabel_forgetPlaces (program : Program) :
    program.relabel .forgetPlaces = program.unplaced := by
  rw [Program.relabel, Program.unplaced, funext Global.relabel_forgetPlaces,
    funext Function.relabel_forgetPlaces]

end Procedural
