import Procedural.Syntax.Program

/-!
# Programs with other labels

Besides names, operators and literals, the parts of a program carry labels: byte offsets,
and the slots that checking fills in.  A relabelling changes all labels of a kind alike and
leaves everything else alone.
-/

namespace Procedural

/-- What becomes of the offsets and of the two kinds of slots.  Offset zero stays, since a
run of any program starts with a call at that place. -/
structure Relabelling where
  place : Nat → Nat
  ty : Option Ty → Option Ty
  function : Option Signature → Option Signature
  place_zero : place 0 = 0

def Note.relabel (labels : Relabelling) (note : Note) : Note :=
  ⟨labels.place note.offset, labels.ty note.ty, labels.function note.function⟩

namespace Expr

mutual

def relabel (labels : Relabelling) : Expr → Expr
  | literal note value => literal (note.relabel labels) value
  | group note inner => group (note.relabel labels) (inner.relabel labels)
  | binary note op left right =>
      binary (note.relabel labels) op (left.relabel labels) (right.relabel labels)
  | access note name => access (note.relabel labels) name
  | element note name index => element (note.relabel labels) name (index.relabel labels)
  | call note name arguments =>
      call (note.relabel labels) name (relabelItems labels arguments)
  | list note elements => list (note.relabel labels) (relabelItems labels elements)

def relabelItems (labels : Relabelling) : List Expr → List Expr
  | [] => []
  | first :: rest => first.relabel labels :: relabelItems labels rest

end

variable (labels : Relabelling)

theorem relabelItems_eq (items : List Expr) :
    relabelItems labels items = items.map (relabel labels) := by
  induction items with
  | nil => rfl
  | cons first rest induction => rw [relabelItems, induction, List.map_cons]

@[simp] theorem length_relabelItems (items : List Expr) :
    (relabelItems labels items).length = items.length := by
  rw [relabelItems_eq, List.length_map]

@[simp] theorem offset_relabel (expr : Expr) :
    (expr.relabel labels).offset = labels.place expr.offset := by
  cases expr <;> rfl

theorem offset_map_relabel (value : Option Expr) :
    (value.map (relabel labels)).map offset = (value.map offset).map labels.place := by
  cases value with
  | none => rfl
  | some value => simp

end Expr

mutual

def Stmt.relabel (labels : Relabelling) : Stmt → Stmt
  | .expression value => .expression (value.relabel labels)
  | .declaration name typeName value =>
      .declaration name typeName (value.map (Expr.relabel labels))
  | .assignment receiver value => .assignment (receiver.relabel labels) (value.relabel labels)
  | .branch condition thenBlock elseBlock =>
      .branch (condition.relabel labels) (Stmt.relabelBlock labels thenBlock)
        (Stmt.relabelBlock labels elseBlock)
  | .switch condition cases =>
      .switch (condition.relabel labels) (Case.relabelCases labels cases)
  | .loop condition body => .loop (condition.relabel labels) (Stmt.relabelBlock labels body)
  | .result value => .result (value.relabel labels)

def Stmt.relabelBlock (labels : Relabelling) : List Stmt → List Stmt
  | [] => []
  | stmt :: rest => stmt.relabel labels :: Stmt.relabelBlock labels rest

def Case.relabel (labels : Relabelling) : Case → Case
  | .mk value body => .mk (value.map (Expr.relabel labels)) (Stmt.relabelBlock labels body)

def Case.relabelCases (labels : Relabelling) : List Case → List Case
  | [] => []
  | case :: rest => case.relabel labels :: Case.relabelCases labels rest

end

def Global.relabel (labels : Relabelling) (global : Global) : Global :=
  { global with
    value := global.value.map (Expr.relabel labels)
    offset := labels.place global.offset
    ty := labels.ty global.ty }

def Function.relabel (labels : Relabelling) (function : Function) : Function :=
  { function with
    body := Stmt.relabelBlock labels function.body
    offset := labels.place function.offset
    signature := labels.function function.signature }

def Program.relabel (labels : Relabelling) (program : Program) : Program :=
  ⟨program.globals.map (Global.relabel labels), program.functions.map (Function.relabel labels)⟩

end Procedural
