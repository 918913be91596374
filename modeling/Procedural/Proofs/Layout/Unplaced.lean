import Procedural.Layout.Java
import Procedural.Proofs.Layout.Relabelled
import Procedural.Proofs.Syntax.Unplaced

/-!
# Written programs do not depend on places

The canonical layout and the Java class are written from names, literals and annotations.
A program without its offsets has the same lines as the program, in either form.
-/

namespace Procedural

/-- Programs that differ in offsets only have the same canonical layout. -/
theorem Program.format_unplaced (program : Program) :
    program.unplaced.format = program.format := by
  rw [← Program.relabel_forgetPlaces, Program.format_relabel]

namespace Java

mutual

@[simp] theorem pieces_unplaced : ∀ expr : Expr, pieces expr.unplaced = pieces expr
  | .literal _ _ => rfl
  | .group _ inner => by
      simp only [Expr.unplaced, pieces, pieces_unplaced inner]
  | .binary _ op left right => by
      cases op <;>
        simp only [Expr.unplaced, pieces, pieces_unplaced left, pieces_unplaced right]
  | .access _ _ => rfl
  | .element _ _ index => by
      simp only [Expr.unplaced, pieces, pieces_unplaced index]
  | .call note name arguments => by
      have target : callee note.unplaced name = callee note name := rfl
      simp only [Expr.unplaced, pieces, target, piecesOfItems_unplaced arguments]
  | .list _ elements => by
      simp only [Expr.unplaced, pieces, piecesOfItems_unplaced elements]

theorem piecesOfItems_unplaced :
    ∀ items : List Expr, piecesOfItems (Expr.unplacedItems items) = piecesOfItems items
  | [] => rfl
  | first :: rest => by
      simp only [Expr.unplacedItems, piecesOfItems, pieces_unplaced first,
        piecesOfFurtherItems_unplaced rest]

theorem piecesOfFurtherItems_unplaced : ∀ items : List Expr,
    piecesOfFurtherItems (Expr.unplacedItems items) = piecesOfFurtherItems items
  | [] => rfl
  | first :: rest => by
      simp only [Expr.unplacedItems, piecesOfFurtherItems, pieces_unplaced first,
        piecesOfFurtherItems_unplaced rest]

end

@[simp] theorem expression_unplaced (expr : Expr) :
    expression expr.unplaced = expression expr := by
  rw [expression, pieces_unplaced, expression]

theorem localType_unplaced (written : Option String) (value : Option Expr) :
    localType written (value.map Expr.unplaced) = localType written value := by
  cases value with
  | none => rfl
  | some value => cases value <;> rfl

mutual

theorem statement_unplaced (depth : Nat) : ∀ stmt : Stmt,
    statement depth stmt.unplaced = statement depth stmt
  | .expression _ => by simp only [Stmt.unplaced, statement, expression_unplaced]
  | .declaration _ _ none => rfl
  | .declaration _ written (some value) => by
      have ty := localType_unplaced written (some value)
      rw [Option.map_some] at ty
      simp only [Stmt.unplaced, Option.map_some, statement, expression_unplaced, ty]
  | .assignment _ _ => by simp only [Stmt.unplaced, statement, expression_unplaced]
  | .branch _ thenBlock [] => by
      simp only [Stmt.unplaced, Stmt.unplacedBlock, statement, expression_unplaced,
        block_unplaced (depth + 1) thenBlock]
  | .branch _ thenBlock (first :: rest) => by
      simp only [Stmt.unplaced, Stmt.unplacedBlock, statement, expression_unplaced,
        block_unplaced (depth + 1) thenBlock, statement_unplaced (depth + 1) first,
        block_unplaced (depth + 1) rest]
  | .switch _ cases => by
      simp only [Stmt.unplaced, statement, expression_unplaced,
        caseBlocks_unplaced (depth + 1) cases]
  | .loop _ [] => by
      simp only [Stmt.unplaced, Stmt.unplacedBlock, statement, expression_unplaced]
  | .loop _ (first :: rest) => by
      simp only [Stmt.unplaced, Stmt.unplacedBlock, statement, expression_unplaced,
        statement_unplaced (depth + 1) first, block_unplaced (depth + 1) rest]
  | .result _ => by simp only [Stmt.unplaced, statement, expression_unplaced]

theorem block_unplaced (depth : Nat) : ∀ stmts : List Stmt,
    block depth (Stmt.unplacedBlock stmts) = block depth stmts
  | [] => rfl
  | stmt :: rest => by
      simp only [Stmt.unplacedBlock, block, statement_unplaced depth stmt,
        block_unplaced depth rest]

theorem caseBlock_unplaced (depth : Nat) : ∀ case : Case,
    caseBlock depth case.unplaced = caseBlock depth case
  | .mk none body => by
      simp only [Case.unplaced, Option.map_none, caseBlock, block_unplaced (depth + 1) body]
  | .mk (some _) body => by
      simp only [Case.unplaced, Option.map_some, caseBlock, expression_unplaced,
        block_unplaced (depth + 1) body]

theorem caseBlocks_unplaced (depth : Nat) : ∀ cases : List Case,
    caseBlocks depth (Case.unplacedCases cases) = caseBlocks depth cases
  | [] => rfl
  | case :: rest => by
      simp only [Case.unplacedCases, caseBlocks, caseBlock_unplaced depth case,
        caseBlocks_unplaced depth rest]

end

theorem field_unplaced (depth : Nat) (global : Global) :
    field depth global.unplaced = field depth global := by
  obtain ⟨name, typeName, mutable, value, offset, ty⟩ := global
  cases value with
  | none => rfl
  | some value =>
      have brackets : isListValue (some value.unplaced) = isListValue (some value) := by
        cases value <;> rfl
      simp only [field, Global.unplaced, Option.map_some, brackets, expression_unplaced]
      rfl

theorem method_unplaced (depth : Nat) (function : Function) :
    method depth function.unplaced = method depth function := by
  obtain ⟨name, parameters, parameterTypes, returnType, body, offset, signature⟩ := function
  cases body with
  | nil => rfl
  | cons first rest =>
      have lines := block_unplaced (depth + 1) (first :: rest)
      simp only [Stmt.unplacedBlock] at lines
      simp only [method, methodTypes, Function.unplaced, Stmt.unplacedBlock, lines]

end Java

/-- Programs that differ in offsets only have the same Java class. -/
theorem Program.toJava_unplaced (program : Program) :
    program.unplaced.toJava = program.toJava := by
  have fields (globals : List Global) :
      (globals.map Global.unplaced).map (Java.field 1) = globals.map (Java.field 1) := by
    simp [Java.field_unplaced]
  have methods (functions : List Function) :
      (functions.map Function.unplaced).flatMap (fun item => Line.blank :: Java.method 1 item) =
        functions.flatMap fun item => Line.blank :: Java.method 1 item := by
    simp only [List.flatMap_map, Java.method_unplaced]
  obtain ⟨globals, functions⟩ := program
  simp only [Program.toJava, Java.classLines, Program.unplaced, fields, methods,
    List.isEmpty_map]

end Procedural
