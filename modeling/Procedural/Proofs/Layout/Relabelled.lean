import Procedural.Layout.Canonical
import Procedural.Proofs.Syntax.Relabelled

/-!
# The canonical layout shows no labels

The canonical layout is written from names, operators and literals.  A relabelled program
has the same lines as the program.
-/

namespace Procedural

variable (labels : Relabelling)

namespace Expr

mutual

@[simp] theorem words_relabel : ∀ expr : Expr, (expr.relabel labels).words = expr.words
  | literal _ _ => rfl
  | group _ inner => by
      simp only [relabel, words, words_relabel inner]
  | binary _ _ left right => by
      simp only [relabel, words, words_relabel left, words_relabel right]
  | access _ _ => rfl
  | element _ _ index => by
      simp only [relabel, words, words_relabel index]
  | call _ _ arguments => by
      simp only [relabel, words, wordsOfItems_relabel arguments]
  | list _ elements => by
      simp only [relabel, words, wordsOfItems_relabel elements]

theorem wordsOfItems_relabel :
    ∀ items : List Expr, wordsOfItems (relabelItems labels items) = wordsOfItems items
  | [] => rfl
  | first :: rest => by
      simp only [relabelItems, wordsOfItems, words_relabel first,
        wordsOfFurtherItems_relabel rest]

theorem wordsOfFurtherItems_relabel : ∀ items : List Expr,
    wordsOfFurtherItems (relabelItems labels items) = wordsOfFurtherItems items
  | [] => rfl
  | first :: rest => by
      simp only [relabelItems, wordsOfFurtherItems, words_relabel first,
        wordsOfFurtherItems_relabel rest]

end

@[simp] theorem wordsOfValue_relabel (value : Option Expr) :
    wordsOfValue (value.map (relabel labels)) = wordsOfValue value := by
  cases value with
  | none => rfl
  | some value => simp only [Option.map_some, wordsOfValue, words_relabel]

end Expr

mutual

theorem Stmt.lines_relabel (depth : Nat) : ∀ stmt : Stmt,
    (stmt.relabel labels).lines depth = stmt.lines depth
  | .expression _ => by simp only [Stmt.relabel, Stmt.lines, Expr.words_relabel]
  | .declaration _ _ _ => by
      simp only [Stmt.relabel, Stmt.lines, Expr.wordsOfValue_relabel]
  | .assignment _ _ => by simp only [Stmt.relabel, Stmt.lines, Expr.words_relabel]
  | .branch _ thenBlock [] => by
      simp only [Stmt.relabel, Stmt.relabelBlock, Stmt.lines, Expr.words_relabel,
        Stmt.linesOfBlock_relabel (depth + 1) thenBlock]
  | .branch _ thenBlock (first :: rest) => by
      simp only [Stmt.relabel, Stmt.relabelBlock, Stmt.lines, Expr.words_relabel,
        Stmt.linesOfBlock_relabel (depth + 1) thenBlock,
        Stmt.lines_relabel (depth + 1) first, Stmt.linesOfBlock_relabel (depth + 1) rest]
  | .switch _ cases => by
      simp only [Stmt.relabel, Stmt.lines, Expr.words_relabel,
        Case.linesOfCases_relabel (depth + 1) cases]
  | .loop _ body => by
      simp only [Stmt.relabel, Stmt.lines, Expr.words_relabel,
        Stmt.linesOfBlock_relabel (depth + 1) body]
  | .result _ => by simp only [Stmt.relabel, Stmt.lines, Expr.words_relabel]

theorem Stmt.linesOfBlock_relabel (depth : Nat) : ∀ stmts : List Stmt,
    Stmt.linesOfBlock depth (Stmt.relabelBlock labels stmts) = Stmt.linesOfBlock depth stmts
  | [] => rfl
  | stmt :: rest => by
      simp only [Stmt.relabelBlock, Stmt.linesOfBlock, Stmt.lines_relabel depth stmt,
        Stmt.linesOfBlock_relabel depth rest]

theorem Case.lines_relabel (depth : Nat) : ∀ case : Case,
    (case.relabel labels).lines depth = case.lines depth
  | .mk none body => by
      simp only [Case.relabel, Option.map_none, Case.lines,
        Stmt.linesOfBlock_relabel (depth + 1) body]
  | .mk (some _) body => by
      simp only [Case.relabel, Option.map_some, Case.lines, Expr.words_relabel,
        Stmt.linesOfBlock_relabel (depth + 1) body]

theorem Case.linesOfCases_relabel (depth : Nat) : ∀ cases : List Case,
    Case.linesOfCases depth (Case.relabelCases labels cases) = Case.linesOfCases depth cases
  | [] => rfl
  | case :: rest => by
      simp only [Case.relabelCases, Case.linesOfCases, Case.lines_relabel depth case,
        Case.linesOfCases_relabel depth rest]

end

theorem Global.line_relabel (global : Global) : (global.relabel labels).line = global.line := by
  have keyword : (global.relabel labels).keyword = global.keyword := by
    obtain ⟨name, typeName, mutable, value, offset, ty⟩ := global
    cases value with
    | none => rfl
    | some value => cases value <;> cases mutable <;> rfl
  rw [Global.line, keyword]
  simp only [Global.relabel, Expr.wordsOfValue_relabel, Global.line]

theorem Function.lines_relabel (function : Function) :
    (function.relabel labels).lines = function.lines := by
  simp only [Function.relabel, Function.lines, Stmt.linesOfBlock_relabel]

/-- A relabelled program has the canonical layout of the program. -/
theorem Program.format_relabel (program : Program) :
    (program.relabel labels).format = program.format := by
  have further (functions : List Function) :
      Function.linesOfFurther (functions.map (Function.relabel labels)) =
        Function.linesOfFurther functions := by
    simp only [Function.linesOfFurther, List.flatMap_map, Function.lines_relabel]
  have lines (globals : List Global) :
      (globals.map (Global.relabel labels)).map Global.line = globals.map Global.line := by
    simp [Global.line_relabel]
  obtain ⟨globals, functions⟩ := program
  simp only [Program.format, Program.lines, Program.relabel, lines]
  cases globals with
  | nil =>
      cases functions with
      | nil => rfl
      | cons first rest => simp only [List.map_nil, List.map_cons, Function.lines_relabel, further]
  | cons first rest => simp only [List.map_cons, further]

end Procedural
