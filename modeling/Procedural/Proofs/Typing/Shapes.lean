import Procedural.Proofs.Reader.FromText
import Procedural.Proofs.Syntax.Parts
import Procedural.Proofs.Typing.Annotation
import Procedural.Proofs.Typing.ProgramDerivation

/-!
# Shapes of statements

Reading gives declarations a type or a value, and a switch exactly one case without a value,
which is its last.  Checking keeps these shapes.
-/

namespace Procedural

/-- Of the cases the last one has no value, and all others have one. -/
def Case.endInDefault : List Case → Bool
  | [] => false
  | [.mk value _] => value.isNone
  | .mk value _ :: next :: rest => value.isSome && endInDefault (next :: rest)

/-- The statement has a shape that reading can give it, whatever is inside it. -/
def Stmt.isComplete : Stmt → Bool
  | .declaration _ typeName value => typeName.isSome || value.isSome
  | .switch _ cases => Case.endInDefault cases
  | _ => true

/-- A case that has a value in front changes nothing. -/
theorem Case.endInDefault_cons (value : Expr) (body : List Stmt) {cases : List Case}
    (ends : Case.endInDefault cases = true) :
    Case.endInDefault (.mk (some value) body :: cases) = true := by
  cases cases with
  | nil => cases ends
  | cons next rest => exact ends

theorem Grammar.IsCases.endInDefault {tokens : List Token} {valued : List Case}
    (derived : IsCases tokens valued) (body : List Stmt) :
    Case.endInDefault (valued ++ [.mk none body]) = true := by
  cases derived with
  | nil => rfl
  | cons _ _ _ _ later => exact Case.endInDefault_cons _ _ (later.endInDefault body)

theorem Case.partsOfCases_append (front back : List Case) :
    Case.partsOfCases (front ++ back) = Case.partsOfCases front ++ Case.partsOfCases back := by
  induction front with
  | nil => rfl
  | cons case rest induction =>
      obtain ⟨value, body⟩ := case
      rw [List.cons_append, Case.partsOfCases, Case.partsOfCases, induction, List.append_assoc]

/-- A declaration that has a type or a value is complete. -/
theorem Stmt.isComplete_declaration {name : String} {typeName : Option String}
    {value : Option Expr} (given : (typeName.isNone && value.isNone) = false) :
    (Stmt.declaration name typeName value).isComplete = true := by
  cases typeName with
  | some typeName => rfl
  | none =>
      cases value with
      | some value => rfl
      | none => cases given

mutual

theorem Grammar.IsStmt.complete {tokens : List Token} {stmt : Stmt} :
    IsStmt tokens stmt → stmt.Throughout (Stmt.isComplete · = true)
  | .declaration _ _ _ _ given _ =>
      List.forall_mem_singleton.mpr (Stmt.isComplete_declaration given)
  | .switch _ _ valued _ body _ whole => by
      subst whole
      refine List.forall_mem_cons.mpr ⟨valued.endInDefault _, ?_⟩
      change ∀ part ∈ Case.partsOfCases (_ ++ _), _
      rw [Case.partsOfCases_append]
      refine List.forall_mem_append.mpr ⟨valued.complete, ?_⟩
      exact Stmt.forall_partsOfCases_cons.mpr ⟨body.complete, List.forall_mem_nil _⟩
  | .branch _ _ _ thenBlock _ => by
      refine List.forall_mem_cons.mpr ⟨rfl, ?_⟩
      exact List.forall_mem_append.mpr ⟨thenBlock.complete, List.forall_mem_nil _⟩
  | .branchElse _ _ _ thenBlock _ elseBlock _ => by
      refine List.forall_mem_cons.mpr ⟨rfl, ?_⟩
      exact List.forall_mem_append.mpr ⟨thenBlock.complete, elseBlock.complete⟩
  | .loop _ _ _ body _ => List.forall_mem_cons.mpr ⟨rfl, body.complete⟩
  | .result _ _ _ => List.forall_mem_singleton.mpr rfl
  | .expression _ _ _ => List.forall_mem_singleton.mpr rfl
  | .assignment _ _ _ _ _ => List.forall_mem_singleton.mpr rfl

theorem Grammar.IsBlock.complete {closers : List String} {tokens : List Token}
    {stmts : List Stmt} :
    IsBlock closers tokens stmts → ∀ part ∈ Stmt.partsOfBlock stmts, part.isComplete = true
  | .nil => List.forall_mem_nil _
  | .cons _ first later => Stmt.forall_partsOfBlock_cons.mpr ⟨first.complete, later.complete⟩

theorem Grammar.IsCases.complete {tokens : List Token} {cases : List Case} :
    IsCases tokens cases → ∀ part ∈ Case.partsOfCases cases, part.isComplete = true
  | .nil => List.forall_mem_nil _
  | .cons _ _ _ body later => Stmt.forall_partsOfCases_cons.mpr ⟨body.complete, later.complete⟩

end

theorem Program.statements_complete {text : String} {program : Program}
    (read : Program.ofText text = .ok program) :
    ∀ stmt ∈ program.statements, stmt.isComplete = true := by
  obtain ⟨tokens, derived, -⟩ := Program.isProgram_of_ofText read
  refine List.forall_mem_flatMap.mpr fun function member => ?_
  obtain ⟨_, isFunction⟩ := derived.forall_function function member
  obtain ⟨_, body⟩ := isFunction.block
  exact body.complete

theorem Case.endInDefault_relabel (labels : Relabelling) : ∀ cases : List Case,
    Case.endInDefault (Case.relabelCases labels cases) = Case.endInDefault cases
  | [] => rfl
  | [.mk value _] => by cases value <;> rfl
  | .mk none _ :: _ :: _ => rfl
  | .mk (some _) _ :: next :: rest => Case.endInDefault_relabel labels (next :: rest)

theorem Stmt.isComplete_relabel (labels : Relabelling) (stmt : Stmt) :
    (stmt.relabel labels).isComplete = stmt.isComplete := by
  cases stmt with
  | declaration name typeName value => cases value <;> rfl
  | switch condition cases => exact Case.endInDefault_relabel labels cases
  | _ => rfl

/-- The annotated program has statements of the same shapes. -/
theorem Program.statements_complete_check {program : Program}
    (complete : ∀ stmt ∈ program.statements, stmt.isComplete = true) :
    ∀ stmt ∈ program.check.tree.statements, stmt.isComplete = true := by
  intro stmt member
  have sameBare : program.check.tree.statements.map Stmt.bare =
      program.statements.map Stmt.bare := by
    rw [← Program.statements_relabel, ← Program.statements_relabel]
    exact congrArg Program.statements program.bare_check
  have isBare : stmt.bare ∈ program.statements.map Stmt.bare :=
    sameBare ▸ List.mem_map_of_mem member
  obtain ⟨other, known, same⟩ := List.mem_map.mp isBare
  calc
    stmt.isComplete = stmt.bare.isComplete := (stmt.isComplete_relabel .emptySlots).symm
    _ = other.bare.isComplete := by rw [same]
    _ = other.isComplete := other.isComplete_relabel .emptySlots
    _ = true := complete other known

end Procedural
