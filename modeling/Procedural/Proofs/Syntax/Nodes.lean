import Procedural.Proofs.Reader.Exactness
import Procedural.Proofs.Syntax.Bare

/-!
# The expressions of a program

With an expression of a program everything inside it is one of its expressions.  Annotations
change nothing about which expressions there are.
-/

namespace Procedural

/-- With an expression, a list holds everything inside it. -/
def NodesClosed (nodes : List Expr) : Prop :=
  ∀ expr ∈ nodes, expr.nodes ⊆ nodes

theorem nodesClosed_nil : NodesClosed [] :=
  List.forall_mem_nil _

theorem NodesClosed.append {nodes nodes' : List Expr} (closed : NodesClosed nodes)
    (closed' : NodesClosed nodes') : NodesClosed (nodes ++ nodes') :=
  List.forall_mem_append.mpr
    ⟨fun expr member => List.subset_append_of_subset_left _ (closed expr member),
      fun expr member => List.subset_append_of_subset_right _ (closed' expr member)⟩

theorem NodesClosed.cons {expr : Expr} {inner : List Expr} (closed : NodesClosed inner)
    (whole : expr.nodes = expr :: inner) : NodesClosed expr.nodes := by
  rw [whole]
  refine List.forall_mem_cons.mpr ⟨whole ▸ List.Subset.refl _, ?_⟩
  exact fun node member => List.subset_cons_of_subset _ (closed node member)

theorem NodesClosed.flatMap {α : Type} {items : List α} {nodes : α → List Expr}
    (closed : ∀ item ∈ items, NodesClosed (nodes item)) : NodesClosed (items.flatMap nodes) := by
  induction items with
  | nil => exact nodesClosed_nil
  | cons first rest induction =>
      obtain ⟨firstClosed, restClosed⟩ := List.forall_mem_cons.mp closed
      exact firstClosed.append (induction restClosed)

mutual

theorem Expr.nodesClosed : ∀ expr : Expr, NodesClosed expr.nodes
  | .literal _ _ => nodesClosed_nil.cons rfl
  | .group _ inner => inner.nodesClosed.cons rfl
  | .binary _ _ left right => (left.nodesClosed.append right.nodesClosed).cons rfl
  | .access _ _ => nodesClosed_nil.cons rfl
  | .element _ _ index => index.nodesClosed.cons rfl
  | .call _ _ arguments => (Expr.nodesClosed_items arguments).cons rfl
  | .list _ elements => (Expr.nodesClosed_items elements).cons rfl

theorem Expr.nodesClosed_items : ∀ items : List Expr, NodesClosed (nodesOfList items)
  | [] => nodesClosed_nil
  | first :: rest => first.nodesClosed.append (Expr.nodesClosed_items rest)

end

theorem Expr.nodesClosed_option : ∀ value : Option Expr, NodesClosed (nodesOfOption value)
  | none => nodesClosed_nil
  | some value => value.nodesClosed

mutual

theorem Stmt.nodesClosed : ∀ stmt : Stmt, NodesClosed stmt.nodes
  | .expression value => value.nodesClosed
  | .declaration _ _ value => Expr.nodesClosed_option value
  | .assignment receiver value => receiver.nodesClosed.append value.nodesClosed
  | .branch condition thenBlock elseBlock =>
      condition.nodesClosed.append
        ((Stmt.nodesClosed_block thenBlock).append (Stmt.nodesClosed_block elseBlock))
  | .switch condition cases => condition.nodesClosed.append (Case.nodesClosed_cases cases)
  | .loop condition body => condition.nodesClosed.append (Stmt.nodesClosed_block body)
  | .result value => value.nodesClosed

theorem Stmt.nodesClosed_block : ∀ stmts : List Stmt, NodesClosed (Stmt.nodesOfList stmts)
  | [] => nodesClosed_nil
  | stmt :: rest => stmt.nodesClosed.append (Stmt.nodesClosed_block rest)

theorem Case.nodesClosed : ∀ case : Case, NodesClosed case.nodes
  | .mk value body => (Expr.nodesClosed_option value).append (Stmt.nodesClosed_block body)

theorem Case.nodesClosed_cases : ∀ cases : List Case, NodesClosed (Case.nodesOfList cases)
  | [] => nodesClosed_nil
  | case :: rest => case.nodesClosed.append (Case.nodesClosed_cases rest)

end

theorem Program.nodesClosed (program : Program) : NodesClosed program.nodes :=
  (NodesClosed.flatMap fun item _ => Expr.nodesClosed_option item.value).append
    (NodesClosed.flatMap fun item _ => Stmt.nodesClosed_block item.body)

namespace Expr

mutual

theorem nodes_bare : ∀ expr : Expr, expr.bare.nodes = expr.nodes.map bare
  | .literal _ _ => rfl
  | .group _ inner => by simp [nodes, relabel, nodes_bare inner]
  | .binary _ _ left right => by simp [nodes, relabel, nodes_bare left, nodes_bare right]
  | .access _ _ => rfl
  | .element _ _ index => by simp [nodes, relabel, nodes_bare index]
  | .call _ _ arguments => by simp [nodes, relabel, nodesOfList_bareItems arguments]
  | .list _ elements => by simp [nodes, relabel, nodesOfList_bareItems elements]

theorem nodesOfList_bareItems : ∀ items : List Expr,
    nodesOfList (bareItems items) = (nodesOfList items).map bare
  | [] => rfl
  | first :: rest => by
      simp [nodesOfList, relabelItems, nodes_bare first, nodesOfList_bareItems rest]

end

end Expr

end Procedural
