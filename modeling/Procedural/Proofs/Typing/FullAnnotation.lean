import Procedural.Layout.Java
import Procedural.Proofs.Typing.ProgramDecision

/-!
# Accepted programs are annotated completely

The tree of an accepted program is an annotated one by the rules of typing.  So no
expression of it is without a type, no call without a signature, and no definition without
its annotation: whatever Java output looks up in it is there.
-/

namespace Procedural

open Typing Rules

/-- A type is noted on the expression, and a signature if it is a call. -/
def Expr.IsAnnotated (expr : Expr) : Prop :=
  expr.note.ty.isSome = true ∧
    ∀ note name arguments, expr = .call note name arguments → note.function.isSome = true

mutual

/-- The local variables that a statement declares, by their written types and initial values. -/
def Stmt.declarations : Stmt → List (Option String × Option Expr)
  | .declaration _ written value => [(written, value)]
  | .branch _ thenBlock elseBlock =>
      Stmt.declarationsOfList thenBlock ++ Stmt.declarationsOfList elseBlock
  | .switch _ cases => Case.declarationsOfList cases
  | .loop _ body => Stmt.declarationsOfList body
  | .expression _ => []
  | .assignment _ _ => []
  | .result _ => []

def Stmt.declarationsOfList : List Stmt → List (Option String × Option Expr)
  | [] => []
  | stmt :: rest => stmt.declarations ++ Stmt.declarationsOfList rest

def Case.declarationsOfList : List Case → List (Option String × Option Expr)
  | [] => []
  | .mk _ body :: rest => Stmt.declarationsOfList body ++ Case.declarationsOfList rest

end

/-- Java output finds the type of a local variable. -/
def IsTypedDeclaration (declaration : Option String × Option Expr) : Prop :=
  ((declaration.1.bind Ty.ofName?).or
    (declaration.2.bind fun value => value.note.ty)).isSome = true

/-- All annotations that Java output looks for are there: it names every call by a signature,
and gives every variable and every method types that were checked. -/
structure Program.FullyAnnotated (program : Program) : Prop where
  nodes : ∀ node ∈ program.nodes, node.IsAnnotated
  declarations : ∀ function ∈ program.functions,
    ∀ declaration ∈ Stmt.declarationsOfList function.body, IsTypedDeclaration declaration
  globals : ∀ global ∈ program.globals, global.ty.isSome = true
  functions : ∀ function ∈ program.functions, function.signature.isSome = true

theorem Rules.HasType.note_ty {context : Context} {expr : Expr} {ty : Ty}
    (typed : HasType true context expr ty) : expr.note.ty = some ty := by
  cases typed with
  | literal _ noted => exact (noted rfl).1
  | group _ noted => exact (noted rfl).1
  | binary _ _ _ noted => exact (noted rfl).1
  | access _ noted => exact (noted rfl).1
  | element _ _ _ noted => exact (noted rfl).1
  | call _ _ noted => exact (noted rfl).1
  | list _ _ noted => exact (noted rfl).1

theorem Rules.HasType.isAnnotated {context : Context} {expr : Expr} {ty : Ty}
    (typed : HasType true context expr ty) : expr.IsAnnotated := by
  refine ⟨by rw [typed.note_ty]; rfl, ?_⟩
  rintro note name arguments rfl
  cases typed with
  | call _ _ noted => rw [(noted rfl).2]; rfl

section Nodes

variable {context : Context}

mutual

theorem Rules.HasType.nodes : ∀ {expr : Expr} {ty : Ty}, HasType true context expr ty →
    ∀ node ∈ expr.nodes, node.IsAnnotated
  | .literal _ _, _, typed => List.forall_mem_singleton.mpr typed.isAnnotated
  | .access _ _, _, typed => List.forall_mem_singleton.mpr typed.isAnnotated
  | .group note inner, _, typed => by
      refine List.forall_mem_cons.mpr ⟨typed.isAnnotated, ?_⟩
      cases typed with
      | group innerTyped _ => exact innerTyped.nodes
  | .binary note op left right, _, typed => by
      refine List.forall_mem_cons.mpr ⟨typed.isAnnotated, ?_⟩
      cases typed with
      | binary leftTyped rightTyped _ _ =>
          exact List.forall_mem_append.mpr ⟨leftTyped.nodes, rightTyped.nodes⟩
  | .element note name index, _, typed => by
      refine List.forall_mem_cons.mpr ⟨typed.isAnnotated, ?_⟩
      cases typed with
      | element _ indexTyped _ _ => exact indexTyped.nodes
  | .call note name arguments, _, typed => by
      refine List.forall_mem_cons.mpr ⟨typed.isAnnotated, ?_⟩
      cases typed with
      | call _ argumentsTyped _ => exact argumentsTyped.nodes
  | .list note elements, _, typed => by
      refine List.forall_mem_cons.mpr ⟨typed.isAnnotated, ?_⟩
      cases typed with
      | list _ elementsTyped _ => exact elementsTyped.nodes

theorem Rules.Arguments.nodes : ∀ {items : List Expr} {types : List Ty},
    Arguments true context items types → ∀ node ∈ Expr.nodesOfList items, node.IsAnnotated
  | [], _, _ => by simp [Expr.nodesOfList]
  | item :: rest, _, typed => by
      cases typed with
      | cons first _ others => exact List.forall_mem_append.mpr ⟨first.nodes, others.nodes⟩

theorem Rules.Elements.nodes : ∀ {items : List Expr} {ty : Ty},
    Elements true context ty items → ∀ node ∈ Expr.nodesOfList items, node.IsAnnotated
  | [], _, _ => by simp [Expr.nodesOfList]
  | item :: rest, _, typed => by
      cases typed with
      | cons first _ others => exact List.forall_mem_append.mpr ⟨first.nodes, others.nodes⟩

end

theorem Rules.Fits.nodes {expected : Ty} {expr : Expr} (fits : Fits true context expected expr) :
    ∀ node ∈ expr.nodes, node.IsAnnotated := by
  obtain ⟨_, typed, _⟩ := fits
  exact typed.nodes

end Nodes

/-- The expressions and the local variables of a part of a program are annotated. -/
structure AllAnnotated (nodes : List Expr) (declarations : List (Option String × Option Expr)) :
    Prop where
  nodes : ∀ node ∈ nodes, node.IsAnnotated
  declarations : ∀ declaration ∈ declarations, IsTypedDeclaration declaration

theorem AllAnnotated.append {nodes nodes' : List Expr}
    {declarations declarations' : List (Option String × Option Expr)}
    (first : AllAnnotated nodes declarations) (second : AllAnnotated nodes' declarations') :
    AllAnnotated (nodes ++ nodes') (declarations ++ declarations') :=
  ⟨List.forall_mem_append.mpr ⟨first.nodes, second.nodes⟩,
    List.forall_mem_append.mpr ⟨first.declarations, second.declarations⟩⟩

/-- Expressions declare nothing. -/
theorem AllAnnotated.ofNodes {nodes : List Expr} (all : ∀ node ∈ nodes, node.IsAnnotated) :
    AllAnnotated nodes [] :=
  ⟨all, by simp⟩

section Statements

variable {returns : Ty}

mutual

theorem Rules.StmtRule.allAnnotated : ∀ {stmt : Stmt} {context after : Context},
    StmtRule true returns context stmt after → AllAnnotated stmt.nodes stmt.declarations
  | .expression value, _, _, rule => by
      cases rule with
      | expression typed => exact .ofNodes typed.nodes
  | .declaration name written value, _, _, rule => by
      cases rule with
      | @declareTyped _ _ _ ty fits _ =>
          have known : IsTypedDeclaration (some ty.name, value) := by
            simp [IsTypedDeclaration, Ty.ofName?_eq_some.mpr rfl]
          refine ⟨?_, List.forall_mem_singleton.mpr known⟩
          cases value with
          | none => simp [Stmt.nodes, Expr.nodesOfOption]
          | some value => exact (fits value rfl).nodes
      | declareUntyped typed _ =>
          refine ⟨typed.nodes, List.forall_mem_singleton.mpr ?_⟩
          simp [IsTypedDeclaration, typed.note_ty]
  | .assignment receiver value, _, _, rule => by
      cases rule with
      | assignment _ typed _ _ fits =>
          exact .ofNodes (List.forall_mem_append.mpr ⟨typed.nodes, fits.nodes⟩)
  | .branch condition thenBlock elseBlock, _, _, rule => by
      cases rule with
      | branch fits _ thenRule elseRule =>
          exact (AllAnnotated.ofNodes fits.nodes).append
            (thenRule.allAnnotated.append elseRule.allAnnotated)
  | .switch condition cases, _, _, rule => by
      cases rule with
      | switch typed casesRule =>
          exact (AllAnnotated.ofNodes typed.nodes).append casesRule.allAnnotated
  | .loop condition body, _, _, rule => by
      cases rule with
      | loop fits bodyRule =>
          exact (AllAnnotated.ofNodes fits.nodes).append bodyRule.allAnnotated
  | .result value, _, _, rule => by
      cases rule with
      | result fits => exact .ofNodes fits.nodes

theorem Rules.BlockRule.allAnnotated : ∀ {stmts : List Stmt} {context : Context},
    BlockRule true returns context stmts →
    AllAnnotated (Stmt.nodesOfList stmts) (Stmt.declarationsOfList stmts)
  | [], _, _ => .ofNodes (by simp [Stmt.nodesOfList])
  | stmt :: rest, _, rule => by
      cases rule with
      | cons first others => exact first.allAnnotated.append others.allAnnotated

theorem Rules.CasesRule.allAnnotated : ∀ {cases : List Case} {context : Context} {ty : Ty},
    CasesRule true returns context ty cases →
    AllAnnotated (Case.nodesOfList cases) (Case.declarationsOfList cases)
  | [], _, _, _ => .ofNodes (by simp [Case.nodesOfList])
  | .mk value body :: rest, _, _, rule => by
      cases rule with
      | default bodyRule =>
          have none : AllAnnotated [] [] := .ofNodes (by simp)
          exact (none.append bodyRule.allAnnotated).append none
      | valued fits bodyRule others =>
          exact ((AllAnnotated.ofNodes fits.nodes).append bodyRule.allAnnotated).append
            others.allAnnotated

end

end Statements

theorem Rules.InitialRule.nodes {context : Context} {declared : Ty} {value : Expr}
    (rule : InitialRule true context declared value) : ∀ node ∈ value.nodes, node.IsAnnotated := by
  cases rule with
  | @list note elements elementsTyped noted =>
      refine List.forall_mem_cons.mpr ⟨⟨?_, by simp⟩, elementsTyped.nodes⟩
      simp only [Expr.note, (noted rfl).1, Option.isSome_some]
  | expression _ fits => exact fits.nodes

theorem Rules.GlobalsRule.isAnnotated {context after : Context} {globals : List Global}
    (rule : GlobalsRule true context globals after) :
    ∀ global ∈ globals, global.ty.isSome = true ∧
      ∀ node ∈ Expr.nodesOfOption global.value, node.IsAnnotated := by
  induction rule with
  | nil => simp
  | @cons _ _ global _ _ _ _ initial holds _ induction =>
      refine List.forall_mem_cons.mpr ⟨⟨by rw [holds rfl]; rfl, ?_⟩, induction⟩
      cases given : global.value with
      | none => simp [Expr.nodesOfOption]
      | some value => exact (initial value given).nodes

theorem Rules.FunctionsRule.isAnnotated {context after : Context} {functions : List Function}
    (rule : FunctionsRule true context functions after) :
    ∀ function ∈ functions, function.signature.isSome = true := by
  induction rule with
  | nil => simp
  | cons _ _ holds _ induction =>
      exact List.forall_mem_cons.mpr ⟨by rw [holds rfl]; rfl, induction⟩

theorem Rules.BodyRule.allAnnotated {context : Context} {function : Function}
    (rule : BodyRule true context function) :
    AllAnnotated (Stmt.nodesOfList function.body) (Stmt.declarationsOfList function.body) := by
  obtain ⟨_, _, _, _, block⟩ := rule
  exact block.allAnnotated

theorem Rules.WellTyped.fullyAnnotated {program : Program} (typed : WellTyped true program) :
    program.FullyAnnotated := by
  obtain ⟨between, context, globalsRule, functionsRule, bodies, -⟩ := typed
  refine ⟨List.forall_mem_append.mpr ⟨?_, ?_⟩, ?_, ?_, functionsRule.isAnnotated⟩
  · intro node member
    obtain ⟨global, isGlobal, member⟩ := List.mem_flatMap.mp member
    exact (globalsRule.isAnnotated global isGlobal).2 node member
  · intro node member
    obtain ⟨function, isFunction, member⟩ := List.mem_flatMap.mp member
    exact (bodies function isFunction).allAnnotated.nodes node member
  · intro function isFunction
    exact (bodies function isFunction).allAnnotated.declarations
  · intro global isGlobal
    exact (globalsRule.isAnnotated global isGlobal).1

/-- A check keeps parameters and their written types. -/
theorem Program.balanced_check {program : Program}
    (balanced : ∀ function ∈ program.functions, function.Balanced) :
    ∀ function ∈ program.check.tree.functions, function.Balanced := by
  have same : program.check.tree.functions.map Function.bare =
      program.functions.map Function.bare := congrArg Program.functions program.bare_check
  intro function member
  have bareMember := List.mem_map_of_mem member (f := Function.bare)
  rw [same] at bareMember
  obtain ⟨given, isGiven, equal⟩ := List.mem_map.mp bareMember
  have fits := balanced given isGiven
  unfold Function.Balanced Function.arity at fits ⊢
  rwa [← show given.parameters = function.parameters from (Function.mk.inj equal).2.1,
    ← show given.parameterTypes = function.parameterTypes from (Function.mk.inj equal).2.2.1]

/-- What is read from a text passes the check exactly if the rules of typing derive it, and then
the check returns the annotated tree that the rules derive, in which every annotation is there
that Java output looks for. -/
theorem Program.check_decides {text : String} {program : Program}
    (read : Program.ofText text = .ok program) :
    (program.check.verdict = .ok () ↔ WellTyped false program) ∧
      (program.check.verdict = .ok () → program.check.tree.bare = program.bare ∧
        WellTyped true program.check.tree ∧ program.check.tree.FullyAnnotated) := by
  obtain ⟨tokens, derived, -⟩ := Program.isProgram_of_ofText read
  have balanced : ∀ function ∈ program.functions, function.Balanced := by
    intro function member
    obtain ⟨_, isFunction⟩ := derived.forall_function function member
    exact isFunction.balanced
  constructor
  · have settles : program.check.Settles false program () ↔ WellTyped false program :=
      Program.settles_check balanced
    constructor
    · exact fun passes => settles.mp ⟨passes, nofun⟩
    · exact fun typed => (settles.mpr typed).1
  · intro passes
    -- A second check leaves the tree as it is, so the tree is an annotated one.
    have again : program.check.tree.check.Settles true program.check.tree () := by
      rw [program.check_again]
      exact ⟨passes, fun _ => rfl⟩
    have typed := (Program.settles_check (Program.balanced_check balanced)).mp again
    exact ⟨program.bare_check, typed, typed.fullyAnnotated⟩

/-- A list literal, its element and a local variable without a written type get annotations that
the program as it was read does not have. -/
theorem Program.check_decides_list :
    ∃ text program,
      text = "LIST xs : Decimal = [ 1.5 ] ; FUN main ( ) DO LET x = xs [ 0 ] ; print ( x ) ; END" ∧
      Program.ofText text = .ok program ∧ ¬ program.FullyAnnotated ∧
      program.check.verdict = .ok () ∧ WellTyped false program ∧
      program.check.tree.bare = program.bare ∧ WellTyped true program.check.tree ∧
      program.check.tree.FullyAnnotated := by
  have facts : ((Program.ofText
      "LIST xs : Decimal = [ 1.5 ] ; FUN main ( ) DO LET x = xs [ 0 ] ; print ( x ) ; END").map
        fun program => (program.check.verdict.toOption,
          program.globals.map Global.ty)).toOption = some (some (), [none]) := by
    decide +kernel
  cases read : Program.ofText
      "LIST xs : Decimal = [ 1.5 ] ; FUN main ( ) DO LET x = xs [ 0 ] ; print ( x ) ; END" with
  | error problem =>
      rw [read] at facts
      cases facts
  | ok program =>
      rw [read] at facts
      obtain ⟨passed, types⟩ := Prod.mk.inj (Option.some.inj facts)
      cases passes : program.check.verdict with
      | error error =>
          rw [passes] at passed
          cases passed
      | ok _ =>
          obtain ⟨decides, annotates⟩ := Program.check_decides read
          refine ⟨_, program, rfl, read, ?_, passes, decides.mp passes, annotates passes⟩
          intro full
          obtain ⟨global, isGlobal, missing⟩ := List.mem_map.mp
            (show none ∈ program.globals.map Global.ty by rw [types]; simp)
          have found := full.globals global isGlobal
          rw [missing] at found
          cases found

end Procedural
