import Procedural.Proofs.Scope.Correspondence
import Procedural.Proofs.Typing.Rules

/-!
# Contexts of environments

An environment is searched frame by frame.  Its context joins the bindings of the frames in
the order of a search, so both find the same, and the operations on environments are those
on contexts.
-/

namespace Procedural

open Typing

namespace Scope

variable {V F : Type} (scope : Scope V F)

theorem newest_modifyNewest (change : Frame V F → Frame V F) :
    (scope.modifyNewest change).newest = change scope.newest := by
  obtain ⟨inner, root⟩ := scope
  cases inner <;> rfl

theorem enclosing_modifyNewest {change : Frame V F → Frame V F}
    (keeps : ∀ frame, (change frame).skip = frame.skip) :
    (scope.modifyNewest change).enclosing = scope.enclosing := by
  have chain := scope.chain_modifyNewest keeps
  rw [chain_eq] at chain
  exact (List.cons.inj chain).2

theorem newest_push : scope.push.newest = .empty 0 := by
  have chain := scope.chain_push
  rw [chain_eq] at chain
  exact (List.cons.inj chain).1

theorem enclosing_push : scope.push.enclosing = scope.chain := by
  have chain := scope.chain_push
  rw [chain_eq scope.push] at chain
  exact (List.cons.inj chain).2

theorem enclosing_alone (alone : scope.Alone) : scope.enclosing = [] := by
  rw [alone.eq]
  rfl

/-- What the first of some frames binds a key to is what their joined bindings bind it to. -/
theorem lookup_flatMap {K B : Type} [BEq K] (frames : List (Frame V F))
    (bindings : Frame V F → List (K × B)) (key : K) :
    (frames.flatMap bindings).lookup key =
      frames.findSome? fun frame => (bindings frame).lookup key := by
  induction frames with
  | nil => rfl
  | cons frame rest induction =>
      rw [List.flatMap_cons, List.lookup_append, induction, List.findSome?_cons]
      cases (bindings frame).lookup key <;> rfl

end Scope

theorem lookup_isSome_eq_false {K B : Type} [BEq K] [LawfulBEq K] {bindings : List (K × B)}
    {key : K} :
    (bindings.lookup key).isSome = false ↔ ∀ binding ∈ bindings, binding.1 ≠ key := by
  rw [Option.isSome_eq_false_iff, Option.isNone_iff_eq_none, List.lookup_eq_none_iff]
  simp only [bne_iff_ne, ne_comm]

namespace Context

/-- The bindings of the frames of an environment, in the order of a search. -/
def of (environment : Typing.Environment) : Context :=
  ⟨environment.newest.variableBindings, environment.enclosing.flatMap Frame.variableBindings,
    environment.chain.flatMap Frame.functionBindings⟩

variable (environment : Typing.Environment)

theorem variables_of :
    (of environment).here ++ (of environment).outer =
      environment.chain.flatMap Frame.variableBindings := by
  rw [Scope.chain_eq, List.flatMap_cons]
  rfl

@[simp] theorem findVariable?_of (name : String) :
    (of environment).findVariable? name = environment.findVariable? name := by
  rw [findVariable?, variables_of, Scope.lookup_flatMap, Scope.findVariable?,
    Scope.search_eq_findSome?]
  rfl

@[simp] theorem findFunction?_of (name : String) (arity : Nat) :
    (of environment).findFunction? name arity = environment.findFunction? name arity := by
  rw [Scope.findFunction?, Scope.search_eq_findSome?]
  exact Scope.lookup_flatMap environment.chain Frame.functionBindings (name, arity)

@[simp] theorem of_push : of environment.push = (of environment).inner := by
  unfold inner
  rw [variables_of]
  simp only [of, Scope.newest_push, Scope.enclosing_push, Scope.chain_push, List.flatMap_cons]
  rfl

@[simp] theorem of_defineVariable (name : String) (variableType : VariableType) :
    of (environment.defineVariable name variableType) =
      (of environment).bind name variableType := by
  have newest := environment.newest_modifyNewest
    fun frame => frame.defineVariable name variableType
  have enclosing :
      (environment.modifyNewest fun frame =>
        frame.defineVariable name variableType).enclosing = environment.enclosing :=
    environment.enclosing_modifyNewest fun _ => rfl
  simp only [of, bind, Scope.chain_eq, Scope.defineVariable, newest, enclosing,
    List.flatMap_cons]
  rfl

@[simp] theorem of_defineFunction (name : String) (arity : Nat) (signature : Signature) :
    of (environment.defineFunction name arity signature) =
      (of environment).bindFunction name arity signature := by
  have newest := environment.newest_modifyNewest
    fun frame => frame.defineFunction name arity signature
  have enclosing :
      (environment.modifyNewest fun frame =>
        frame.defineFunction name arity signature).enclosing = environment.enclosing :=
    environment.enclosing_modifyNewest fun _ => rfl
  simp only [of, bindFunction, Scope.chain_eq, Scope.defineFunction, newest, enclosing,
    List.flatMap_cons]
  rfl

theorem of_root : of root = start :=
  rfl

theorem free_of {name : String} :
    (of environment).Free name ↔ environment.definesVariable name = false :=
  lookup_isSome_eq_false.symm

/-- The root frame has all functions. -/
theorem freeFunction_of {environment : Typing.Environment} (alone : environment.Alone)
    {name : String} {arity : Nat} :
    (of environment).FreeFunction name arity ↔
      environment.definesFunction name arity = false := by
  have functions : (of environment).functions = environment.newest.functionBindings := by
    simp only [of, Scope.chain_eq, Scope.enclosing_alone environment alone, List.flatMap_cons,
      List.flatMap_nil, List.append_nil]
  unfold FreeFunction
  rw [functions]
  exact lookup_isSome_eq_false.symm

end Context

end Procedural
