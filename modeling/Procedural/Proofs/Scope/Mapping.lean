import Procedural.Scope

/-!
# Scopes with other functions

Every function that a scope binds can be changed without touching names and frames.
The operations on scopes commute with such a change, so a lookup finds the changed
function exactly where it found the function.
-/

namespace Procedural

variable {V F G : Type}

namespace Frame

/-- The frame with each of its functions changed. -/
def mapFunctions (change : F → G) (frame : Frame V F) : Frame V G :=
  ⟨frame.variableBindings, frame.functionBindings.map fun (key, value) => (key, change value),
    frame.skip⟩

variable (change : F → G) (frame : Frame V F)

@[simp] theorem mapFunctions_empty (skip : Nat) :
    (empty skip : Frame V F).mapFunctions change = .empty skip :=
  rfl

@[simp] theorem skip_mapFunctions : (frame.mapFunctions change).skip = frame.skip :=
  rfl

@[simp] theorem findVariable?_mapFunctions (name : String) :
    (frame.mapFunctions change).findVariable? name = frame.findVariable? name :=
  rfl

theorem lookup_map (key : String × Nat) (bindings : List ((String × Nat) × F)) :
    (bindings.map fun (key, value) => (key, change value)).lookup key =
      (bindings.lookup key).map change := by
  induction bindings with
  | nil => rfl
  | cons binding rest induction =>
      obtain ⟨other, value⟩ := binding
      simp only [List.map_cons, List.lookup_cons, induction]
      cases key == other <;> rfl

@[simp] theorem findFunction?_mapFunctions (name : String) (arity : Nat) :
    (frame.mapFunctions change).findFunction? name arity =
      (frame.findFunction? name arity).map change :=
  lookup_map change (name, arity) frame.functionBindings

theorem mapFunctions_defineVariable (name : String) (value : V) :
    (frame.defineVariable name value).mapFunctions change =
      (frame.mapFunctions change).defineVariable name value :=
  rfl

theorem mapFunctions_defineFunction (name : String) (arity : Nat) (value : F) :
    (frame.defineFunction name arity value).mapFunctions change =
      (frame.mapFunctions change).defineFunction name arity (change value) :=
  rfl

theorem mapFunctions_updateVariable (name : String) (update : V → V) :
    (frame.updateVariable name update).mapFunctions change =
      (frame.mapFunctions change).updateVariable name update :=
  rfl

end Frame

namespace Scope

/-- The scope with each of its functions changed. -/
def mapFunctions (change : F → G) (scope : Scope V F) : Scope V G :=
  ⟨scope.inner.map (Frame.mapFunctions change), scope.root.mapFunctions change⟩

variable (change : F → G) (scope : Scope V F)

@[simp] theorem mapFunctions_empty : (empty : Scope V F).mapFunctions change = .empty :=
  rfl

@[simp] theorem current_mapFunctions : (scope.mapFunctions change).current = scope.current :=
  List.length_map _

theorem newest_mapFunctions :
    (scope.mapFunctions change).newest = scope.newest.mapFunctions change := by
  obtain ⟨inner, root⟩ := scope
  cases inner <;> rfl

@[simp] theorem definesVariable_mapFunctions (name : String) :
    (scope.mapFunctions change).definesVariable name = scope.definesVariable name := by
  simp only [definesVariable, newest_mapFunctions, Frame.findVariable?_mapFunctions]

@[simp] theorem definesFunction_mapFunctions (name : String) (arity : Nat) :
    (scope.mapFunctions change).definesFunction name arity = scope.definesFunction name arity := by
  simp only [definesFunction, newest_mapFunctions, Frame.findFunction?_mapFunctions,
    Option.isSome_map]

theorem searchFrom_mapFunctions {α β : Type} (answer : α → β) (ask : Frame V F → Option α)
    (ask' : Frame V G → Option β)
    (same : ∀ frame, ask' (frame.mapFunctions change) = (ask frame).map answer)
    (root : Frame V F) (inner : List (Frame V F)) : ∀ skipped,
    searchFrom (root.mapFunctions change) ask' skipped (inner.map (Frame.mapFunctions change)) =
      (searchFrom root ask skipped inner).map answer := by
  induction inner with
  | nil =>
      intro skipped
      simp only [List.map_nil, searchFrom, same]
  | cons frame rest induction =>
      intro skipped
      cases skipped with
      | zero =>
          simp only [List.map_cons, searchFrom, same]
          cases ask frame with
          | none => exact induction frame.skip
          | some found => rfl
      | succ skipped => exact induction skipped

@[simp] theorem findVariable?_mapFunctions (name : String) :
    (scope.mapFunctions change).findVariable? name = scope.findVariable? name := by
  have same := searchFrom_mapFunctions change id (fun frame => frame.findVariable? name)
    (fun frame => frame.findVariable? name) (by simp) scope.root scope.inner 0
  rwa [Option.map_id] at same

@[simp] theorem findFunction?_mapFunctions (name : String) (arity : Nat) :
    (scope.mapFunctions change).findFunction? name arity =
      (scope.findFunction? name arity).map change :=
  searchFrom_mapFunctions change change (fun frame => frame.findFunction? name arity)
    (fun frame => frame.findFunction? name arity)
    (fun frame => frame.findFunction?_mapFunctions change name arity) scope.root scope.inner 0

theorem mapFunctions_pushUnder (outer : Nat) :
    (scope.pushUnder outer).mapFunctions change = (scope.mapFunctions change).pushUnder outer := by
  simp only [pushUnder, current_mapFunctions]
  rfl

theorem mapFunctions_push : scope.push.mapFunctions change = (scope.mapFunctions change).push := by
  simp only [push, mapFunctions_pushUnder, current_mapFunctions]

theorem mapFunctions_pop : scope.pop.mapFunctions change = (scope.mapFunctions change).pop := by
  simp only [pop, mapFunctions, List.map_tail]

theorem mapFunctions_modifyNewest {modify : Frame V F → Frame V F} {modify' : Frame V G → Frame V G}
    (same : ∀ frame, (modify frame).mapFunctions change = modify' (frame.mapFunctions change)) :
    (scope.modifyNewest modify).mapFunctions change =
      (scope.mapFunctions change).modifyNewest modify' := by
  obtain ⟨inner, root⟩ := scope
  cases inner with
  | nil => simp only [modifyNewest, mapFunctions, List.map_nil, same]
  | cons frame rest => simp only [modifyNewest, mapFunctions, List.map_cons, same]

theorem mapFunctions_defineVariable (name : String) (value : V) :
    (scope.defineVariable name value).mapFunctions change =
      (scope.mapFunctions change).defineVariable name value :=
  scope.mapFunctions_modifyNewest change fun frame =>
    frame.mapFunctions_defineVariable change name value

theorem mapFunctions_defineFunction (name : String) (arity : Nat) (value : F) :
    (scope.defineFunction name arity value).mapFunctions change =
      (scope.mapFunctions change).defineFunction name arity (change value) :=
  scope.mapFunctions_modifyNewest change fun frame =>
    frame.mapFunctions_defineFunction change name arity value

theorem mapFunctions_updateFrom (root : Frame V F) (name : String) (update : V → V)
    (inner : List (Frame V F)) : ∀ skipped,
    (updateFrom root name update skipped inner).mapFunctions change =
      updateFrom (root.mapFunctions change) name update skipped
        (inner.map (Frame.mapFunctions change)) := by
  induction inner with
  | nil =>
      intro skipped
      rfl
  | cons frame rest induction =>
      intro skipped
      cases skipped with
      | zero =>
          simp only [List.map_cons, updateFrom, Frame.findVariable?_mapFunctions,
            Frame.skip_mapFunctions, ← induction]
          by_cases found : (frame.findVariable? name).isSome = true
          · simp only [if_pos found]
            rfl
          · simp only [if_neg found]
            rfl
      | succ skipped =>
          simp only [List.map_cons, updateFrom, ← induction]
          rfl

theorem mapFunctions_updateVariable (name : String) (update : V → V) :
    (scope.updateVariable name update).mapFunctions change =
      (scope.mapFunctions change).updateVariable name update :=
  mapFunctions_updateFrom change scope.root name update scope.inner 0

end Scope

end Procedural
