import Procedural.Proofs.Execution.Still
import Procedural.Proofs.Scope.Correspondence
import Procedural.Proofs.Store.Change

/-!
# Scenes with well-formed stores

A scene is sane if its store is well formed and its variables refer to cells of the store.
A list is made of elements that exist already, and an element is stored only if it does
not lead back to its list, so each single action keeps scenes sane.
-/

namespace Procedural

open Watched

abbrev Scene.size (scene : Scene) : Nat :=
  scene.machine.store.cells.size

/-- The store is well formed and has at least so many cells, and variables refer to its cells. -/
structure Scene.Sane (bound : Nat) (scene : Scene) : Prop where
  wellFormed : scene.machine.store.WellFormed
  bindings : scene.types.Mirrors (fun _ binding => binding.value.Below scene.size)
    (fun _ _ _ => True) scene.machine.environment
  grown : bound ≤ scene.size

/-- At each moment, and however the action ends, the scene is sane. -/
def Watched.Preserves {α : Type} (watched : Watched α) (scene : Scene)
    (post : α → Scene → Prop) : Prop :=
  watched.Ensures scene (fun _ => True) (fun moment => moment.scene.Sane 0) post
    fun _ after => after.Sane 0

variable {bound : Nat} {scene after : Scene} {α β : Type}

namespace Scene.Sane

theorem any (sane : scene.Sane bound) : scene.Sane 0 :=
  ⟨sane.wellFormed, sane.bindings, Nat.zero_le _⟩

theorem renew (sane : scene.Sane bound) : scene.Sane scene.size :=
  ⟨sane.wellFormed, sane.bindings, Nat.le_refl _⟩

theorem trans (sane : scene.Sane bound) (sane' : after.Sane scene.size) : after.Sane bound :=
  ⟨sane'.wellFormed, sane'.bindings, Nat.le_trans sane.grown sane'.grown⟩

theorem enter (sane : scene.Sane bound) (home : Nat) : (scene.enter home).Sane bound :=
  ⟨sane.wellFormed, sane.bindings.pushUnder home, sane.grown⟩

theorem leave (sane : scene.Sane bound) : scene.leave.Sane bound :=
  ⟨sane.wellFormed, sane.bindings.pop, sane.grown⟩

theorem deeper (sane : scene.Sane bound) : scene.deeper.Sane bound :=
  ⟨sane.wellFormed, sane.bindings, sane.grown⟩

theorem shallower (sane : scene.Sane bound) : scene.shallower.Sane bound :=
  ⟨sane.wellFormed, sane.bindings, sane.grown⟩

theorem withMachine (sane : scene.Sane bound) {machine : Machine}
    (sameEnvironment : machine.environment = scene.machine.environment)
    (sameStore : machine.store = scene.machine.store) :
    (Scene.mk machine scene.types).Sane bound := by
  refine ⟨?_, ?_, ?_⟩
  · exact sameStore ▸ sane.wellFormed
  · simp only [Scene.size, sameEnvironment, sameStore]
    exact sane.bindings
  · simp only [Scene.size, sameStore]
    exact sane.grown

theorem withStore (sane : scene.Sane bound) {store : Store} (wellFormed : store.WellFormed)
    (grows : scene.size ≤ store.cells.size) :
    (Scene.mk { scene.machine with store } scene.types).Sane bound :=
  ⟨wellFormed, sane.bindings.imp (fun _ _ below => below.mono grows) fun _ _ _ => id,
    Nat.le_trans sane.grown grows⟩

theorem below (sane : scene.Sane bound) {name : String} {binding : Binding}
    (found : scene.machine.environment.findVariable? name = some binding) :
    binding.value.Below scene.size := by
  have both := sane.bindings.sees.findVariable name
  rw [found] at both
  generalize scene.types.findVariable? name = noted at both
  cases both with
  | some below => exact below

end Scene.Sane

namespace Watched.Preserves

variable {post : α → Scene → Prop}

protected theorem pure {value : α} (holds : post value scene) :
    Preserves (pure value) scene post :=
  Ensures.pure holds

protected theorem bind {first : Watched β} {next : β → Watched α} {middle : β → Scene → Prop}
    (preserves : Preserves first scene middle)
    (later : ∀ value after, middle value after → Preserves (next value) after post) :
    Preserves (first >>= next) scene post :=
  Ensures.bind (Ensures.imp preserves later fun _ _ => id)

protected theorem imp {watched : Watched α} {post' : α → Scene → Prop}
    (preserves : Preserves watched scene post)
    (implies : ∀ value after, post value after → post' value after) :
    Preserves watched scene post' :=
  Ensures.imp preserves implies fun _ _ => id

theorem recording {event : Value → Event} {watched : Watched Value}
    (preserves : Preserves watched scene fun value after =>
      after.Sane bound ∧ value.Below after.size) :
    Preserves (Watched.recording event watched) scene fun value after =>
      after.Sane bound ∧ value.Below after.size := by
  apply Ensures.recording
  apply Ensures.imp preserves _ fun _ _ => id
  rintro value after ⟨sane, below⟩
  exact ⟨sane.any, sane, below⟩

/-- One action that leaves the machine alone. -/
theorem still {action : Exec α} {holds : α → Prop} (sane : scene.Sane bound)
    (still : action.Still scene.machine.store holds) :
    Preserves (Staging.watched.act action) scene fun value after => after.Sane bound ∧
      after.machine.store = scene.machine.store ∧ holds value := by
  apply Ensures.step
  apply (still scene.machine rfl).imp
  · rintro value machine ⟨sameEnvironment, sameStore, holds⟩
    have sane' := sane.withMachine sameEnvironment sameStore
    exact ⟨sane'.any, sane', sameStore, holds⟩
  · rintro stop machine ⟨sameEnvironment, sameStore, -⟩
    have sane' := sane.withMachine sameEnvironment sameStore
    exact ⟨sane'.any, sane'.any⟩

theorem pass {action : Exec α} {holds : α → Prop} (sane : scene.Sane bound)
    (still : action.Still scene.machine.store holds) :
    Preserves (Staging.watched.act action) scene fun _ after => after.Sane bound :=
  (Preserves.still sane still).imp fun _ _ both => both.1

theorem raise {fault : RuntimeFault} {offset : Option Nat} (sane : scene.Sane bound) :
    Preserves (Staging.watched.act (Exec.raise fault offset)) scene post :=
  Ensures.step (Exec.Ends.raise ⟨sane.any, sane.any⟩)

theorem findVariable {name : String} {offset : Nat} (sane : scene.Sane bound) :
    Preserves (Staging.watched.act (Exec.findVariable name offset)) scene fun binding after =>
      after.Sane bound ∧ binding.value.Below after.size := by
  apply Ensures.step
  apply Exec.Ends.findVariable
  · intro binding found
    exact ⟨sane.any, sane, sane.below found⟩
  · intro _
    exact ⟨sane.any, sane.any⟩

theorem findFunction {name : String} {arity offset : Nat} (sane : scene.Sane bound) :
    Preserves (Staging.watched.act (Exec.findFunction name arity offset)) scene fun _ after =>
      after.Sane bound := by
  apply Ensures.step
  apply Exec.Ends.findFunction
  · intro callable _
    exact ⟨sane.any, sane⟩
  · intro _
    exact ⟨sane.any, sane.any⟩

theorem requireMutable {name : String} {offset : Nat} (sane : scene.Sane bound) :
    Preserves (Staging.watched.act (Exec.requireMutable name offset)) scene fun _ after =>
      after.Sane bound := by
  apply Ensures.step
  apply Exec.Ends.requireMutable
  · intro _ _ _
    exact ⟨sane.any, sane⟩
  · intro _ _ _
    exact ⟨sane.any, sane.any⟩
  · intro _
    exact ⟨sane.any, sane.any⟩

theorem assignVariable {name : String} {offset : Nat} {value : Value} (sane : scene.Sane bound)
    (below : value.Below scene.size) :
    Preserves (Staging.watched.act (Exec.assignVariable name offset value)) scene fun _ after =>
      after.Sane bound := by
  apply Ensures.step
  apply Exec.Ends.bind
  apply Exec.Ends.findVariable
  · intro _ _
    apply Exec.Ends.modify
    have bindings : scene.types.Mirrors (fun _ binding => binding.value.Below scene.size)
        (fun _ _ _ => True)
        (scene.machine.environment.updateVariable name fun binding => { binding with value }) :=
      sane.bindings.updateVariable fun _ _ _ _ => below
    exact ⟨⟨sane.wellFormed, bindings, Nat.zero_le _⟩, sane.wellFormed, bindings, sane.grown⟩
  · intro _
    exact ⟨sane.any, sane.any⟩

theorem declare {name : String} {offset : Option Nat} {binding : Binding} {ty : Ty}
    (sane : scene.Sane bound) (below : binding.value.Below scene.size) :
    Preserves (Watched.declare name offset binding ty) scene fun _ after => after.Sane bound := by
  apply Ensures.stepNoting
  apply Exec.Ends.declare
  · intro _
    have bindings : (scene.types.defineVariable name ⟨ty, binding.mutable⟩).Mirrors
        (fun _ binding => binding.value.Below scene.size) (fun _ _ _ => True)
        (scene.machine.environment.defineVariable name binding) :=
      sane.bindings.defineVariable name below
    exact ⟨⟨sane.wellFormed, bindings, Nat.zero_le _⟩, sane.wellFormed, bindings, sane.grown⟩
  · intro _
    exact ⟨sane.any, sane.any⟩

theorem defineFunction {function : Function} (sane : scene.Sane bound) :
    Preserves (Staging.watched.defineFunction function) scene fun _ after => after.Sane bound := by
  apply Ensures.defineFunction
  apply Exec.Ends.bind
  apply Exec.Ends.look
  split
  · exact Exec.Ends.raise ⟨sane.any, sane.any⟩
  · apply Exec.Ends.modify
    have bindings : (scene.types.defineFunction function.name function.arity
        (function.signature.getD default)).Mirrors
        (fun _ binding => binding.value.Below scene.size) (fun _ _ _ => True)
        (scene.machine.environment.defineFunction function.name function.arity
          (.user function scene.machine.environment.current)) :=
      sane.bindings.defineFunction function.name function.arity trivial
    exact ⟨⟨sane.wellFormed, bindings, Nat.zero_le _⟩, sane.wellFormed, bindings, sane.grown⟩

theorem allocate {elements : List Value} (sane : scene.Sane bound)
    (below : ∀ value ∈ elements, value.Below scene.size) :
    Preserves (Staging.watched.act (Exec.allocate elements)) scene fun value after =>
      after.Sane bound ∧ value.Below after.size := by
  apply Ensures.step
  apply Exec.ends_allocate
  have grows : (scene.machine.store.allocate elements).2.cells.size = scene.size + 1 :=
    Store.size_allocate
  have sane' := sane.withStore (sane.wellFormed.allocate below)
    (by rw [grows]; exact Nat.le_succ _)
  refine ⟨sane'.any, sane', ?_⟩
  intro cell equal
  cases equal
  exact Nat.lt_of_lt_of_eq (Nat.lt_succ_self _) grows.symm

theorem storeElement {cell : Nat} {index : Int} {indexOffset : Nat} {value : Value}
    {valueOffset : Nat} (sane : scene.Sane bound) (below : value.Below scene.size) :
    Preserves (Staging.watched.act (Exec.storeElement cell index indexOffset value valueOffset))
      scene fun _ after => after.Sane bound := by
  apply Ensures.step
  apply Exec.ends_storeElement
  · intro notReached position _
    have apart : ¬ scene.machine.store.Reaches cell value := by
      rw [← sane.wellFormed.acyclic.reaches_iff, notReached]
      exact Bool.false_ne_true
    have sane' := sane.withStore (sane.wellFormed.setElement position below apart)
      (Nat.le_of_eq Store.size_setElement.symm)
    exact ⟨sane'.any, sane'⟩
  · intro _
    exact ⟨sane.any, sane.any⟩
  · intro _ _
    exact ⟨sane.any, sane.any⟩

theorem inFrame {watched : Watched α} {home : Environment → Nat} (sane : scene.Sane bound)
    {holds : α → Nat → Prop}
    (preserves : ∀ scene' : Scene, scene'.Sane bound →
      Preserves watched scene' fun value after => after.Sane bound ∧ holds value after.size) :
    Preserves (Watched.inFrame home watched) scene fun value after =>
      after.Sane bound ∧ holds value after.size := by
  have entered := sane.enter (home scene.machine.environment)
  apply Ensures.inFrame entered.any
  apply Ensures.imp (preserves _ entered)
  · rintro value after ⟨sane', holds⟩
    exact ⟨sane'.leave.any, sane'.leave, holds⟩
  · intro stop after sane'
    exact ⟨sane'.leave, sane'.leave⟩

theorem inCall {watched : Watched α} {home : Nat} (sane : scene.Sane bound)
    {holds : α → Nat → Prop}
    (preserves : ∀ scene' : Scene, scene'.Sane bound →
      Preserves watched scene' fun value after => after.Sane bound ∧ holds value after.size) :
    Preserves (Watched.inCall home watched) scene fun value after =>
      after.Sane bound ∧ holds value after.size := by
  apply Ensures.inCall sane.deeper.any
  apply Ensures.imp (inFrame sane.deeper preserves)
  · rintro value after ⟨sane', holds⟩
    exact ⟨sane'.shallower.any, sane'.shallower, holds⟩
  · intro stop after sane'
    exact ⟨sane'.shallower, sane'.shallower⟩

end Watched.Preserves

end Procedural
