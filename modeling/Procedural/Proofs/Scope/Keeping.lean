import Procedural.Execution.Machine
import Procedural.Proofs.Scope.Correspondence

/-!
# Kept scopes

A scope is kept if it has the same frames as before, each enclosed by the same frame, and
they bind the same names: functions to what they were bound to, variables to values of
which only those of mutable variables may have changed.  What is kept above the newest
frame is said of the scope without that frame.
-/

namespace Procedural

/-- What may become of a binding in time. -/
structure Binding.Becomes (before after : Binding) : Prop where
  mutable : after.mutable = before.mutable
  constant : before.mutable = false → after = before

namespace Binding.Becomes

theorem refl (binding : Binding) : binding.Becomes binding :=
  ⟨rfl, fun _ => rfl⟩

theorem trans {first second third : Binding} (becomes : first.Becomes second)
    (later : second.Becomes third) : first.Becomes third := by
  refine ⟨later.mutable.trans becomes.mutable, fun constant => ?_⟩
  obtain rfl := becomes.constant constant
  exact later.constant constant

theorem update {before after : Binding} (becomes : before.Becomes after)
    (mutable : before.mutable = true) (value : Value) :
    before.Becomes { after with value } := by
  refine ⟨becomes.mutable, fun constant => ?_⟩
  rw [mutable] at constant
  cases constant

end Binding.Becomes

namespace Scope

/-- The same frames bind the same names; no function and no constant has changed. -/
def Keeps (before after : Scope Binding Callable) : Prop :=
  before.Mirrors Binding.Becomes (fun _ => Eq) after

variable {before middle after : Scope Binding Callable}

namespace Keeps

theorem refl (scope : Scope Binding Callable) : scope.Keeps scope :=
  Mirrors.refl .refl (fun _ _ => rfl) scope

theorem trans (keeps : before.Keeps middle) (later : middle.Keeps after) : before.Keeps after :=
  Mirrors.trans (fun _ _ _ => .trans) (fun _ _ _ _ => .trans) keeps later

theorem current (keeps : before.Keeps after) : after.current = before.current :=
  Mirrors.current keeps

theorem findVariable (keeps : before.Keeps after) {name : String} {binding : Binding}
    (found : before.findVariable? name = some binding) :
    ∃ binding', after.findVariable? name = some binding' ∧ binding.Becomes binding' :=
  exists_of_related ((Mirrors.sees keeps).findVariable name) found

theorem definesVariable (keeps : before.Keeps after) (name : String) :
    after.definesVariable name = before.definesVariable name :=
  (Mirrors.sees keeps).definesVariable name

theorem pop (keeps : before.Keeps after) : before.pop.Keeps after.pop :=
  Mirrors.pop keeps

theorem functionBindings (keeps : before.Keeps after) :
    before.root.functionBindings = after.root.functionBindings := by
  obtain ⟨_, roots⟩ := keeps
  exact List.forall₂_eq_eq_eq ▸ roots.functionBindings.imp fun _ _ bound =>
    Prod.ext bound.key bound.value

theorem defineVariable (keeps : before.Keeps after) (name : String) (binding : Binding) :
    (before.defineVariable name binding).Keeps (after.defineVariable name binding) :=
  Mirrors.defineVariable keeps name (.refl binding)

/-- A variable that may change gets a value. -/
theorem assign (keeps : before.Keeps after) {name : String} {binding : Binding}
    (found : before.findVariable? name = some binding) (mutable : binding.mutable = true)
    (value : Value) :
    before.Keeps (after.updateVariable name fun binding => { binding with value }) := by
  apply Mirrors.updateVariable keeps
  intro binding' found' other becomes
  obtain rfl : binding = binding' := Option.some.inj (found.symm.trans found')
  exact becomes.update mutable value

end Keeps

/-- The frames below the newest one are kept. -/
structure KeepsBelow (before after : Scope Binding Callable) : Prop where
  current : after.current = before.current
  below : before.pop.Keeps after.pop

namespace KeepsBelow

theorem of_keeps (keeps : before.Keeps after) : before.KeepsBelow after :=
  ⟨keeps.current, keeps.pop⟩

theorem trans (keeps : before.KeepsBelow middle) (later : middle.KeepsBelow after) :
    before.KeepsBelow after :=
  ⟨later.current.trans keeps.current, keeps.below.trans later.below⟩

/-- Whatever is bound in the newest frame, the frames below are kept. -/
theorem defineVariable {scope : Scope Binding Callable} (inside : 0 < scope.current)
    (name : String) (binding : Binding) :
    scope.KeepsBelow (scope.defineVariable name binding) ∧
      (scope.defineVariable name binding).root = scope.root := by
  obtain ⟨inner, root⟩ := scope
  cases inner with
  | nil => cases inside
  | cons frame rest => exact ⟨⟨rfl, .refl _⟩, rfl⟩

/-- A frame that was pushed is popped. -/
theorem leave {scope : Scope Binding Callable} {outer : Nat}
    (keeps : (scope.pushUnder outer).KeepsBelow after) : scope.Keeps after.pop :=
  keeps.below

end KeepsBelow

/-- The root binds to the same values the constants that it binds before. -/
def KeepsConstants (before after : Scope Binding Callable) : Prop :=
  ∀ name binding, before.root.findVariable? name = some binding → binding.mutable = false →
    after.root.findVariable? name = some binding

/-- The root binds functions as before, or functions of a list that have the root as their home. -/
def AddsFunctions (functions : List Function) (before after : Scope Binding Callable) : Prop :=
  ∀ entry ∈ after.root.functionBindings,
    entry ∈ before.root.functionBindings ∨ ∃ function ∈ functions, entry.2 = .user function 0

/-- What becomes of the root in the course of a run. -/
structure Precedes (functions : List Function) (before after : Scope Binding Callable) : Prop where
  constants : before.KeepsConstants after
  functions : AddsFunctions functions before after

namespace Precedes

variable {functions : List Function}

theorem refl (scope : Scope Binding Callable) : Precedes functions scope scope :=
  ⟨fun _ _ found _ => found, fun _ member => .inl member⟩

theorem trans (precedes : Precedes functions before middle)
    (later : Precedes functions middle after) : Precedes functions before after := by
  refine ⟨fun name binding found constant => ?_, fun entry member => ?_⟩
  · exact later.constants name binding (precedes.constants name binding found constant) constant
  · rcases later.functions entry member with earlier | added
    · exact precedes.functions entry earlier
    · exact .inr added

/-- Only the root matters. -/
theorem of_root (same : after.root = before.root) : Precedes functions before after := by
  refine ⟨fun name binding found _ => ?_, fun entry member => .inl ?_⟩
  · rw [same]
    exact found
  · rw [← same]
    exact member

theorem of_keeps (keeps : before.Keeps after) : Precedes functions before after := by
  refine ⟨fun name binding found constant => ?_, fun entry member => .inl ?_⟩
  · obtain ⟨_, roots⟩ := keeps
    obtain ⟨binding', found', becomes⟩ := exists_of_related (roots.findVariable name) found
    rw [found', becomes.constant constant]
  · rw [keeps.functionBindings]
    exact member

theorem defineVariable {scope : Scope Binding Callable} {name : String}
    (unbound : scope.definesVariable name = false) (binding : Binding) :
    Precedes functions scope (scope.defineVariable name binding) := by
  obtain ⟨inner, root⟩ := scope
  cases inner with
  | cons frame rest => exact of_root rfl
  | nil =>
      refine ⟨fun other constant found _ => ?_, fun entry member => .inl member⟩
      have different : other ≠ name := by
        rintro rfl
        have bound : root.findVariable? other = none :=
          Option.isNone_iff_eq_none.mp (Option.isSome_eq_false_iff.mp unbound)
        rw [bound] at found
        cases found
      change List.lookup other ((name, binding) :: root.variableBindings) = some constant
      rw [List.lookup_cons, beq_false_of_ne different]
      exact found

theorem defineFunction {function : Function} (member : function ∈ functions)
    {scope : Scope Binding Callable} (alone : scope.Alone) :
    Precedes functions scope (scope.defineFunction function.name function.arity
      (.user function scope.current)) := by
  obtain ⟨inner, root⟩ := scope
  obtain rfl : inner = [] := alone
  refine ⟨fun _ _ found _ => found, fun entry bound => ?_⟩
  rcases List.mem_cons.mp bound with rfl | earlier
  · exact .inr ⟨function, member, rfl⟩
  · exact .inl earlier

end Precedes

/-- From one scope through others to another one, each precedes all that come later. -/
def Passage (functions : List Function) (before : Scope Binding Callable)
    (between : List (Scope Binding Callable)) (after : Scope Binding Callable) : Prop :=
  (before :: (between ++ [after])).Pairwise (Precedes functions)

namespace Passage

variable {functions : List Function} {between later : List (Scope Binding Callable)}

theorem nil (precedes : Precedes functions before after) : Passage functions before [] after :=
  List.pairwise_pair.mpr precedes

theorem single (precedes : Precedes functions before after) :
    Passage functions before [after] after :=
  .cons (by simpa using precedes) (nil (.refl after))

theorem trans (passage : Passage functions before between middle)
    (passage' : Passage functions middle later after) :
    Passage functions before (between ++ later) after := by
  unfold Passage at passage passage' ⊢
  rw [← List.cons_append, List.pairwise_append] at passage
  obtain ⟨first, _, toMiddle⟩ := passage
  obtain ⟨fromMiddle, second⟩ := List.pairwise_cons.mp passage'
  rw [List.append_assoc, ← List.cons_append, List.pairwise_append]
  refine ⟨first, second, fun earlier isEarlier scope isLater => ?_⟩
  exact (toMiddle earlier isEarlier middle (List.mem_singleton_self _)).trans
    (fromMiddle scope isLater)

end Passage

end Scope

end Procedural
