import Procedural.Proofs.Scope.Correspondence

/-!
# Hidden frames

The frames of a scope can be put above other frames, which are then hidden: whatever was
enclosed by the root still is, although there are frames between.  What is done in the
frames above commutes with hiding frames below.
-/

namespace Procedural

variable {V F : Type}

namespace Frame

/-- The frame, skipping other frames. -/
def skipping (frame : Frame V F) (skip : Nat) : Frame V F :=
  { frame with skip }

@[simp] theorem skip_skipping (frame : Frame V F) (skip : Nat) :
    (frame.skipping skip).skip = skip :=
  rfl

@[simp] theorem findVariable?_skipping (frame : Frame V F) (skip : Nat) (name : String) :
    (frame.skipping skip).findVariable? name = frame.findVariable? name :=
  rfl

end Frame

namespace Scope

/-- How many frames are skipped when some are hidden, if there are fewer others below. -/
def skipHidden (hidden below skip : Nat) : Nat :=
  if skip < below then skip else skip + hidden

/-- Frames above hidden ones; those that were enclosed by the root still are. -/
def pile (hidden : List (Frame V F)) : List (Frame V F) → List (Frame V F)
  | [] => hidden
  | frame :: rest =>
      frame.skipping (skipHidden hidden.length rest.length frame.skip) :: pile hidden rest

/-- The scope above hidden frames. -/
def above (scope : Scope V F) (hidden : List (Frame V F)) : Scope V F :=
  ⟨pile hidden scope.inner, scope.root⟩

variable (root : Frame V F) (hidden : List (Frame V F))

theorem pile_length (inner : List (Frame V F)) :
    (pile hidden inner).length = inner.length + hidden.length := by
  induction inner with
  | nil => exact (Nat.zero_add _).symm
  | cons frame rest induction =>
      rw [pile, List.length_cons, List.length_cons, induction]
      omega

theorem skipHidden_zero (hidden : Nat) {below : Nat} (inside : 0 < below) :
    skipHidden hidden below 0 = 0 :=
  if_pos inside

theorem skipHidden_succ (hidden below skip : Nat) :
    skipHidden hidden (below + 1) (skip + 1) = skipHidden hidden below skip + 1 := by
  unfold skipHidden
  split <;> split <;> omega

theorem skipHidden_all (hidden below : Nat) :
    skipHidden hidden below below = below + hidden :=
  if_neg (Nat.lt_irrefl below)

/-- A search that skips all frames asks the root. -/
theorem searchFrom_of_length_le {α : Type} (ask : Frame V F → Option α) (skipped : Nat)
    (inner : List (Frame V F)) :
    searchFrom root ask (skipped + inner.length) inner = ask root := by
  induction inner with
  | nil => rfl
  | cons frame rest induction => exact induction

theorem updateFrom_of_length_le (name : String) (change : V → V) (skipped : Nat)
    (inner : List (Frame V F)) :
    updateFrom root name change (skipped + inner.length) inner =
      ⟨inner, root.updateVariable name change⟩ := by
  induction inner with
  | nil => rfl
  | cons frame rest induction =>
      change (let below := updateFrom root name change (skipped + rest.length) rest
        ({ below with inner := frame :: below.inner } : Scope V F)) = _
      rw [induction]

theorem searchFrom_pile {α : Type} {ask : Frame V F → Option α}
    (asks : ∀ frame skip, ask (frame.skipping skip) = ask frame) (skipped : Nat)
    (inner : List (Frame V F)) :
    searchFrom root ask (skipHidden hidden.length inner.length skipped) (pile hidden inner) =
      searchFrom root ask skipped inner := by
  induction inner generalizing skipped with
  | nil => exact searchFrom_of_length_le root ask skipped hidden
  | cons frame rest induction =>
      cases skipped with
      | succ skipped =>
          rw [List.length_cons, skipHidden_succ]
          exact induction skipped
      | zero =>
          rw [List.length_cons, skipHidden_zero _ (Nat.succ_pos _)]
          simp only [pile, searchFrom, asks]
          cases ask frame with
          | some answer => rfl
          | none => exact induction frame.skip

theorem updateFrom_length (name : String) (change : V → V) (skipped : Nat)
    (inner : List (Frame V F)) :
    (updateFrom root name change skipped inner).inner.length = inner.length := by
  induction inner generalizing skipped with
  | nil => cases skipped <;> rfl
  | cons frame rest induction =>
      cases skipped with
      | succ skipped => exact congrArg (· + 1) (induction skipped)
      | zero =>
          simp only [updateFrom]
          split
          · rfl
          · exact congrArg (· + 1) (induction frame.skip)

theorem updateFrom_pile (name : String) (change : V → V) (skipped : Nat)
    (inner : List (Frame V F)) :
    updateFrom root name change (skipHidden hidden.length inner.length skipped)
        (pile hidden inner) =
      (updateFrom root name change skipped inner).above hidden := by
  induction inner generalizing skipped with
  | nil =>
      have same := updateFrom_of_length_le root name change skipped hidden
      cases skipped <;> exact same
  | cons frame rest induction =>
      cases skipped with
      | succ skipped =>
          rw [List.length_cons, skipHidden_succ]
          simp only [pile, updateFrom, above, induction, updateFrom_length]
      | zero =>
          rw [List.length_cons, skipHidden_zero _ (Nat.succ_pos _)]
          simp only [pile, updateFrom, Frame.findVariable?_skipping, Frame.skip_skipping, induction]
          split
          · rfl
          · simp only [above, pile, updateFrom_length]

section Above

variable (scope : Scope V F)

theorem search_above {α : Type} {ask : Frame V F → Option α}
    (asks : ∀ frame skip, ask (frame.skipping skip) = ask frame) (inside : 0 < scope.current) :
    (scope.above hidden).search ask = scope.search ask := by
  have none : skipHidden hidden.length scope.inner.length 0 = 0 := skipHidden_zero _ inside
  have same := searchFrom_pile scope.root hidden asks 0 scope.inner
  rw [none] at same
  exact same

theorem findVariable?_above (inside : 0 < scope.current) :
    (scope.above hidden).findVariable? = scope.findVariable? := by
  funext name
  exact scope.search_above hidden (fun _ _ => rfl) inside

theorem findFunction?_above (inside : 0 < scope.current) :
    (scope.above hidden).findFunction? = scope.findFunction? := by
  funext name arity
  exact scope.search_above hidden (fun _ _ => rfl) inside

theorem updateVariable_above (inside : 0 < scope.current) (name : String) (change : V → V) :
    (scope.above hidden).updateVariable name change =
      (scope.updateVariable name change).above hidden := by
  have none : skipHidden hidden.length scope.inner.length 0 = 0 := skipHidden_zero _ inside
  have same := updateFrom_pile scope.root hidden name change 0 scope.inner
  rw [none] at same
  exact same

theorem current_updateVariable (name : String) (change : V → V) :
    (scope.updateVariable name change).current = scope.current :=
  updateFrom_length scope.root name change 0 scope.inner

theorem definesVariable_above (inside : 0 < scope.current) (name : String) :
    (scope.above hidden).definesVariable name = scope.definesVariable name := by
  obtain ⟨inner, root⟩ := scope
  cases inner with
  | nil => cases inside
  | cons frame rest => rfl

theorem defineVariable_above (inside : 0 < scope.current) (name : String) (value : V) :
    (scope.above hidden).defineVariable name value =
      (scope.defineVariable name value).above hidden := by
  obtain ⟨inner, root⟩ := scope
  cases inner with
  | nil => cases inside
  | cons frame rest => rfl

theorem current_defineVariable (name : String) (value : V) :
    (scope.defineVariable name value).current = scope.current := by
  obtain ⟨inner, root⟩ := scope
  cases inner <;> rfl

theorem push_above (inside : 0 < scope.current) :
    (scope.above hidden).push = scope.push.above hidden := by
  unfold push pushUnder above
  rw [Nat.sub_self, Nat.sub_self, pile]
  change _ = (⟨(Frame.empty 0).skipping (skipHidden hidden.length scope.current 0) :: _, _⟩ :
    Scope V F)
  rw [skipHidden_zero _ inside]
  rfl

/-- A frame under the root may be above hidden frames only. -/
theorem pushUnder_root_above :
    (scope.above hidden).pushUnder 0 = (scope.pushUnder 0).above hidden := by
  change (⟨(Frame.empty (pile hidden scope.inner).length) :: _, _⟩ : Scope V F) =
    ⟨(Frame.empty scope.current).skipping (skipHidden hidden.length scope.current
      scope.current) :: _, _⟩
  rw [pile_length, skipHidden_all]
  rfl

theorem current_pop : scope.pop.current = scope.current - 1 :=
  List.length_tail

theorem pop_above (inside : 0 < scope.current) :
    (scope.above hidden).pop = scope.pop.above hidden := by
  obtain ⟨inner, root⟩ := scope
  cases inner with
  | nil => cases inside
  | cons frame rest => rfl

end Above

/-- All functions that are bound in the frames of a scope. -/
def functions (scope : Scope V F) : List F :=
  ((scope.root :: scope.inner).map Frame.functionBindings).flatten.map Prod.snd

section Functions

variable (scope : Scope V F)

theorem mem_functions_of_frame {frame : Frame V F} (member : frame ∈ scope.root :: scope.inner)
    {key : String × Nat} {function : F} (bound : (key, function) ∈ frame.functionBindings) :
    function ∈ scope.functions := by
  apply List.mem_map.mpr
  exact ⟨(key, function), List.mem_flatten_of_mem (List.mem_map_of_mem member) bound, rfl⟩

theorem mem_functions_alone {root : Frame V F} {function : F}
    (member : function ∈ (⟨[], root⟩ : Scope V F).functions) :
    ∃ key, (key, function) ∈ root.functionBindings := by
  obtain ⟨⟨key, _⟩, bound, rfl⟩ := List.mem_map.mp member
  rw [List.map_singleton, List.flatten_singleton] at bound
  exact ⟨key, bound⟩

theorem mem_functions_of_pop {function : F} (member : function ∈ scope.pop.functions) :
    function ∈ scope.functions := by
  obtain ⟨inner, root⟩ := scope
  obtain ⟨entry, bound, rfl⟩ := List.mem_map.mp member
  obtain ⟨bindings, isBound, has⟩ := List.mem_flatten.mp bound
  obtain ⟨frame, isFrame, rfl⟩ := List.mem_map.mp isBound
  refine mem_functions_of_frame ⟨inner, root⟩ ?_ has
  rcases List.mem_cons.mp isFrame with rfl | above
  · exact List.mem_cons_self
  · exact List.mem_cons_of_mem _ (List.mem_of_mem_tail above)

theorem functions_defineVariable (name : String) (value : V) :
    (scope.defineVariable name value).functions = scope.functions := by
  obtain ⟨inner, root⟩ := scope
  cases inner <;> rfl

theorem functionBindings_updateFrom (root : Frame V F) (name : String) (change : V → V)
    (skipped : Nat) (inner : List (Frame V F)) :
    (updateFrom root name change skipped inner).root.functionBindings = root.functionBindings ∧
      (updateFrom root name change skipped inner).inner.map Frame.functionBindings =
        inner.map Frame.functionBindings := by
  induction inner generalizing skipped with
  | nil => cases skipped <;> exact ⟨rfl, rfl⟩
  | cons frame rest induction =>
      cases skipped with
      | succ skipped =>
          obtain ⟨ofRoot, ofRest⟩ := induction skipped
          exact ⟨ofRoot, congrArg (frame.functionBindings :: ·) ofRest⟩
      | zero =>
          obtain ⟨ofRoot, ofRest⟩ := induction frame.skip
          simp only [updateFrom]
          split
          · exact ⟨rfl, rfl⟩
          · exact ⟨ofRoot, congrArg (frame.functionBindings :: ·) ofRest⟩

theorem functions_updateVariable (name : String) (change : V → V) :
    (scope.updateVariable name change).functions = scope.functions := by
  obtain ⟨ofRoot, ofInner⟩ :=
    functionBindings_updateFrom scope.root name change 0 scope.inner
  unfold functions updateVariable
  rw [List.map_cons, List.map_cons, ofRoot, ofInner]

theorem mem_of_mem_chainFrom {root frame : Frame V F} {skipped : Nat} {inner : List (Frame V F)}
    (member : frame ∈ chainFrom root skipped inner) : frame ∈ root :: inner := by
  induction inner generalizing skipped with
  | nil => cases skipped <;> exact member
  | cons first rest induction =>
      have below : ∀ skipped, frame ∈ chainFrom root skipped rest →
          frame ∈ root :: first :: rest := by
        intro skipped visited
        rcases List.mem_cons.mp (induction visited) with rfl | later
        · exact List.mem_cons_self
        · exact List.mem_cons_of_mem _ (List.mem_cons_of_mem _ later)
      cases skipped with
      | succ skipped => exact below skipped member
      | zero =>
          rcases List.mem_cons.mp member with rfl | later
          · exact List.mem_cons_of_mem _ List.mem_cons_self
          · exact below first.skip later

theorem mem_functions_of_findFunction {name : String} {arity : Nat} {function : F}
    (found : scope.findFunction? name arity = some function) : function ∈ scope.functions := by
  unfold findFunction? at found
  rw [search_eq_findSome?] at found
  obtain ⟨frame, visited, answer⟩ := List.exists_of_findSome?_eq_some found
  obtain ⟨before, after, bindings, _⟩ := List.lookup_eq_some_iff.mp answer
  apply mem_functions_of_frame scope (mem_of_mem_chainFrom visited)
  rw [bindings]
  exact List.mem_append_right _ List.mem_cons_self

end Functions

end Scope

end Procedural
