import Mathlib.Logic.Function.Basic
import Mathlib.Data.List.Basic

/-!
# Arenas of frames

An arena is a list of frames, numbered from zero in the order in which they were added.  A
frame maps names to what they are bound to, and holds the number of the frame that encloses
it.  Frames come and go at the end of the list only, so a number can be used again for
another frame; yet no link ever leads to a frame that is gone, or forward.
-/

namespace Procedural

variable {V F : Type}

/-- What an arena knows of a frame. -/
structure LinkedFrame (V F : Type) where
  valueOf : String → Option V
  functionOf : String × Nat → Option F
  parent : Option Nat

namespace LinkedFrame

def empty (parent : Option Nat) : LinkedFrame V F :=
  ⟨fun _ => none, fun _ => none, parent⟩

def Binds (name : String) (frame : LinkedFrame V F) : Prop :=
  (frame.valueOf name).isSome = true

def BindsFunction (name : String) (arity : Nat) (frame : LinkedFrame V F) : Prop :=
  (frame.functionOf (name, arity)).isSome = true

def defineVariable (frame : LinkedFrame V F) (name : String) (value : V) : LinkedFrame V F :=
  { frame with valueOf := Function.update frame.valueOf name (some value) }

def defineFunction (frame : LinkedFrame V F) (name : String) (arity : Nat) (value : F) :
    LinkedFrame V F :=
  { frame with functionOf := Function.update frame.functionOf (name, arity) (some value) }

def updateVariable (frame : LinkedFrame V F) (name : String) (change : V → V) :
    LinkedFrame V F :=
  { frame with
    valueOf := Function.update frame.valueOf name ((frame.valueOf name).map change) }

theorem updateVariable_of_not_binds {frame : LinkedFrame V F} {name : String}
    (unbound : ¬ frame.Binds name) (change : V → V) : frame.updateVariable name change = frame := by
  have absent : frame.valueOf name = none := by
    unfold Binds at unbound
    cases found : frame.valueOf name with
    | none => rfl
    | some value => exact absurd (by rw [found]; rfl) unbound
  unfold updateVariable
  rw [absent, Option.map_none, ← absent, Function.update_eq_self]

/-- The frame is the other one except for the values of some variables. -/
structure AgreesExcept (replaced : String → Prop) (before after : LinkedFrame V F) : Prop where
  parent : after.parent = before.parent
  functions : after.functionOf = before.functionOf
  names : ∀ name, after.Binds name ↔ before.Binds name
  values : ∀ name, ¬ replaced name → after.valueOf name = before.valueOf name

namespace AgreesExcept

variable {replaced replaced' : String → Prop} {before between after : LinkedFrame V F}

theorem refl (frame : LinkedFrame V F) : AgreesExcept replaced frame frame :=
  ⟨rfl, rfl, fun _ => Iff.rfl, fun _ _ => rfl⟩

theorem trans (first : AgreesExcept replaced before between)
    (later : AgreesExcept replaced between after) : AgreesExcept replaced before after :=
  ⟨later.parent.trans first.parent, later.functions.trans first.functions,
    fun name => (later.names name).trans (first.names name),
    fun name kept => (later.values name kept).trans (first.values name kept)⟩

theorem mono (agrees : AgreesExcept replaced before after)
    (included : ∀ name, replaced name → replaced' name) : AgreesExcept replaced' before after :=
  ⟨agrees.parent, agrees.functions, agrees.names,
    fun name kept => agrees.values name fun touched => kept (included name touched)⟩

theorem updateVariable (frame : LinkedFrame V F) (name : String) (change : V → V) :
    AgreesExcept (· = name) frame (frame.updateVariable name change) := by
  have elsewhere (other : String) (different : other ≠ name) :
      (frame.updateVariable name change).valueOf other = frame.valueOf other :=
    Function.update_of_ne different _ _
  refine ⟨rfl, rfl, ?_, elsewhere⟩
  intro other
  unfold Binds
  by_cases same : other = name
  · have here : (frame.updateVariable name change).valueOf name = (frame.valueOf name).map change :=
      Function.update_self _ _ _
    rw [same, here, Option.isSome_map]
  · rw [elsewhere other same]

end AgreesExcept

end LinkedFrame

/-- Frames by number, the root first. -/
abbrev Arena (V F : Type) : Type :=
  List (LinkedFrame V F)

/-- What can be done to a scope.  The value that a name refers to can be replaced by any other. -/
inductive Scope.Operation (V F : Type) where
  | push
  | pushUnder (outer : Nat)
  | pop
  | defineVariable (name : String) (value : V)
  | defineFunction (name : String) (arity : Nat) (value : F)
  | updateVariable (name : String) (change : V → V)

namespace Arena

open Scope (Operation)

/-- The arena of the root frame alone. -/
def initial : Arena V F :=
  [.empty none]

/-- The number of the newest frame. -/
def current (arena : Arena V F) : Nat :=
  arena.length - 1

/-- Along the links from a frame, this is the first frame with a property, if there is one.  All
frames on the way are in the arena, and the way ends at a frame without a link. -/
inductive Resolves (arena : Arena V F) (property : LinkedFrame V F → Prop) :
    Nat → Option Nat → Prop where
  | here {id : Nat} {frame : LinkedFrame V F} : arena[id]? = some frame → property frame →
      Resolves arena property id (some id)
  | outward {id outer : Nat} {frame : LinkedFrame V F} {holder : Option Nat} :
      arena[id]? = some frame → ¬ property frame → frame.parent = some outer →
      Resolves arena property outer holder → Resolves arena property id holder
  | nowhere {id : Nat} {frame : LinkedFrame V F} : arena[id]? = some frame → ¬ property frame →
      frame.parent = none → Resolves arena property id none

namespace Resolves

variable {arena : Arena V F} {property : LinkedFrame V F → Prop} {id : Nat}
  {holder holder' : Option Nat}

theorem unique (resolves : arena.Resolves property id holder)
    (resolves' : arena.Resolves property id holder') : holder = holder' := by
  induction resolves with
  | here found holds =>
      cases resolves' with
      | here => rfl
      | outward found' fails | nowhere found' fails =>
          obtain rfl := Option.some.inj (found.symm.trans found')
          exact absurd holds fails
  | outward found fails linked _ induction =>
      cases resolves' with
      | here found' holds =>
          obtain rfl := Option.some.inj (found.symm.trans found')
          exact absurd holds fails
      | outward found' _ linked' later =>
          obtain rfl := Option.some.inj (found.symm.trans found')
          obtain rfl := Option.some.inj (linked.symm.trans linked')
          exact induction later
      | nowhere found' _ unlinked =>
          obtain rfl := Option.some.inj (found.symm.trans found')
          cases linked.symm.trans unlinked
  | nowhere found fails unlinked =>
      cases resolves' with
      | here found' holds =>
          obtain rfl := Option.some.inj (found.symm.trans found')
          exact absurd holds fails
      | outward found' _ linked =>
          obtain rfl := Option.some.inj (found.symm.trans found')
          cases unlinked.symm.trans linked
      | nowhere => rfl

/-- What is found has the property. -/
theorem holds {found : Nat} (resolves : arena.Resolves property id (some found)) :
    ∃ frame, arena[found]? = some frame ∧ property frame := by
  generalize same : some found = holder at resolves
  induction resolves with
  | here here holds =>
      cases same
      exact ⟨_, here, holds⟩
  | outward _ _ _ _ induction => exact induction same
  | nowhere => cases same

/-- Newer frames make no difference. -/
theorem append (resolves : arena.Resolves property id holder) (newer : Arena V F) :
    Resolves (arena ++ newer) property id holder := by
  have still {id : Nat} {frame : LinkedFrame V F} (found : arena[id]? = some frame) :
      (arena ++ newer)[id]? = some frame := by
    obtain ⟨inside, _⟩ := List.getElem?_eq_some_iff.mp found
    rw [List.getElem?_append_left inside, found]
  induction resolves with
  | here found holds => exact .here (still found) holds
  | outward found fails linked _ induction => exact .outward (still found) fails linked induction
  | nowhere found fails unlinked => exact .nowhere (still found) fails unlinked

end Resolves

/-- Replaces the value of a variable in a frame, if the variable was found in one. -/
def updateAt (arena : Arena V F) (holder : Option Nat) (name : String) (change : V → V) :
    Arena V F :=
  match holder with
  | some id => arena.modify id (·.updateVariable name change)
  | none => arena

/-- What a change to one frame keeps there it keeps everywhere. -/
theorem map_modify {α : Type} (view : LinkedFrame V F → α) (arena : Arena V F) (holder : Nat)
    {change : LinkedFrame V F → LinkedFrame V F}
    (keeps : ∀ frame, view (change frame) = view frame) :
    (arena.modify holder change).map view = arena.map view := by
  apply List.ext_getElem?
  intro id
  rw [List.getElem?_map, List.getElem?_map, List.getElem?_modify]
  cases arena[id]? with
  | none => rfl
  | some frame =>
      rw [Option.map_eq_map, Option.map_some, Option.map_some, Option.map_some]
      split
      · rw [keeps]
      · rfl

/-- How an operation changes an arena.  A frame can be added under an existing frame only, and the
root stays. -/
inductive Step : Arena V F → Operation V F → Arena V F → Prop where
  | push {arena : Arena V F} : Step arena .push (arena ++ [.empty (some arena.current)])
  | pushUnder {arena : Arena V F} {outer : Nat} : outer < arena.length →
      Step arena (.pushUnder outer) (arena ++ [.empty (some outer)])
  | pop {arena : Arena V F} : 1 < arena.length → Step arena .pop arena.dropLast
  | stay {arena : Arena V F} : arena.length = 1 → Step arena .pop arena
  | defineVariable {arena : Arena V F} {name : String} {value : V} :
      Step arena (.defineVariable name value)
        (arena.modify arena.current (·.defineVariable name value))
  | defineFunction {arena : Arena V F} {name : String} {arity : Nat} {value : F} :
      Step arena (.defineFunction name arity value)
        (arena.modify arena.current (·.defineFunction name arity value))
  | updateVariable {arena : Arena V F} {name : String} {change : V → V} {holder : Option Nat} :
      arena.Resolves (·.Binds name) arena.current holder →
      Step arena (.updateVariable name change) (arena.updateAt holder name change)

/-- Operations one after another. -/
inductive Runs : Arena V F → List (Operation V F) → Arena V F → Prop where
  | nil {arena : Arena V F} : Runs arena [] arena
  | cons {before between after : Arena V F} {operation : Operation V F}
      {later : List (Operation V F)} :
      Step before operation between → Runs between later after →
      Runs before (operation :: later) after

theorem Step.unique {before after after' : Arena V F} {operation : Operation V F}
    (step : Step before operation after) (step' : Step before operation after') :
    after = after' := by
  cases step with
  | pop several =>
      cases step' with
      | pop => rfl
      | stay single => exact absurd single (Nat.ne_of_gt several)
  | stay single =>
      cases step' with
      | pop several => exact absurd single (Nat.ne_of_gt several)
      | stay => rfl
  | updateVariable resolves =>
      cases step' with
      | updateVariable resolves' => rw [resolves.unique resolves']
  | push | pushUnder | defineVariable | defineFunction =>
      cases step'
      rfl

/-- What operations come to is determined. -/
theorem Runs.unique {before after after' : Arena V F} {operations : List (Operation V F)}
    (runs : Runs before operations after) (runs' : Runs before operations after') :
    after = after' := by
  induction runs with
  | nil =>
      cases runs'
      rfl
  | cons step _ induction =>
      cases runs' with
      | cons step' later =>
          obtain rfl := step.unique step'
          exact induction later

/-- The root has no link, and the link of any other frame leads to an older one. -/
structure Rooted (arena : Arena V F) : Prop where
  root : ∃ frame, arena[0]? = some frame ∧ frame.parent = none
  inner : ∀ id frame, 0 < id → arena[id]? = some frame →
    ∃ outer, frame.parent = some outer ∧ outer < id

namespace Rooted

variable {arena older : Arena V F}

theorem initial : (initial : Arena V F).Rooted := by
  refine ⟨⟨_, rfl, rfl⟩, ?_⟩
  intro id frame inside found
  obtain ⟨bound, _⟩ := List.getElem?_eq_some_iff.mp found
  exact absurd inside (Nat.not_lt.mpr (Nat.le_of_lt_succ bound))

theorem length_pos (rooted : arena.Rooted) : 0 < arena.length := by
  obtain ⟨frame, found, _⟩ := rooted.root
  exact (List.getElem?_eq_some_iff.mp found).choose

/-- Adding a frame under an existing one. -/
theorem add (rooted : arena.Rooted) {outer : Nat} (exists_outer : outer < arena.length) :
    Rooted (arena ++ [.empty (some outer)]) := by
  constructor
  · obtain ⟨frame, found, unlinked⟩ := rooted.root
    exact ⟨frame, by rw [List.getElem?_append_left rooted.length_pos, found], unlinked⟩
  · intro id frame inside found
    rcases Nat.lt_trichotomy id arena.length with old | new | beyond
    · rw [List.getElem?_append_left old] at found
      exact rooted.inner id frame inside found
    · rw [new, List.getElem?_concat_length] at found
      cases found
      exact ⟨outer, rfl, new ▸ exists_outer⟩
    · rw [List.getElem?_eq_none (by simp; omega)] at found
      cases found

theorem remove (rooted : arena.Rooted) (several : 1 < arena.length) :
    Rooted arena.dropLast := by
  have still {id : Nat} (inside : id < arena.length - 1) : arena.dropLast[id]? = arena[id]? := by
    rw [List.getElem?_dropLast, if_pos inside]
  constructor
  · obtain ⟨root, found, unlinked⟩ := rooted.root
    exact ⟨root, by rw [still (Nat.sub_pos_of_lt several), found], unlinked⟩
  · intro id frame inside found
    obtain ⟨bound, _⟩ := List.getElem?_eq_some_iff.mp found
    rw [still (by rwa [List.length_dropLast] at bound)] at found
    exact rooted.inner id frame inside found

/-- Links decide alone whether an arena is rooted. -/
theorem of_links (rooted : arena.Rooted)
    (same : older.map LinkedFrame.parent = arena.map LinkedFrame.parent) : older.Rooted := by
  have link (id : Nat) :
      (older[id]?).map LinkedFrame.parent = (arena[id]?).map LinkedFrame.parent := by
    rw [← List.getElem?_map, ← List.getElem?_map, same]
  constructor
  · obtain ⟨frame, found, unlinked⟩ := rooted.root
    have first := link 0
    rw [found, Option.map_some, unlinked, Option.map_eq_some_iff] at first
    exact first
  · intro id frame inside found
    have here := link id
    rw [found, Option.map_some, eq_comm, Option.map_eq_some_iff] at here
    obtain ⟨other, found', linked⟩ := here
    rw [← linked]
    exact rooted.inner id other inside found'

/-- One operation keeps an arena rooted. -/
theorem step {after : Arena V F} {operation : Operation V F} (rooted : arena.Rooted)
    (step : Step arena operation after) : after.Rooted := by
  cases step with
  | push => exact rooted.add (Nat.sub_lt rooted.length_pos Nat.one_pos)
  | pushUnder exists_outer => exact rooted.add exists_outer
  | pop several => exact rooted.remove several
  | stay => exact rooted
  | defineVariable | defineFunction => exact rooted.of_links (map_modify _ arena _ fun _ => rfl)
  | @updateVariable name change holder =>
      cases holder with
      | none => exact rooted
      | some holder => exact rooted.of_links (map_modify _ arena _ fun _ => rfl)

theorem runs {after : Arena V F} {operations : List (Operation V F)} (rooted : arena.Rooted)
    (runs : Runs arena operations after) : after.Rooted := by
  induction runs with
  | nil => exact rooted
  | cons step _ induction => exact induction (rooted.step step)

/-- A search ends, and does so inside the arena. -/
theorem exists_resolves (rooted : arena.Rooted) (property : LinkedFrame V F → Prop) {id : Nat}
    (inside : id < arena.length) : ∃ holder, arena.Resolves property id holder := by
  -- The links lead to smaller and smaller numbers.
  induction id using Nat.strongRecOn with
  | ind id induction =>
      have found : arena[id]? = some arena[id] := List.getElem?_eq_getElem inside
      by_cases holds : property arena[id]
      · exact ⟨some id, .here found holds⟩
      · rcases Nat.eq_zero_or_pos id with rfl | positive
        · obtain ⟨frame, atRoot, unlinked⟩ := rooted.root
          obtain rfl := Option.some.inj (found.symm.trans atRoot)
          exact ⟨none, .nowhere found holds unlinked⟩
        · obtain ⟨outer, linked, smaller⟩ := rooted.inner id _ positive found
          obtain ⟨holder, resolves⟩ := induction outer smaller (Nat.lt_trans smaller inside)
          exact ⟨holder, .outward found holds linked resolves⟩

end Rooted

/-- The older frames agree, except for the values of some variables. -/
def AgreeBelow (count : Nat) (replaced : Nat → String → Prop) (before after : Arena V F) : Prop :=
  ∀ id frame, id < count → before[id]? = some frame →
    ∃ frame', after[id]? = some frame' ∧ frame.AgreesExcept (replaced id) frame'

namespace AgreeBelow

variable {count : Nat} {replaced replaced' : Nat → String → Prop} {before between after : Arena V F}

theorem of_same (same : ∀ id, id < count → after[id]? = before[id]?) :
    AgreeBelow count replaced before after :=
  fun id frame inside found => ⟨frame, (same id inside).trans found, .refl frame⟩

theorem add {newer : Arena V F} (within : count ≤ before.length) :
    AgreeBelow count replaced before (before ++ newer) :=
  of_same fun _ inside => List.getElem?_append_left (Nat.lt_of_lt_of_le inside within)

theorem remove (within : count < before.length) :
    AgreeBelow count replaced before before.dropLast := by
  apply of_same
  intro id inside
  rw [List.getElem?_dropLast, if_pos (by omega)]

/-- A change to one frame replaces values of that frame only. -/
theorem modify {holder : Nat} {change : LinkedFrame V F → LinkedFrame V F}
    (agrees : holder < count →
      ∀ frame : LinkedFrame V F, frame.AgreesExcept (replaced holder) (change frame)) :
    AgreeBelow count replaced before (before.modify holder change) := by
  intro id frame inside found
  rw [List.getElem?_modify, found, Option.map_eq_map, Option.map_some]
  by_cases same : holder = id
  · obtain rfl := same
    exact ⟨change frame, by rw [if_pos rfl], agrees inside frame⟩
  · exact ⟨frame, by rw [if_neg same], .refl frame⟩

theorem trans (first : AgreeBelow count replaced before between)
    (later : AgreeBelow count replaced between after) : AgreeBelow count replaced before after := by
  intro id frame inside found
  obtain ⟨frame', found', agrees⟩ := first id frame inside found
  obtain ⟨frame'', found'', agrees'⟩ := later id frame' inside found'
  exact ⟨frame'', found'', agrees.trans agrees'⟩

theorem mono (agree : AgreeBelow count replaced before after)
    (included : ∀ id name, replaced id name → replaced' id name) :
    AgreeBelow count replaced' before after := by
  intro id frame inside found
  obtain ⟨frame', found', agrees⟩ := agree id frame inside found
  exact ⟨frame', found', agrees.mono (included id)⟩

end AgreeBelow

/-- The operation replaces the value of a variable of a frame. -/
def Replaces (arena : Arena V F) (operation : Operation V F) (id : Nat) (name : String) : Prop :=
  (∃ change, operation = .updateVariable name change) ∧
    arena.Resolves (·.Binds name) arena.current (some id)

/-- An operation leaves all frames alone that are older than the newest one before and after it,
apart from the variable whose value it replaces. -/
theorem Step.agreeBelow {before after : Arena V F} {operation : Operation V F} {count : Nat}
    (step : Step before operation after) (below : count < before.length)
    (belowAfter : count < after.length) :
    AgreeBelow count (before.Replaces operation) before after := by
  have older : ¬ before.current < count := by
    unfold current
    omega
  cases step with
  | push | pushUnder => exact .add (Nat.le_of_lt below)
  | pop => exact .remove below
  | stay => exact .of_same fun _ _ => rfl
  | defineVariable | defineFunction => exact .modify fun within => absurd within older
  | @updateVariable name change holder resolves =>
      cases holder with
      | none => exact .of_same fun _ _ => rfl
      | some holder =>
          apply AgreeBelow.modify
          intro _ frame
          apply (LinkedFrame.AgreesExcept.updateVariable frame name change).mono
          rintro _ rfl
          exact ⟨⟨change, rfl⟩, resolves⟩

end Arena

end Procedural
