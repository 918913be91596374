import Mathlib.Data.List.Infix
import Procedural.Proofs.Scope.Arena
import Procedural.Proofs.Scope.Hidden

/-!
# Scopes refine arenas

A scope holds its frames newest first and counts how many frames a link skips; an arena
numbers the frames from the root, and a link names a frame.  Whatever is done to a scope, an
arena on which the same is done holds the same frames with the same links, and a lookup in
the scope finds what the links of the arena lead to first.
-/

namespace Procedural

variable {V F : Type}

theorem lookup_cons_ite {K B : Type} [BEq K] [LawfulBEq K] [DecidableEq K] (key bound : K)
    (value : B) (rest : List (K × B)) :
    ((bound, value) :: rest).lookup key = if key = bound then some value else rest.lookup key := by
  rw [List.lookup_cons]
  by_cases same : key = bound
  · rw [if_pos same, beq_iff_eq.mpr same]
  · rw [if_neg same, beq_false_of_ne same]

namespace Frame

/-- What can be looked up in a frame, with a link to another frame. -/
def linked (frame : Frame V F) (parent : Option Nat) : LinkedFrame V F :=
  ⟨frame.findVariable?, fun key => frame.findFunction? key.1 key.2, parent⟩

theorem linked_defineVariable (frame : Frame V F) (parent : Option Nat) (name : String)
    (value : V) :
    (frame.defineVariable name value).linked parent =
      (frame.linked parent).defineVariable name value := by
  unfold linked LinkedFrame.defineVariable
  congr 1
  funext other
  rw [Function.update_apply]
  exact lookup_cons_ite other name value frame.variableBindings

theorem linked_defineFunction (frame : Frame V F) (parent : Option Nat) (name : String)
    (arity : Nat) (value : F) :
    (frame.defineFunction name arity value).linked parent =
      (frame.linked parent).defineFunction name arity value := by
  unfold linked LinkedFrame.defineFunction
  congr 1
  funext other
  rw [Function.update_apply]
  exact lookup_cons_ite other (name, arity) value frame.functionBindings

theorem lookup_updateFirst (name other : String) (change : V → V) (bindings : List (String × V)) :
    (updateFirst name change bindings).lookup other =
      if other = name then (bindings.lookup name).map change else bindings.lookup other := by
  induction bindings with
  | nil =>
      rw [updateFirst, List.lookup_nil, List.lookup_nil, Option.map_none, ite_self]
  | cons binding rest induction =>
      obtain ⟨bound, value⟩ := binding
      rw [updateFirst, apply_ite (List.lookup other), lookup_cons_ite, lookup_cons_ite,
        lookup_cons_ite, lookup_cons_ite, induction]
      by_cases same : other = name
      · subst same
        by_cases here : other = bound <;> simp [here]
      · by_cases here : name = bound
        · subst here
          simp [same]
        · simp [here, same]

theorem linked_updateVariable (frame : Frame V F) (parent : Option Nat) (name : String)
    (change : V → V) :
    (frame.updateVariable name change).linked parent =
      (frame.linked parent).updateVariable name change := by
  unfold linked LinkedFrame.updateVariable
  congr 1
  funext other
  rw [Function.update_apply]
  exact lookup_updateFirst name other change frame.variableBindings

end Frame

namespace Scope

/-- The arena of a root and of frames above it.  The frame below the frames that a link skips is
the one that the link leads to. -/
def arenaFrom (root : Frame V F) : List (Frame V F) → Arena V F
  | [] => [root.linked none]
  | frame :: rest => arenaFrom root rest ++ [frame.linked (some (rest.length - frame.skip))]

/-- The frames of a scope by number. -/
def arena (scope : Scope V F) : Arena V F :=
  arenaFrom scope.root scope.inner

theorem length_arenaFrom (root : Frame V F) (inner : List (Frame V F)) :
    (arenaFrom root inner).length = inner.length + 1 := by
  induction inner with
  | nil => rfl
  | cons frame rest induction =>
      rw [arenaFrom, List.length_append, induction, List.length_singleton, List.length_cons]

theorem length_arena (scope : Scope V F) : scope.arena.length = scope.depth :=
  length_arenaFrom scope.root scope.inner

theorem current_arena (scope : Scope V F) : scope.arena.current = scope.current :=
  congrArg (· - 1) (length_arena scope)

/-- The newest frame of an arena has the number of the frames below it. -/
theorem newest_arenaFrom (root frame : Frame V F) (rest : List (Frame V F)) :
    (arenaFrom root (frame :: rest))[rest.length + 1]? =
      some (frame.linked (some (rest.length - frame.skip))) := by
  rw [arenaFrom, ← length_arenaFrom root rest, List.getElem?_concat_length]

end Scope

/-- What the frame of a number answers, if there is a number. -/
def Arena.answerAt {α : Type} (arena : Arena V F) (ask : LinkedFrame V F → Option α)
    (holder : Option Nat) : Option α :=
  holder.bind fun id => arena[id]?.bind ask

theorem Arena.Resolves.answerAt_append {α : Type} {arena : Arena V F}
    {ask : LinkedFrame V F → Option α} {property : LinkedFrame V F → Prop} {id : Nat}
    {holder : Option Nat} (resolves : arena.Resolves property id holder) (newer : Arena V F) :
    Arena.answerAt (arena ++ newer) ask holder = arena.answerAt ask holder := by
  cases holder with
  | none => rfl
  | some found =>
      obtain ⟨frame, there, _⟩ := resolves.holds
      obtain ⟨inside, _⟩ := List.getElem?_eq_some_iff.mp there
      rw [Arena.answerAt, Arena.answerAt, Option.bind_some, Option.bind_some,
        List.getElem?_append_left inside]

theorem Arena.Resolves.updateAt_append {arena : Arena V F} {property : LinkedFrame V F → Prop}
    {id : Nat} {holder : Option Nat} (resolves : arena.Resolves property id holder)
    (newer : Arena V F) (name : String) (change : V → V) :
    Arena.updateAt (arena ++ newer) holder name change =
      arena.updateAt holder name change ++ newer := by
  cases holder with
  | none => rfl
  | some found =>
      obtain ⟨frame, there, _⟩ := resolves.holds
      obtain ⟨inside, _⟩ := List.getElem?_eq_some_iff.mp there
      unfold Arena.updateAt
      dsimp only
      rw [List.modify_eq_set_getElem?, List.modify_eq_set_getElem?,
        List.getElem?_append_left inside, there]
      exact List.set_append_left found _ inside

theorem modify_concat_length {α : Type} (older : List α) (last : α) (change : α → α) :
    (older ++ [last]).modify older.length change = older ++ [change last] := by
  rw [List.modify_eq_set_getElem?, List.getElem?_concat_length]
  simp

namespace Scope

/-- A search that skips some frames follows the links from the frame below these. -/
theorem searchFrom_resolves {α : Type} {ask : Frame V F → Option α}
    (answer : LinkedFrame V F → Option α)
    (same : ∀ frame parent, answer (frame.linked parent) = ask frame) (root : Frame V F)
    (skipped : Nat) (inner : List (Frame V F)) :
    ∃ holder, (arenaFrom root inner).Resolves (fun frame => (answer frame).isSome = true)
        (inner.length - skipped) holder ∧
      searchFrom root ask skipped inner = (arenaFrom root inner).answerAt answer holder := by
  induction inner generalizing skipped with
  | nil =>
      have here : (arenaFrom root [])[0 - skipped]? = some (root.linked none) := by
        rw [Nat.zero_sub]
        rfl
      have asked : searchFrom root ask skipped [] = answer (root.linked none) := by
        rw [same]
        cases skipped <;> rfl
      cases found : answer (root.linked none) with
      | none =>
          refine ⟨none, .nowhere here (by rw [found]; exact Bool.false_ne_true) rfl, ?_⟩
          rw [asked, found]
          rfl
      | some value =>
          refine ⟨some _, .here here (by rw [found]; rfl), ?_⟩
          rw [asked, Arena.answerAt, Option.bind_some]
          change _ = (arenaFrom root [])[0 - skipped]?.bind answer
          rw [here, Option.bind_some]
  | cons frame rest induction =>
      cases skipped with
      | succ skipped =>
          obtain ⟨holder, resolves, asked⟩ := induction skipped
          rw [List.length_cons, Nat.add_sub_add_right]
          refine ⟨holder, resolves.append _, ?_⟩
          rw [arenaFrom, resolves.answerAt_append]
          exact asked
      | zero =>
          have here := newest_arenaFrom root frame rest
          cases found : ask frame with
          | some value =>
              refine ⟨some _, .here here (by rw [same, found]; rfl), ?_⟩
              rw [Arena.answerAt, Option.bind_some, List.length_cons, Nat.sub_zero, here,
                Option.bind_some, same, found, searchFrom, found]
          | none =>
              obtain ⟨holder, resolves, asked⟩ := induction frame.skip
              refine ⟨holder, .outward here ?_ rfl (resolves.append _), ?_⟩
              · rw [same, found]
                exact Bool.false_ne_true
              · rw [arenaFrom, resolves.answerAt_append, searchFrom, found]
                exact asked

/-- An update changes the variable in the frame that the links lead to. -/
theorem updateFrom_resolves (root : Frame V F) (name : String) (change : V → V) (skipped : Nat)
    (inner : List (Frame V F)) :
    ∃ holder, (arenaFrom root inner).Resolves (·.Binds name) (inner.length - skipped) holder ∧
      (updateFrom root name change skipped inner).arena =
        (arenaFrom root inner).updateAt holder name change := by
  induction inner generalizing skipped with
  | nil =>
      have here : (arenaFrom root [])[0 - skipped]? = some (root.linked none) := by
        rw [Nat.zero_sub]
        rfl
      have updated : (updateFrom root name change skipped []).arena =
          [(root.linked none).updateVariable name change] := by
        rw [← Frame.linked_updateVariable]
        cases skipped <;> rfl
      by_cases binds : (root.linked none).Binds name
      · refine ⟨some (0 - skipped), .here here binds, ?_⟩
        rw [updated, Nat.zero_sub]
        rfl
      · refine ⟨none, .nowhere here binds rfl, ?_⟩
        rw [updated, LinkedFrame.updateVariable_of_not_binds binds]
        rfl
  | cons frame rest induction =>
      -- The frames that an update passes keep their links, as their number stays the same.
      have passed (skipped : Nat) : (let below := updateFrom root name change skipped rest
          ({ below with inner := frame :: below.inner } : Scope V F)).arena =
          (updateFrom root name change skipped rest).arena ++
            [frame.linked (some (rest.length - frame.skip))] := by
        rw [← updateFrom_length root name change skipped rest]
        rfl
      cases skipped with
      | succ skipped =>
          obtain ⟨holder, resolves, updated⟩ := induction skipped
          rw [List.length_cons, Nat.add_sub_add_right]
          refine ⟨holder, resolves.append _, ?_⟩
          rw [arenaFrom, resolves.updateAt_append, ← updated, ← passed]
          rfl
      | zero =>
          have here := newest_arenaFrom root frame rest
          by_cases binds : (frame.linked (some (rest.length - frame.skip))).Binds name
          · refine ⟨some _, .here here binds, ?_⟩
            have defined : (frame.findVariable? name).isSome = true := binds
            rw [updateFrom, if_pos defined, arenaFrom, List.length_cons, Nat.sub_zero,
              ← length_arenaFrom root rest]
            refine Eq.trans ?_ (modify_concat_length _ _ _).symm
            rw [← Frame.linked_updateVariable]
            rfl
          · obtain ⟨holder, resolves, updated⟩ := induction frame.skip
            have undefined : ¬ (frame.findVariable? name).isSome = true := binds
            refine ⟨holder, .outward here binds rfl (resolves.append _), ?_⟩
            rw [arenaFrom, resolves.updateAt_append, ← updated, ← passed, updateFrom,
              if_neg undefined]

def perform (scope : Scope V F) : Operation V F → Scope V F
  | .push => scope.push
  | .pushUnder outer => scope.pushUnder outer
  | .pop => scope.pop
  | .defineVariable name value => scope.defineVariable name value
  | .defineFunction name arity value => scope.defineFunction name arity value
  | .updateVariable name change => scope.updateVariable name change

def performAll (scope : Scope V F) (operations : List (Operation V F)) : Scope V F :=
  operations.foldl perform scope

/-- A frame can be added under an existing one only. -/
def Allows (scope : Scope V F) : Operation V F → Prop
  | .pushUnder outer => outer < scope.depth
  | _ => True

/-- Each operation is allowed when its turn comes. -/
def Permits (scope : Scope V F) : List (Operation V F) → Prop
  | [] => True
  | operation :: later => scope.Allows operation ∧ (scope.perform operation).Permits later

theorem arena_pushUnder (scope : Scope V F) {outer : Nat} (exists_outer : outer < scope.depth) :
    (scope.pushUnder outer).arena = scope.arena ++ [.empty (some outer)] := by
  have leads : scope.inner.length - (scope.current - outer) = outer :=
    Nat.sub_sub_self (Nat.le_of_lt_succ exists_outer)
  change scope.arena ++ [(Frame.empty (scope.current - outer)).linked
    (some (scope.inner.length - (scope.current - outer)))] = _
  rw [leads]
  rfl

theorem arena_pop (scope : Scope V F) (inside : 1 < scope.depth) :
    scope.pop.arena = scope.arena.dropLast := by
  obtain ⟨inner, root⟩ := scope
  cases inner with
  | nil => exact absurd inside (Nat.lt_irrefl 1)
  | cons frame rest => exact List.dropLast_concat.symm

/-- What is changed in the newest frame is changed there in the arena. -/
theorem arena_modifyNewest (scope : Scope V F) (change : Frame V F → Frame V F)
    (change' : LinkedFrame V F → LinkedFrame V F)
    (keeps : ∀ frame, (change frame).skip = frame.skip)
    (same : ∀ frame parent, (change frame).linked parent = change' (frame.linked parent)) :
    (scope.modifyNewest change).arena = scope.arena.modify scope.arena.current change' := by
  rw [current_arena]
  obtain ⟨inner, root⟩ := scope
  cases inner with
  | nil =>
      change [(change root).linked none] = _
      rw [same]
      rfl
  | cons frame rest =>
      change arenaFrom root rest ++
        [(change frame).linked (some (rest.length - (change frame).skip))] = _
      rw [same, keeps, ← modify_concat_length, length_arenaFrom]
      rfl

/-- What an operation does to a scope it does to the arena. -/
theorem arena_perform {scope : Scope V F} {operation : Operation V F}
    (allowed : scope.Allows operation) :
    Arena.Step scope.arena operation (scope.perform operation).arena := by
  cases operation with
  | push =>
      have added := scope.arena_pushUnder (Nat.lt_succ_self scope.current)
      rw [← current_arena] at added
      rw [perform, push, ← current_arena, added]
      exact .push
  | pushUnder outer =>
      rw [perform, scope.arena_pushUnder allowed]
      exact .pushUnder (by rwa [length_arena])
  | pop =>
      by_cases several : 1 < scope.depth
      · rw [perform, scope.arena_pop several]
        exact .pop (by rwa [length_arena])
      · obtain ⟨inner, root⟩ := scope
        cases inner with
        | nil => exact .stay rfl
        | cons frame rest => exact absurd (Nat.succ_lt_succ (Nat.succ_pos _)) several
  | defineVariable name value =>
      have defined := scope.arena_modifyNewest (·.defineVariable name value)
        (·.defineVariable name value) (fun _ => rfl)
        fun frame parent => frame.linked_defineVariable parent name value
      rw [perform, defineVariable, defined]
      exact .defineVariable
  | defineFunction name arity value =>
      have defined := scope.arena_modifyNewest (·.defineFunction name arity value)
        (·.defineFunction name arity value) (fun _ => rfl)
        fun frame parent => frame.linked_defineFunction parent name arity value
      rw [perform, defineFunction, defined]
      exact .defineFunction
  | updateVariable name change =>
      obtain ⟨holder, resolves, updated⟩ := updateFrom_resolves scope.root name change 0 scope.inner
      change Arena.Step scope.arena _ (updateFrom scope.root name change 0 scope.inner).arena
      rw [updated]
      apply Arena.Step.updateVariable
      rw [current_arena]
      exact resolves

theorem arena_performAll {scope : Scope V F} {operations : List (Operation V F)}
    (permitted : scope.Permits operations) :
    Arena.Runs scope.arena operations (scope.performAll operations).arena := by
  induction operations generalizing scope with
  | nil => exact .nil
  | cons operation later induction =>
      exact .cons (arena_perform permitted.1) (induction permitted.2)

/-- All frames that the operations add are removed again, and no others. -/
structure Balanced (scope : Scope V F) (operations : List (Operation V F)) : Prop where
  stays : ∀ earlier, earlier <+: operations → scope.depth ≤ (scope.performAll earlier).depth
  returns : (scope.performAll operations).depth = scope.depth

/-- One of the operations replaces the value of a variable of a frame. -/
def Replaces (scope : Scope V F) (operations : List (Operation V F)) (id : Nat) (name : String) :
    Prop :=
  ∃ earlier change later, operations = earlier ++ .updateVariable name change :: later ∧
    (scope.performAll earlier).arena.Resolves (·.Binds name) (scope.performAll earlier).current
      (some id)

theorem Replaces.later {scope : Scope V F} {operation : Operation V F}
    {operations : List (Operation V F)} {id : Nat} {name : String}
    (replaces : (scope.perform operation).Replaces operations id name) :
    scope.Replaces (operation :: operations) id name := by
  obtain ⟨earlier, change, later, rfl, resolves⟩ := replaces
  exact ⟨operation :: earlier, change, later, rfl, resolves⟩

theorem Replaces.first {scope : Scope V F} {operation : Operation V F}
    {operations : List (Operation V F)} {id : Nat} {name : String}
    (replaces : scope.arena.Replaces operation id name) :
    scope.Replaces (operation :: operations) id name := by
  obtain ⟨⟨change, rfl⟩, resolves⟩ := replaces
  rw [current_arena] at resolves
  exact ⟨[], change, operations, rfl, resolves⟩

/-- Operations leave the frames alone that are always below the newest one. -/
theorem agreeBelow_performAll {scope : Scope V F} {operations : List (Operation V F)} {count : Nat}
    (permitted : scope.Permits operations)
    (stays : ∀ earlier, earlier <+: operations → count < (scope.performAll earlier).depth) :
    scope.arena.AgreeBelow count (scope.Replaces operations)
      (scope.performAll operations).arena := by
  induction operations generalizing scope with
  | nil => exact .of_same fun _ _ => rfl
  | cons operation later induction =>
      have below := stays [] (List.nil_prefix)
      have belowAfter := stays [operation] ⟨later, rfl⟩
      rw [← length_arena] at below belowAfter
      have first := (arena_perform permitted.1).agreeBelow below belowAfter
      have rest := induction permitted.2 fun earlier start => by
        obtain ⟨more, rfl⟩ := start
        exact stays (operation :: earlier) ⟨more, rfl⟩
      exact (first.mono fun _ _ => Replaces.first).trans (rest.mono fun _ _ => Replaces.later)

/-- The operation adds a frame. -/
def Operation.IsOpening : Operation V F → Prop
  | .push | .pushUnder _ => True
  | _ => False

theorem arena_opening {scope : Scope V F} {opening : Operation V F} (opens : opening.IsOpening)
    (allowed : scope.Allows opening) :
    ∃ frame, (scope.perform opening).arena = scope.arena ++ [frame] := by
  cases opening with
  | push => exact ⟨_, scope.arena_pushUnder (Nat.lt_succ_self scope.current)⟩
  | pushUnder outer => exact ⟨_, scope.arena_pushUnder allowed⟩
  | _ => cases opens

/-- After the frame that was added is removed, the frames are what they were, except for values
that were replaced. -/
theorem restores {scope : Scope V F} {opening : Operation V F} {body : List (Operation V F)}
    (opens : opening.IsOpening) (permitted : scope.Permits (opening :: body))
    (balanced : (scope.perform opening).Balanced body) :
    ((scope.perform opening).performAll body).pop.depth = scope.depth ∧
      scope.arena.AgreeBelow scope.depth ((scope.perform opening).Replaces body)
        ((scope.perform opening).performAll body).pop.arena := by
  obtain ⟨added, opened⟩ := arena_opening opens permitted.1
  have deeper : (scope.perform opening).depth = scope.depth + 1 := by
    rw [← length_arena, opened, List.length_append, length_arena, List.length_singleton]
  have deep : ((scope.perform opening).performAll body).depth = scope.depth + 1 :=
    balanced.returns.trans deeper
  have closed := arena_pop _ (by rw [deep]; exact Nat.succ_lt_succ (Nat.succ_pos scope.current))
  have returns : ((scope.perform opening).performAll body).pop.depth = scope.depth := by
    rw [← length_arena, closed, List.length_dropLast, length_arena, deep, Nat.add_sub_cancel]
  refine ⟨returns, ?_⟩
  rw [closed]
  have enter : scope.arena.AgreeBelow scope.depth ((scope.perform opening).Replaces body)
      (scope.perform opening).arena := by
    rw [opened]
    exact .add (Nat.le_of_eq scope.length_arena.symm)
  have within := agreeBelow_performAll permitted.2 fun earlier start =>
    Nat.lt_of_lt_of_le (by rw [deeper]; exact Nat.lt_succ_self _) (balanced.stays earlier start)
  refine (enter.trans within).trans (.remove ?_)
  rw [length_arena, deep]
  exact Nat.lt_succ_self _

/-- A search in the scope finds what the links of the arena lead to first. -/
theorem search_resolves {α : Type} {ask : Frame V F → Option α}
    (answer : LinkedFrame V F → Option α)
    (same : ∀ frame parent, answer (frame.linked parent) = ask frame) (scope : Scope V F) :
    ∃ holder, scope.arena.Resolves (fun frame => (answer frame).isSome = true) scope.current
        holder ∧ scope.search ask = scope.arena.answerAt answer holder :=
  searchFrom_resolves answer same scope.root 0 scope.inner

/-- The variable that a lookup finds and an update changes is the one that the links lead to. -/
theorem variable_resolves (scope : Scope V F) (name : String) :
    ∃ holder, scope.arena.Resolves (·.Binds name) scope.current holder ∧
      scope.findVariable? name = scope.arena.answerAt (·.valueOf name) holder ∧
      ∀ change, (scope.updateVariable name change).arena =
        scope.arena.updateAt holder name change := by
  obtain ⟨holder, resolves, found⟩ := search_resolves (·.valueOf name) (fun frame _ => rfl) scope
  refine ⟨holder, resolves, found, fun change => ?_⟩
  obtain ⟨holder', resolves', updated⟩ := updateFrom_resolves scope.root name change 0 scope.inner
  rw [resolves.unique resolves']
  exact updated

/-- A scope is the arena on which the same operations are done.  Its root has no link and all
other links lead to older frames, so every search along them ends.  Lookups find what the
links from the newest frame lead to first, and after a frame is left the others are as they
were except for replaced values. -/
theorem refines_arena {operations : List (Operation V F)}
    (permitted : (empty : Scope V F).Permits operations) :
    let scope := (empty : Scope V F).performAll operations
    (∀ arena, Arena.Runs .initial operations arena ↔ arena = scope.arena) ∧
      scope.arena.Rooted ∧
      (∀ property id, id < scope.depth → ∃ holder, scope.arena.Resolves property id holder) ∧
      (∀ name, ∃ holder,
        (∀ other, scope.arena.Resolves (·.Binds name) scope.current other ↔ other = holder) ∧
        scope.findVariable? name = scope.arena.answerAt (·.valueOf name) holder ∧
        ∀ change, (scope.updateVariable name change).arena =
          scope.arena.updateAt holder name change) ∧
      (∀ name arity, ∃ holder,
        (∀ other, scope.arena.Resolves (·.BindsFunction name arity) scope.current other ↔
          other = holder) ∧
        scope.findFunction? name arity =
          scope.arena.answerAt (·.functionOf (name, arity)) holder) ∧
      ∀ opening body, opening.IsOpening → scope.Permits (opening :: body) →
        (scope.perform opening).Balanced body →
        let after := ((scope.perform opening).performAll body).pop
        after.depth = scope.depth ∧
          scope.arena.AgreeBelow scope.depth ((scope.perform opening).Replaces body)
            after.arena := by
  intro scope
  have runs : Arena.Runs .initial operations scope.arena := arena_performAll permitted
  have rooted : scope.arena.Rooted := Arena.Rooted.initial.runs runs
  refine ⟨?_, rooted, ?_, ?_, ?_, fun _ _ => restores⟩
  · exact fun arena => ⟨fun runs' => runs'.unique runs, fun same => same ▸ runs⟩
  · intro property id inside
    exact rooted.exists_resolves property (by rwa [length_arena])
  · intro name
    obtain ⟨holder, resolves, found, updated⟩ := scope.variable_resolves name
    exact ⟨holder, fun other => ⟨fun resolves' => resolves'.unique resolves,
      fun same => same ▸ resolves⟩, found, updated⟩
  · intro name arity
    obtain ⟨holder, resolves, found⟩ :=
      search_resolves (·.functionOf (name, arity)) (fun frame _ => rfl) scope
    exact ⟨holder, fun other => ⟨fun resolves' => resolves'.unique resolves,
      fun same => same ▸ resolves⟩, found⟩

/-- A call under the root sees the variable of the root and not that of its caller, changes it,
and leaves the caller's frame as it was. -/
theorem refines_arena_call :
    let operations : List (Operation Nat String) :=
      [.defineVariable "x" 1, .push, .defineVariable "x" 2]
    let body : List (Operation Nat String) :=
      [.updateVariable "x" (· + 4), .push, .defineVariable "y" 3, .pop]
    let scope := (empty : Scope Nat String).performAll operations
    let called := scope.perform (.pushUnder 0)
    let after := (called.performAll body).pop
    (empty : Scope Nat String).Permits operations ∧
      Arena.Runs .initial operations scope.arena ∧ scope.arena.Rooted ∧
      called.arena.map LinkedFrame.parent = [none, some 0, some 0] ∧
      (scope.Permits (.pushUnder 0 :: body) ∧ called.Balanced body) ∧
      (after.depth = scope.depth ∧
        scope.arena.AgreeBelow scope.depth (called.Replaces body) after.arena) ∧
      called.findVariable? "x" = some 1 ∧ after.findVariable? "x" = some 2 ∧
      after.pop.findVariable? "x" = some 5 := by
  intro operations body scope called after
  have permitted : (empty : Scope Nat String).Permits operations :=
    ⟨trivial, trivial, trivial, trivial⟩
  have permitted' : scope.Permits (.pushUnder 0 :: body) :=
    ⟨Nat.succ_pos _, trivial, trivial, trivial, trivial, trivial⟩
  have balanced : called.Balanced body := by
    have deep : ∀ earlier ∈ body.inits, called.depth ≤ (called.performAll earlier).depth := by
      decide
    exact ⟨fun earlier start => deep earlier ((List.mem_inits _ _).mpr start), by decide⟩
  obtain ⟨runs, rooted, -, -, -, restores⟩ := refines_arena permitted
  exact ⟨permitted, (runs _).mpr rfl, rooted, by decide, ⟨permitted', balanced⟩,
    restores (.pushUnder 0) body trivial permitted' balanced, by decide, by decide, by decide⟩

end Scope

end Procedural
