import Procedural.Proofs.Scope.Correspondence

/-!
# Equivalent scopes

No lookup tells two scopes apart if they differ only in how the root holds its functions.
So functions whose names and numbers of arguments are all different can be defined at the
root in any order: the scopes that result are equivalent, and remain so whatever is done in
both.
-/

namespace Procedural

section Bindings

variable {K B : Type} [BEq K] [LawfulBEq K]

/-- What is bound under its own key is found if no two keys are the same. -/
theorem lookup_eq_some_of_mem {bindings : List (K × B)} {key : K} {value : B}
    (distinct : (bindings.map Prod.fst).Nodup) (bound : (key, value) ∈ bindings) :
    bindings.lookup key = some value := by
  induction bindings with
  | nil => cases bound
  | cons first rest induction =>
      rw [List.map_cons, List.nodup_cons] at distinct
      obtain ⟨fresh, later⟩ := distinct
      rw [List.lookup_cons]
      rcases List.mem_cons.mp bound with rfl | inRest
      · rw [beq_self_eq_true]
      · have different : key ≠ first.1 := by
          rintro rfl
          exact fresh (List.mem_map.mpr ⟨_, inRest, rfl⟩)
        rw [beq_false_of_ne different]
        exact induction later inRest

/-- The order of bindings does not matter if no two keys are the same. -/
theorem lookup_eq_of_perm {bindings bindings' : List (K × B)} (reordered : bindings.Perm bindings')
    (distinct : (bindings.map Prod.fst).Nodup) (key : K) :
    bindings.lookup key = bindings'.lookup key := by
  have distinct' : (bindings'.map Prod.fst).Nodup :=
    (reordered.map Prod.fst).nodup_iff.mp distinct
  cases found : bindings.lookup key with
  | some value =>
      obtain ⟨_, _, split, _⟩ := List.lookup_eq_some_iff.mp found
      have bound : (key, value) ∈ bindings := by
        rw [split]
        exact List.mem_append_right _ List.mem_cons_self
      exact (lookup_eq_some_of_mem distinct' (reordered.mem_iff.mp bound)).symm
  | none =>
      rw [List.lookup_eq_none_iff] at found
      refine (List.lookup_eq_none_iff.mpr ?_).symm
      exact fun binding bound => found binding (reordered.mem_iff.mpr bound)

end Bindings

namespace Scope

variable {V F : Type}

/-- The scopes agree but for the bindings of functions at the root, and these are found alike. -/
structure Equivalent (scope scope' : Scope V F) : Prop where
  inner : scope.inner = scope'.inner
  globals : scope.root.variableBindings = scope'.root.variableBindings
  functions : ∀ name arity,
    scope.root.findFunction? name arity = scope'.root.findFunction? name arity

/-- A search depends on the root by its answer only. -/
theorem searchFrom_congr {α : Type} {root root' : Frame V F} {ask : Frame V F → Option α}
    (same : ask root = ask root') (skipped : Nat) (inner : List (Frame V F)) :
    searchFrom root ask skipped inner = searchFrom root' ask skipped inner := by
  rw [searchFrom_eq_findSome?, searchFrom_eq_findSome?]
  induction inner generalizing skipped with
  | nil =>
      simp only [chainFrom, List.findSome?_cons, same]
  | cons frame rest induction =>
      cases skipped with
      | succ skipped => exact induction skipped
      | zero => simp only [chainFrom, List.findSome?_cons, induction]

theorem updateFrom_equivalent {root root' : Frame V F}
    (globals : root.variableBindings = root'.variableBindings)
    (functions : ∀ name arity, root.findFunction? name arity = root'.findFunction? name arity)
    (name : String) (change : V → V) (skipped : Nat) (inner : List (Frame V F)) :
    (updateFrom root name change skipped inner).Equivalent
      (updateFrom root' name change skipped inner) := by
  induction inner generalizing skipped with
  | nil => exact ⟨rfl, congrArg (Frame.updateFirst name change) globals, functions⟩
  | cons frame rest induction =>
      cases skipped with
      | succ skipped =>
          have below := induction skipped
          exact ⟨congrArg (frame :: ·) below.inner, below.globals, below.functions⟩
      | zero =>
          have below := induction frame.skip
          unfold updateFrom
          split
          · exact ⟨rfl, globals, functions⟩
          · exact ⟨congrArg (frame :: ·) below.inner, below.globals, below.functions⟩

namespace Equivalent

variable {scope scope' : Scope V F}

theorem refl (scope : Scope V F) : scope.Equivalent scope :=
  ⟨rfl, rfl, fun _ _ => rfl⟩

theorem search (equivalent : scope.Equivalent scope') {α : Type} {ask : Frame V F → Option α}
    (same : ask scope.root = ask scope'.root) : scope.search ask = scope'.search ask := by
  unfold Scope.search
  rw [← equivalent.inner]
  exact searchFrom_congr same 0 scope.inner

theorem findVariable (equivalent : scope.Equivalent scope') :
    scope.findVariable? = scope'.findVariable? := by
  funext name
  exact equivalent.search (congrArg (List.lookup name) equivalent.globals)

theorem findFunction (equivalent : scope.Equivalent scope') :
    scope.findFunction? = scope'.findFunction? := by
  funext name arity
  exact equivalent.search (equivalent.functions name arity)

theorem current (equivalent : scope.Equivalent scope') : scope.current = scope'.current :=
  congrArg List.length equivalent.inner

theorem definesVariable (equivalent : scope.Equivalent scope') (name : String) :
    scope.definesVariable name = scope'.definesVariable name := by
  obtain ⟨inner, root⟩ := scope
  obtain ⟨inner', root'⟩ := scope'
  obtain ⟨rfl, globals, -⟩ := equivalent
  cases inner with
  | nil => exact congrArg (fun bindings => (bindings.lookup name).isSome) globals
  | cons frame rest => rfl

theorem pushUnder (equivalent : scope.Equivalent scope') (outer : Nat) :
    (scope.pushUnder outer).Equivalent (scope'.pushUnder outer) := by
  refine ⟨?_, equivalent.globals, equivalent.functions⟩
  unfold Scope.pushUnder
  rw [equivalent.current, equivalent.inner]

theorem push (equivalent : scope.Equivalent scope') : scope.push.Equivalent scope'.push := by
  unfold Scope.push
  rw [equivalent.current]
  exact equivalent.pushUnder scope'.current

theorem pop (equivalent : scope.Equivalent scope') : scope.pop.Equivalent scope'.pop :=
  ⟨congrArg List.tail equivalent.inner, equivalent.globals, equivalent.functions⟩

theorem defineVariable (equivalent : scope.Equivalent scope') (name : String) (value : V) :
    (scope.defineVariable name value).Equivalent (scope'.defineVariable name value) := by
  obtain ⟨inner, root⟩ := scope
  obtain ⟨inner', root'⟩ := scope'
  obtain ⟨rfl, globals, functions⟩ := equivalent
  cases inner with
  | nil => exact ⟨rfl, congrArg ((name, value) :: ·) globals, functions⟩
  | cons frame rest => exact ⟨rfl, globals, functions⟩

theorem updateVariable (equivalent : scope.Equivalent scope') (name : String) (change : V → V) :
    (scope.updateVariable name change).Equivalent (scope'.updateVariable name change) := by
  obtain ⟨inner, root⟩ := scope
  obtain ⟨inner', root'⟩ := scope'
  obtain ⟨rfl, globals, functions⟩ := equivalent
  exact updateFrom_equivalent globals functions name change 0 inner

end Equivalent

theorem definesFunction_defineFunction (scope : Scope V F) (key other : String × Nat) (value : F) :
    (scope.defineFunction key.1 key.2 value).definesFunction other.1 other.2 =
      (other == key || scope.definesFunction other.1 other.2) := by
  have lookup (bindings : List ((String × Nat) × F)) :
      (((key, value) :: bindings).lookup other).isSome =
        (other == key || (bindings.lookup other).isSome) := by
    rw [List.lookup_cons]
    cases other == key <;> rfl
  obtain ⟨inner, root⟩ := scope
  cases inner with
  | nil => exact lookup root.functionBindings
  | cons frame rest => exact lookup frame.functionBindings

/-- Functions of all these names and numbers of arguments can be defined one after another. -/
structure Admits (scope : Scope V F) (keys : List (String × Nat)) : Prop where
  distinct : keys.Nodup
  free : ∀ key ∈ keys, scope.definesFunction key.1 key.2 = false

theorem Admits.nil (scope : Scope V F) : scope.Admits [] :=
  ⟨.nil, nofun⟩

theorem Admits.perm {scope : Scope V F} {keys keys' : List (String × Nat)}
    (admits : scope.Admits keys) (reordered : keys.Perm keys') : scope.Admits keys' :=
  ⟨reordered.nodup_iff.mp admits.distinct,
    fun key member => admits.free key (reordered.mem_iff.mpr member)⟩

theorem admits_cons {scope : Scope V F} {key : String × Nat} {keys : List (String × Nat)}
    (value : F) :
    scope.Admits (key :: keys) ↔ scope.definesFunction key.1 key.2 = false ∧
      (scope.defineFunction key.1 key.2 value).Admits keys := by
  constructor
  · rintro ⟨distinct, free⟩
    obtain ⟨fresh, distinct⟩ := List.nodup_cons.mp distinct
    obtain ⟨here, later⟩ := List.forall_mem_cons.mp free
    refine ⟨here, distinct, fun other member => ?_⟩
    have different : other ≠ key := by
      rintro rfl
      exact fresh member
    rw [definesFunction_defineFunction, beq_false_of_ne different, later other member]
    rfl
  · rintro ⟨here, distinct, free⟩
    simp only [definesFunction_defineFunction, Bool.or_eq_false_iff, beq_eq_false_iff_ne] at free
    refine ⟨List.nodup_cons.mpr ⟨fun member => (free key member).1 rfl, distinct⟩, ?_⟩
    exact List.forall_mem_cons.mpr ⟨here, fun other member => (free other member).2⟩

/-- The scope after functions are defined in order, each under its name and number of arguments. -/
def defineFunctions (scope : Scope V F) (entries : List ((String × Nat) × F)) : Scope V F :=
  entries.foldl (fun scope ((name, arity), value) => scope.defineFunction name arity value) scope

theorem Alone.defineFunctions {scope : Scope V F} (alone : scope.Alone)
    (entries : List ((String × Nat) × F)) :
    scope.defineFunctions entries =
      ⟨[], { scope.root with
        functionBindings := entries.reverse ++ scope.root.functionBindings }⟩ := by
  induction entries generalizing scope with
  | nil => exact alone.eq
  | cons entry rest induction =>
      have later := induction (alone.defineFunction entry.1.1 entry.1.2 entry.2)
      rw [alone.eq] at later ⊢
      rw [List.reverse_cons, List.append_assoc]
      exact later

/-- Functions that cannot be confused can be defined in any order. -/
theorem Alone.defineFunctions_perm {scope : Scope V F} (alone : scope.Alone)
    {entries entries' : List ((String × Nat) × F)} (reordered : entries.Perm entries')
    (distinct : (entries.map Prod.fst).Nodup) :
    (scope.defineFunctions entries).Equivalent (scope.defineFunctions entries') := by
  rw [alone.defineFunctions, alone.defineFunctions]
  refine ⟨rfl, rfl, fun name arity => ?_⟩
  have reversed : entries.reverse.Perm entries'.reverse :=
    (entries.reverse_perm.trans reordered).trans entries'.reverse_perm.symm
  have distinctReversed : (entries.reverse.map Prod.fst).Nodup := by
    rw [List.map_reverse]
    exact (List.reverse_perm _).nodup_iff.mpr distinct
  unfold Frame.findFunction?
  rw [List.lookup_append, List.lookup_append, lookup_eq_of_perm reversed distinctReversed]

end Scope

end Procedural
