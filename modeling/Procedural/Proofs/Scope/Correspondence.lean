import Mathlib.Data.List.Forall2
import Procedural.Scope

/-!
# Corresponding scopes

Two scopes may hold different things under the same names.  They mirror each other if
they agree frame by frame.  One sees what the other sees if they agree in the frames
that a lookup visits; the frames that it skips do not matter.  In both cases lookups
find related things or nothing at all.
-/

namespace Procedural

/-- Two bindings of one key to related things. -/
structure Bound {K A B : Type} (related : K → A → B → Prop) (left : K × A) (right : K × B) :
    Prop where
  key : left.1 = right.1
  value : related left.1 left.2 right.2

section Related

variable {α β : Type} {related : α → β → Prop} {left : Option α} {right : Option β}

theorem exists_of_related (both : Option.Rel related left right) {value : α}
    (found : left = some value) : ∃ value', right = some value' ∧ related value value' := by
  subst found
  cases both with
  | some holds => exact ⟨_, rfl, holds⟩

theorem isSome_of_related (both : Option.Rel related left right) :
    right.isSome = left.isSome := by
  cases both <;> rfl

end Related

section Bindings

variable {K A B : Type} [BEq K] [LawfulBEq K] {related : K → A → B → Prop}
variable {left : List (K × A)} {right : List (K × B)}

theorem lookup_related (matching : List.Forall₂ (Bound related) left right) (key : K) :
    Option.Rel (related key) (left.lookup key) (right.lookup key) := by
  induction matching with
  | nil => exact .none
  | @cons first first' rest rest' bound _ induction =>
      obtain ⟨same, holds⟩ := bound
      rw [List.lookup_cons, List.lookup_cons, ← same]
      by_cases here : key = first.1
      · subst here
        rw [beq_self_eq_true]
        exact .some holds
      · rw [beq_false_of_ne here]
        exact induction

end Bindings

theorem forall₂_trans {α β γ : Type} {first : α → β → Prop} {second : β → γ → Prop}
    {both : α → γ → Prop} (trans : ∀ left middle right, first left middle → second middle right →
      both left right) {left : List α} {middle : List β} {right : List γ}
    (related : List.Forall₂ first left middle) (later : List.Forall₂ second middle right) :
    List.Forall₂ both left right := by
  induction related generalizing right with
  | nil =>
      cases later
      exact .nil
  | cons here _ induction =>
      cases later with
      | cons here' rest' => exact .cons (trans _ _ _ here here') (induction rest')

variable {V V' V'' F F' F'' : Type}
variable {variable' : V → V' → Prop} {function' : String × Nat → F → F' → Prop}

/-- Two frames bind the same names, in the same order, to related things. -/
structure Frame.Matches (variable' : V → V' → Prop) (function' : String × Nat → F → F' → Prop)
    (frame : Frame V F) (frame' : Frame V' F') : Prop where
  variableBindings : List.Forall₂ (Bound fun _ => variable') frame.variableBindings
    frame'.variableBindings
  functionBindings : List.Forall₂ (Bound function') frame.functionBindings frame'.functionBindings

namespace Frame.Matches

variable {frame : Frame V F} {frame' : Frame V' F'}

theorem empty (skip skip' : Nat) :
    Matches variable' function' (.empty skip) (.empty skip' : Frame V' F') :=
  ⟨.nil, .nil⟩

theorem imp {variable'' : V → V' → Prop} {function'' : String × Nat → F → F' → Prop}
    (matching : frame.Matches variable' function' frame')
    (implies : ∀ value value', variable' value value' → variable'' value value')
    (impliesOn : ∀ key value value', function' key value value' → function'' key value value') :
    frame.Matches variable'' function'' frame' :=
  ⟨matching.variableBindings.imp fun _ _ bound => ⟨bound.key, implies _ _ bound.value⟩,
    matching.functionBindings.imp fun _ _ bound => ⟨bound.key, impliesOn _ _ _ bound.value⟩⟩

theorem refl {same : V → V → Prop} {sameFunction : String × Nat → F → F → Prop}
    (reflexive : ∀ value, same value value)
    (reflexiveOn : ∀ key value, sameFunction key value value) (frame : Frame V F) :
    frame.Matches same sameFunction frame :=
  ⟨List.forall₂_same.mpr fun _ _ => ⟨rfl, reflexive _⟩,
    List.forall₂_same.mpr fun _ _ => ⟨rfl, reflexiveOn _ _⟩⟩

theorem trans {same : V → V → Prop} {sameFunction : String × Nat → F → F → Prop}
    (transitive : ∀ first second third, same first second → same second third →
      same first third)
    (transitiveOn : ∀ key first second third, sameFunction key first second →
      sameFunction key second third → sameFunction key first third)
    {first second third : Frame V F} (matching : first.Matches same sameFunction second)
    (later : second.Matches same sameFunction third) :
    first.Matches same sameFunction third := by
  refine ⟨forall₂_trans (fun _ _ _ here there => ⟨here.key.trans there.key, ?_⟩)
      matching.variableBindings later.variableBindings,
    forall₂_trans (fun _ _ _ here there => ⟨here.key.trans there.key, ?_⟩)
      matching.functionBindings later.functionBindings⟩
  · exact transitive _ _ _ here.value there.value
  · apply transitiveOn _ _ _ _ here.value
    rw [here.key]
    exact there.value

theorem findVariable (matching : frame.Matches variable' function' frame') (name : String) :
    Option.Rel variable' (frame.findVariable? name) (frame'.findVariable? name) :=
  lookup_related matching.variableBindings name

theorem findFunction (matching : frame.Matches variable' function' frame') (name : String)
    (arity : Nat) :
    Option.Rel (function' (name, arity)) (frame.findFunction? name arity)
      (frame'.findFunction? name arity) :=
  lookup_related matching.functionBindings (name, arity)

theorem defineVariable (matching : frame.Matches variable' function' frame') (name : String)
    {value : V} {value' : V'} (related : variable' value value') :
    (frame.defineVariable name value).Matches variable' function'
      (frame'.defineVariable name value') :=
  ⟨.cons ⟨rfl, related⟩ matching.variableBindings, matching.functionBindings⟩

theorem defineFunction (matching : frame.Matches variable' function' frame') (name : String)
    (arity : Nat) {value : F} {value' : F'} (related : function' (name, arity) value value') :
    (frame.defineFunction name arity value).Matches variable' function'
      (frame'.defineFunction name arity value') :=
  ⟨matching.variableBindings, .cons ⟨rfl, related⟩ matching.functionBindings⟩

theorem updateFirst {bindings : List (String × V)} {bindings' : List (String × V')}
    {name : String} {change : V' → V'}
    (matching : List.Forall₂ (Bound fun _ => variable') bindings bindings')
    (keeps : ∀ value, bindings.lookup name = some value → ∀ value', variable' value value' →
      variable' value (change value')) :
    List.Forall₂ (Bound fun _ => variable') bindings
      (Frame.updateFirst name change bindings') := by
  induction matching with
  | nil => exact .nil
  | @cons first first' rest rest' bound later induction =>
      obtain ⟨same, holds⟩ := bound
      simp only [Frame.updateFirst]
      by_cases here : name = first'.1
      · rw [if_pos here]
        apply List.Forall₂.cons _ later
        refine ⟨same, keeps first.2 ?_ first'.2 holds⟩
        rw [List.lookup_cons, same, here, beq_self_eq_true]
      · rw [if_neg here]
        apply List.Forall₂.cons ⟨same, holds⟩
        apply induction
        intro value found
        apply keeps value
        rw [List.lookup_cons, same, beq_false_of_ne here]
        exact found

theorem updateVariable (matching : frame.Matches variable' function' frame') {name : String}
    {change : V' → V'}
    (keeps : ∀ value, frame.findVariable? name = some value → ∀ value', variable' value value' →
      variable' value (change value')) :
    frame.Matches variable' function' (frame'.updateVariable name change) :=
  ⟨updateFirst matching.variableBindings keeps, matching.functionBindings⟩

end Frame.Matches

namespace Scope

/-- The frames that a lookup visits after some frames are skipped. -/
def chainFrom (root : Frame V F) : Nat → List (Frame V F) → List (Frame V F)
  | _, [] => [root]
  | 0, frame :: rest => frame :: chainFrom root frame.skip rest
  | skipped + 1, _ :: rest => chainFrom root skipped rest

/-- The frames that a lookup visits, the newest first. -/
def chain (scope : Scope V F) : List (Frame V F) :=
  chainFrom scope.root 0 scope.inner

theorem searchFrom_eq_findSome? {α : Type} (root : Frame V F) (ask : Frame V F → Option α)
    (skipped : Nat) (inner : List (Frame V F)) :
    searchFrom root ask skipped inner = (chainFrom root skipped inner).findSome? ask := by
  induction inner generalizing skipped with
  | nil =>
      simp only [searchFrom, chainFrom, List.findSome?_cons, List.findSome?_nil]
      cases ask root <;> rfl
  | cons frame rest induction =>
      cases skipped with
      | succ skipped => exact induction skipped
      | zero =>
          simp only [searchFrom, chainFrom, List.findSome?_cons]
          cases ask frame with
          | some answer => rfl
          | none => exact induction frame.skip

theorem search_eq_findSome? {α : Type} (scope : Scope V F) (ask : Frame V F → Option α) :
    scope.search ask = scope.chain.findSome? ask :=
  searchFrom_eq_findSome? scope.root ask 0 scope.inner

/-- The frames that a lookup visits after the newest one. -/
def enclosing (scope : Scope V F) : List (Frame V F) :=
  match scope.inner with
  | [] => []
  | frame :: rest => chainFrom scope.root frame.skip rest

theorem chain_eq (scope : Scope V F) : scope.chain = scope.newest :: scope.enclosing := by
  obtain ⟨inner, root⟩ := scope
  cases inner <;> rfl

theorem chain_modifyNewest (scope : Scope V F) {change : Frame V F → Frame V F}
    (keeps : ∀ frame, (change frame).skip = frame.skip) :
    (scope.modifyNewest change).chain = change scope.newest :: scope.enclosing := by
  obtain ⟨inner, root⟩ := scope
  cases inner with
  | nil => rfl
  | cons frame rest =>
      change change frame :: chainFrom root (change frame).skip rest = _
      rw [keeps]
      rfl

theorem chain_defineVariable (scope : Scope V F) (name : String) (value : V) :
    (scope.defineVariable name value).chain =
      scope.newest.defineVariable name value :: scope.enclosing :=
  scope.chain_modifyNewest fun _ => rfl

theorem chain_defineFunction (scope : Scope V F) (name : String) (arity : Nat) (value : F) :
    (scope.defineFunction name arity value).chain =
      scope.newest.defineFunction name arity value :: scope.enclosing :=
  scope.chain_modifyNewest fun _ => rfl

theorem chainFrom_length (root : Frame V F) (inner : List (Frame V F)) :
    chainFrom root inner.length inner = [root] := by
  induction inner with
  | nil => rfl
  | cons frame rest induction => exact induction

theorem chain_push (scope : Scope V F) : scope.push.chain = .empty 0 :: scope.chain := by
  change .empty (scope.current - scope.current) ::
    chainFrom scope.root (scope.current - scope.current) scope.inner = _
  rw [Nat.sub_self]
  rfl

theorem chain_pushUnder_root (scope : Scope V F) :
    (scope.pushUnder 0).chain = [.empty scope.current, scope.root] := by
  change .empty scope.current :: chainFrom scope.root scope.inner.length scope.inner = _
  rw [chainFrom_length]

/-- The scope is its root frame. -/
def Alone (scope : Scope V F) : Prop :=
  scope.inner = []

theorem Alone.defineVariable {scope : Scope V F} (alone : scope.Alone)
    (name : String) (value : V) : (scope.defineVariable name value).Alone := by
  obtain ⟨inner, root⟩ := scope
  obtain rfl : inner = [] := alone
  rfl

theorem Alone.defineFunction {scope : Scope V F} (alone : scope.Alone)
    (name : String) (arity : Nat) (value : F) : (scope.defineFunction name arity value).Alone := by
  obtain ⟨inner, root⟩ := scope
  obtain rfl : inner = [] := alone
  rfl

theorem Alone.eq {scope : Scope V F} (alone : scope.Alone) : scope = ⟨[], scope.root⟩ := by
  obtain ⟨inner, root⟩ := scope
  obtain rfl : inner = [] := alone
  rfl

theorem Alone.newest {scope : Scope V F} (alone : scope.Alone) :
    scope.newest = scope.root := by
  obtain ⟨inner, root⟩ := scope
  obtain rfl : inner = [] := alone
  rfl

/-- The frames that lookups visit agree. -/
def Sees (variable' : V → V' → Prop) (function' : String × Nat → F → F' → Prop)
    (scope : Scope V F) (scope' : Scope V' F') : Prop :=
  List.Forall₂ (Frame.Matches variable' function') scope.chain scope'.chain

namespace Sees

variable {scope : Scope V F} {scope' : Scope V' F'}

theorem empty : (Scope.empty : Scope V F).Sees variable' function' (.empty : Scope V' F') :=
  .cons (.empty 0 0) .nil

theorem search {α β : Type} {related : α → β → Prop} {ask : Frame V F → Option α}
    {ask' : Frame V' F' → Option β} (sees : scope.Sees variable' function' scope')
    (asks : ∀ frame frame', frame.Matches variable' function' frame' →
      Option.Rel related (ask frame) (ask' frame')) :
    Option.Rel related (scope.search ask) (scope'.search ask') := by
  rw [search_eq_findSome?, search_eq_findSome?]
  unfold Sees at sees
  generalize scope.chain = chain at sees ⊢
  generalize scope'.chain = chain' at sees ⊢
  induction sees with
  | nil => exact .none
  | cons matching _ induction =>
      rw [List.findSome?_cons, List.findSome?_cons]
      have answers := asks _ _ matching
      revert answers
      generalize ask _ = answer
      generalize ask' _ = answer'
      intro answers
      cases answers with
      | none => exact induction
      | some holds => exact .some holds

theorem findVariable (sees : scope.Sees variable' function' scope') (name : String) :
    Option.Rel variable' (scope.findVariable? name) (scope'.findVariable? name) :=
  sees.search fun _ _ matching => matching.findVariable name

theorem findFunction (sees : scope.Sees variable' function' scope') (name : String)
    (arity : Nat) :
    Option.Rel (function' (name, arity)) (scope.findFunction? name arity)
      (scope'.findFunction? name arity) :=
  sees.search fun _ _ matching => matching.findFunction name arity

theorem newest (sees : scope.Sees variable' function' scope') :
    scope.newest.Matches variable' function' scope'.newest := by
  unfold Sees at sees
  rw [chain_eq, chain_eq] at sees
  exact (List.forall₂_cons.mp sees).1

theorem definesVariable (sees : scope.Sees variable' function' scope') (name : String) :
    scope'.definesVariable name = scope.definesVariable name :=
  isSome_of_related (sees.newest.findVariable name)

theorem definesFunction (sees : scope.Sees variable' function' scope') (name : String)
    (arity : Nat) : scope'.definesFunction name arity = scope.definesFunction name arity :=
  isSome_of_related (sees.newest.findFunction name arity)

theorem modifyNewest (sees : scope.Sees variable' function' scope')
    {change : Frame V F → Frame V F} {change' : Frame V' F' → Frame V' F'}
    (keeps : ∀ frame, (change frame).skip = frame.skip)
    (keeps' : ∀ frame, (change' frame).skip = frame.skip)
    (changes : ∀ frame frame', frame.Matches variable' function' frame' →
      (change frame).Matches variable' function' (change' frame')) :
    (scope.modifyNewest change).Sees variable' function' (scope'.modifyNewest change') := by
  unfold Sees at sees ⊢
  rw [chain_eq, chain_eq] at sees
  rw [chain_modifyNewest _ keeps, chain_modifyNewest _ keeps']
  obtain ⟨matching, later⟩ := List.forall₂_cons.mp sees
  exact .cons (changes _ _ matching) later

theorem defineVariable (sees : scope.Sees variable' function' scope') (name : String)
    {value : V} {value' : V'} (related : variable' value value') :
    (scope.defineVariable name value).Sees variable' function'
      (scope'.defineVariable name value') :=
  sees.modifyNewest (fun _ => rfl) (fun _ => rfl) fun _ _ matching =>
    matching.defineVariable name related

theorem defineFunction (sees : scope.Sees variable' function' scope') (name : String)
    (arity : Nat) {value : F} {value' : F'} (related : function' (name, arity) value value') :
    (scope.defineFunction name arity value).Sees variable' function'
      (scope'.defineFunction name arity value') :=
  sees.modifyNewest (fun _ => rfl) (fun _ => rfl) fun _ _ matching =>
    matching.defineFunction name arity related

theorem push (sees : scope.Sees variable' function' scope') :
    scope.push.Sees variable' function' scope'.push := by
  unfold Sees at sees ⊢
  rw [chain_push, chain_push]
  exact .cons (.empty 0 0) sees

/-- A frame under the root sees the root only, whatever frames there are between. -/
theorem pushUnder_root {root : Frame V F}
    (matching : root.Matches variable' function' scope'.root) :
    (Scope.push ⟨[], root⟩).Sees variable' function' (scope'.pushUnder 0) := by
  unfold Sees
  rw [chain_push, chain_pushUnder_root]
  exact .cons (.empty _ _) (.cons matching .nil)

end Sees

/-- All frames agree, and each is enclosed by the same frame. -/
structure Mirrors (variable' : V → V' → Prop) (function' : String × Nat → F → F' → Prop)
    (scope : Scope V F) (scope' : Scope V' F') : Prop where
  inner : List.Forall₂
    (fun frame frame' => frame.skip = frame'.skip ∧ frame.Matches variable' function' frame')
    scope.inner scope'.inner
  root : scope.root.Matches variable' function' scope'.root

namespace Mirrors

variable {scope : Scope V F} {scope' : Scope V' F'}

theorem empty : (Scope.empty : Scope V F).Mirrors variable' function' (.empty : Scope V' F') :=
  ⟨.nil, .empty 0 0⟩

theorem sees (mirrors : scope.Mirrors variable' function' scope') :
    scope.Sees variable' function' scope' := by
  obtain ⟨inner, root⟩ := scope
  obtain ⟨inner', root'⟩ := scope'
  obtain ⟨frames, roots⟩ := mirrors
  change List.Forall₂ _ (chainFrom root 0 inner) (chainFrom root' 0 inner')
  change List.Forall₂ _ inner inner' at frames
  change root.Matches variable' function' root' at roots
  generalize 0 = skipped
  induction frames generalizing skipped with
  | nil => exact .cons roots .nil
  | cons both _ induction =>
      cases skipped with
      | succ skipped => exact induction skipped
      | zero =>
          obtain ⟨skips, matching⟩ := both
          simp only [chainFrom, ← skips]
          exact .cons matching (induction _)

theorem imp {variable'' : V → V' → Prop} {function'' : String × Nat → F → F' → Prop}
    (mirrors : scope.Mirrors variable' function' scope')
    (implies : ∀ value value', variable' value value' → variable'' value value')
    (impliesOn : ∀ key value value', function' key value value' → function'' key value value') :
    scope.Mirrors variable'' function'' scope' :=
  ⟨mirrors.inner.imp fun _ _ both => ⟨both.1, both.2.imp implies impliesOn⟩,
    mirrors.root.imp implies impliesOn⟩

theorem refl {same : V → V → Prop} {sameFunction : String × Nat → F → F → Prop}
    (reflexive : ∀ value, same value value)
    (reflexiveOn : ∀ key value, sameFunction key value value) (scope : Scope V F) :
    scope.Mirrors same sameFunction scope :=
  ⟨List.forall₂_same.mpr fun frame _ => ⟨rfl, .refl reflexive reflexiveOn frame⟩,
    .refl reflexive reflexiveOn _⟩

theorem trans {same : V → V → Prop} {sameFunction : String × Nat → F → F → Prop}
    (transitive : ∀ first second third, same first second → same second third →
      same first third)
    (transitiveOn : ∀ key first second third, sameFunction key first second →
      sameFunction key second third → sameFunction key first third)
    {first second third : Scope V F} (mirrors : first.Mirrors same sameFunction second)
    (later : second.Mirrors same sameFunction third) :
    first.Mirrors same sameFunction third :=
  ⟨forall₂_trans (fun _ _ _ here there => ⟨here.1.trans there.1,
      here.2.trans transitive transitiveOn there.2⟩) mirrors.inner later.inner,
    mirrors.root.trans transitive transitiveOn later.root⟩

theorem current (mirrors : scope.Mirrors variable' function' scope') :
    scope'.current = scope.current :=
  mirrors.inner.length_eq.symm

theorem pushUnder (mirrors : scope.Mirrors variable' function' scope') (outer : Nat) :
    (scope.pushUnder outer).Mirrors variable' function' (scope'.pushUnder outer) := by
  refine ⟨.cons ⟨?_, .empty _ _⟩ mirrors.inner, mirrors.root⟩
  rw [mirrors.current]
  rfl

theorem pop (mirrors : scope.Mirrors variable' function' scope') :
    scope.pop.Mirrors variable' function' scope'.pop := by
  obtain ⟨inner, root⟩ := scope
  obtain ⟨inner', root'⟩ := scope'
  obtain ⟨frames, roots⟩ := mirrors
  cases frames with
  | nil => exact ⟨.nil, roots⟩
  | cons _ later => exact ⟨later, roots⟩

theorem modifyNewest (mirrors : scope.Mirrors variable' function' scope')
    {change : Frame V F → Frame V F} {change' : Frame V' F' → Frame V' F'}
    (keeps : ∀ frame, (change frame).skip = frame.skip)
    (keeps' : ∀ frame, (change' frame).skip = frame.skip)
    (changes : ∀ frame frame', frame.Matches variable' function' frame' →
      (change frame).Matches variable' function' (change' frame')) :
    (scope.modifyNewest change).Mirrors variable' function' (scope'.modifyNewest change') := by
  obtain ⟨inner, root⟩ := scope
  obtain ⟨inner', root'⟩ := scope'
  obtain ⟨frames, roots⟩ := mirrors
  cases frames with
  | nil => exact ⟨.nil, changes _ _ roots⟩
  | cons both later =>
      refine ⟨.cons ⟨?_, changes _ _ both.2⟩ later, roots⟩
      rw [keeps, keeps', both.1]

theorem defineVariable (mirrors : scope.Mirrors variable' function' scope') (name : String)
    {value : V} {value' : V'} (related : variable' value value') :
    (scope.defineVariable name value).Mirrors variable' function'
      (scope'.defineVariable name value') :=
  mirrors.modifyNewest (fun _ => rfl) (fun _ => rfl) fun _ _ matching =>
    matching.defineVariable name related

theorem defineFunction (mirrors : scope.Mirrors variable' function' scope') (name : String)
    (arity : Nat) {value : F} {value' : F'} (related : function' (name, arity) value value') :
    (scope.defineFunction name arity value).Mirrors variable' function'
      (scope'.defineFunction name arity value') :=
  mirrors.modifyNewest (fun _ => rfl) (fun _ => rfl) fun _ _ matching =>
    matching.defineFunction name arity related

theorem updateVariable (mirrors : scope.Mirrors variable' function' scope') {name : String}
    {change : V' → V'}
    (keeps : ∀ value, scope.findVariable? name = some value → ∀ value', variable' value value' →
      variable' value (change value')) :
    scope.Mirrors variable' function' (scope'.updateVariable name change) := by
  obtain ⟨inner, root⟩ := scope
  obtain ⟨inner', root'⟩ := scope'
  obtain ⟨frames, roots⟩ := mirrors
  change Mirrors _ _ _ (updateFrom root' name change 0 inner')
  change List.Forall₂ _ inner inner' at frames
  change root.Matches variable' function' root' at roots
  change ∀ value, searchFrom root (·.findVariable? name) 0 inner = some value → _ at keeps
  revert keeps
  generalize 0 = skipped
  intro keeps
  induction frames generalizing skipped with
  | nil => exact ⟨.nil, roots.updateVariable keeps⟩
  | @cons frame frame' rest rest' both later induction =>
      obtain ⟨skips, matching⟩ := both
      cases skipped with
      | succ skipped =>
          obtain ⟨frames, roots⟩ := induction skipped keeps
          exact ⟨.cons ⟨skips, matching⟩ frames, roots⟩
      | zero =>
          simp only [searchFrom] at keeps
          simp only [updateFrom]
          have finds := matching.findVariable name
          cases found : frame.findVariable? name with
          | some value =>
              rw [found] at keeps finds
              cases found' : frame'.findVariable? name with
              | none =>
                  rw [found'] at finds
                  cases finds
              | some value' =>
                  refine ⟨.cons ⟨skips, matching.updateVariable fun other equal => ?_⟩ later, roots⟩
                  rw [found] at equal
                  exact keeps other equal
          | none =>
              rw [found] at keeps finds
              cases found' : frame'.findVariable? name with
              | some value' =>
                  rw [found'] at finds
                  cases finds
              | none =>
                  rw [← skips]
                  obtain ⟨frames, roots⟩ := induction frame.skip keeps
                  exact ⟨.cons ⟨skips, matching⟩ frames, roots⟩

end Mirrors

end Scope

end Procedural
