import Mathlib.Data.List.Forall2
import Procedural.Proofs.Execution.Modest
import Procedural.Proofs.Store.Equality

/-!
# Comparison of values

Order is found class by class and equality by the structure of values.  The two fit together:
the values of each ordered class are in a total order, whose ties are the equal values.  All
other comparisons by order are refused, while equality is decided for all values.
-/

namespace Procedural

/-- Two scalars of one class that has an order. -/
inductive Scalar.Comparable : Scalar → Scalar → Prop where
  | boolean (left right : Bool) : Comparable (.boolean left) (.boolean right)
  | integer (left right : Int) : Comparable (.integer left) (.integer right)
  | decimal (left right : Decimal) : Comparable (.decimal left) (.decimal right)
  | character (left right : Char) : Comparable (.character left) (.character right)
  | string (left right : String) : Comparable (.string left) (.string right)

namespace Scalar

variable {left middle right : Scalar}

/-- Comparable scalars have an order, and their ties are the equal scalars. -/
theorem Comparable.compare? (comparable : left.Comparable right) :
    ∃ ordering, left.compare? right = some ordering ∧ left.same right = (ordering == .eq) := by
  cases comparable with
  | decimal left right => exact ⟨_, rfl, rfl⟩
  | _ =>
      refine ⟨_, rfl, ?_⟩
      rw [Bool.eq_iff_iff, Scalar.same, beq_iff_eq, beq_iff_eq, Std.compare_eq_iff_eq]

theorem compare?_eq_none (apart : ¬ left.Comparable right) : left.compare? right = none := by
  cases left <;> cases right <;> first | rfl | exact absurd (by constructor) apart

theorem compare?_swap (left right : Scalar) :
    right.compare? left = (left.compare? right).map Ordering.swap := by
  cases left <;> cases right <;> simp only [compare?, Option.map_none, Option.map_some]
  all_goals
    congr 1
    exact Std.OrientedCmp.eq_swap

theorem compare?_trans (first : left.compare? middle = some .lt)
    (second : middle.compare? right = some .lt) : left.compare? right = some .lt := by
  cases left <;> cases middle <;> simp only [compare?, reduceCtorEq] at first
  all_goals
    cases right <;> simp only [compare?, reduceCtorEq] at second
    rw [compare?]
    rw [Option.some.injEq] at first second ⊢
    exact Std.TransCmp.lt_trans first second

theorem compare?_congr (same : left.same middle = true) (right : Scalar) :
    left.compare? right = middle.compare? right := by
  rcases eq_or_decimal same with rfl | ⟨number, number', rfl, rfl, equal⟩
  · rfl
  · cases right with
    | decimal bound =>
        rw [compare?, compare?, Decimal.compare_eq, Decimal.compare_eq, equal]
    | _ => rfl

theorem className_of_same (same : left.same right = true) : left.className = right.className := by
  rcases eq_or_decimal same with rfl | ⟨_, _, rfl, rfl, _⟩ <;> rfl

end Scalar

namespace Value

variable {store : Store} {left middle right left' right' : Value}

/-- The order of two values of one ordered class. -/
def compare? : Value → Value → Option Ordering
  | scalar left, scalar right => left.compare? right
  | _, _ => none

/-- Two values of one class that has an order. -/
inductive Comparable : Value → Value → Prop where
  | scalars {left right : Scalar} : left.Comparable right → Comparable (scalar left) (scalar right)

theorem order_eq (left right : Value) :
    left.order right =
      match left.compare? right with
      | some ordering => .ok ordering
      | none => .error (.wrongClass left.className right.className) := by
  cases left with
  | scalar value =>
      cases right with
      | scalar value' => rfl
      | list cell => rfl
  | list cell => rfl

theorem Comparable.compare? (store : Store) (comparable : left.Comparable right) :
    ∃ ordering, left.compare? right = some ordering ∧
      store.same left right = (ordering == .eq) := by
  obtain ⟨comparable⟩ := comparable
  rw [Store.same_scalar]
  exact comparable.compare?

theorem compare?_eq_none (apart : ¬ left.Comparable right) : left.compare? right = none := by
  cases left with
  | list cell => rfl
  | scalar value =>
      cases right with
      | list cell => rfl
      | scalar value' =>
          exact Scalar.compare?_eq_none fun comparable => apart (.scalars comparable)

theorem compare?_swap (left right : Value) :
    right.compare? left = (left.compare? right).map Ordering.swap := by
  cases left with
  | list cell => cases right <;> rfl
  | scalar value =>
      cases right with
      | list cell => rfl
      | scalar value' => exact Scalar.compare?_swap value value'

theorem compare?_trans (first : left.compare? middle = some .lt)
    (second : middle.compare? right = some .lt) : left.compare? right = some .lt := by
  cases left with
  | list cell => cases first
  | scalar value =>
      cases middle with
      | list cell => cases second
      | scalar value' =>
          cases right with
          | list cell => cases second
          | scalar value'' => exact Scalar.compare?_trans first second

theorem compare?_congr_left (same : store.same left left' = true) (right : Value) :
    left.compare? right = left'.compare? right := by
  cases left with
  | list cell =>
      cases left' with
      | list cell' => rfl
      | scalar value => simp at same
  | scalar value =>
      cases left' with
      | list cell => simp at same
      | scalar value' =>
          rw [Store.same_scalar] at same
          cases right with
          | list cell => rfl
          | scalar value'' => exact Scalar.compare?_congr same value''

theorem className_of_same (same : store.same left right = true) :
    left.className = right.className := by
  cases left with
  | list cell =>
      cases right with
      | list cell' => rfl
      | scalar value => simp at same
  | scalar value =>
      cases right with
      | list cell => simp at same
      | scalar value' => exact Scalar.className_of_same (Store.same_scalar value value' ▸ same)

/-- Equal values are in the same order to others, and are refused alike. -/
theorem order_congr (same : store.same left left' = true) (same' : store.same right right' = true) :
    left.order right = left'.order right' := by
  have compared : left.compare? right = left'.compare? right' := by
    rw [compare?_congr_left same, compare?_swap right left', compare?_congr_left same',
      ← compare?_swap]
  rw [order_eq, order_eq, compared, className_of_same same, className_of_same same']

/-- An operator finds that two values are related. -/
def Holds (store : Store) (op : BinaryOp) (left right : Value) : Prop :=
  applyOperator store op left right = .ok (.boolean true)

/-- A comparison by order succeeds where the order is the one that it asks for. -/
theorem map_order_eq_true_iff (asked : Ordering) :
    (left.order right).map (fun ordering => Scalar.boolean (ordering == asked)) =
        .ok (.boolean true) ↔
      left.compare? right = some asked := by
  rw [order_eq]
  cases left.compare? right <;> simp [Except.map]

theorem holds_less_iff : Holds store .less left right ↔ left.compare? right = some .lt :=
  map_order_eq_true_iff .lt

theorem holds_greater_iff : Holds store .greater left right ↔ left.compare? right = some .gt :=
  map_order_eq_true_iff .gt

theorem holds_equal_iff : Holds store .equal left right ↔ store.same left right = true := by
  rw [Holds, applyOperator, Except.ok.injEq, Scalar.boolean.injEq]

end Value

/-- Each ordered class is in a total order; all other pairs of values are refused. -/
structure Store.OrdersValues (store : Store) : Prop where
  trichotomy : ∀ {left right : Value}, left.Comparable right → ∃ ordering : Ordering,
    Value.applyOperator store .less left right = .ok (.boolean (ordering == .lt)) ∧
    Value.applyOperator store .equal left right = .ok (.boolean (ordering == .eq)) ∧
    Value.applyOperator store .greater left right = .ok (.boolean (ordering == .gt))
  converse : ∀ {left right : Value},
    Value.Holds store .less left right ↔ Value.Holds store .greater right left
  transitive : ∀ {left middle right : Value}, Value.Holds store .less left middle →
    Value.Holds store .less middle right → Value.Holds store .less left right
  refused : ∀ {left right : Value}, ¬ left.Comparable right →
    Value.applyOperator store .less left right =
      .error (.wrongClass left.className right.className) ∧
    Value.applyOperator store .greater left right =
      .error (.wrongClass left.className right.className)
  respects : ∀ {left right left' right' : Value}, Value.Holds store .equal left left' →
    Value.Holds store .equal right right' →
    Value.applyOperator store .less left right = Value.applyOperator store .less left' right' ∧
    Value.applyOperator store .greater left right = Value.applyOperator store .greater left' right'

/-- Equality is decided for all values, by their structure and by the numbers that decimals
denote. -/
structure Store.EquatesValues (store : Store) : Prop where
  total : ∀ left right : Value, ∃ equal : Bool,
    Value.applyOperator store .equal left right = .ok (.boolean equal) ∧
    Value.applyOperator store .unequal left right = .ok (.boolean !equal)
  apart : ∀ {left right : Value}, left.className ≠ right.className →
    Value.applyOperator store .equal left right = .ok (.boolean false)
  equivalence : Equivalence (Value.Holds store .equal)
  decimals : ∀ {left right : Decimal},
    Value.Holds store .equal (.scalar (.decimal left)) (.scalar (.decimal right)) ↔
      left.value = right.value
  structural : store.Acyclic → ∀ {left right : Value},
    Value.Holds store .equal left right ↔ store.Alike left right

theorem Store.ordersValues (store : Store) : store.OrdersValues where
  trichotomy := by
    intro left right comparable
    obtain ⟨ordering, compared, same⟩ := comparable.compare? store
    refine ⟨ordering, ?_, ?_, ?_⟩ <;> rw [Value.applyOperator]
    · rw [Value.order_eq, compared]
      rfl
    · rw [same]
    · rw [Value.order_eq, compared]
      rfl
  converse := by
    intro left right
    rw [Value.holds_less_iff, Value.holds_greater_iff, Value.compare?_swap left right]
    cases left.compare? right with
    | none => simp
    | some ordering => cases ordering <;> simp
  transitive := by
    intro left middle right first second
    rw [Value.holds_less_iff] at first second ⊢
    exact Value.compare?_trans first second
  refused := by
    intro left right apart
    constructor <;> rw [Value.applyOperator, Value.order_eq, Value.compare?_eq_none apart] <;> rfl
  respects := by
    intro left right left' right' same same'
    rw [Value.holds_equal_iff] at same same'
    constructor <;> rw [Value.applyOperator, Value.applyOperator, Value.order_congr same same']

theorem Store.equatesValues (store : Store) : store.EquatesValues where
  total := fun left right => ⟨store.same left right, rfl, rfl⟩
  apart := by
    intro left right apart
    rw [Value.applyOperator, Bool.eq_false_iff.mpr fun same => apart (Value.className_of_same same)]
  equivalence := by
    constructor
    · intro value
      exact Value.holds_equal_iff.mpr (store.same_refl value)
    · intro left right same
      rw [Value.holds_equal_iff] at same ⊢
      exact store.same_symm same
    · intro left middle right first second
      rw [Value.holds_equal_iff] at first second ⊢
      exact store.same_trans first second
  decimals := by
    intro left right
    rw [Value.holds_equal_iff, store.same_scalar]
    exact Decimal.same_iff
  structural := by
    intro acyclic left right
    rw [Value.holds_equal_iff, acyclic.same_iff_alike]

/-- Two values that are equal whatever the lists hold. -/
def Value.Interchangeable (left right : Value) : Prop :=
  ∀ store, Holds store .equal left right

/-- Both actions stop for the same reason, or they end with values that can be interchanged. -/
def Exec.EndsAlike (action action' : Exec Value) : Prop :=
  ∀ machine,
    (∃ stop after, action machine = (.error stop, after) ∧ action' machine = (.error stop, after)) ∨
    ∃ value value' after, value.Interchangeable value' ∧
      action machine = (.ok value, after) ∧ action' machine = (.ok value', after)

/-- Two cases that differ in values that can be interchanged. -/
inductive Case.Alike (invoke : Invoker) : Case → Case → Prop where
  | otherwise (body : List Stmt) : Alike invoke (.mk none body) (.mk none body)
  | value {candidate candidate' : Expr} (body : List Stmt) :
      (candidate.evaluate invoke).EndsAlike (candidate'.evaluate invoke) →
      Alike invoke (.mk (some candidate) body) (.mk (some candidate') body)

section Switch

variable {invoke : Invoker} {budget : Nat}

/-- After its value is found, a case is taken or passed over. -/
theorem Case.executeFirst_of_value {selector value : Value} {candidate : Expr} {body : List Stmt}
    {rest : List Case} {machine after : Machine}
    (found : candidate.evaluate invoke machine = (.ok value, after)) :
    Case.executeFirst invoke budget selector (.mk (some candidate) body :: rest) machine =
      if after.store.same value selector then
        Exec.inBlock (Stmt.executeAll invoke budget body) after
      else Case.executeFirst invoke budget selector rest after := by
  rw [Case.executeFirst, Exec.bind_of_ok found]
  change (if after.store.same value selector then Exec.inBlock (Stmt.executeAll invoke budget body)
    else Case.executeFirst invoke budget selector rest) after = _
  split <;> rfl

/-- A case whose value is not found ends the switch. -/
theorem Case.executeFirst_of_stop {selector : Value} {candidate : Expr} {body : List Stmt}
    {rest : List Case} {machine after : Machine} {stop : Stop}
    (stopped : candidate.evaluate invoke machine = (.error stop, after)) :
    Case.executeFirst invoke budget selector (.mk (some candidate) body :: rest) machine =
      (.error stop, after) := by
  rw [Case.executeFirst, Exec.bind_of_error stopped]

theorem Value.Interchangeable.same {left right left' right' : Value}
    (first : left.Interchangeable left') (second : right.Interchangeable right') (store : Store) :
    store.same left right = store.same left' right' := by
  have first' := holds_equal_iff.mp (first store)
  have second' := holds_equal_iff.mp (second store)
  rw [Bool.eq_iff_iff]
  constructor
  · exact fun same => store.same_trans (store.same_symm first') (store.same_trans same second')
  · exact fun same => store.same_trans first' (store.same_trans same (store.same_symm second'))

theorem Case.executeFirst_congr {selector selector' : Value} {cases cases' : List Case}
    (same : selector.Interchangeable selector')
    (alike : List.Forall₂ (Case.Alike invoke) cases cases') (machine : Machine) :
    Case.executeFirst invoke budget selector cases machine =
      Case.executeFirst invoke budget selector' cases' machine := by
  induction alike generalizing machine with
  | nil => rfl
  | cons first rest induction =>
      cases first with
      | otherwise body => rw [Case.executeFirst, Case.executeFirst]
      | value body alike =>
          rcases alike machine with ⟨stop, after, stopped, stopped'⟩ |
            ⟨value, value', after, same', found, found'⟩
          · rw [Case.executeFirst_of_stop stopped, Case.executeFirst_of_stop stopped']
          · rw [Case.executeFirst_of_value found, Case.executeFirst_of_value found',
              same'.same same, induction]

theorem Stmt.execute_switch_congr {condition condition' : Expr} {cases cases' : List Case}
    (same : (condition.evaluate invoke).EndsAlike (condition'.evaluate invoke))
    (alike : List.Forall₂ (Case.Alike invoke) cases cases') :
    (Stmt.switch condition cases).execute invoke budget =
      (Stmt.switch condition' cases').execute invoke budget := by
  funext machine
  rw [Stmt.execute, Stmt.execute]
  rcases same machine with ⟨stop, after, stopped, stopped'⟩ |
    ⟨value, value', after, same', found, found'⟩
  · rw [Exec.bind_of_error stopped, Exec.bind_of_error stopped']
  · rw [Exec.bind_of_ok found, Exec.bind_of_ok found']
    exact Case.executeFirst_congr same' alike after

/-- A switch takes cases by the operator for equality, so nothing changes if values in it are
written differently. -/
structure Invoker.SwitchesByEquality (invoke : Invoker) (budget : Nat) : Prop where
  taken : ∀ {selector value : Value} {candidate : Expr} {body : List Stmt} {rest : List Case}
    {machine after : Machine}, candidate.evaluate invoke machine = (.ok value, after) →
    Value.Holds after.store .equal value selector →
    Case.executeFirst invoke budget selector (.mk (some candidate) body :: rest) machine =
      Exec.inBlock (Stmt.executeAll invoke budget body) after
  passed : ∀ {selector value : Value} {candidate : Expr} {body : List Stmt} {rest : List Case}
    {machine after : Machine}, candidate.evaluate invoke machine = (.ok value, after) →
    ¬ Value.Holds after.store .equal value selector →
    Case.executeFirst invoke budget selector (.mk (some candidate) body :: rest) machine =
      Case.executeFirst invoke budget selector rest after
  congruent : ∀ {condition condition' : Expr} {cases cases' : List Case},
    (condition.evaluate invoke).EndsAlike (condition'.evaluate invoke) →
    List.Forall₂ (Case.Alike invoke) cases cases' →
    (Stmt.switch condition cases).execute invoke budget =
      (Stmt.switch condition' cases').execute invoke budget

theorem Invoker.switchesByEquality (invoke : Invoker) (budget : Nat) :
    invoke.SwitchesByEquality budget where
  taken := by
    intro selector value candidate body rest machine after found equal
    rw [Case.executeFirst_of_value found, if_pos (Value.holds_equal_iff.mp equal)]
  passed := by
    intro selector value candidate body rest machine after found unequal
    rw [Case.executeFirst_of_value found, if_neg fun same =>
      unequal (Value.holds_equal_iff.mpr same)]
  congruent := Stmt.execute_switch_congr

end Switch

/-- Order and equality are one relation on all values of the ordered classes, in lists as well, and
in the cases of a switch. -/
theorem Value.comparisons_cohere (store : Store) (invoke : Invoker) (budget : Nat) :
    store.OrdersValues ∧ store.EquatesValues ∧ invoke.SwitchesByEquality budget :=
  ⟨store.ordersValues, store.equatesValues, invoke.switchesByEquality budget⟩

/-- Two lists that hold `[1.0]` and `[1.00]` agree in shape. -/
theorem Value.comparisons_cohere_nested :
    Store.Alike ⟨#[[.scalar (.decimal ⟨10, 1⟩)], [.list 0], [.scalar (.decimal ⟨100, 2⟩)],
      [.list 2]]⟩ (.list 1) (.list 3) := by
  generalize isStore : Store.mk _ = store
  have acyclic : store.Acyclic := by
    apply Store.acyclic_of_older
    intro outer inner holds
    subst isStore
    match outer with
    | 0 | 1 | 2 | 3 => simp_all [Store.Holds, Store.elements]
    | outer + 4 => simp [Store.Holds, Store.elements] at holds
  obtain ⟨-, equates, -⟩ := Value.comparisons_cohere store (fun _ _ _ => Exec.stop .exhausted) 0
  rw [← equates.structural acyclic, ← isStore]
  rfl

end Procedural
