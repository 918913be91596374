import Procedural.Proofs.Decimal.Normalization
import Procedural.Proofs.Store.Acyclic

/-!
# Equality of values

Two data are the same if they are equal after every decimal number in them is normalized, so
sameness is an equivalence.  In a store without cycles it is agreement in shape, down to
scalars that are equal or are two pairs of one decimal number.
-/

namespace Procedural

/-- The scalar with a decimal number normalized. -/
def Scalar.canonical : Scalar → Scalar
  | .decimal number => .decimal number.normalize
  | other => other

theorem Scalar.same_iff {left right : Scalar} :
    left.same right = true ↔ left.canonical = right.canonical := by
  cases left with
  | decimal number =>
      cases right with
      | decimal number' =>
          rw [Scalar.same, Decimal.same_iff, ← Decimal.normalize_eq_iff, canonical, canonical,
            Scalar.decimal.injEq]
      | _ => simp [Scalar.same, canonical]
  | _ => cases right <;> simp [Scalar.same, canonical]

/-- Scalars that are the same are equal, or they are pairs of one decimal number. -/
theorem Scalar.eq_or_decimal {left right : Scalar} (same : left.same right = true) :
    left = right ∨ ∃ number number', left = .decimal number ∧ right = .decimal number' ∧
      number.value = number'.value := by
  cases left with
  | nil =>
      cases right with
      | nil => exact .inl rfl
      | _ => cases same
  | decimal number =>
      cases right with
      | decimal number' => exact .inr ⟨number, number', rfl, rfl, Decimal.same_iff.mp same⟩
      | _ => cases same
  | _ =>
      cases right <;> simp only [Scalar.same, beq_iff_eq, Bool.false_eq_true] at same
      rw [same]
      exact .inl rfl

namespace Datum

mutual

/-- The datum with every decimal number normalized. -/
def canonical : Datum → Datum
  | scalar value => scalar value.canonical
  | list elements => list (canonicalList elements)

def canonicalList : List Datum → List Datum
  | [] => []
  | first :: rest => first.canonical :: canonicalList rest

end

mutual

theorem same_iff (left right : Datum) :
    left.same right = true ↔ left.canonical = right.canonical := by
  cases left with
  | scalar value =>
      cases right with
      | scalar value' => rw [same, Scalar.same_iff, canonical, canonical, scalar.injEq]
      | list elements => simp [same, canonical]
  | list elements =>
      cases right with
      | scalar value => simp [same, canonical]
      | list elements' => rw [same, sameList_iff, canonical, canonical, list.injEq]

theorem sameList_iff (left right : List Datum) :
    sameList left right = true ↔ canonicalList left = canonicalList right := by
  cases left with
  | nil => cases right <;> simp [sameList, canonicalList]
  | cons first rest =>
      cases right with
      | nil => simp [sameList, canonicalList]
      | cons first' rest' =>
          rw [sameList, Bool.and_eq_true, same_iff, sameList_iff, canonicalList, canonicalList,
            List.cons.injEq]

end

end Datum

namespace Store

variable {store : Store}

theorem same_iff {left right : Value} :
    store.same left right = true ↔
      (store.datum left).canonical = (store.datum right).canonical := by
  rw [same_eq, Datum.same_iff]

theorem same_scalar (left right : Scalar) :
    store.same (.scalar left) (.scalar right) = left.same right := by
  simp [same, sameWithin]

@[simp] theorem same_scalar_list (value : Scalar) (cell : Nat) :
    store.same (.scalar value) (.list cell) = false := by
  simp [same, sameWithin]

@[simp] theorem same_list_scalar (cell : Nat) (value : Scalar) :
    store.same (.list cell) (.scalar value) = false := by
  simp [same, sameWithin]

theorem same_refl (value : Value) : store.same value value = true :=
  same_iff.mpr rfl

theorem same_symm {left right : Value} (same : store.same left right = true) :
    store.same right left = true :=
  same_iff.mpr (same_iff.mp same).symm

theorem same_trans {left middle right : Value} (first : store.same left middle = true)
    (second : store.same middle right = true) : store.same left right = true :=
  same_iff.mpr ((same_iff.mp first).trans (same_iff.mp second))

/-- Values agree in shape, and where they are scalars these are equal or denote one decimal
number. -/
inductive Alike (store : Store) : Value → Value → Prop where
  | scalar {value : Scalar} : Alike store (.scalar value) (.scalar value)
  | decimal {left right : Decimal} :
      left.value = right.value → Alike store (.scalar (.decimal left)) (.scalar (.decimal right))
  | list {left right : Nat} :
      (store.elements left).length = (store.elements right).length →
      (∀ pair ∈ (store.elements left).zip (store.elements right), Alike store pair.1 pair.2) →
      Alike store (.list left) (.list right)

theorem alike_scalar_iff {left right : Scalar} :
    store.Alike (.scalar left) (.scalar right) ↔ left.same right = true := by
  constructor
  · intro alike
    cases alike with
    | scalar => exact Scalar.same_iff.mpr rfl
    | decimal equal => exact Decimal.same_iff.mpr equal
  · intro same
    rcases Scalar.eq_or_decimal same with rfl | ⟨_, _, rfl, rfl, equal⟩
    · exact .scalar
    · exact .decimal equal

theorem alike_of_same_scalar {left : Scalar} {right : Value}
    (same : store.same (.scalar left) right = true) : store.Alike (.scalar left) right := by
  cases right with
  | scalar value => exact alike_scalar_iff.mpr (same_scalar left value ▸ same)
  | list cell => simp at same

/-- Without cycles, values that agree in shape are the same and no others are. -/
theorem Acyclic.same_iff_alike (acyclic : store.Acyclic) {left right : Value} :
    store.same left right = true ↔ store.Alike left right := by
  constructor
  · intro same
    cases left with
    | scalar value => exact alike_of_same_scalar same
    | list cell =>
        induction cell using acyclic.wellFounded.induction generalizing right with
        | _ cell induction =>
            cases right with
            | scalar value => simp at same
            | list cell' =>
                rw [acyclic.same_list, Bool.and_eq_true, beq_iff_eq, List.all_eq_true] at same
                refine .list same.1 fun pair member => ?_
                have same' := same.2 pair member
                obtain ⟨first, second⟩ := pair
                cases first with
                | scalar value => exact alike_of_same_scalar same'
                | list inner => exact induction inner (List.of_mem_zip member).1 same'
  · intro alike
    induction alike with
    | scalar => exact same_refl _
    | decimal equal =>
        rw [same_scalar]
        exact Decimal.same_iff.mpr equal
    | list length _ induction =>
        rw [acyclic.same_list, Bool.and_eq_true, beq_iff_eq, List.all_eq_true]
        exact ⟨length, induction⟩

end Store

end Procedural
