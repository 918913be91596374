import Procedural.Proofs.Decimal.SignificantDigits
import Procedural.Proofs.Execution.Comparison

/-!
# Division of a product with one

A product with one is the other factor without the zeros at the end of its digits.  That is
the same number, but a quotient is rounded to the scale of the dividend, so the zeros that
are gone are digits that the quotient can no longer have.
-/

namespace Procedural

namespace Decimal

/-- The number one, with one fraction digit. -/
def one : Decimal :=
  ⟨10, 1⟩

/-- A product with one is normalized, also where both factors are one. -/
theorem mul_one_eq_normalize (number : Decimal) : number.mul one = number.normalize := by
  rw [mul]
  split
  next isUnit =>
    rw [eq_comm, normalize_eq_iff, value_of_isUnit isUnit]
    exact (value_of_isUnit rfl).symm
  · rfl

theorem div_value_of_zero {left : Decimal} (zero : left.digits = 0) (right : Decimal) :
    (left.div right).value = 0 := by
  have rounds := roundTo_rounds (left.quotient right) left.scale
  have trivially : left.quotient right = left := if_pos (.inl zero)
  rw [trivially] at rounds
  rw [div, trivially, value_of_rounds rounds le_rfl, value_eq_zero]
  exact zero

/-- What a number rounds to at one scale it rounds to at a smaller one, if only zeros are lost. -/
theorem rounds_of_zeros {exact : ℚ} {digits scale : Int} {zeros : Nat}
    (rounds : Rounds ⟨digits * 10 ^ zeros, scale + zeros⟩ exact (scale + zeros)) :
    Rounds ⟨digits, scale⟩ exact scale := by
  rw [rounds_iff_distance, value_zeros] at rounds
  obtain ⟨-, near, even⟩ := rounds
  have smaller : unit (scale + zeros) ≤ unit scale :=
    zpow_le_zpow_right₀ (by norm_num) (by omega)
  rw [rounds_iff_distance]
  refine ⟨rfl, near.trans smaller, fun midway => ?_⟩
  have same : unit (scale + zeros) = unit scale := le_antisymm smaller (midway ▸ near)
  have noZeros : zeros = 0 := by
    have exponents : -(scale + zeros) = -scale :=
      zpow_right_injective₀ (by norm_num) (by norm_num) same
    omega
  have even' := even (midway.trans same.symm)
  rwa [noZeros, pow_zero, mul_one] at even'

variable {left right product : Decimal} {zeros : Nat}

/-- Without the zeros of the dividend the quotient is the same if it ends in as many zeros, and if
the number that is rounded rounds to what is before them. -/
theorem div_value_eq_iff (drops : left.DropsZeros zeros product) :
    (product.div right).value = (left.div right).value ↔
      ∃ digits, (left.div right).digits = digits * 10 ^ zeros ∧
        Rounds ⟨digits, product.scale⟩ (product.quotient right).value product.scale := by
  have rounds := roundTo_rounds (product.quotient right) product.scale
  have atScale : (left.div right).scale = (product.div right).scale + zeros := by
    rw [div, div, (roundTo_rounds _ _).atScale, (roundTo_rounds _ _).atScale, drops.scale]
  constructor
  · intro same
    refine ⟨(product.div right).digits, digits_eq_of_value same atScale, ?_⟩
    have isPair : ⟨(product.div right).digits, product.scale⟩ = product.div right :=
      ext rfl rounds.atScale.symm
    rw [isPair]
    exact rounds
  · rintro ⟨digits, isProduct, rounds'⟩
    have isResult : product.div right = ⟨digits, product.scale⟩ := rounds.unique rounds'
    have isResult' : left.div right = ⟨digits * 10 ^ zeros, product.scale + zeros⟩ :=
      ext isProduct (by rw [atScale, isResult])
    rw [isResult, isResult', value_zeros]

/-- If the quotient is short enough, then it is the same if it ends in as many zeros. -/
theorem div_value_eq_iff_dvd (drops : left.DropsZeros zeros product)
    (short : left.digits.natAbs < 10 ^ 100 * right.digits.natAbs) :
    (product.div right).value = (left.div right).value ↔ 10 ^ zeros ∣ (left.div right).digits := by
  rw [div_value_eq_iff drops]
  constructor
  · rintro ⟨digits, isProduct, -⟩
    exact ⟨digits, isProduct.trans (mul_comm _ _)⟩
  · rintro ⟨digits, isProduct⟩
    rw [mul_comm] at isProduct
    have rounds : (left.div right).Rounds _ _ := roundTo_rounds (left.quotient right) left.scale
    have isResult : left.div right = ⟨digits * 10 ^ zeros, product.scale + zeros⟩ :=
      ext isProduct (rounds.atScale.trans drops.scale)
    rw [isResult, drops.scale] at rounds
    rw [quotient_congr drops.value (drops.natAbs_le.trans_lt short) short]
    exact ⟨digits, isProduct, rounds_of_zeros rounds⟩

end Decimal

namespace Value

theorem multiply_one (store : Store) (left : Decimal) :
    applyOperator store .multiply (.scalar (.decimal left)) (.scalar (.decimal .one)) =
      .ok (.decimal left.normalize) := by
  rw [← Decimal.mul_one_eq_normalize]
  rfl

theorem divide_decimals (store : Store) (left : Decimal) {right : Decimal}
    (nonzero : right.digits ≠ 0) :
    applyOperator store .divide (.scalar (.decimal left)) (.scalar (.decimal right)) =
      .ok (.decimal (left.div right)) := by
  change (divideDecimals left right >>= fun result => .ok (Scalar.decimal result)) = _
  rw [divideDecimals, if_neg nonzero]
  rfl

theorem equal_decimals_iff {store : Store} {left right : Decimal} :
    Holds store .equal (.scalar (.decimal left)) (.scalar (.decimal right)) ↔
      left.value = right.value :=
  store.equatesValues.decimals

/-- A product with one is the same number without the zeros at the end of its digits.  A quotient of
it is the same if nothing was lost, and else it is the same only if it ends in as many zeros. -/
theorem divide_unit_product (store : Store) (left right : Decimal) (nonzero : right.digits ≠ 0) :
    ∃ product result result' : Decimal,
      applyOperator store .multiply (.scalar (.decimal left)) (.scalar (.decimal .one)) =
        .ok (.decimal product) ∧
      applyOperator store .divide (.scalar (.decimal left)) (.scalar (.decimal right)) =
        .ok (.decimal result) ∧
      applyOperator store .divide (.scalar (.decimal product)) (.scalar (.decimal right)) =
        .ok (.decimal result') ∧
      let equal := Holds store .equal (.scalar (.decimal result')) (.scalar (.decimal result))
      Holds store .equal (.scalar (.decimal product)) (.scalar (.decimal left)) ∧
      (left.digits = 0 → equal) ∧
      (left.digits ≠ 0 → ∃ zeros, left.DropsZeros zeros product ∧
        (zeros = 0 → result' = result) ∧
        (equal ↔ ∃ digits, result.digits = digits * 10 ^ zeros ∧
          Decimal.Rounds ⟨digits, product.scale⟩ (product.quotient right).value product.scale) ∧
        (left.digits.natAbs < 10 ^ 100 * right.digits.natAbs →
          (equal ↔ 10 ^ zeros ∣ result.digits))) := by
  refine ⟨left.normalize, left.div right, left.normalize.div right, multiply_one store left,
    divide_decimals store left nonzero, divide_decimals store _ nonzero, ?_⟩
  intro equal
  have isEqual : equal ↔ (left.normalize.div right).value = (left.div right).value :=
    equal_decimals_iff
  refine ⟨equal_decimals_iff.mpr left.normalize_value, fun zero => ?_, fun nonzero' => ?_⟩
  · have zero' : left.normalize.digits = 0 := by rw [Decimal.normalize_of_zero zero]
    rw [isEqual, Decimal.div_value_of_zero zero, Decimal.div_value_of_zero zero']
  · obtain ⟨zeros, drops⟩ := Decimal.normalize_spec nonzero'
    refine ⟨zeros, drops, ?_, ?_, fun short => ?_⟩
    · rintro rfl
      rw [drops.eq_of_zero]
    · rw [isEqual, Decimal.div_value_eq_iff drops]
    · rw [isEqual, Decimal.div_value_eq_iff_dvd drops short]

/-- Ten divided by a half ends in two zeros, so nothing is lost. -/
theorem divide_unit_product_half :
    applyOperator .empty .multiply (.scalar (.decimal ⟨100, 1⟩)) (.scalar (.decimal .one)) =
        .ok (.decimal ⟨1, -1⟩) ∧
      applyOperator .empty .divide (.scalar (.decimal ⟨100, 1⟩)) (.scalar (.decimal ⟨5, 1⟩)) =
        .ok (.decimal ⟨200, 1⟩) ∧
      applyOperator .empty .divide (.scalar (.decimal ⟨1, -1⟩)) (.scalar (.decimal ⟨5, 1⟩)) =
        .ok (.decimal ⟨2, -1⟩) ∧
      Holds .empty .equal (.scalar (.decimal ⟨2, -1⟩)) (.scalar (.decimal ⟨200, 1⟩)) := by
  obtain ⟨product, result, result', multiplies, divides, divides', -, -, spares⟩ :=
    divide_unit_product .empty ⟨100, 1⟩ ⟨5, 1⟩ (by decide)
  have found : applyOperator .empty .multiply (.scalar (.decimal ⟨100, 1⟩))
      (.scalar (.decimal .one)) = .ok (.decimal ⟨1, -1⟩) := by
    decide +kernel
  obtain rfl := Scalar.decimal.inj (Except.ok.inj (found.symm.trans multiplies))
  have found' : applyOperator .empty .divide (.scalar (.decimal ⟨100, 1⟩))
      (.scalar (.decimal ⟨5, 1⟩)) = .ok (.decimal ⟨200, 1⟩) := by
    decide +kernel
  obtain rfl := Scalar.decimal.inj (Except.ok.inj (found'.symm.trans divides))
  have found'' : applyOperator .empty .divide (.scalar (.decimal ⟨1, -1⟩))
      (.scalar (.decimal ⟨5, 1⟩)) = .ok (.decimal ⟨2, -1⟩) := by
    decide +kernel
  obtain rfl := Scalar.decimal.inj (Except.ok.inj (found''.symm.trans divides'))
  obtain ⟨zeros, drops, -, -, ends⟩ := spares (by decide)
  have two : zeros = 2 := by
    have apart : (1 : Int) = -1 + zeros := drops.scale
    omega
  subst two
  exact ⟨found, found', found'', (ends (by decide +kernel)).mpr (by decide)⟩

/-- Ten divided by three has digits behind the point, and ten times one has no place for them. -/
theorem divide_unit_product_third :
    applyOperator .empty .multiply (.scalar (.decimal ⟨100, 1⟩)) (.scalar (.decimal .one)) =
        .ok (.decimal ⟨1, -1⟩) ∧
      applyOperator .empty .divide (.scalar (.decimal ⟨100, 1⟩)) (.scalar (.decimal ⟨30, 1⟩)) =
        .ok (.decimal ⟨33, 1⟩) ∧
      applyOperator .empty .divide (.scalar (.decimal ⟨1, -1⟩)) (.scalar (.decimal ⟨30, 1⟩)) =
        .ok (.decimal ⟨0, -1⟩) ∧
      ¬ Holds .empty .equal (.scalar (.decimal ⟨0, -1⟩)) (.scalar (.decimal ⟨33, 1⟩)) := by
  unfold Holds
  decide +kernel

end Value

end Procedural
