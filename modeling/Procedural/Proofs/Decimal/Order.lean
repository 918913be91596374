import Mathlib.Algebra.Order.Field.Rat
import Mathlib.Order.Compare
import Procedural.Proofs.Decimal.Rounding

/-!
# The order of decimal numbers

Pairs of digits and a scale are compared by sign, by order of magnitude and at last at a
common scale.  The first two comparisons only ever decide what the last one would find, so
the order is the one of the numbers that the pairs denote.
-/

namespace Procedural.Decimal

/-- A comparison that decides correctly, or not at all, can go before others that do. -/
theorem then_eq_compare {first rest : Ordering} {left right : ℚ}
    (less : first = .lt → left < right) (greater : first = .gt → right < left)
    (undecided : first = .eq → rest = Ord.compare left right) :
    first.then rest = Ord.compare left right := by
  cases first with
  | lt => exact (compare_lt_iff_lt.mpr (less rfl)).symm
  | eq => exact undecided rfl
  | gt => exact (compare_gt_iff_gt.mpr (greater rfl)).symm

/-- At one scale numbers are in the order of their digits. -/
theorem compareAligned_eq (left right : Decimal) :
    left.compareAligned right = Ord.compare left.value right.value := by
  unfold compareAligned
  dsimp only
  generalize isScale : max left.scale right.scale = scale
  have positive := unit_pos scale
  have aligned (number : Decimal) (finer : number.scale ≤ scale) :
      number.value = number.digitsAt scale * unit scale := by
    rw [digitsAt_eq number finer, ← value_div_unit, div_mul_cancel₀ _ positive.ne']
  rw [aligned left (isScale ▸ le_max_left _ _), aligned right (isScale ▸ le_max_right _ _),
    ← cmp_eq_compare, ← cmp_eq_compare, cmp_mul_pos_right positive,
    Int.cast_strictMono.cmp_map_eq]

theorem sign_value (number : Decimal) :
    (number.digits.sign = 1 → 0 < number.value) ∧ (number.digits.sign = 0 → number.value = 0) ∧
      (number.digits.sign = -1 → number.value < 0) := by
  have positive := unit_pos number.scale
  refine ⟨fun sign => ?_, fun sign => ?_, fun sign => ?_⟩
  · exact mul_pos (Int.cast_pos.mpr (Int.sign_eq_one_iff_pos.mp sign)) positive
  · rw [value, Int.sign_eq_zero_iff_zero.mp sign, Int.cast_zero, zero_mul]
  · have negative := Int.sign_eq_neg_one_iff_neg.mp sign
    exact mul_neg_of_neg_of_pos (Int.cast_lt_zero.mpr negative) positive

theorem ext {left right : Decimal} (digits : left.digits = right.digits)
    (scale : left.scale = right.scale) : left = right := by
  cases left
  cases right
  rw [Decimal.mk.injEq]
  exact ⟨digits, scale⟩

theorem value_eq_zero {number : Decimal} : number.value = 0 ↔ number.digits = 0 := by
  rw [value, mul_eq_zero_iff_right (unit_pos number.scale).ne', Int.cast_eq_zero]

theorem abs_value (number : Decimal) :
    |number.value| = number.digits.natAbs * unit number.scale := by
  rw [value, abs_mul, abs_of_pos (unit_pos number.scale), ← Int.cast_abs, Int.abs_eq_natAbs,
    Int.cast_natCast]

/-- The order of magnitude bounds a number from above. -/
theorem abs_value_lt (number : Decimal) : |number.value| < 10 ^ number.magnitude := by
  have below : (number.digits.natAbs : ℚ) <
      10 ^ (Numeral.digitCount number.digits.natAbs : Int) := by
    rw [zpow_natCast]
    exact_mod_cast Numeral.lt_pow_digitCount number.digits.natAbs
  rw [abs_value, magnitude, sub_eq_add_neg, zpow_add₀ (by norm_num)]
  exact mul_lt_mul_of_pos_right below (unit_pos number.scale)

/-- A number other than zero is not below the next lower order of magnitude. -/
theorem le_abs_value {number : Decimal} (nonzero : number.digits ≠ 0) :
    10 ^ (number.magnitude - 1) ≤ |number.value| := by
  have positive : 0 < number.digits.natAbs := Int.natAbs_pos.mpr nonzero
  have least : (10 : ℚ) ^ ((Numeral.digitCount number.digits.natAbs : Int) - 1) ≤
      number.digits.natAbs := by
    have counted : 0 < Numeral.digitCount number.digits.natAbs := by
      by_contra none
      have below := Numeral.lt_pow_digitCount number.digits.natAbs
      rw [Nat.eq_zero_of_not_pos none, pow_zero] at below
      omega
    have exponent : (Numeral.digitCount number.digits.natAbs : Int) - 1 =
        (Numeral.digitCount number.digits.natAbs - 1 : Nat) := by
      omega
    rw [exponent, zpow_natCast]
    exact_mod_cast Numeral.pow_digitCount_le positive
  have exponents : (Numeral.digitCount number.digits.natAbs : Int) - number.scale - 1 =
      Numeral.digitCount number.digits.natAbs - 1 + -number.scale := by
    ring
  rw [abs_value, magnitude, exponents, zpow_add₀ (by norm_num)]
  exact mul_le_mul_of_nonneg_right least (unit_pos number.scale).le

/-- Of two numbers the one of a lower order of magnitude is nearer to zero. -/
theorem abs_value_lt_of_magnitude {left right : Decimal} (nonzero : right.digits ≠ 0)
    (lower : left.magnitude < right.magnitude) : |left.value| < |right.value| :=
  calc |left.value|
      < 10 ^ left.magnitude := left.abs_value_lt
    _ ≤ 10 ^ (right.magnitude - 1) := zpow_le_zpow_right₀ (by norm_num) (by omega)
    _ ≤ |right.value| := le_abs_value nonzero

/-- Signs decide correctly. -/
theorem lt_of_sign {left right : Decimal} (lower : left.digits.sign < right.digits.sign) :
    left.value < right.value := by
  obtain ⟨-, zero, negative⟩ := left.sign_value
  obtain ⟨positive, zero', -⟩ := right.sign_value
  rcases Int.sign_trichotomy left.digits with sign | sign | sign <;>
    rcases Int.sign_trichotomy right.digits with sign' | sign' | sign' <;>
    rw [sign, sign'] at lower
  all_goals first | exact absurd lower (by decide) | skip
  · rw [zero sign]
    exact positive sign'
  · exact (negative sign).trans (positive sign')
  · rw [zero' sign']
    exact negative sign

/-- Between numbers of one sign orders of magnitude decide correctly. -/
theorem lt_of_magnitude {left right : Decimal} (same : left.digits.sign = right.digits.sign)
    (lower : left.digits.sign * left.magnitude < right.digits.sign * right.magnitude) :
    left.value < right.value := by
  obtain ⟨positive, -, negative⟩ := left.sign_value
  obtain ⟨positive', -, negative'⟩ := right.sign_value
  rw [← same] at positive' negative' lower
  rcases Int.sign_trichotomy left.digits with sign | sign | sign
  · rw [sign, one_mul, one_mul] at lower
    have nonzero : right.digits ≠ 0 := by
      intro zero
      rw [sign, zero] at same
      cases same
    have nearer := abs_value_lt_of_magnitude nonzero lower
    rwa [abs_of_pos (positive sign), abs_of_pos (positive' sign)] at nearer
  · rw [sign, zero_mul, zero_mul] at lower
    exact absurd lower (lt_irrefl 0)
  · rw [sign, neg_one_mul, neg_one_mul, neg_lt_neg_iff] at lower
    have nonzero : left.digits ≠ 0 := by
      intro zero
      rw [zero] at sign
      cases sign
    have nearer := abs_value_lt_of_magnitude nonzero lower
    rw [abs_of_neg (negative sign), abs_of_neg (negative' sign)] at nearer
    exact neg_lt_neg_iff.mp nearer

/-- Pairs are compared as the numbers that they denote. -/
theorem compare_eq (left right : Decimal) :
    left.compare right = Ord.compare left.value right.value := by
  unfold compare
  apply then_eq_compare
  · exact fun less => lt_of_sign (compare_lt_iff_lt.mp less)
  · exact fun greater => lt_of_sign (compare_gt_iff_gt.mp greater)
  · intro undecided
    have same : left.digits.sign = right.digits.sign := compare_eq_iff_eq.mp undecided
    apply then_eq_compare
    · exact fun less => lt_of_magnitude same (compare_lt_iff_lt.mp less)
    · exact fun greater => lt_of_magnitude same.symm (compare_gt_iff_gt.mp greater)
    · exact fun _ => compareAligned_eq left right

instance : Std.TransCmp compare where
  eq_swap := by
    intro left right
    rw [compare_eq, compare_eq]
    exact Std.OrientedCmp.eq_swap
  isLE_trans := by
    intro left middle right
    rw [compare_eq, compare_eq, compare_eq]
    exact Std.TransCmp.isLE_trans

/-- Zeros behind the digits are made up for by the scale. -/
theorem value_zeros (digits scale : Int) (zeros : Nat) :
    value ⟨digits * 10 ^ zeros, scale + zeros⟩ = value ⟨digits, scale⟩ := by
  rw [value, value, unit_eq_later scale zeros]
  push_cast
  ring

/-- Pairs count as equal exactly if they denote one number. -/
theorem same_iff {left right : Decimal} : left.same right = true ↔ left.value = right.value := by
  rw [same, compare_eq, beq_iff_eq, compare_eq_iff_eq]

end Procedural.Decimal
