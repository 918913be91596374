import Mathlib.Algebra.Order.Group.Unbundled.Int
import Procedural.Proofs.Decimal.Order

/-!
# Normal forms of decimal numbers

A pair is normalized by moving the zeros at the end of its digits into the scale, first many
at a time and then fewer.  What is left ends in no zero, and there is one such pair for each
number.
-/

namespace Procedural.Decimal

/-- The pair differs from its normal form by so many zeros at the end of its digits. -/
structure DropsZeros (number : Decimal) (zeros : Nat) (normal : Decimal) : Prop where
  digits : number.digits = normal.digits * 10 ^ zeros
  scale : number.scale = normal.scale + zeros
  ends : ¬ (10 : Int) ∣ normal.digits

namespace DropsZeros

variable {number normal : Decimal} {zeros : Nat}

theorem value (drops : number.DropsZeros zeros normal) : normal.value = number.value := by
  obtain ⟨digits, scale⟩ := number
  obtain ⟨rfl, rfl, -⟩ := drops
  exact (value_zeros normal.digits normal.scale zeros).symm

theorem eq_of_zero (drops : number.DropsZeros 0 normal) : normal = number := by
  have digits := drops.digits
  have scale := drops.scale
  rw [pow_zero, mul_one] at digits
  rw [Nat.cast_zero, add_zero] at scale
  exact ext digits.symm scale.symm

theorem sign (drops : number.DropsZeros zeros normal) :
    number.digits.sign = normal.digits.sign := by
  have positive : (10 ^ zeros : Int).sign = 1 := Int.sign_eq_one_of_pos (by positivity)
  rw [drops.digits, Int.sign_mul, positive, mul_one]

theorem natAbs_le (drops : number.DropsZeros zeros normal) :
    normal.digits.natAbs ≤ number.digits.natAbs := by
  rw [drops.digits, Int.natAbs_mul, Int.natAbs_pow]
  exact Nat.le_mul_of_pos_right _ (by positivity)

end DropsZeros

/-- Halving the number of zeros that are tried finds all of them, if they are fewer than that. -/
theorem dropZeros_spec (level : Nat) (number : Decimal)
    (fewer : ¬ (10 : Int) ^ 2 ^ level ∣ number.digits) :
    ∃ zeros, number.DropsZeros zeros (dropZeros level number) := by
  induction level generalizing number with
  | zero =>
      refine ⟨0, by simp [dropZeros], by simp [dropZeros], ?_⟩
      rwa [pow_zero, pow_one] at fewer
  | succ level induction =>
      have isBase : ((Numeral.base level : Nat) : Int) = 10 ^ 2 ^ level := by
        rw [Numeral.base_eq]
        push_cast
        rfl
      rw [dropZeros, isBase]
      split
      next divides =>
        obtain ⟨digits, isProduct⟩ := Int.dvd_of_emod_eq_zero divides
        have quotient : number.digits / 10 ^ 2 ^ level = digits := by
          rw [isProduct, Int.mul_ediv_cancel_left _ (by positivity)]
        rw [quotient]
        obtain ⟨zeros, drops⟩ := induction ⟨digits, number.scale - Nat.pow 2 level⟩ (by
          rintro ⟨factor, again⟩
          apply fewer
          refine ⟨factor, ?_⟩
          rw [isProduct, show digits = 10 ^ 2 ^ level * factor from again, pow_succ 2 level,
            mul_two, pow_add, mul_assoc])
        generalize dropZeros level _ = normal at drops ⊢
        have isDigits : digits = normal.digits * 10 ^ zeros := drops.digits
        have isScale : number.scale - Nat.pow 2 level = normal.scale + zeros := drops.scale
        refine ⟨2 ^ level + zeros, ?_, ?_, drops.ends⟩
        · rw [isProduct, isDigits, pow_add]
          ring
        · rw [sub_eq_iff_eq_add.mp isScale, Nat.pow_eq]
          push_cast
          ring
      next whole =>
        exact induction number fun divides => whole (Int.emod_eq_zero_of_dvd divides)

theorem normalize_of_zero {number : Decimal} (zero : number.digits = 0) :
    number.normalize = ⟨0, 0⟩ := by
  rw [normalize, if_pos zero]

theorem normalize_spec {number : Decimal} (nonzero : number.digits ≠ 0) :
    ∃ zeros, number.DropsZeros zeros number.normalize := by
  rw [normalize, if_neg nonzero]
  apply dropZeros_spec
  intro divides
  have below : |number.digits| < 10 ^ 2 ^ Numeral.level number.digits.natAbs := by
    have below := Numeral.lt_base_level number.digits.natAbs
    rw [Numeral.base_eq] at below
    rw [Int.abs_eq_natAbs]
    exact_mod_cast below
  exact nonzero (Int.eq_zero_of_abs_lt_dvd divides below)

theorem normalize_value (number : Decimal) : number.normalize.value = number.value := by
  by_cases zero : number.digits = 0
  · rw [normalize_of_zero zero, value, value, zero, Int.cast_zero, zero_mul, zero_mul]
  · obtain ⟨_, drops⟩ := normalize_spec zero
    exact drops.value

/-- Of two pairs that denote one number, the one of the larger scale has so many zeros more. -/
theorem digits_eq_of_value {left right : Decimal} {zeros : Nat} (same : left.value = right.value)
    (apart : right.scale = left.scale + zeros) : right.digits = left.digits * 10 ^ zeros := by
  rw [← value_zeros left.digits left.scale zeros, ← apart, value, value] at same
  exact_mod_cast (mul_right_cancel₀ (unit_pos right.scale).ne' same).symm

/-- There is one pair of a number whose digits end in no zero. -/
theorem eq_of_value {left right : Decimal} (ends : ¬ (10 : Int) ∣ left.digits)
    (ends' : ¬ (10 : Int) ∣ right.digits) (same : left.value = right.value) : left = right := by
  have noZeros {left right : Decimal} (ends : ¬ (10 : Int) ∣ right.digits)
      (same : left.value = right.value) : right.scale ≤ left.scale := by
    by_contra further
    obtain ⟨zeros, apart⟩ := Int.le.dest (not_le.mp further).le
    rw [digits_eq_of_value same apart.symm] at ends
    exact ends (dvd_mul_of_dvd_right (dvd_pow_self 10 (by omega)) _)
  have scale := le_antisymm (noZeros ends same.symm) (noZeros ends' same)
  have digits : right.digits = left.digits * 10 ^ 0 :=
    digits_eq_of_value same (by rw [scale, Nat.cast_zero, add_zero])
  rw [pow_zero, mul_one] at digits
  exact ext digits.symm scale

/-- Pairs denote one number exactly if they have one normal form. -/
theorem normalize_eq_iff {left right : Decimal} :
    left.normalize = right.normalize ↔ left.value = right.value := by
  constructor
  · intro same
    rw [← left.normalize_value, same, right.normalize_value]
  · intro same
    have bothZero : left.digits = 0 ↔ right.digits = 0 := by
      rw [← value_eq_zero, same, value_eq_zero]
    by_cases zero : left.digits = 0
    · rw [normalize_of_zero zero, normalize_of_zero (bothZero.mp zero)]
    · obtain ⟨_, drops⟩ := normalize_spec zero
      obtain ⟨_, drops'⟩ := normalize_spec fun zero' => zero (bothZero.mpr zero')
      apply eq_of_value drops.ends drops'.ends
      rw [drops.value, drops'.value, same]

end Procedural.Decimal
