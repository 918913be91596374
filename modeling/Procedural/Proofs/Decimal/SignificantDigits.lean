import Mathlib.Algebra.Order.Round
import Mathlib.Data.Rat.Floor
import Mathlib.Data.Sign.Basic
import Procedural.Proofs.Decimal.Division
import Procedural.Proofs.Decimal.Order

/-!
# A hundred significant digits

The quotient of two numbers whose digits have a quotient below `10 ^ 100` is shortened to a
hundred significant digits.  These depend on the numbers and not on the pairs that denote
them, so long division finds the same number from every pair of the dividend.
-/

namespace Procedural.Decimal

/-- Of a number other than zero a hundred digits are kept, the last one rounded away from zero. -/
def Shortened (exact number : ℚ) : Prop :=
  ∃ places : Int, 10 ^ 99 ≤ |exact| * 10 ^ places ∧ |exact| * 10 ^ places < 10 ^ 100 ∧
    number * 10 ^ places = SignType.sign exact * round (|exact| * 10 ^ places)

namespace Shortened

variable {exact number number' : ℚ}

/-- One place further there are too many digits. -/
theorem places_le {magnitude : ℚ} {places places' : Int} (long : 10 ^ 99 ≤ magnitude * 10 ^ places)
    (short : magnitude * 10 ^ places' < 10 ^ 100) : places' ≤ places := by
  by_contra further
  obtain ⟨more, apart⟩ := Int.le.dest (Int.add_one_le_of_lt (not_le.mp further))
  have split : magnitude * 10 ^ places' = magnitude * 10 ^ places * 10 * 10 ^ more := by
    rw [← apart, zpow_add₀ (by norm_num), zpow_add₀ (by norm_num), zpow_one, zpow_natCast]
    ring
  have grows : (1 : ℚ) ≤ 10 ^ more := one_le_pow₀ (by norm_num)
  have : (10 : ℚ) ^ 100 ≤ magnitude * 10 ^ places * 10 * 10 ^ more :=
    calc (10 : ℚ) ^ 100 = 10 ^ 99 * 10 * 1 := by norm_num
      _ ≤ magnitude * 10 ^ places * 10 * 10 ^ more := by gcongr
  linarith

theorem unique (shortened : Shortened exact number) (shortened' : Shortened exact number') :
    number = number' := by
  obtain ⟨places, long, short, rounded⟩ := shortened
  obtain ⟨places', long', short', rounded'⟩ := shortened'
  obtain rfl := le_antisymm (places_le long' short) (places_le long short')
  exact mul_right_cancel₀ (zpow_pos (by norm_num) places).ne' (rounded.trans rounded'.symm)

theorem signed {sign : Int} (isSign : |sign| = 1) (positive : 0 < exact)
    (shortened : Shortened exact number) : Shortened (sign * exact) (sign * number) := by
  obtain ⟨places, long, short, rounded⟩ := shortened
  have same : |sign * exact| = |exact| := by
    rw [abs_mul, ← Int.cast_abs, isSign, Int.cast_one, one_mul]
  refine ⟨places, same ▸ long, same ▸ short, ?_⟩
  rw [same, sign_mul, sign_pos positive, mul_one, mul_assoc, rounded, sign_pos positive]
  rcases (abs_eq (by norm_num)).mp isSign with rfl | rfl <;> simp

/-- A number of a hundred digits in units of the last place is rounded to an integer. -/
theorem of_ratio {ratio : ℚ} (long : 10 ^ 99 ≤ ratio) (short : ratio < 10 ^ 100) (scale : Int) :
    Shortened (ratio * unit scale) (round ratio * unit scale) := by
  have inUnits (number : ℚ) : number * unit scale * 10 ^ scale = number := by
    rw [unit, mul_assoc, ← zpow_add₀ (by norm_num), neg_add_cancel, zpow_zero, mul_one]
  have positive : 0 < ratio * unit scale :=
    mul_pos (lt_of_lt_of_le (by norm_num) long) (unit_pos scale)
  refine ⟨scale, ?_, ?_, ?_⟩
  · rwa [abs_of_pos positive, inUnits]
  · rwa [abs_of_pos positive, inUnits]
  · rw [abs_of_pos positive, inUnits, inUnits, sign_pos positive, SignType.coe_one, one_mul]

/-- Digits that are short enough are all kept. -/
theorem of_digits {digits : Nat} (positive : 0 < digits) (short : digits < 10 ^ 100) (scale : Int) :
    Shortened (digits * unit scale) (digits * unit scale) := by
  obtain ⟨more, counted⟩ := Nat.exists_eq_add_of_le (Numeral.digitCount_le positive short)
  have padded : digits * unit scale = (digits * 10 ^ more : ℕ) * unit (scale + more) := by
    rw [unit_eq_later scale more]
    push_cast
    ring
  have least : 10 ^ 99 ≤ digits * 10 ^ more :=
    calc 10 ^ 99
        ≤ 10 ^ (Numeral.digitCount digits - 1 + more) :=
          Nat.pow_le_pow_right (by decide) (by omega)
      _ = 10 ^ (Numeral.digitCount digits - 1) * 10 ^ more := Nat.pow_add _ _ _
      _ ≤ digits * 10 ^ more := Nat.mul_le_mul_right _ (Numeral.pow_digitCount_le positive)
  have most : digits * 10 ^ more < 10 ^ 100 := by
    rw [counted, Nat.pow_add]
    exact Nat.mul_lt_mul_of_pos_right (Numeral.lt_pow_digitCount digits) (by positivity)
  have shortened : Shortened ((digits * 10 ^ more : ℕ) * unit (scale + more)) _ :=
    of_ratio (by exact_mod_cast least) (by exact_mod_cast most) _
  rw [round_natCast, Int.cast_natCast, ← padded] at shortened
  exact shortened

end Shortened

/-- A quotient is finished by rounding it, a half going up. -/
theorem PartialQuotient.finish_eq_round {state : PartialQuotient} {divisor : Nat}
    (below : state.remainder < divisor) :
    (state.finish divisor : ℤ) =
      round (((state.quotient * divisor + state.remainder : ℕ) : ℚ) / divisor) := by
  have positive : (0 : ℚ) < divisor := by exact_mod_cast Nat.zero_lt_of_lt below
  have below' : (state.remainder : ℚ) < divisor := by exact_mod_cast below
  rw [eq_comm, round_eq, Int.floor_eq_iff, ← sub_le_iff_le_add, ← lt_sub_iff_add_lt,
    le_div_iff₀ positive, div_lt_iff₀ positive, finish]
  push_cast
  split
  next up =>
    have most : (divisor : ℚ) ≤ 2 * state.remainder := by
      exact_mod_cast (five_le_iff below).mp up
    constructor <;> linarith
  next down =>
    have least : 2 * (state.remainder : ℚ) < divisor := by
      exact_mod_cast Nat.lt_of_not_le fun most => down ((five_le_iff below).mpr most)
    constructor <;> linarith

/-- Long division of numbers whose quotient is short enough shortens it. -/
theorem longDivision_shortened {numerator divisor : Nat} (positive : 0 < numerator)
    (nonzero : 0 < divisor) (short : numerator < 10 ^ 100 * divisor) (scale : Int) :
    Shortened (numerator / divisor * unit scale)
      ((longDivision numerator divisor scale).1 *
        unit (longDivision numerator divisor scale).2) := by
  obtain ⟨state, ⟨below, steps, atScale, same⟩, ends, most, found⟩ :=
    longDivision_state positive nonzero scale
  have exact : (numerator / divisor * unit scale : ℚ) =
      (state.quotient * divisor + state.remainder : ℕ) / divisor * unit state.scale := by
    rw [same, atScale, unit_eq_later scale steps]
    push_cast
    ring
  rw [found, exact]
  have nonzero' : (0 : ℚ) < divisor := by exact_mod_cast nonzero
  by_cases long : 10 ^ 99 ≤ state.quotient
  · -- all digits are found, and the last one is rounded
    rw [← Int.cast_natCast (state.finish divisor), PartialQuotient.finish_eq_round below]
    apply Shortened.of_ratio
    · rw [le_div_iff₀ nonzero']
      exact_mod_cast (Nat.mul_le_mul_right divisor long).trans (Nat.le_add_right _ _)
    · rw [div_lt_iff₀ nonzero']
      have whole : (state.quotient + 1) * divisor ≤ 10 ^ 100 * divisor :=
        Nat.mul_le_mul_right divisor (most short)
      rw [Nat.succ_mul] at whole
      exact_mod_cast (Nat.add_lt_add_left below _).trans_le whole
  · -- nothing is left over, so there are no other digits
    have complete := ends.resolve_right long
    have up : ¬ divisor ≤ 2 * state.remainder := by omega
    have whole : 0 < state.quotient := by
      apply Nat.pos_of_ne_zero
      intro zero
      rw [zero, complete, Nat.zero_mul] at same
      exact (Nat.mul_pos positive (by positivity)).ne same
    rw [PartialQuotient.finish, if_neg (mt (PartialQuotient.five_le_iff below).mp up), complete,
      Nat.add_zero, Nat.cast_mul, mul_div_cancel_right₀ _ nonzero'.ne']
    exact .of_digits whole (most short) _

/-- A quotient that is not read off the operands and is short enough is shortened. -/
theorem quotient_shortened {left right : Decimal} (nonzero : left.digits ≠ 0)
    (noUnit : ¬ right.isUnit = true)
    (short : left.digits.natAbs < 10 ^ 100 * right.digits.natAbs) :
    Shortened (left.value / right.value) (left.quotient right).value := by
  have positive : 0 < left.digits.natAbs := Int.natAbs_pos.mpr nonzero
  have positive' : 0 < right.digits.natAbs := Nat.pos_of_ne_zero fun zero => by
    rw [zero] at short
    exact absurd short (Nat.not_lt_zero _)
  have nonzero' : right.digits ≠ 0 := Int.natAbs_pos.mp positive'
  rw [quotient, if_neg (not_or.mpr ⟨nonzero, noUnit⟩), value_div]
  split
  next same =>
    rw [same, div_self (Int.cast_ne_zero.mpr nonzero'), value, Int.cast_one]
    have shortened := Shortened.of_digits Nat.one_pos (by norm_num) (left.scale - right.scale)
    rwa [Nat.cast_one] at shortened
  next =>
    have isSign : |left.digits.sign * right.digits.sign| = 1 := by
      rw [abs_mul, Int.abs_sign_of_ne_zero nonzero, Int.abs_sign_of_ne_zero nonzero', mul_one]
    have exact : 0 < (left.digits.natAbs / right.digits.natAbs : ℚ) *
        unit (left.scale - right.scale) := by
      have := unit_pos (left.scale - right.scale)
      positivity
    have shortened := (longDivision_shortened positive positive' short
      (left.scale - right.scale)).signed isSign exact
    generalize longDivision _ _ _ = found at shortened
    rw [div_eq_sign_mul, mul_assoc, value, Int.cast_mul _ (found.1 : Int), mul_assoc]
    exact shortened

/-- Which pair of the dividend is taken makes no difference to a quotient that is short enough. -/
theorem quotient_congr {left left' right : Decimal} (same : left.value = left'.value)
    (short : left.digits.natAbs < 10 ^ 100 * right.digits.natAbs)
    (short' : left'.digits.natAbs < 10 ^ 100 * right.digits.natAbs) :
    (left.quotient right).value = (left'.quotient right).value := by
  have bothZero : left.digits = 0 ↔ left'.digits = 0 := by
    rw [← value_eq_zero, same, value_eq_zero]
  by_cases trivially : left.digits = 0 ∨ right.isUnit = true
  · rw [quotient, quotient, if_pos trivially, if_pos (trivially.imp_left bothZero.mp), same]
  · obtain ⟨nonzero, noUnit⟩ := not_or.mp trivially
    have shortened := quotient_shortened nonzero noUnit short
    rw [same] at shortened
    exact shortened.unique (quotient_shortened (mt bothZero.mpr nonzero) noUnit short')

end Procedural.Decimal
