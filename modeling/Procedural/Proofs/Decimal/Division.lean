import Procedural.Execution.Operator
import Procedural.Proofs.Decimal.Rounding

/-!
# Division of decimal numbers, rounded twice

Long division is exact, or it breaks off after at least a hundred digits and is wrong by half
a unit in the last of them at most.  Then the quotient is rounded to the scale of the
dividend.  The second rounding repairs nothing: if it meets a tie that only the first one
made, the result need not be the one nearest to the exact quotient.
-/

namespace Procedural

namespace Decimal

section LongDivision

variable {numerator divisor : Nat} {scale : Int}

theorem scaleUp_spec (divisor room numerator count : Nat) :
    ∃ steps, scaleUp divisor room numerator count = (numerator * 10 ^ steps, count + steps) ∧
      (divisor ≤ numerator * 10 ^ room → divisor ≤ numerator * 10 ^ steps) := by
  induction room generalizing numerator count with
  | zero => exact ⟨0, by rw [pow_zero, mul_one]; rfl, id⟩
  | succ room induction =>
      rw [scaleUp]
      by_cases small : numerator < divisor
      · obtain ⟨steps, scaled, reaches⟩ := induction (numerator * 10) (count + 1)
        refine ⟨steps + 1, ?_, ?_⟩
        · rw [if_pos small, scaled, pow_succ', mul_assoc, Nat.add_assoc, Nat.add_comm 1]
        · rw [pow_succ', pow_succ', ← mul_assoc, ← mul_assoc]
          exact reaches
      · refine ⟨0, by rw [if_neg small, pow_zero, mul_one]; rfl, fun _ => ?_⟩
        rw [pow_zero, mul_one]
        exact Nat.le_of_not_lt small

/-- What is left over after some digits of a quotient. -/
structure PartialQuotient.Divides (numerator divisor : Nat) (scale : Int)
    (state : PartialQuotient) : Prop where
  below : state.remainder < divisor
  divides : ∃ steps : Nat, state.scale = scale + steps ∧
    state.quotient * divisor + state.remainder = numerator * 10 ^ steps

/-- One more digit. -/
theorem PartialQuotient.Divides.extend {state : PartialQuotient}
    (divides : state.Divides numerator divisor scale) :
    PartialQuotient.Divides numerator divisor scale
      ⟨state.quotient * 10 + state.remainder * 10 / divisor, state.remainder * 10 % divisor,
        state.scale + 1⟩ := by
  obtain ⟨below, steps, atScale, same⟩ := divides
  refine ⟨Nat.mod_lt _ (Nat.zero_lt_of_lt below), steps + 1, ?_, ?_⟩
  · rw [atScale]
    push_cast
    ring
  · have digit := Nat.div_add_mod' (state.remainder * 10) divisor
    calc (state.quotient * 10 + state.remainder * 10 / divisor) * divisor +
          state.remainder * 10 % divisor
        = state.quotient * 10 * divisor + (state.remainder * 10 / divisor * divisor +
          state.remainder * 10 % divisor) := by ring
      _ = (state.quotient * divisor + state.remainder) * 10 := by rw [digit]; ring
      _ = numerator * 10 ^ (steps + 1) := by rw [same, pow_succ, mul_assoc]

/-- Digits are appended until nothing is left over or there is no more room. -/
theorem extendQuotient_spec (room : Nat) {state : PartialQuotient}
    (divides : state.Divides numerator divisor scale) :
    (extendQuotient divisor room state).Divides numerator divisor scale ∧
      ((extendQuotient divisor room state).remainder = 0 ∨
        state.quotient * 10 ^ room ≤ (extendQuotient divisor room state).quotient) := by
  induction room generalizing state with
  | zero => exact ⟨divides, .inr (by rw [pow_zero, mul_one]; rfl)⟩
  | succ room induction =>
      rw [extendQuotient]
      by_cases complete : state.remainder = 0
      · rw [if_pos complete]
        exact ⟨divides, .inl complete⟩
      · rw [if_neg complete]
        obtain ⟨divides', ends⟩ := induction divides.extend
        refine ⟨divides', ends.imp_right fun long => le_trans ?_ long⟩
        rw [pow_succ', ← mul_assoc]
        exact Nat.mul_le_mul_right _ (Nat.le_add_right _ _)

/-- The next digit is five or more exactly if what is left over is half of the divisor at least. -/
theorem PartialQuotient.five_le_iff {state : PartialQuotient} (below : state.remainder < divisor) :
    5 ≤ state.remainder * 10 / divisor ↔ divisor ≤ 2 * state.remainder := by
  rw [Nat.le_div_iff_mul_le (Nat.zero_lt_of_lt below)]
  omega

/-- The last digit is rounded to the nearest one. -/
theorem PartialQuotient.Divides.finish {state : PartialQuotient}
    (divides : state.Divides numerator divisor scale) :
    ∃ steps : Nat, state.scale = scale + steps ∧
      state.quotient * divisor ≤ numerator * 10 ^ steps ∧
      (state.remainder = 0 → state.finish divisor * divisor = numerator * 10 ^ steps) ∧
      2 * |(numerator * 10 ^ steps : ℚ) - state.finish divisor * divisor| ≤ divisor := by
  obtain ⟨below, steps, atScale, same⟩ := divides
  have half := five_le_iff below
  have same' : (numerator * 10 ^ steps : ℚ) = state.quotient * divisor + state.remainder := by
    exact_mod_cast same.symm
  refine ⟨steps, atScale, by omega, fun complete => ?_, ?_⟩
  · have down : ¬ 5 ≤ state.remainder * 10 / divisor := by
      rw [half]
      omega
    rw [PartialQuotient.finish, if_neg down, ← same, complete, Nat.add_zero]
  · rw [same', PartialQuotient.finish]
    by_cases up : 5 ≤ state.remainder * 10 / divisor
    · have most : (divisor : ℚ) ≤ 2 * state.remainder := by exact_mod_cast half.mp up
      have least : (state.remainder : ℚ) < divisor := by exact_mod_cast below
      rw [if_pos up]
      push_cast
      rw [abs_of_nonpos] <;> linarith
    · have least : 2 * (state.remainder : ℚ) ≤ divisor := by
        exact_mod_cast (Nat.lt_of_not_le fun most => up (half.mpr most)).le
      rw [if_neg up, add_sub_cancel_left, Nat.abs_cast]
      exact least

/-- No more multiplications are made than are needed. -/
theorem scaleUp_lt {bound : Nat} (room numerator count : Nat) (below : numerator < bound)
    (enough : divisor * 10 ≤ bound) : (scaleUp divisor room numerator count).1 < bound := by
  induction room generalizing numerator count with
  | zero => exact below
  | succ room induction =>
      rw [scaleUp]
      by_cases small : numerator < divisor
      · rw [if_pos small]
        exact induction (numerator * 10) (count + 1) (by omega)
      · rw [if_neg small]
        exact below

/-- No more digits are appended than there is room for. -/
theorem extendQuotient_lt {digits : Nat} (room : Nat) {state : PartialQuotient}
    (below : state.remainder < divisor) (short : state.quotient < 10 ^ digits) :
    (extendQuotient divisor room state).quotient < 10 ^ (digits + room) := by
  induction room generalizing digits state with
  | zero => exact short
  | succ room induction =>
      rw [extendQuotient]
      by_cases complete : state.remainder = 0
      · rw [if_pos complete]
        exact short.trans_le (Nat.pow_le_pow_right (by decide) (Nat.le_add_right _ _))
      · have digit : state.remainder * 10 / divisor < 10 :=
          Nat.div_lt_of_lt_mul (Nat.mul_lt_mul_of_pos_right below (by decide))
        rw [if_neg complete, Nat.add_comm room, ← Nat.add_assoc]
        apply induction (Nat.mod_lt _ (Nat.zero_lt_of_lt below))
        dsimp only
        omega

/-- Long division stops when nothing is left over or a hundred digits are found, and it finds no
more than that of a quotient that has no more before the point. -/
theorem longDivision_state (positive : 0 < numerator) (nonzero : 0 < divisor) (scale : Int) :
    ∃ state : PartialQuotient, state.Divides numerator divisor scale ∧
      (state.remainder = 0 ∨ 10 ^ 99 ≤ state.quotient) ∧
      (numerator < 10 ^ 100 * divisor → state.quotient < 10 ^ 100) ∧
      longDivision numerator divisor scale = (state.finish divisor, state.scale) := by
  obtain ⟨count, scaled, reaches⟩ :=
    scaleUp_spec divisor (Numeral.digitCount divisor) numerator 0
  have enough : divisor ≤ numerator * 10 ^ count := by
    apply reaches
    exact (Numeral.lt_pow_digitCount divisor).le.trans (Nat.le_mul_of_pos_left _ positive)
  have starts : PartialQuotient.Divides numerator divisor scale
      ⟨numerator * 10 ^ count / divisor, numerator * 10 ^ count % divisor, scale + count⟩ :=
    ⟨Nat.mod_lt _ nonzero, count, rfl, Nat.div_add_mod' _ _⟩
  have most (short : numerator < 10 ^ 100 * divisor) :
      numerator * 10 ^ count / divisor < 10 ^ 100 := by
    have below : (scaleUp divisor (Numeral.digitCount divisor) numerator 0).1 < _ :=
      scaleUp_lt _ _ _ short (by omega)
    rw [scaled] at below
    exact Nat.div_lt_of_lt_mul (by rwa [Nat.mul_comm divisor])
  unfold longDivision
  rw [scaled, Nat.zero_add]
  dsimp only
  generalize isFirst : numerator * 10 ^ count / divisor = first at starts most
  have positive : 0 < first := isFirst ▸ Nat.div_pos enough nonzero
  obtain ⟨divides, ends⟩ := extendQuotient_spec (precision - Numeral.digitCount first) starts
  refine ⟨_, divides, ends.imp_right fun long => le_trans ?_ long, fun short => ?_, rfl⟩
  · calc 10 ^ 99
        ≤ 10 ^ (Numeral.digitCount first - 1 + (precision - Numeral.digitCount first)) := by
          apply Nat.pow_le_pow_right (by decide)
          unfold precision
          omega
      _ = 10 ^ (Numeral.digitCount first - 1) *
            10 ^ (precision - Numeral.digitCount first) := Nat.pow_add _ _ _
      _ ≤ first * 10 ^ (precision - Numeral.digitCount first) :=
          Nat.mul_le_mul_right _ (Numeral.pow_digitCount_le positive)
  · have counted : Numeral.digitCount first ≤ precision :=
      Numeral.digitCount_le positive (most short)
    have fits := extendQuotient_lt (precision - Numeral.digitCount first) starts.below
      (Numeral.lt_pow_digitCount first)
    rw [Nat.add_sub_cancel' counted] at fits
    exact fits

/-- Long division is exact, or a hundred digits are found and the last one is rounded. -/
theorem longDivision_spec (positive : 0 < numerator) (nonzero : 0 < divisor) (scale : Int) :
    ∃ steps : Nat, (longDivision numerator divisor scale).2 = scale + steps ∧
      ((longDivision numerator divisor scale).1 * divisor = numerator * 10 ^ steps ∨
        10 ^ 99 * divisor ≤ numerator * 10 ^ steps ∧
          2 * |(numerator * 10 ^ steps : ℚ) -
            (longDivision numerator divisor scale).1 * divisor| ≤ divisor) := by
  obtain ⟨state, divides, ends, -, found⟩ := longDivision_state positive nonzero scale
  obtain ⟨steps, atScale, below, exact, near⟩ := divides.finish
  rw [found]
  exact ⟨steps, atScale, ends.imp exact fun long =>
    ⟨(Nat.mul_le_mul_right divisor long).trans below, near⟩⟩

end LongDivision

/-- The pair denotes the number, or it has a hundred digits of it and the last one is rounded. -/
def Approximates (number : Decimal) (exact : ℚ) : Prop :=
  number.value = exact ∨
    10 ^ 99 * unit number.scale ≤ |exact| ∧ 2 * |exact - number.value| ≤ unit number.scale

theorem value_of_isUnit {number : Decimal} (isUnit : number.isUnit = true) : number.value = 1 := by
  unfold Decimal.isUnit at isUnit
  simp only [Bool.and_eq_true, decide_eq_true_eq, beq_iff_eq] at isUnit
  obtain ⟨⟨nonneg, _⟩, digits⟩ := isUnit
  have power := powerOfTen_toNat nonneg
  rw [sub_zero] at power
  rw [value, digits, Int.cast_natCast, power, unit, ← zpow_add₀ (by norm_num), add_neg_cancel,
    zpow_zero]

theorem value_div (left right : Decimal) :
    left.value / right.value =
      (left.digits : ℚ) / right.digits * unit (left.scale - right.scale) := by
  have split : unit (left.scale - right.scale) = unit left.scale / unit right.scale := by
    rw [unit_div, unit]
    congr 1
    ring
  rw [split, value, value, mul_div_mul_comm]

/-- A quotient is the quotient of the magnitudes with a sign. -/
theorem div_eq_sign_mul (left right : Int) :
    (left : ℚ) / right =
      (left.sign * right.sign : Int) * ((left.natAbs : ℚ) / (right.natAbs : ℚ)) := by
  have split (number : Int) : (number : ℚ) = (number.sign : ℚ) * (number.natAbs : ℚ) := by
    rw [← Int.cast_natCast, ← Int.cast_mul, Int.sign_mul_natAbs]
  have inverse : (right.sign : ℚ)⁻¹ = right.sign := by
    rcases Int.sign_trichotomy right with sign | sign | sign <;> rw [sign] <;> norm_num
  calc (left : ℚ) / right
      = (left.sign : ℚ) * left.natAbs / (right.sign * right.natAbs) := by
        rw [← split, ← split]
    _ = (left.sign * right.sign : Int) * ((left.natAbs : ℚ) / right.natAbs) := by
        rw [mul_div_mul_comm, div_eq_mul_inv (left.sign : ℚ), inverse, Int.cast_mul]

/-- Long division approximates the quotient. -/
theorem quotient_approximates (left : Decimal) {right : Decimal} (nonzero : right.digits ≠ 0) :
    (left.quotient right).Approximates (left.value / right.value) := by
  unfold quotient
  by_cases trivially : left.digits = 0 ∨ right.isUnit = true
  · rw [if_pos trivially]
    left
    rcases trivially with zero | isUnit
    · rw [value, zero, Int.cast_zero, zero_mul, zero_div]
    · rw [value_of_isUnit isUnit, div_one]
  rw [if_neg trivially]
  obtain ⟨nonzero', _⟩ := not_or.mp trivially
  by_cases same : left.digits = right.digits
  · rw [if_pos same]
    left
    rw [value_div, same, div_self (Int.cast_ne_zero.mpr nonzero), one_mul, value, Int.cast_one,
      one_mul]
  rw [if_neg same]
  obtain ⟨steps, atScale, spec⟩ := longDivision_spec (Int.natAbs_pos.mpr nonzero')
    (Int.natAbs_pos.mpr nonzero) (left.scale - right.scale)
  generalize longDivision left.digits.natAbs right.digits.natAbs (left.scale - right.scale) = found
    at atScale spec
  obtain ⟨magnitude, scale⟩ := found
  dsimp only at atScale spec ⊢
  have positive : (0 : ℚ) < right.digits.natAbs := by
    exact_mod_cast Int.natAbs_pos.mpr nonzero
  have signed : |((left.digits.sign * right.digits.sign : Int) : ℚ)| = 1 := by
    rw [Int.cast_mul, abs_mul, ← Int.cast_abs, ← Int.cast_abs, Int.abs_sign_of_ne_zero nonzero',
      Int.abs_sign_of_ne_zero nonzero, Int.cast_one, one_mul]
  generalize isRatio : (left.digits.natAbs * 10 ^ steps : ℚ) / right.digits.natAbs = ratio
  have exact : left.value / right.value =
      (left.digits.sign * right.digits.sign : Int) * (ratio * unit scale) := by
    rw [value_div, div_eq_sign_mul, ← isRatio, atScale, unit_eq_later _ steps]
    ring
  have denotes : value ⟨left.digits.sign * right.digits.sign * magnitude, scale⟩ =
      (left.digits.sign * right.digits.sign : Int) * (magnitude * unit scale) := by
    rw [value, Int.cast_mul, Int.cast_natCast, mul_assoc]
  rw [Approximates, exact, denotes]
  rcases spec with complete | ⟨long, near⟩
  · left
    have same : ratio = magnitude := by
      rw [← isRatio, div_eq_iff positive.ne']
      exact_mod_cast complete.symm
    rw [same]
  · right
    rw [← mul_sub, ← sub_mul, abs_mul, abs_mul, abs_mul, abs_mul, signed, one_mul, one_mul,
      abs_of_pos (unit_pos scale)]
    have nonneg := (unit_pos scale).le
    constructor
    · apply mul_le_mul_of_nonneg_right _ nonneg
      apply le_trans _ (le_abs_self ratio)
      rw [← isRatio, le_div_iff₀ positive]
      exact_mod_cast long
    · rw [← mul_assoc]
      apply mul_le_of_le_one_left nonneg
      have product : ratio - magnitude =
          (left.digits.natAbs * 10 ^ steps - magnitude * right.digits.natAbs) /
            right.digits.natAbs := by
        rw [sub_div, isRatio, mul_div_cancel_right₀ _ positive.ne']
      rw [product, abs_div, abs_of_pos positive, ← mul_div_assoc, div_le_one positive]
      exact near

theorem rounds_iff_distance {exact : ℚ} {scale : Int} {number : Decimal} :
    number.Rounds exact scale ↔ number.scale = scale ∧
      2 * |exact - number.value| ≤ unit number.scale ∧
      (2 * |exact - number.value| = unit number.scale → Even number.digits) := by
  have positive := unit_pos number.scale
  rw [rounds_iff, abs_sub_value, ← mul_assoc, mul_le_iff_le_one_left positive,
    mul_eq_right₀ positive.ne']
  constructor
  · rintro ⟨rfl, near, even⟩
    exact ⟨rfl, near, even⟩
  · rintro ⟨rfl, near, even⟩
    exact ⟨rfl, near, even⟩

/-- A number is rounded as an approximation is that has further digits, unless the approximation is
half-way between two integers. -/
theorem isHalfEven_iff_of_near {exact approx : ℚ} {places : Nat} {digits nearest : ℤ}
    (positive : 0 < places) (same : approx * 10 ^ places = digits)
    (near : 2 * |exact - approx| * 10 ^ places ≤ 1) (rounds : IsHalfEven approx nearest) :
    IsHalfEven exact nearest ↔ (2 * |approx - nearest| = 1 → 2 * |exact - nearest| ≤ 1) := by
  refine ⟨fun rounds' _ => rounds'.near, fun midway => ?_⟩
  by_cases tie : 2 * |approx - nearest| = 1
  · exact ⟨midway tie, fun _ => rounds.even tie⟩
  -- the approximation misses the middle by one in its last place, the number by half of that
  obtain ⟨half, isHalf⟩ : ∃ half : ℤ, (10 : ℤ) ^ places = 2 * half := by
    obtain ⟨later, rfl⟩ := Nat.exists_eq_succ_of_ne_zero positive.ne'
    exact ⟨10 ^ later * 5, by rw [Nat.succ_eq_add_one, pow_succ]; ring⟩
  have isHalf' : (10 : ℚ) ^ places = 2 * half := by exact_mod_cast isHalf
  have power : (0 : ℚ) < 10 ^ places := by positivity
  have apart : |approx - nearest| * 10 ^ places = |(digits - nearest * 10 ^ places : ℤ)| := by
    rw [← abs_of_pos power, ← abs_mul, sub_mul, same]
    push_cast
    rfl
  have below : |digits - nearest * 10 ^ places| < half := by
    have strict : 2 * |approx - nearest| < 1 := lt_of_le_of_ne rounds.near tie
    have := mul_lt_mul_of_pos_right strict power
    rw [mul_assoc, apart, one_mul, isHalf'] at this
    have := lt_of_mul_lt_mul_left this (by norm_num)
    exact_mod_cast this
  have far : |approx - nearest| * 10 ^ places ≤ half - 1 := by
    rw [apart]
    exact_mod_cast Int.le_sub_one_of_lt below
  have triangle := abs_sub_le exact approx nearest
  have strict : 2 * |exact - nearest| < 1 := by
    apply lt_of_mul_lt_mul_right _ power.le
    calc 2 * |exact - nearest| * 10 ^ places
        ≤ 2 * (|exact - approx| + |approx - nearest|) * 10 ^ places := by gcongr
      _ = 2 * |exact - approx| * 10 ^ places + 2 * (|approx - nearest| * 10 ^ places) := by ring
      _ ≤ 1 + 2 * (half - 1) := by gcongr
      _ < 1 * 10 ^ places := by rw [one_mul, isHalf']; linarith
  exact ⟨strict.le, fun tie' => absurd tie' strict.ne⟩

/-- What an approximation rounds to, the number rounds to as well.  If the approximation has further
digits, then the number is not beyond the middle between two results on which it lies; if it
has none, then it is the result, and near enough. -/
def RoundsAlike (exact : ℚ) (approx result : Decimal) : Prop :=
  if result.scale < approx.scale then
    2 * |approx.value - result.value| = unit result.scale →
      2 * |exact - result.value| ≤ unit result.scale
  else
    2 * |exact - approx.value| ≤ unit result.scale ∧
      (2 * |exact - approx.value| = unit result.scale → Even result.digits)

/-- Without further digits an approximation is left alone. -/
theorem value_of_rounds {number result : Decimal} {scale : Int}
    (rounds : result.Rounds number.value scale) (finer : number.scale ≤ scale) :
    result.value = number.value := by
  obtain ⟨atScale, near⟩ := rounds_iff.mp rounds
  rw [value_div_unit, ← number.digitsAt_eq finer] at near
  have same := near.unique (.of_int _)
  have positive := unit_pos scale
  rw [value, atScale, same, number.digitsAt_eq finer, ← value_div_unit,
    div_mul_cancel₀ _ positive.ne']

/-- An approximation that is rounded gives what the number rounds to exactly if the two round
alike. -/
theorem rounds_iff_roundsAlike {exact : ℚ} {approx result : Decimal} {scale : Int}
    (approximates : approx.Approximates exact) (rounds : result.Rounds approx.value scale) :
    result.Rounds exact scale ↔ RoundsAlike exact approx result := by
  obtain rfl := rounds.atScale
  have positive := unit_pos result.scale
  unfold RoundsAlike
  split
  next further =>
    rcases approximates with rfl | ⟨_, near⟩
    · exact ⟨fun _ midway => midway.le, fun _ => rounds⟩
    · obtain ⟨places, apart⟩ := Int.eq_ofNat_of_zero_le (Int.sub_nonneg.mpr further.le)
      have shift : unit result.scale = 10 ^ places * unit approx.scale := by
        rw [unit_eq_later result.scale places, ← apart, add_sub_cancel]
      have digits : approx.value / unit result.scale * 10 ^ places = approx.digits := by
        rw [value_div_unit, mul_assoc, ← zpow_natCast, ← apart, ← zpow_add₀ (by norm_num)]
        simp
      have near' : 2 * |exact / unit result.scale - approx.value / unit result.scale| *
          10 ^ places ≤ 1 := by
        rw [← sub_div, abs_div, abs_of_pos positive, ← mul_div_assoc, div_mul_eq_mul_div,
          div_le_one positive, shift, mul_comm]
        gcongr
      have alike := isHalfEven_iff_of_near (by omega) digits near' (rounds_iff.mp rounds).2
      rw [rounds_iff, abs_sub_value, abs_sub_value, ← mul_assoc, ← mul_assoc,
        mul_le_iff_le_one_left positive, mul_eq_right₀ positive.ne', ← alike]
      exact ⟨fun rounds' => rounds'.2, fun rounds' => ⟨rfl, rounds'⟩⟩
  next coarser =>
    rw [rounds_iff_distance, value_of_rounds rounds (not_lt.mp coarser)]
    exact ⟨fun rounds' => rounds'.2, fun alike => ⟨rfl, alike⟩⟩

/-- A fraction is not close to an integer unless it is that integer. -/
theorem eq_of_close {numerator denominator whole : ℤ} (nonzero : denominator ≠ 0)
    (close : |(numerator : ℚ) / denominator - whole| * |(denominator : ℚ)| < 1) :
    (numerator : ℚ) / denominator = whole := by
  have nonzero' : (denominator : ℚ) ≠ 0 := Int.cast_ne_zero.mpr nonzero
  rw [← abs_mul, sub_mul, div_mul_cancel₀ _ nonzero'] at close
  have zero : |numerator - whole * denominator| < 1 := by exact_mod_cast close
  rw [div_eq_iff nonzero']
  exact_mod_cast sub_eq_zero.mp (Int.abs_lt_one_iff.mp zero)

/-- A fraction is not close to the middle between two integers unless it is that middle. -/
theorem eq_of_midway {numerator denominator nearest : ℤ} {approx : ℚ} (nonzero : denominator ≠ 0)
    (close : 2 * |(numerator : ℚ) / denominator - approx| * |(denominator : ℚ)| < 1)
    (midway : 2 * |approx - nearest| = 1) : (numerator : ℚ) / denominator = approx := by
  obtain ⟨whole, isWhole⟩ : ∃ whole : ℤ, 2 * approx = whole := by
    rcases abs_cases (approx - nearest) with ⟨side, _⟩ | ⟨side, _⟩
    · exact ⟨2 * nearest + 1, by push_cast; linarith⟩
    · exact ⟨2 * nearest - 1, by push_cast; linarith⟩
  have twice : ((2 * numerator : ℤ) : ℚ) / denominator = 2 * ((numerator : ℚ) / denominator) := by
    rw [Int.cast_mul, Int.cast_ofNat, mul_div_assoc]
  have same : ((2 * numerator : ℤ) : ℚ) / denominator = whole := by
    apply eq_of_close nonzero
    rw [twice, ← isWhole, ← mul_sub, abs_mul, abs_two]
    exact close
  rw [twice, ← isWhole] at same
  exact mul_left_cancel₀ two_ne_zero same

/-- In units of the last place of the dividend the quotient is one of integers. -/
theorem value_div_value_div_unit (left right : Decimal) :
    left.value / right.value / unit left.scale =
      (left.digits * 10 ^ right.scale.toNat : ℤ) /
        (right.digits * 10 ^ (-right.scale).toNat : ℤ) := by
  have split : (10 : ℚ) ^ right.scale =
      10 ^ right.scale.toNat / 10 ^ (-right.scale).toNat := by
    rw [← zpow_natCast, ← zpow_natCast, ← zpow_sub₀ (by norm_num)]
    congr 1
    omega
  rw [value_div, mul_div_assoc, unit_div, sub_sub_cancel, split]
  push_cast
  exact div_mul_div_comm _ _ _ _

/-- If the dividend is short enough, rounding twice does no harm: a tie between two results is then
too far from any quotient that is not the tie itself. -/
theorem rounds_of_short {left right : Decimal} (nonzero : right.digits ≠ 0)
    (short : left.digits.natAbs * 10 ^ right.scale.toNat < 10 ^ 99) :
    (left.div right).Rounds (left.value / right.value) left.scale := by
  have rounds := roundTo_rounds (left.quotient right) left.scale
  have approximates := quotient_approximates left nonzero
  rw [div, rounds_iff_roundsAlike approximates rounds]
  rcases approximates with exact | ⟨long, near⟩
  · rw [← rounds_iff_roundsAlike (.inl exact) rounds, ← exact]
    exact rounds
  generalize left.quotient right = approx at *
  have positive := unit_pos left.scale
  have asFraction := value_div_value_div_unit left right
  have nonzero' : right.digits * 10 ^ (-right.scale).toNat ≠ 0 :=
    mul_ne_zero nonzero (pow_ne_zero _ (by decide))
  have small : |left.digits * 10 ^ right.scale.toNat| < 10 ^ 99 := by
    rw [Int.abs_eq_natAbs, Int.natAbs_mul, Int.natAbs_pow]
    exact_mod_cast short
  generalize left.digits * 10 ^ right.scale.toNat = numerator at small asFraction
  generalize right.digits * 10 ^ (-right.scale).toNat = denominator at nonzero' asFraction
  have atLeast : (1 : ℚ) ≤ |(denominator : ℚ)| := by exact_mod_cast Int.one_le_abs nonzero'
  -- a hundred digits of so short a quotient go beyond the place where fractions can differ
  have fine : unit approx.scale / unit left.scale * |(denominator : ℚ)| < 1 := by
    have bound : |(numerator : ℚ)| < 10 ^ 99 := by exact_mod_cast small
    have scaled := div_le_div_of_nonneg_right long positive.le
    rw [← abs_of_pos positive, ← abs_div, abs_of_pos positive, asFraction, abs_div,
      le_div_iff₀ (by linarith), mul_div_assoc, mul_assoc] at scaled
    linarith
  have further : left.scale < approx.scale := by
    by_contra coarser
    have large : (1 : ℚ) ≤ unit approx.scale / unit left.scale := by
      rw [unit_div]
      exact one_le_zpow₀ (by norm_num) (by omega)
    nlinarith
  unfold RoundsAlike
  rw [rounds.atScale, if_pos further]
  intro midway
  have tie : 2 * |approx.value / unit left.scale - (approx.roundTo left.scale).digits| = 1 := by
    rw [abs_sub_value, rounds.atScale, ← mul_assoc] at midway
    exact (mul_eq_right₀ positive.ne').mp midway
  have close : 2 * |(numerator : ℚ) / denominator - approx.value / unit left.scale| *
      |(denominator : ℚ)| < 1 := by
    apply lt_of_le_of_lt _ fine
    rw [← asFraction, ← sub_div, abs_div, abs_of_pos positive, ← mul_div_assoc]
    gcongr
  have exact := eq_of_midway nonzero' close tie
  rw [← asFraction, div_left_inj' positive.ne'] at exact
  rw [exact]
  exact midway.le

end Decimal

/-- The quotient of two decimal numbers is rounded to the scale of the dividend, but it is rounded
twice.  That makes a difference exactly if the quotient and what long division makes of it do
not round alike, and none if the dividend is short. -/
theorem Value.divide_rounds_twice (store : Store) (left right : Decimal)
    (nonzero : right.digits ≠ 0) :
    let exact := left.value / right.value
    let approx := left.quotient right
    ∃ result, applyOperator store .divide (.scalar (.decimal left)) (.scalar (.decimal right)) =
        .ok (.decimal result) ∧
      approx.Approximates exact ∧ result.Rounds approx.value left.scale ∧
      (result.Rounds exact left.scale ↔ Decimal.RoundsAlike exact approx result) ∧
      (left.digits.natAbs * 10 ^ right.scale.toNat < 10 ^ 99 → result.Rounds exact left.scale) := by
  intro exact approx
  have approximates := Decimal.quotient_approximates left nonzero
  have rounds := Decimal.roundTo_rounds approx left.scale
  have divides : applyOperator store .divide (.scalar (.decimal left))
      (.scalar (.decimal right)) = .ok (.decimal (left.div right)) := by
    change (divideDecimals left right >>= fun result => .ok (Scalar.decimal result)) = _
    rw [divideDecimals, if_neg nonzero]
    rfl
  exact ⟨_, divides, approximates, rounds, Decimal.rounds_iff_roundsAlike approximates rounds,
    Decimal.rounds_of_short nonzero⟩

/-- One divided by four, at one fraction digit, is a tie that goes to the even digit. -/
theorem Value.divide_rounds_twice_tie :
    applyOperator .empty .divide (.scalar (.decimal ⟨10, 1⟩)) (.scalar (.decimal ⟨40, 1⟩)) =
        .ok (.decimal ⟨2, 1⟩) ∧
      Decimal.Rounds ⟨2, 1⟩ (Decimal.value ⟨10, 1⟩ / Decimal.value ⟨40, 1⟩) 1 := by
  obtain ⟨result, divides, -, -, -, short⟩ :=
    Value.divide_rounds_twice .empty ⟨10, 1⟩ ⟨40, 1⟩ (by decide)
  have found : applyOperator .empty .divide (.scalar (.decimal ⟨10, 1⟩))
      (.scalar (.decimal ⟨40, 1⟩)) = .ok (.decimal ⟨2, 1⟩) := by
    decide +kernel
  obtain rfl := Scalar.decimal.inj (Except.ok.inj (found.symm.trans divides))
  exact ⟨found, short (by decide +kernel)⟩

/-- A quotient just below the middle between two results: long division finds the middle, and the
tie goes up. -/
theorem Value.divide_rounds_twice_midway :
    ∃ left right result : Decimal,
      left = ⟨15 * 10 ^ 111 - 10, 1⟩ ∧ right = ⟨10 ^ 113, 1⟩ ∧ right.digits ≠ 0 ∧
      applyOperator .empty .divide (.scalar (.decimal left)) (.scalar (.decimal right)) =
        .ok (.decimal result) ∧
      result = ⟨2, 1⟩ ∧ ¬ result.Rounds (left.value / right.value) left.scale := by
  refine ⟨_, _, ⟨2, 1⟩, rfl, rfl, by decide +kernel, by decide +kernel, rfl, fun rounds => ?_⟩
  have nearest := rounds.nearest ⟨1, 1⟩ rfl
  norm_num [Decimal.value, Decimal.unit, abs_of_neg, abs_of_pos] at nearest

end Procedural
