import Mathlib.Algebra.Order.Field.Basic
import Mathlib.Data.Rat.Cast.Order
import Mathlib.Tactic.FieldSimp
import Mathlib.Tactic.Linarith
import Mathlib.Tactic.Positivity
import Procedural.Decimal.Quotient
import Procedural.Proofs.Text.Numerals

/-!
# Rounding to a scale

A pair of digits and a scale denotes a rational number.  To round a number to a scale is to
choose the nearest pair of that scale, and of two that are equally near the one with even
digits; there is exactly one.  Measured in units of the last place this is rounding to an
integer.
-/

namespace Procedural

/-- The integer is as near to the number as any other, and even if another one is as near. -/
structure IsHalfEven (number : ℚ) (nearest : ℤ) : Prop where
  near : 2 * |number - nearest| ≤ 1
  even : 2 * |number - nearest| = 1 → Even nearest

namespace IsHalfEven

variable {number : ℚ} {nearest nearest' : ℤ}

theorem of_int (nearest : ℤ) : IsHalfEven nearest nearest := by
  constructor <;> simp

theorem neg (rounds : IsHalfEven number nearest) : IsHalfEven (-number) (-nearest) := by
  have same : |-number - ((-nearest : ℤ) : ℚ)| = |number - nearest| := by
    rw [Int.cast_neg, ← neg_add', abs_neg, sub_eq_add_neg]
  exact ⟨same ▸ rounds.near, fun half => (rounds.even (same ▸ half)).neg⟩

/-- Two different integers are at least one apart. -/
theorem one_le_abs_sub (different : nearest ≠ nearest') :
    (1 : ℚ) ≤ |(nearest : ℚ) - nearest'| := by
  have apart : 1 ≤ |nearest - nearest'| := Int.one_le_abs (sub_ne_zero.mpr different)
  exact_mod_cast apart

theorem unique (rounds : IsHalfEven number nearest) (rounds' : IsHalfEven number nearest') :
    nearest = nearest' := by
  by_contra different
  have apart := one_le_abs_sub different
  have triangle : |(nearest : ℚ) - nearest'| ≤ |number - nearest| + |number - nearest'| := by
    rw [abs_sub_comm number]
    exact abs_sub_le _ _ _
  -- both are at half a unit, so both are even, and yet they are neighbours
  have half : 2 * |number - nearest| = 1 := by linarith [rounds.near, rounds'.near]
  have half' : 2 * |number - nearest'| = 1 := by linarith [rounds.near, rounds'.near]
  have one : |nearest - nearest'| = 1 := by
    have : |(nearest : ℚ) - nearest'| = 1 := by linarith
    exact_mod_cast this
  have even := (rounds.even half).sub (rounds'.even half')
  rcases abs_eq_abs.mp (one.trans abs_one.symm) with one | one <;> rw [one] at even <;>
    revert even <;> decide

end IsHalfEven

/-- No integer is nearer, and if another one is as near then this one is even. -/
theorem isHalfEven_iff {number : ℚ} {nearest : ℤ} :
    IsHalfEven number nearest ↔ (∀ other : ℤ, |number - nearest| ≤ |number - other|) ∧
      ∀ other, other ≠ nearest → |number - other| = |number - nearest| → Even nearest := by
  constructor
  · rintro ⟨near, even⟩
    have apart {other : ℤ} (different : other ≠ nearest) :
        1 ≤ |number - other| + |number - nearest| := by
      apply (IsHalfEven.one_le_abs_sub different).trans
      rw [abs_sub_comm number]
      exact abs_sub_le _ _ _
    constructor
    · intro other
      by_cases same : other = nearest
      · rw [same]
      · linarith [apart same]
    · intro other different equal
      have far := apart different
      exact even (by linarith)
  · rintro ⟨nearer, even⟩
    have up := nearer (nearest + 1)
    have down := nearer (nearest - 1)
    push_cast at up down
    -- the number lies on one side of the integer, and the next one there is as far at least
    rcases abs_cases (number - nearest) with ⟨here, side⟩ | ⟨here, side⟩
    · have next : |number - (nearest + 1)| = 1 - (number - nearest) := by
        rw [abs_of_nonpos] <;> rcases abs_cases (number - (nearest + 1)) with far | far <;> linarith
      refine ⟨by linarith, fun half => ?_⟩
      apply even (nearest + 1) (by omega)
      push_cast
      linarith
    · have next : |number - (nearest - 1)| = 1 + (number - nearest) := by
        rw [abs_of_nonneg] <;> rcases abs_cases (number - (nearest - 1)) with far | far <;> linarith
      refine ⟨by linarith, fun half => ?_⟩
      apply even (nearest - 1) (by omega)
      push_cast
      linarith

namespace Numeral

open Scan

theorem digitValue_lt {c : Char} (digit : c.isDigit = true) : digitValue c < 10 := by
  have upper : c.toNat ≤ '9'.toNat := of_decide_eq_true (Bool.and_eq_true_iff.mp digit).2
  change c.toNat - 48 < 10
  change c.toNat ≤ 57 at upper
  omega

theorem digitValue_pos {c : Char} (digit : c.isDigit = true) (notZero : c ≠ '0') :
    0 < digitValue c := by
  have lower : '0'.toNat ≤ c.toNat := of_decide_eq_true (Bool.and_eq_true_iff.mp digit).1
  have different : c.toNat ≠ '0'.toNat := fun same =>
    notZero (Char.ext (UInt32.toNat_inj.mp same))
  exact Nat.sub_pos_of_lt (Nat.lt_of_le_of_ne lower different.symm)

theorem valueOf_cons (c : Char) (cs : List Char) :
    valueOf (c :: cs) = digitValue c * 10 ^ cs.length + valueOf cs := by
  have single : valueOf [c] = digitValue c := by simp [valueOf]
  rw [← List.singleton_append, valueOf_append, single]

theorem valueOf_lt {cs : List Char} (digits : ∀ c ∈ cs, c.isDigit = true) :
    valueOf cs < 10 ^ cs.length := by
  induction cs with
  | nil => exact Nat.one_pos
  | cons c cs induction =>
      have first := digitValue_lt (digits c List.mem_cons_self)
      have rest := induction fun c member => digits c (List.mem_cons_of_mem _ member)
      rw [valueOf_cons, List.length_cons]
      calc digitValue c * 10 ^ cs.length + valueOf cs
          < digitValue c * 10 ^ cs.length + 10 ^ cs.length := Nat.add_lt_add_left rest _
        _ = (digitValue c + 1) * 10 ^ cs.length := (Nat.succ_mul _ _).symm
        _ ≤ 10 * 10 ^ cs.length := Nat.mul_le_mul_right _ first
        _ = 10 ^ (cs.length + 1) := (Nat.pow_succ').symm

/-- A number is written with as many digits as it takes. -/
theorem lt_pow_digitCount (number : Nat) : number < 10 ^ digitCount number := by
  obtain ⟨isWhole, denotes⟩ := digitChars_spec number
  have below := valueOf_lt isWhole.digits
  rwa [denotes] at below

/-- A number is not written with more digits than it takes. -/
theorem pow_digitCount_le {number : Nat} (positive : 0 < number) :
    10 ^ (digitCount number - 1) ≤ number := by
  obtain ⟨isWhole, denotes⟩ := digitChars_spec number
  unfold digitCount
  cases written : digitChars number with
  | nil => exact absurd written isWhole.nonempty
  | cons c cs =>
      rw [written] at isWhole denotes
      rw [valueOf_cons] at denotes
      rw [List.length_cons, Nat.add_sub_cancel]
      cases cs with
      | nil => exact positive
      | cons c' cs =>
          have notZero : c ≠ '0' := by
            rintro rfl
            have second := isWhole.digits c' (List.mem_cons_of_mem _ List.mem_cons_self)
            have noLeadingZero : c'.isDigit = false := isWhole.noLeadingZero
            rw [second] at noLeadingZero
            cases noLeadingZero
          have first := digitValue_pos (isWhole.digits c List.mem_cons_self) notZero
          calc 10 ^ (c' :: cs).length
              ≤ digitValue c * 10 ^ (c' :: cs).length := Nat.le_mul_of_pos_left _ first
            _ ≤ number := by omega

theorem digitCount_le {number digits : Nat} (positive : 0 < number) (below : number < 10 ^ digits) :
    digitCount number ≤ digits := by
  have power := (pow_digitCount_le positive).trans_lt below
  have exponent := (Nat.pow_lt_pow_iff_right (by decide)).mp power
  omega

end Numeral

namespace Decimal

/-- One in the last place. -/
def unit (scale : Int) : ℚ :=
  (10 : ℚ) ^ (-scale)

/-- The number that the pair denotes. -/
def value (number : Decimal) : ℚ :=
  number.digits * unit number.scale

/-- The pair has the scale and is the nearest to a number; of two that are, it is the one with even
digits. -/
structure Rounds (number : Decimal) (exact : ℚ) (scale : Int) : Prop where
  atScale : number.scale = scale
  nearest : ∀ other : Decimal, other.scale = scale →
    |exact - number.value| ≤ |exact - other.value|
  even : ∀ other : Decimal, other.scale = scale → other ≠ number →
    |exact - other.value| = |exact - number.value| → Even number.digits

theorem unit_pos (scale : Int) : 0 < unit scale :=
  zpow_pos (by norm_num) _

theorem unit_div (scale scale' : Int) : unit scale' / unit scale = 10 ^ (scale - scale') := by
  unfold unit
  rw [← zpow_sub₀ (by norm_num)]
  congr 1
  ring

/-- A unit is a power of ten of the units that come some places after it. -/
theorem unit_eq_later (scale : Int) (places : Nat) :
    unit scale = 10 ^ places * unit (scale + places) := by
  rw [unit, unit, ← zpow_natCast, ← zpow_add₀ (by norm_num)]
  congr 1
  ring

theorem value_div_unit (number : Decimal) (scale : Int) :
    number.value / unit scale = number.digits * 10 ^ (scale - number.scale) := by
  rw [value, mul_div_assoc, unit_div]

/-- Distances are measured in units of the last place. -/
theorem abs_sub_value (exact : ℚ) (number : Decimal) :
    |exact - number.value| = |exact / unit number.scale - number.digits| * unit number.scale := by
  have positive := unit_pos number.scale
  rw [← abs_of_pos positive, ← abs_mul, abs_of_pos positive, sub_mul,
    div_mul_cancel₀ _ positive.ne', value]

theorem rounds_iff {exact : ℚ} {scale : Int} {number : Decimal} :
    number.Rounds exact scale ↔
      number.scale = scale ∧ IsHalfEven (exact / unit scale) number.digits := by
  rw [isHalfEven_iff]
  constructor
  · rintro ⟨rfl, nearest, even⟩
    have positive := unit_pos number.scale
    refine ⟨rfl, fun digits => ?_, fun digits different equal => ?_⟩
    · have near := nearest ⟨digits, number.scale⟩ rfl
      rw [abs_sub_value, abs_sub_value] at near
      exact le_of_mul_le_mul_right near positive
    · apply even ⟨digits, number.scale⟩ rfl
      · exact fun same => different (congrArg Decimal.digits same)
      · rw [abs_sub_value, abs_sub_value, equal]
  · rintro ⟨rfl, nearest, even⟩
    have positive := unit_pos number.scale
    refine ⟨rfl, fun other same => ?_, fun other same different equal => ?_⟩
    · rw [abs_sub_value, abs_sub_value, same]
      exact mul_le_mul_of_nonneg_right (nearest other.digits) positive.le
    · rw [abs_sub_value, abs_sub_value, same] at equal
      apply even other.digits _ (mul_right_cancel₀ positive.ne' equal)
      intro digits
      cases other
      cases number
      exact different (by rw [Decimal.mk.injEq]; exact ⟨digits, same⟩)

/-- There is one pair of a scale that a number rounds to. -/
theorem Rounds.unique {exact : ℚ} {scale : Int} {number number' : Decimal}
    (rounds : number.Rounds exact scale) (rounds' : number'.Rounds exact scale) :
    number = number' := by
  obtain ⟨same, near⟩ := rounds_iff.mp rounds
  obtain ⟨same', near'⟩ := rounds_iff.mp rounds'
  cases number
  cases number'
  rw [Decimal.mk.injEq]
  exact ⟨near.unique near', same.trans same'.symm⟩

theorem isHalfEven_divideHalfEven (numerator : Nat) {divisor : Nat} (positive : 0 < divisor) :
    IsHalfEven (numerator / divisor) (divideHalfEven numerator divisor) := by
  have nonzero : (0 : ℚ) < divisor := by exact_mod_cast positive
  have below : numerator % divisor < divisor := Nat.mod_lt numerator positive
  have split : (numerator : ℚ) / divisor =
      (numerator / divisor : ℕ) + (numerator % divisor : ℕ) / (divisor : ℚ) := by
    rw [div_eq_iff nonzero.ne', add_mul, div_mul_cancel₀ _ nonzero.ne']
    exact_mod_cast (Nat.div_add_mod' numerator divisor).symm
  unfold divideHalfEven
  rw [split]
  generalize numerator / divisor = whole
  generalize numerator % divisor = remainder at below
  dsimp only
  generalize isFraction : (remainder : ℚ) / divisor = fraction
  have isRemainder : (remainder : ℚ) = fraction * divisor := by
    rw [← isFraction, div_mul_cancel₀ _ nonzero.ne']
  have half : 2 * remainder = divisor ↔ 2 * fraction = 1 := by
    rw [← Nat.cast_inj (R := ℚ)]
    push_cast
    rw [isRemainder, ← mul_assoc, mul_eq_right₀ nonzero.ne']
  have more : divisor < 2 * remainder ↔ 1 < 2 * fraction := by
    rw [← Nat.cast_lt (α := ℚ)]
    push_cast
    rw [isRemainder, ← mul_assoc, lt_mul_iff_one_lt_left nonzero]
  have nonneg : 0 ≤ fraction := isFraction ▸ by positivity
  have small : fraction < 1 := by
    rw [← isFraction, div_lt_one nonzero]
    exact_mod_cast below
  split
  next up =>
    rw [half, more] at up
    have distance : |(whole : ℚ) + fraction - ((whole + 1 : ℕ) : ℤ)| = 1 - fraction := by
      push_cast
      rw [abs_of_neg] <;> linarith
    constructor <;> rw [distance]
    · rcases up with up | up <;> linarith [up]
    · intro tie
      have odd : whole % 2 = 1 := by
        rcases up with up | up
        · linarith
        · exact up.2
      rw [Int.even_coe_nat]
      exact (Nat.odd_iff.mpr odd).add_one
  next down =>
    rw [half, more] at down
    have distance : |(whole : ℚ) + fraction - (whole : ℤ)| = fraction := by
      push_cast
      rw [abs_of_nonneg] <;> linarith
    push Not at down
    constructor <;> rw [distance]
    · exact down.1
    · intro tie
      rw [Int.even_coe_nat, Nat.even_iff]
      exact Nat.mod_two_ne_one.mp (down.2 tie)

theorem powerOfTen_toNat {scale scale' : Int} (finer : scale ≤ scale') :
    (powerOfTen (scale' - scale).toNat : ℚ) = 10 ^ (scale' - scale) := by
  have exponent := Int.toNat_of_nonneg (Int.sub_nonneg.mpr finer)
  rw [← exponent, zpow_natCast, exponent, powerOfTen, Nat.pow_eq]
  push_cast
  rfl

/-- At a finer scale the number is the same. -/
theorem digitsAt_eq (number : Decimal) {scale : Int} (finer : number.scale ≤ scale) :
    (number.digitsAt scale : ℚ) = number.digits * 10 ^ (scale - number.scale) := by
  unfold digitsAt
  split
  next zero => simp [zero]
  · push_cast
    rw [powerOfTen_toNat finer]

/-- A number of a lower order of magnitude is less than half a unit. -/
theorem abs_lt_of_magnitude {number : Decimal} {scale : Int} (tiny : number.magnitude < -scale) :
    2 * |(number.digits : ℚ) * 10 ^ (scale - number.scale)| < 1 := by
  unfold magnitude at tiny
  have digits : |(number.digits : ℚ)| < 10 ^ (Numeral.digitCount number.digits.natAbs : Int) := by
    rw [← Int.cast_abs, Int.abs_eq_natAbs, Int.cast_natCast, zpow_natCast]
    exact_mod_cast Numeral.lt_pow_digitCount number.digits.natAbs
  have positive : (0 : ℚ) < 10 ^ (scale - number.scale) := zpow_pos (by norm_num) _
  calc 2 * |(number.digits : ℚ) * 10 ^ (scale - number.scale)|
      = 2 * (|(number.digits : ℚ)| * 10 ^ (scale - number.scale)) := by
        rw [abs_mul, abs_of_pos positive]
    _ < 2 * (10 ^ (Numeral.digitCount number.digits.natAbs : Int) *
          10 ^ (scale - number.scale)) := by
        gcongr
    _ = 2 * 10 ^ (Numeral.digitCount number.digits.natAbs + (scale - number.scale)) := by
        rw [zpow_add₀ (by norm_num)]
    _ ≤ 2 * 10 ^ (-1 : Int) := by
        gcongr
        · norm_num
        · omega
    _ ≤ 1 := by norm_num

/-- Signs do not matter when a quotient is rounded. -/
theorem isHalfEven_signed (digits : Int) {divisor : Nat} (positive : 0 < divisor) :
    IsHalfEven (digits / divisor) (digits.sign * divideHalfEven digits.natAbs divisor) := by
  have rounds := isHalfEven_divideHalfEven digits.natAbs positive
  rcases Int.lt_trichotomy digits 0 with negative | zero | positive
  · have same : (digits : ℚ) / divisor = -(digits.natAbs / divisor) := by
      rw [← neg_div, Nat.cast_natAbs, abs_of_neg negative]
      push_cast
      rw [neg_neg]
    rw [same, Int.sign_eq_neg_one_of_neg negative, neg_one_mul]
    exact rounds.neg
  · subst zero
    simpa using IsHalfEven.of_int 0
  · have same : (digits : ℚ) / divisor = digits.natAbs / divisor := by
      rw [Nat.cast_natAbs, abs_of_pos positive]
    rw [same, Int.sign_eq_one_of_pos positive, one_mul]
    exact rounds

/-- A decimal number is rounded to a scale. -/
theorem roundTo_rounds (number : Decimal) (scale : Int) :
    (number.roundTo scale).Rounds number.value scale := by
  rw [rounds_iff, value_div_unit]
  unfold roundTo
  split
  next coarser =>
    rw [← number.digitsAt_eq coarser]
    exact ⟨rfl, .of_int _⟩
  next finer =>
    split
    next tiny =>
      have small := abs_lt_of_magnitude tiny
      refine ⟨rfl, ?_, fun _ => Even.zero⟩
      rw [Int.cast_zero, sub_zero]
      exact small.le
    next =>
      have shift : (10 : ℚ) ^ (scale - number.scale) =
          (powerOfTen (number.scale - scale).toNat : ℚ)⁻¹ := by
        rw [powerOfTen_toNat (by omega), ← zpow_neg, neg_sub]
      rw [shift, ← div_eq_mul_inv]
      exact ⟨rfl, isHalfEven_signed number.digits (Nat.pow_pos (by decide))⟩

end Decimal

end Procedural
