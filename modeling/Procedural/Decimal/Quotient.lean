import Procedural.Decimal.Basic
import Procedural.Text.Numeral

/-!
# Division of decimal numbers

A quotient is found in two steps.  Long division produces at most
`precision` significant digits, the last one rounded away from zero; the result
is then rounded to the scale of the dividend, a half going to the even digit.
-/

namespace Procedural.Decimal

/-- The number of significant digits that long division produces. -/
def precision : Nat := 100

/-- Multiplies by ten until the divisor is reached; counts the multiplications. -/
def scaleUp (divisor : Nat) : Nat → Nat → Nat → Nat × Nat
  | 0, numerator, count => (numerator, count)
  | room + 1, numerator, count =>
      if numerator < divisor then scaleUp divisor room (numerator * 10) (count + 1)
      else (numerator, count)

/-- A quotient under construction, with the remainder it leaves. -/
structure PartialQuotient where
  quotient : Nat
  remainder : Nat
  scale : Int

/-- Appends at most `room` digits; a quotient without remainder is complete. -/
def extendQuotient (divisor : Nat) : Nat → PartialQuotient → PartialQuotient
  | 0, state => state
  | room + 1, state =>
      if state.remainder = 0 then state
      else
        let numerator := state.remainder * 10
        extendQuotient divisor room
          ⟨state.quotient * 10 + numerator / divisor, numerator % divisor, state.scale + 1⟩

/-- Adds one to the last digit when the next digit would be five or more. -/
def PartialQuotient.finish (divisor : Nat) (state : PartialQuotient) : Nat :=
  if 5 ≤ state.remainder * 10 / divisor then state.quotient + 1 else state.quotient

/-- Long division of two positive numbers whose scales differ by `scale`. -/
def longDivision (numerator divisor : Nat) (scale : Int) : Nat × Int :=
  let (numerator, count) := scaleUp divisor (Numeral.digitCount divisor) numerator 0
  let quotient := numerator / divisor
  let state := extendQuotient divisor (precision - Numeral.digitCount quotient)
    ⟨quotient, numerator % divisor, scale + count⟩
  (state.finish divisor, state.scale)

/-- The quotient before it is rounded to the scale of the dividend. -/
def quotient (left right : Decimal) : Decimal :=
  if left.digits = 0 ∨ right.isUnit then left
  else if left.digits = right.digits then ⟨1, left.scale - right.scale⟩
  else
    let (magnitude, scale) :=
      longDivision left.digits.natAbs right.digits.natAbs (left.scale - right.scale)
    ⟨left.digits.sign * right.digits.sign * magnitude, scale⟩

/-- Divides and rounds to the nearest integer; a half goes to the even one. -/
def divideHalfEven (numerator divisor : Nat) : Nat :=
  let whole := numerator / divisor
  let twice := 2 * (numerator % divisor)
  if divisor < twice ∨ (twice = divisor ∧ whole % 2 = 1) then whole + 1 else whole

/-- The nearest number of the given scale; a half goes to the even last digit.  A number of an
order of magnitude below that of a half becomes zero. -/
def roundTo (number : Decimal) (scale : Int) : Decimal :=
  if number.scale ≤ scale then ⟨number.digitsAt scale, scale⟩
  else if number.magnitude < -scale then ⟨0, scale⟩
  else
    let unit := powerOfTen (number.scale - scale).toNat
    ⟨number.digits.sign * divideHalfEven number.digits.natAbs unit, scale⟩

/-- The quotient at the scale of the dividend, for a divisor that is not zero. -/
def div (left right : Decimal) : Decimal :=
  (left.quotient right).roundTo left.scale

end Procedural.Decimal
