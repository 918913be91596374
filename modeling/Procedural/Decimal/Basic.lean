import Procedural.Text.Numeral

/-!
# Decimal numbers

A decimal number is a pair of an unscaled integer and a scale.  Two pairs may
denote one number; `Decimal.compare` orders the numbers, not the pairs, while
addition, subtraction and multiplication fix which pair of the result is chosen.
-/

namespace Procedural

/-- The number `digits · 10 ^ (-scale)`. -/
structure Decimal where
  digits : Int
  scale : Int
  deriving DecidableEq, Repr, Inhabited

namespace Decimal

def powerOfTen (exponent : Nat) : Nat :=
  Nat.pow 10 exponent

/-- The unscaled integer of the same number at a scale that is not smaller. -/
def digitsAt (number : Decimal) (scale : Int) : Int :=
  if number.digits = 0 then 0
  else number.digits * powerOfTen (scale - number.scale).toNat

/-- The least power of ten that exceeds the magnitude of a number other than zero. -/
def magnitude (number : Decimal) : Int :=
  Numeral.digitCount number.digits.natAbs - number.scale

/-- Orders the numbers that two pairs denote after bringing them to one scale. -/
def compareAligned (left right : Decimal) : Ordering :=
  let scale := max left.scale right.scale
  Ord.compare (left.digitsAt scale) (right.digitsAt scale)

/-- Orders the numbers that two pairs denote: by sign, then by order of magnitude, and at one
scale only where these agree, so that no number is written out at a distant scale. -/
def compare (left right : Decimal) : Ordering :=
  let leftSign := left.digits.sign
  let rightSign := right.digits.sign
  (Ord.compare leftSign rightSign).then <|
    (Ord.compare (leftSign * left.magnitude) (rightSign * right.magnitude)).then <|
      left.compareAligned right

/-- Both pairs denote one number. -/
def same (left right : Decimal) : Bool :=
  left.compare right == .eq

/-- Moves trailing zeros of the digits into the scale, if there are fewer than `2 ^ level`. -/
def dropZeros : Nat → Decimal → Decimal
  | 0, number => number
  | level + 1, number =>
      let base : Int := Numeral.base level
      if number.digits % base = 0 then
        dropZeros level ⟨number.digits / base, number.scale - Nat.pow 2 level⟩
      else dropZeros level number

/-- The pair of the same number whose digits end in no zero; zero has scale zero. -/
def normalize (number : Decimal) : Decimal :=
  if number.digits = 0 then ⟨0, 0⟩
  else dropZeros (Numeral.level number.digits.natAbs) number

/-- The greatest scale at which a written one is recognised. -/
def maxUnitScale : Int := 38

/-- The pair denotes one and is written with at most `maxUnitScale` fraction digits. -/
def isUnit (number : Decimal) : Bool :=
  0 ≤ number.scale && number.scale ≤ maxUnitScale &&
    number.digits == powerOfTen number.scale.toNat

/-- How many fraction digits a zero summand can add to the other summand. -/
def maxZeroExtension : Int := 15

/-- A number that meets a zero of another scale takes on fraction digits of it. -/
def extendToward (number : Decimal) (scale : Int) : Decimal :=
  let target := number.scale + min (max (scale - number.scale) 0) maxZeroExtension
  ⟨number.digitsAt target, target⟩

/-- The sum at the larger scale; a zero summand only extends the other one. -/
def add (left right : Decimal) : Decimal :=
  if right.digits = 0 then left.extendToward right.scale
  else if left.digits = 0 then right.extendToward left.scale
  else
    let scale := max left.scale right.scale
    ⟨left.digitsAt scale + right.digitsAt scale, scale⟩

def sub (left right : Decimal) : Decimal :=
  let scale := max left.scale right.scale
  ⟨left.digitsAt scale - right.digitsAt scale, scale⟩

/-- The product; a factor that is recognised as one leaves the other factor, normalized. -/
def mul (left right : Decimal) : Decimal :=
  if left.isUnit then right.normalize
  else if right.isUnit then left.normalize
  else ⟨left.digits * right.digits, left.scale + right.scale⟩

end Decimal

end Procedural
