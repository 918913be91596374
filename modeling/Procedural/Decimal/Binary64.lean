import Procedural.Decimal.Basic
import Procedural.Text.Numeral

/-!
# Decimal numbers and binary floating point

A decimal number is approximated by a double after digits that cannot matter are
dropped, and a double is written with the fewest digits that read back as the
same double.  The search for those digits runs in exact natural-number arithmetic
on the significand and the exponent.
-/

namespace Procedural.Decimal

/-- Digits beyond this count can be dropped before conversion. -/
def keptDigits : Nat := 25

/-- Digits are dropped in groups of this size. -/
def droppedGroup : Nat := 19

/-- An estimate of the number of base-ten digits from the length in base two. -/
def estimatedDigits (magnitude : Nat) : Nat :=
  if magnitude = 0 then 0 else (magnitude.log2 + 2) * 30102999566398119 / 100000000000000000

/-- Drops low digits in groups while many more than `keptDigits` remain. -/
def trim (number : Decimal) : Decimal :=
  let groups := (estimatedDigits number.digits.natAbs - keptDigits) / droppedGroup
  ⟨number.digits.sign * (number.digits.natAbs / powerOfTen (droppedGroup * groups) : Nat),
    number.scale - (droppedGroup * groups : Nat)⟩

/-- Raises a double to a natural power by repeated squaring. -/
def floatPower : Nat → Float → Nat → Float → Float
  | 0, _, _, result => result
  | room + 1, base, exponent, result =>
      let result := if exponent % 2 = 1 then result * base else result
      if exponent / 2 = 0 then result else floatPower room (base * base) (exponent / 2) result

/-- The double that a number without a fraction is approximated by. -/
def wholeToFloat (number : Decimal) : Float :=
  let exponent := (-number.scale).toNat
  let magnitude := Float.ofScientific number.digits.natAbs false 0
  let scaled :=
    if exponent = 0 then magnitude
    else magnitude * floatPower (exponent.log2 + 1) 10.0 exponent 1.0
  if number.digits < 0 then -scaled else scaled

/-- Scales beyond this one in either direction are not converted. -/
def maxConvertedScale : Nat := 2147483647

/-- The double that a number is approximated by; a number whose scale is out of reach counts as
infinite. -/
def toFloat (number : Decimal) : Float :=
  if number.digits = 0 then 0.0
  else if number.scale = 0 then number.wholeToFloat
  else
    let number := number.trim
    if maxConvertedScale < number.scale.natAbs then
      if number.digits < 0 then -1.0 / 0.0 else 1.0 / 0.0
    else if number.scale ≤ 0 then number.wholeToFloat
    else
      let magnitude := Float.ofScientific number.digits.natAbs true number.scale.toNat
      if number.digits < 0 then -magnitude else magnitude

def maxFloat : Float := Float.ofScientific 17976931348623157 false 292

/-- The number is small enough for a literal: a fraction that remains after trimming bounds it
far below the greatest double, otherwise its double decides. -/
def fitsFloat (number : Decimal) : Bool :=
  let scale := number.trim.scale
  if number.digits = 0 ∨ (number.scale ≠ 0 ∧ 0 < scale ∧ scale ≤ maxConvertedScale) then true
  else
    let double := number.toFloat
    double.isFinite && double.abs != maxFloat

/-- The finite positive double `significand · 2 ^ exponent`. -/
structure Binary where
  significand : Nat
  exponent : Int

/-- The number of fractions that a double can have, which is also the least significand of a
double with a full number of digits. -/
def fractionCount : Nat := 4503599627370496

/-- The number of exponent fields that a double can have. -/
def fieldCount : Nat := 2048

/-- Significand and exponent of the magnitude of a finite double. -/
def Binary.ofFloat (double : Float) : Binary :=
  let bits := double.toBits.toNat
  let field : Nat := bits / fractionCount % fieldCount
  let fraction : Nat := bits % fractionCount
  if field = 0 then ⟨fraction, -1074⟩ else ⟨fractionCount + fraction, (field : Int) - 1075⟩

/-- The reals that round to a double, as fractions over one denominator; the ends belong to the
interval when the significand is even. -/
structure RoundingInterval where
  lower : Nat
  value : Nat
  upper : Nat
  denominator : Nat
  closed : Bool

/-- The interval of a positive double; below a power of two its neighbours are closer. -/
def Binary.interval (binary : Binary) : RoundingInterval :=
  let power := Nat.pow 2 binary.exponent.toNat
  let below := if binary.significand = fractionCount ∧ binary.exponent > -1074 then 1 else 2
  ⟨(4 * binary.significand - below) * power, 4 * binary.significand * power,
    (4 * binary.significand + 2) * power, 4 * Nat.pow 2 (-binary.exponent).toNat,
    binary.significand % 2 = 0⟩

/-- A fraction compared with the interval's ends. -/
def RoundingInterval.contains (interval : RoundingInterval) (numerator scale : Nat) : Bool :=
  let lower := interval.lower * scale
  let upper := interval.upper * scale
  if interval.closed then lower ≤ numerator && numerator ≤ upper
  else lower < numerator && numerator < upper

/-- The power of ten that starts the decade of a positive fraction. -/
def decade (numerator denominator : Nat) : Int :=
  let estimate : Int := Numeral.digitCount numerator - Numeral.digitCount denominator
  let isReached :=
    denominator * powerOfTen estimate.toNat ≤ numerator * powerOfTen (-estimate).toNat
  if isReached then estimate else estimate - 1

/-- The neighbour of the value on the grid of a power of ten that lies in the interval and is
the nearer of two. -/
def RoundingInterval.onGrid? (interval : RoundingInterval) (power : Int) : Option Nat :=
  let numeratorScale := powerOfTen (-power).toNat
  let unit := interval.denominator * powerOfTen power.toNat
  let value := interval.value * numeratorScale
  let below := value / unit
  let hit := fun count : Nat => interval.contains (count * unit) numeratorScale
  match hit below, hit (below + 1) with
  | true, true => some (if 2 * (value % unit) ≤ unit then below else below + 1)
  | true, false => some below
  | false, true => some (below + 1)
  | false, false => none

/-- The digit counts `count`, `count + 1`, … are tried until a grid has a hit. -/
def RoundingInterval.search (interval : RoundingInterval) (top : Int) : Nat → Nat → Nat × Int
  | 0, count => ((interval.onGrid? (top - count)).getD 0, top - count)
  | room + 1, count =>
      match interval.onGrid? (top - count) with
      | some digits => (digits, top - count)
      | none => interval.search top room (count + 1)

/-- The number with the fewest digits that reads back as a finite double, without trailing
zeros in its fraction. -/
def ofFloat (double : Float) : Decimal :=
  let binary := Binary.ofFloat double
  if binary.significand = 0 then ⟨0, 0⟩
  else
    let interval := binary.interval
    let (digits, power) := interval.search (decade interval.value interval.denominator) 16 0
    let magnitude := digits * powerOfTen power.toNat
    ⟨if double < 0.0 then -magnitude else magnitude, (-power).toNat⟩

/-- The natural logarithm of a number, computed on doubles; there is none unless it is finite. -/
def logarithm? (number : Decimal) : Option Decimal :=
  let double := number.toFloat.log
  if double.isFinite then some (ofFloat double) else none

end Procedural.Decimal
