/-!
# Numerals

A natural number is written in base ten without leading zeros.  Reading is more
liberal than writing: an integer numeral may carry one sign, and underscores may
stand after its first digit.  Long numbers are written by halves and read by groups
of digits, so that few operations concern the whole number.
-/

namespace Procedural.Numeral

/-- Ten, its square, the square of that, and so on: the power of ten to the `2 ^ level`. -/
def base : Nat → Nat
  | 0 => 10
  | level + 1 => base level * base level

/-- The digits of a number below `base level`, with leading zeros; their count is a power of
two. -/
def paddedDigits : Nat → Nat → List Char
  | 0, number => [Nat.digitChar number]
  | level + 1, number =>
      paddedDigits level (number / base level) ++ paddedDigits level (number % base level)

/-- The first level from a given one on whose base exceeds a number. -/
def levelFrom (number : Nat) : Nat → Nat → Nat
  | 0, level => level
  | room + 1, level =>
      if number < base level then level else levelFrom number room (level + 1)

/-- The first level whose base exceeds a number. -/
def level (number : Nat) : Nat :=
  levelFrom number (number.log2 + 1) 0

/-- Drops leading zeros; the digits of zero become a single zero. -/
def dropLeadingZeros (cs : List Char) : List Char :=
  match cs.dropWhile (· == '0') with
  | [] => ['0']
  | rest => rest

/-- The base-ten digits of a number, most significant first. -/
def digitChars (number : Nat) : List Char :=
  dropLeadingZeros (paddedDigits (level number) number)

/-- How many base-ten digits a number is written with. -/
def digitCount (number : Nat) : Nat :=
  (digitChars number).length

/-- An integer with a minus sign if it is negative. -/
def text (number : Int) : String :=
  let digits := digitChars number.natAbs
  String.ofList (if number < 0 then '-' :: digits else digits)

def digitValue (c : Char) : Nat :=
  c.toNat - '0'.toNat

/-- A number that is being read: complete groups of digits in units of `unit`, and the digits of
the group that follows them. -/
structure Accumulator where
  groups : Nat
  unit : Nat
  group : Nat

namespace Accumulator

def empty : Accumulator :=
  ⟨0, 1, 0⟩

/-- A group is complete when its unit has reached this size. -/
def fullUnit : Nat := 1000000000000000000

def value (state : Accumulator) : Nat :=
  state.groups * state.unit + state.group

def push (state : Accumulator) (digit : Nat) : Accumulator :=
  if state.unit < fullUnit then ⟨state.groups, 10 * state.unit, 10 * state.group + digit⟩
  else ⟨state.value, 10, digit⟩

/-- A further digit moves the others up by one place. -/
theorem value_push (state : Accumulator) (digit : Nat) :
    (state.push digit).value = 10 * state.value + digit := by
  unfold push
  split
  · simp only [value, Nat.mul_left_comm state.groups 10 state.unit]
    omega
  · simp only [value]
    omega

end Accumulator

/-- A run of digits read in base ten; underscores between them do not count. -/
def digitsValue (cs : List Char) : Nat :=
  (cs.foldl
    (fun (state : Accumulator) c => if c = '_' then state else state.push (digitValue c))
    Accumulator.empty).value

/-- Reads a numeral without a sign; it starts with a digit. -/
def unsigned? : List Char → Option Nat
  | [] => none
  | first :: rest =>
      if first.isDigit && rest.all (fun c => c.isDigit || c == '_') then
        some (digitsValue (first :: rest))
      else none

/-- Reads a numeral after an optional plus sign. -/
def positive? : List Char → Option Nat
  | '+' :: rest => unsigned? rest
  | cs => unsigned? cs

/-- Reads an integer numeral with at most one sign. -/
def integer? : List Char → Option Int
  | '-' :: rest => (unsigned? rest).map fun value => -(value : Int)
  | cs => (positive? cs).map fun value => (value : Int)

/-- Reads an exponent: a sign or none, then digits only. -/
def exponent? (cs : List Char) : Option Int :=
  if cs.contains '_' then none else integer? cs

end Procedural.Numeral
