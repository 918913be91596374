import Procedural.Decimal.Basic
import Procedural.Text.Numeral

/-!
# Texts of decimal numbers

Three texts exist.  `ofNumeral?` reads numerals with a fraction and an exponent.
`text` is what programs print and what messages quote; it changes to an exponent
where too many zeros would be written.  `plain` never uses an exponent and always
has a fraction, so it can stand in a program.
-/

namespace Procedural.Decimal

def zeros (count : Nat) : List Char :=
  List.replicate count '0'

def signed (number : Decimal) (cs : List Char) : List Char :=
  if number.digits < 0 then '-' :: cs else cs

/-- Digits with a point before the last `fraction` of them, padded with leading zeros. -/
def withPoint (cs : List Char) (fraction : Nat) : List Char :=
  let padded := zeros (fraction + 1 - cs.length) ++ cs
  let whole := padded.length - fraction
  padded.take whole ++ '.' :: padded.drop whole

/-- The zeros after the point beyond which an exponent is written. -/
def maxLeadingZeros : Int := 5

/-- The zeros before the point beyond which an exponent is written. -/
def maxTrailingZeros : Int := 15

/-- Digits with a point after the first of several. -/
def mantissa : List Char → List Char
  | first :: second :: rest => first :: '.' :: second :: rest
  | cs => cs

/-- The printed text: positional where few zeros are needed, else with an exponent. -/
def text (number : Decimal) : String :=
  let cs := Numeral.digitChars number.digits.natAbs
  String.ofList <|
    if number.digits = 0 then ['0']
    else if number.scale - cs.length > maxLeadingZeros then
      let exponent := (number.scale + 1 - cs.length).toNat
      number.signed (mantissa cs ++ 'E' :: '-' :: Numeral.digitChars exponent)
    else if -number.scale > maxTrailingZeros then
      number.signed (cs ++ 'e' :: '+' :: Numeral.digitChars (-number.scale).toNat)
    else if number.scale > 0 then
      number.signed (withPoint cs number.scale.toNat)
    else
      number.signed (cs ++ zeros (-number.scale).toNat)

/-- The text without an exponent and with at least one fraction digit. -/
def plain (number : Decimal) : String :=
  let cs := Numeral.digitChars number.digits.natAbs
  String.ofList <| number.signed <|
    if number.scale ≤ 0 then cs ++ zeros (-number.scale).toNat ++ ['.', '0']
    else withPoint cs number.scale.toNat

/-- The scales that a numeral can have are those of 64 bits with a sign. -/
def isScale (scale : Int) : Bool :=
  -9223372036854775808 ≤ scale && scale < 9223372036854775808

/-- Splits at the first character of a class, which is dropped. -/
def splitAtFirst (isMark : Char → Bool) (cs : List Char) : List Char × Option (List Char) :=
  match cs.dropWhile (fun c => !isMark c) with
  | [] => (cs, none)
  | _ :: rest => (cs.takeWhile (fun c => !isMark c), some rest)

/-- Reads a numeral without exponent; its scale counts the fraction digits. -/
def ofFraction? (cs : List Char) : Option Decimal :=
  match splitAtFirst (· == '.') cs with
  | (whole, none) => (Numeral.integer? whole).map (⟨·, 0⟩)
  | (whole, some fraction) =>
      (Numeral.integer? (whole ++ fraction)).map
        (⟨·, ((fraction.filter (· != '_')).length : Nat)⟩)

/-- Reads a numeral with an optional fraction and an optional exponent. -/
def ofNumeral? (cs : List Char) : Option Decimal :=
  match splitAtFirst (fun c => c == 'e' || c == 'E') cs with
  | (base, none) => ofFraction? base
  | (base, some exponent) =>
      match ofFraction? base, Numeral.exponent? exponent with
      | some number, some shift =>
          let scale := number.scale - shift
          if isScale scale then some ⟨number.digits, scale⟩ else none
      | _, _ => none

end Procedural.Decimal
