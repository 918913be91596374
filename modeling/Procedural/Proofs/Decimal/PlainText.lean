import Procedural.Proofs.Decimal.Order
import Procedural.Proofs.Reader.Completeness
import Procedural.Proofs.Token.Tokenization

/-!
# Decimal numbers as literals

The text without an exponent is meant to stand in a program: it is one token, and the
number that is read from it is the number that was written.  Trailing zeros stand for a
scale below zero, and they are wrong in one case only: zeros behind a zero are digits
that follow a leading zero, so a zero of such a scale cannot be read at all.
-/

namespace Procedural

open Scan Numeral

namespace Decimal

/-- The whole text is one token, and reading it gives a decimal number. -/
structure ReadFrom (text : String) (number : Decimal) : Prop where
  scanned : tokenize text = .ok [⟨.decimal, text, 0⟩]
  read : Reader.expression 1 [⟨.decimal, text, 0⟩] = .ok (.literal (.at 0) (.decimal number)) []

/-- The number is a zero at a scale below zero. -/
def IsCoarseZero (number : Decimal) : Prop :=
  number.digits = 0 ∧ number.scale < 0

/-- A sign, digits, a point and digits are read as they are written. -/
theorem readFrom_of_parts {text : String} {sign whole fraction : List Char} (isSign : IsSign sign)
    (isWhole : IsWhole whole) (isFraction : IsFraction fraction)
    (written : text.toList = sign ++ (whole ++ '.' :: fraction)) :
    ReadFrom text ⟨withSign sign (valueOf (whole ++ fraction)), fraction.length⟩ := by
  have isLexeme : Lexeme .decimal text.toList := written ▸ .decimal isSign isWhole isFraction
  refine ⟨tokenize_of_lexeme isLexeme, Reader.expression_literal rfl ?_⟩
  simp only [Token.scalar?, written, ofNumeral?_eq isSign isWhole isFraction, Option.map_some]

theorem valueOf_zeros (count : Nat) : valueOf (zeros count) = 0 := by
  have same := valueOf_zeros_append count []
  rwa [List.append_nil] at same

theorem length_zeros (count : Nat) : (zeros count).length = count :=
  List.length_replicate

theorem isDigit_of_mem_zeros {count : Nat} {c : Char} (member : c ∈ zeros count) :
    c.isDigit = true := by
  rw [List.eq_of_mem_replicate member]
  rfl

/-- Digits stay the digits of a whole number if others follow, unless they are a single zero. -/
theorem isWhole_append {cs more : List Char} (isWhole : IsWhole cs) (nonzero : valueOf cs ≠ 0)
    (digits : ∀ c ∈ more, c.isDigit = true) : IsWhole (cs ++ more) := by
  refine ⟨by simp [isWhole.nonempty], ?_, ?_⟩
  · intro c member
    rcases List.mem_append.mp member with here | later
    · exact isWhole.digits c here
    · exact digits c later
  · obtain ⟨first, rest, rfl, -⟩ := isWhole.cons
    have notZero : first ≠ '0' := by
      rintro rfl
      cases rest with
      | nil => exact nonzero rfl
      | cons second rest =>
          have digit := isWhole.digits second (by simp)
          have noLeadingZero : second.isDigit = false := isWhole.noLeadingZero
          rw [digit] at noLeadingZero
          cases noLeadingZero
    unfold hasLeadingZero
    split
    next same => exact absurd (List.cons.inj same).1 notZero
    · rfl

/-- The sign of a number, as it is written. -/
theorem signed_eq (number : Decimal) :
    ∃ sign, IsSign sign ∧ (∀ cs, number.signed cs = sign ++ cs) ∧
      ∀ factor : Nat, withSign sign (number.digits.natAbs * factor) = number.digits * factor := by
  by_cases negative : number.digits < 0
  · refine ⟨['-'], .minus, fun cs => by simp [signed, negative], fun factor => ?_⟩
    rw [withSign, if_neg (List.cons_ne_nil _ _), Int.natCast_mul, ← Int.neg_mul]
    congr 1
    omega
  · refine ⟨[], .absent, fun cs => by simp [signed, negative], fun factor => ?_⟩
    rw [withSign, if_pos rfl, Int.natCast_mul]
    congr 1
    omega

/-- Without fraction digits the zeros that the scale stands for are written out, and one more
behind the point. -/
theorem plain_eq_of_coarse {number : Decimal} (coarse : number.scale ≤ 0) :
    ∃ sign, IsSign sign ∧
      (∀ factor : Nat, withSign sign (number.digits.natAbs * factor) = number.digits * factor) ∧
      number.plain.toList =
        sign ++ ((digitChars number.digits.natAbs ++ zeros (-number.scale).toNat) ++
          '.' :: ['0']) := by
  obtain ⟨sign, isSign, isSigned, signed⟩ := number.signed_eq
  refine ⟨sign, isSign, signed, ?_⟩
  rw [plain, String.toList_ofList, if_pos coarse, isSigned]

theorem readFrom_plain_of_coarse {number : Decimal} (coarse : number.scale ≤ 0)
    (readable : ¬ number.IsCoarseZero) :
    ReadFrom number.plain ⟨number.digits * 10 ^ ((-number.scale).toNat + 1), 1⟩ := by
  obtain ⟨isWhole, denotes⟩ := digitChars_spec number.digits.natAbs
  obtain ⟨sign, isSign, signed, written⟩ := plain_eq_of_coarse coarse
  generalize isCount : (-number.scale).toNat = count at written ⊢
  have wholePart : IsWhole (digitChars number.digits.natAbs ++ zeros count) := by
    by_cases zero : number.digits = 0
    · have none : count = 0 := by
        have finest : ¬ number.scale < 0 := fun below => readable ⟨zero, below⟩
        omega
      rw [none]
      simpa [zeros] using isWhole
    · apply isWhole_append isWhole _ fun c => isDigit_of_mem_zeros
      rw [denotes]
      exact Int.natAbs_ne_zero.mpr zero
  have isFraction : IsFraction ['0'] := ⟨by simp, by simp⟩
  have read := readFrom_of_parts isSign wholePart isFraction written
  have value : valueOf ((digitChars number.digits.natAbs ++ zeros count) ++ ['0']) =
      number.digits.natAbs * 10 ^ (count + 1) := by
    rw [valueOf_append, valueOf_append, denotes, valueOf_zeros, length_zeros, Nat.add_zero,
      pow_succ, ← Nat.mul_assoc]
    rfl
  rw [value, signed] at read
  exact_mod_cast read

/-- With fraction digits the number is read back as it is. -/
theorem readFrom_plain_of_fractional {number : Decimal} (fractional : 1 ≤ number.scale) :
    ReadFrom number.plain number := by
  obtain ⟨sign, whole, fraction, isSign, isWhole, isFraction, written, digits, scale⟩ :=
    plain_eq fractional
  have read := readFrom_of_parts isSign isWhole isFraction written
  rwa [digits, scale] at read

/-- Zeros behind a zero are refused by the scanner. -/
theorem tokenize_plain_of_isCoarseZero {number : Decimal} (coarse : number.IsCoarseZero) :
    tokenize number.plain = .error ⟨.leadingZero, 0⟩ := by
  obtain ⟨zero, below⟩ := coarse
  obtain ⟨count, isCount⟩ : ∃ count, (-number.scale).toNat = count + 1 :=
    ⟨(-number.scale).toNat - 1, by omega⟩
  have written : number.plain.toList = '0' :: '0' :: (zeros count ++ ['.', '0']) := by
    rw [plain, String.toList_ofList, if_pos below.le, isCount, signed, if_neg (by omega), zero]
    rfl
  rw [tokenize, Cursor.ofString, written]
  rfl

/-- The text of a number is a literal of the same number, unless the number is a zero at a scale
below zero; such a text does not even have tokens.  A number with fraction digits is read back
with exactly its digits and its scale. -/
theorem plain_readable (number : Decimal) :
    ((∃ found, ReadFrom number.plain found ∧ found.same number = true ∧
        (1 ≤ number.scale → found = number)) ↔ ¬ number.IsCoarseZero) ∧
      (number.IsCoarseZero → tokenize number.plain = .error ⟨.leadingZero, 0⟩) := by
  refine ⟨⟨?_, fun readable => ?_⟩, tokenize_plain_of_isCoarseZero⟩
  · rintro ⟨found, read, -⟩ coarse
    have scanned := read.scanned
    rw [tokenize_plain_of_isCoarseZero coarse] at scanned
    cases scanned
  · by_cases fractional : 1 ≤ number.scale
    · exact ⟨number, readFrom_plain_of_fractional fractional, same_iff.mpr rfl, fun _ => rfl⟩
    · have coarse : number.scale ≤ 0 := by omega
      refine ⟨_, readFrom_plain_of_coarse coarse readable, same_iff.mpr ?_,
        fun finer => absurd finer fractional⟩
      have scale : number.scale + ((-number.scale).toNat + 1 : Nat) = 1 := by omega
      rw [← value_zeros number.digits number.scale ((-number.scale).toNat + 1), scale]

/-- Zeros of a negative scale and zeros in front of a fraction are both written out. -/
theorem plain_readable_padded :
    plain ⟨-12, -3⟩ = "-12000.0" ∧ plain ⟨-12, 3⟩ = "-0.012" ∧
      ¬ IsCoarseZero ⟨-12, -3⟩ ∧ (1 : Int) ≤ Decimal.scale ⟨-12, 3⟩ ∧
      (∃ found, ReadFrom "-12000.0" found ∧ found.same ⟨-12, -3⟩ = true) ∧
      ReadFrom "-0.012" ⟨-12, 3⟩ := by
  have coarse : plain ⟨-12, -3⟩ = "-12000.0" := by decide +kernel
  have fine : plain ⟨-12, 3⟩ = "-0.012" := by decide +kernel
  have nonzero (scale : Int) : ¬ IsCoarseZero ⟨-12, scale⟩ := fun zero => by cases zero.1
  obtain ⟨found, read, same, -⟩ := (plain_readable ⟨-12, -3⟩).1.mpr (nonzero _)
  obtain ⟨found', read', -, exactly⟩ := (plain_readable ⟨-12, 3⟩).1.mpr (nonzero _)
  obtain rfl := exactly (by decide)
  rw [coarse] at read
  rw [fine] at read'
  exact ⟨coarse, fine, nonzero _, by decide, ⟨found, read, same⟩, read'⟩

/-- Zero thousands are written with a leading zero. -/
theorem plain_zero_unreadable :
    ∃ number : Decimal, number = ⟨0, -3⟩ ∧ number.plain = "0000.0" ∧
      tokenize number.plain = .error ⟨.leadingZero, 0⟩ ∧
      ¬ ∃ found, ReadFrom number.plain found := by
  have refused : tokenize (plain ⟨0, -3⟩) = .error ⟨.leadingZero, 0⟩ :=
    tokenize_plain_of_isCoarseZero ⟨rfl, by decide⟩
  refine ⟨_, rfl, by decide +kernel, refused, ?_⟩
  rintro ⟨found, read⟩
  have scanned := read.scanned
  rw [refused] at scanned
  cases scanned

end Decimal

end Procedural
