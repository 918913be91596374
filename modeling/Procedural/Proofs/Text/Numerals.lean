import Mathlib.Data.List.TakeWhile
import Mathlib.Tactic.Ring
import Procedural.Decimal.Text
import Procedural.Proofs.Token.Lexeme

/-!
# Numerals read back

A natural number is written without leading zeros, and the digits it is written with
denote it again.  From this follow the laws of signed integers and of decimal numbers
with at least one fraction digit: their texts are tokens, and reading such a token
gives the number with exactly its digits and its scale.
-/

namespace Procedural.Numeral

open Scan

/-- The number that a run of digits denotes. -/
def valueOf (cs : List Char) : Nat :=
  cs.foldl (fun number c => 10 * number + digitValue c) 0

/-- A number with the sign that stands before it. -/
def withSign (sign : List Char) (number : Nat) : Int :=
  if sign = [] then number else -number

theorem foldl_digits (cs : List Char) (start : Nat) :
    cs.foldl (fun number c => 10 * number + digitValue c) start =
      start * 10 ^ cs.length + valueOf cs := by
  induction cs generalizing start with
  | nil => simp [valueOf]
  | cons c cs induction =>
      simp only [valueOf, List.foldl_cons, List.length_cons]
      rw [induction, induction (10 * 0 + digitValue c)]
      ring

theorem valueOf_append (left right : List Char) :
    valueOf (left ++ right) = valueOf left * 10 ^ right.length + valueOf right := by
  unfold valueOf
  rw [List.foldl_append, foldl_digits]
  rfl

theorem underscore_of_isDigit {c : Char} (digit : c.isDigit = true) : c ≠ '_' := by
  rintro rfl
  revert digit
  decide

/-- Reading by groups gives the number that the digits denote. -/
theorem digitsValue_eq {cs : List Char} (digits : ∀ c ∈ cs, c.isDigit = true) :
    digitsValue cs = valueOf cs := by
  have read : ∀ (cs : List Char) (state : Accumulator), (∀ c ∈ cs, c.isDigit = true) →
      (cs.foldl (fun (state : Accumulator) c =>
        if c = '_' then state else state.push (digitValue c)) state).value =
        cs.foldl (fun number c => 10 * number + digitValue c) state.value := by
    intro cs
    induction cs with
    | nil => intro state _; rfl
    | cons c cs induction =>
        intro state digits
        have notUnderscore := underscore_of_isDigit (digits c (by simp))
        simp only [List.foldl_cons, if_neg notUnderscore]
        rw [induction _ fun d member => digits d (by simp [member]), Accumulator.value_push]
  exact read cs Accumulator.empty digits

theorem unsigned?_eq {cs : List Char} (nonempty : cs ≠ [])
    (digits : ∀ c ∈ cs, c.isDigit = true) : unsigned? cs = some (valueOf cs) := by
  cases cs with
  | nil => exact absurd rfl nonempty
  | cons first rest =>
      have firstDigit := digits first (by simp)
      have restDigits : rest.all (fun c => c.isDigit || c == '_') = true := by
        apply List.all_eq_true.mpr
        intro c member
        simp [digits c (by simp [member])]
      simp only [unsigned?, firstDigit, restDigits, Bool.and_true, if_true]
      rw [digitsValue_eq digits]

/-- A numeral with an optional sign denotes the number of its digits. -/
theorem integer?_eq {sign cs : List Char} (isSign : IsSign sign) (nonempty : cs ≠ [])
    (digits : ∀ c ∈ cs, c.isDigit = true) :
    integer? (sign ++ cs) = some (withSign sign (valueOf cs)) := by
  have unsigned := unsigned?_eq nonempty digits
  cases isSign with
  | minus => simp [integer?, unsigned, withSign]
  | absent =>
      cases cs with
      | nil => exact absurd rfl nonempty
      | cons first rest =>
          have firstDigit := digits first (by simp)
          have notMinus : first ≠ '-' := by
            rintro rfl
            revert firstDigit
            decide
          have notPlus : first ≠ '+' := by
            rintro rfl
            revert firstDigit
            decide
          simp [integer?, positive?, notMinus, notPlus, unsigned, withSign]

theorem base_eq (level : Nat) : base level = 10 ^ 2 ^ level := by
  induction level with
  | zero => rfl
  | succ level induction =>
      rw [base, induction, ← pow_add, ← two_mul, pow_succ 2 level, mul_comm]

theorem lt_base_levelFrom (number : Nat) : ∀ room start, number < base (start + room) →
    number < base (levelFrom number room start) := by
  intro room
  induction room with
  | zero =>
      intro start below
      exact below
  | succ room induction =>
      intro start below
      unfold levelFrom
      split
      · assumption
      · apply induction (start + 1)
        rwa [Nat.add_right_comm]

/-- The digits at the level of a number have room for the whole number. -/
theorem lt_base_level (number : Nat) : number < base (level number) := by
  apply lt_base_levelFrom
  rw [base_eq, Nat.zero_add]
  calc
    number < 2 ^ (number.log2 + 1) := Nat.lt_log2_self
    _ ≤ 10 ^ (number.log2 + 1) := Nat.pow_le_pow_left (by decide) _
    _ ≤ 10 ^ 2 ^ (number.log2 + 1) :=
        Nat.pow_le_pow_right (by decide) (Nat.le_of_lt Nat.lt_two_pow_self)

theorem isDigit_digitChar {digit : Nat} (small : digit < 10) :
    (Nat.digitChar digit).isDigit = true ∧ digitValue (Nat.digitChar digit) = digit := by
  have all : ∀ digit < 10, (Nat.digitChar digit).isDigit = true ∧
      digitValue (Nat.digitChar digit) = digit := by
    decide
  exact all digit small

/-- What is known of digits that are written with leading zeros. -/
theorem paddedDigits_spec (level : Nat) : ∀ number, number < base level →
    (paddedDigits level number).length = 2 ^ level ∧
      (∀ c ∈ paddedDigits level number, c.isDigit = true) ∧
      valueOf (paddedDigits level number) = number := by
  induction level with
  | zero =>
      intro number below
      obtain ⟨isDigit, value⟩ := isDigit_digitChar below
      refine ⟨rfl, ?_, ?_⟩
      · simpa [paddedDigits] using isDigit
      · simpa [paddedDigits, valueOf] using value
  | succ level induction =>
      intro number below
      have positive : 0 < base level := by
        rw [base_eq]
        exact Nat.pow_pos (by decide)
      obtain ⟨highLength, highDigits, highValue⟩ := induction (number / base level)
        (Nat.div_lt_of_lt_mul below)
      obtain ⟨lowLength, lowDigits, lowValue⟩ := induction (number % base level)
        (Nat.mod_lt _ positive)
      refine ⟨?_, ?_, ?_⟩
      · simp only [paddedDigits, List.length_append, highLength, lowLength, pow_succ]
        ring
      · intro c member
        rcases List.mem_append.mp member with high | low
        · exact highDigits c high
        · exact lowDigits c low
      · simp only [paddedDigits]
        rw [valueOf_append, highValue, lowValue, lowLength, ← base_eq]
        exact Nat.div_add_mod' number (base level)

theorem valueOf_dropZeros (cs : List Char) :
    valueOf (cs.dropWhile (· == '0')) = valueOf cs := by
  induction cs with
  | nil => rfl
  | cons c cs induction =>
      by_cases zero : c = '0'
      · subst zero
        rw [List.dropWhile_cons_of_pos (by simp), induction]
        rfl
      · rw [List.dropWhile_cons_of_neg (by simpa using zero)]

theorem valueOf_zeros_append (count : Nat) (cs : List Char) :
    valueOf (List.replicate count '0' ++ cs) = valueOf cs := by
  induction count with
  | zero => rfl
  | succ count induction =>
      rw [List.replicate_succ, List.cons_append, ← induction]
      rfl

/-- Without its leading zeros a run of digits is written as numbers are, and means the same. -/
theorem dropLeadingZeros_spec {cs : List Char} (digits : ∀ c ∈ cs, c.isDigit = true) :
    IsWhole (dropLeadingZeros cs) ∧ valueOf (dropLeadingZeros cs) = valueOf cs := by
  unfold dropLeadingZeros
  split
  next allZero =>
    refine ⟨⟨by simp, by simp, rfl⟩, ?_⟩
    rw [← valueOf_dropZeros cs, allZero]
    rfl
  next some =>
    refine ⟨⟨some, ?_, ?_⟩, valueOf_dropZeros cs⟩
    · intro c member
      exact digits c ((List.dropWhile_sublist _).mem member)
    · have head := List.head?_dropWhile_not (· == '0') cs
      generalize cs.dropWhile (· == '0') = rest at head
      unfold hasLeadingZero
      split <;> simp_all

/-- The digits of a number are written without leading zeros and denote it. -/
theorem digitChars_spec (number : Nat) :
    IsWhole (digitChars number) ∧ valueOf (digitChars number) = number := by
  obtain ⟨_, digits, value⟩ := paddedDigits_spec (level number) number (lt_base_level number)
  obtain ⟨isWhole, same⟩ := dropLeadingZeros_spec digits
  exact ⟨isWhole, same.trans value⟩

/-- The sign of a number and the digits of its magnitude. -/
theorem text_eq (number : Int) :
    ∃ sign, IsSign sign ∧ (text number).toList = sign ++ digitChars number.natAbs ∧
      withSign sign number.natAbs = number := by
  by_cases negative : number < 0
  · refine ⟨['-'], .minus, ?_, ?_⟩
    · simp [text, negative]
    · simp only [withSign, List.cons_ne_self, if_false]
      omega
  · refine ⟨[], .absent, ?_, ?_⟩
    · simp [text, negative]
    · simp only [withSign, if_true]
      omega

/-- The text of an integer is one token. -/
theorem lexeme_text (number : Int) : Lexeme .integer (text number).toList := by
  obtain ⟨sign, isSign, written, _⟩ := text_eq number
  rw [written]
  exact .integer isSign (digitChars_spec _).1

theorem integer?_text (number : Int) : integer? (text number).toList = some number := by
  obtain ⟨sign, isSign, written, signed⟩ := text_eq number
  obtain ⟨isWhole, value⟩ := digitChars_spec number.natAbs
  rw [written, integer?_eq isSign isWhole.nonempty isWhole.digits, value, signed]

end Procedural.Numeral

namespace Procedural.Decimal

open Scan Numeral

theorem isSign_no_mark {sign : List Char} (isSign : IsSign sign) (isMark : Char → Bool)
    (notMinus : isMark '-' = false) : ∀ c ∈ sign, isMark c = false := by
  cases isSign with
  | absent => simp
  | minus => simpa using notMinus

theorem splitAtFirst_none {isMark : Char → Bool} {cs : List Char}
    (noMark : ∀ c ∈ cs, isMark c = false) : splitAtFirst isMark cs = (cs, none) := by
  have dropped : cs.dropWhile (fun c => !isMark c) = [] := by
    apply List.dropWhile_eq_nil_iff.mpr
    intro c member
    simp [noMark c member]
  simp [splitAtFirst, dropped]

theorem splitAtFirst_some {isMark : Char → Bool} {before : List Char} {mark : Char}
    (after : List Char) (noMark : ∀ c ∈ before, isMark c = false) (marked : isMark mark = true) :
    splitAtFirst isMark (before ++ mark :: after) = (before, some after) := by
  have split := @takeWhile_stops (fun c => !isMark c) before (mark :: after)
    (fun c member => by simp [noMark c member])
    (fun c head => by cases head; simp [marked])
  simp [splitAtFirst, split.1, split.2]

theorem mark_of_isDigit {c : Char} (digit : c.isDigit = true) :
    (c == 'e' || c == 'E') = false ∧ (c == '.') = false := by
  have different : ∀ d : Char, d.isDigit = false → (c == d) = false := by
    intro d notDigit
    apply beq_eq_false_iff_ne.mpr
    rintro rfl
    rw [digit] at notDigit
    cases notDigit
  refine ⟨?_, different '.' (by decide)⟩
  rw [different 'e' (by decide), different 'E' (by decide)]
  rfl

/-- A decimal token denotes its digits with as many fraction digits as it has. -/
theorem ofNumeral?_eq {sign whole fraction : List Char} (isSign : IsSign sign)
    (isWhole : IsWhole whole) (isFraction : IsFraction fraction) :
    ofNumeral? (sign ++ (whole ++ '.' :: fraction)) =
      some ⟨withSign sign (valueOf (whole ++ fraction)), fraction.length⟩ := by
  have digits : ∀ c ∈ whole ++ fraction, c.isDigit = true := by
    intro c member
    rcases List.mem_append.mp member with inWhole | inFraction
    · exact isWhole.digits c inWhole
    · exact isFraction.digits c inFraction
  have noExponent : ∀ c ∈ sign ++ (whole ++ '.' :: fraction),
      (c == 'e' || c == 'E') = false := by
    intro c member
    simp only [List.mem_append, List.mem_cons] at member
    rcases member with inSign | inWhole | rfl | inFraction
    · exact isSign_no_mark isSign (fun c => c == 'e' || c == 'E') rfl c inSign
    · exact (mark_of_isDigit (isWhole.digits c inWhole)).1
    · rfl
    · exact (mark_of_isDigit (isFraction.digits c inFraction)).1
  have noPoint : ∀ c ∈ sign ++ whole, (c == '.') = false := by
    intro c member
    rcases List.mem_append.mp member with inSign | inWhole
    · exact isSign_no_mark isSign (· == '.') rfl c inSign
    · exact (mark_of_isDigit (isWhole.digits c inWhole)).2
  have counted : fraction.filter (· != '_') = fraction := by
    apply List.filter_eq_self.mpr
    intro c member
    simpa using underscore_of_isDigit (isFraction.digits c member)
  have nonempty : whole ++ fraction ≠ [] := by simp [isWhole.nonempty]
  have point := splitAtFirst_some fraction noPoint (beq_self_eq_true '.')
  rw [List.append_assoc] at point
  simp only [ofNumeral?, splitAtFirst_none noExponent, ofFraction?, point, counted,
    List.append_assoc, integer?_eq isSign nonempty digits, Option.map_some]

theorem hasLeadingZero_take {cs : List Char} (noLeadingZero : hasLeadingZero cs = false)
    (count : Nat) : hasLeadingZero (cs.take count) = false := by
  match cs, count with
  | [], _ => simp [hasLeadingZero]
  | _ :: _, 0 => rfl
  | [first], count + 1 => simpa using noLeadingZero
  | first :: second :: rest, 1 => unfold hasLeadingZero; split <;> simp_all
  | first :: second :: rest, count + 2 =>
      simp only [List.take_succ_cons]
      unfold hasLeadingZero at noLeadingZero ⊢
      split <;> simp_all

/-- A point among the digits of a number leaves both parts in the form of a decimal token. -/
theorem withPoint_spec {cs : List Char} (isWhole : IsWhole cs) (places : Nat) :
    ∃ whole fraction, IsWhole whole ∧ IsFraction fraction ∧
      withPoint cs (places + 1) = whole ++ '.' :: fraction ∧
      fraction.length = places + 1 ∧ valueOf (whole ++ fraction) = valueOf cs := by
  let padded := zeros (places + 2 - cs.length) ++ cs
  let count := padded.length - (places + 1)
  have length : padded.length = places + 2 - cs.length + cs.length := by
    simp [padded, zeros]
  have digits : ∀ c ∈ padded, c.isDigit = true := by
    intro c member
    rcases List.mem_append.mp member with inZeros | inDigits
    · rw [List.eq_of_mem_replicate inZeros]
      rfl
    · exact isWhole.digits c inDigits
  have noLeadingZero : hasLeadingZero (padded.take count) = false := by
    by_cases short : cs.length ≤ places + 1
    · -- Padding leaves a single zero before the point.
      have single : count = 1 := by omega
      rw [single]
      cases padded with
      | nil => rfl
      | cons first rest => unfold hasLeadingZero; split <;> simp_all
    · have unpadded : padded = cs := by
        have none : places + 2 - cs.length = 0 := by omega
        simp [padded, zeros, none]
      rw [unpadded]
      exact hasLeadingZero_take isWhole.noLeadingZero count
  have wholeLength : (padded.take count).length = count := by
    simp [count]
  have fractionLength : (padded.drop count).length = places + 1 := by
    rw [List.length_drop]
    omega
  refine ⟨padded.take count, padded.drop count, ⟨?_, ?_, noLeadingZero⟩, ⟨?_, ?_⟩, rfl,
    fractionLength, ?_⟩
  · intro empty
    rw [empty, List.length_nil] at wholeLength
    omega
  · exact fun c member => digits c (List.mem_of_mem_take member)
  · intro empty
    rw [empty, List.length_nil] at fractionLength
    omega
  · exact fun c member => digits c (List.mem_of_mem_drop member)
  · rw [List.take_append_drop]
    exact valueOf_zeros_append _ cs

/-- The parts of the text without an exponent of a number with a fraction. -/
theorem plain_eq {number : Decimal} (fractional : 1 ≤ number.scale) :
    ∃ sign whole fraction, IsSign sign ∧ IsWhole whole ∧ IsFraction fraction ∧
      number.plain.toList = sign ++ (whole ++ '.' :: fraction) ∧
      withSign sign (valueOf (whole ++ fraction)) = number.digits ∧
      (fraction.length : Int) = number.scale := by
  obtain ⟨isWhole, value⟩ := digitChars_spec number.digits.natAbs
  have toNat : number.scale.toNat = (number.scale.toNat - 1) + 1 := by omega
  obtain ⟨whole, fraction, isWholePart, isFraction, point, length, denoted⟩ :=
    withPoint_spec isWhole (number.scale.toNat - 1)
  rw [← toNat] at point length
  rw [value] at denoted
  have scale : (fraction.length : Int) = number.scale := by omega
  have positive : ¬number.scale ≤ 0 := by omega
  have written : number.plain.toList = number.signed (whole ++ '.' :: fraction) := by
    simp only [plain, String.toList_ofList, if_neg positive, point]
  by_cases negative : number.digits < 0
  · refine ⟨['-'], whole, fraction, .minus, isWholePart, isFraction, ?_, ?_, scale⟩
    · rw [written]
      simp [signed, negative]
    · rw [denoted]
      simp only [withSign, List.cons_ne_self, if_false]
      omega
  · refine ⟨[], whole, fraction, .absent, isWholePart, isFraction, ?_, ?_, scale⟩
    · rw [written]
      simp [signed, negative]
    · rw [denoted]
      simp only [withSign, if_true]
      omega

/-- The text without an exponent of a number with a fraction is one token. -/
theorem lexeme_plain {number : Decimal} (fractional : 1 ≤ number.scale) :
    Lexeme .decimal number.plain.toList := by
  obtain ⟨sign, whole, fraction, isSign, isWhole, isFraction, written, _, _⟩ :=
    plain_eq fractional
  rw [written]
  exact .decimal isSign isWhole isFraction

/-- Reading this text back gives the same digits and the same scale. -/
theorem ofNumeral?_plain {number : Decimal} (fractional : 1 ≤ number.scale) :
    ofNumeral? number.plain.toList = some number := by
  obtain ⟨sign, whole, fraction, isSign, isWhole, isFraction, written, digits, scale⟩ :=
    plain_eq fractional
  rw [written, ofNumeral?_eq isSign isWhole isFraction, digits, scale]

/-- A decimal token has a fraction. -/
theorem one_le_scale_of_lexeme {cs : List Char} {number : Decimal}
    (isLexeme : Lexeme .decimal cs) (read : ofNumeral? cs = some number) :
    1 ≤ number.scale := by
  cases isLexeme with
  | decimal isSign isWhole isFraction =>
      rw [ofNumeral?_eq isSign isWhole isFraction] at read
      cases read
      have positive := List.length_pos_iff.mpr isFraction.nonempty
      exact Int.ofNat_le.mpr positive

end Procedural.Decimal
