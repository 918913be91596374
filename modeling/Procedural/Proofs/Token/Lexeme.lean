import Mathlib.Data.List.Basic
import Procedural.Token.Stream

/-!
# The language of tokens

`Lexeme` says with which characters the tokens of each class are written, and
`Delimited` what may stand behind them.  Scanning takes a token exactly if it is
in the language of its class and stands before something that delimits it.
-/

namespace Procedural.Scan

/-- An optional minus sign. -/
inductive IsSign : List Char → Prop where
  | absent : IsSign []
  | minus : IsSign ['-']

/-- The digits of a natural number; of these only zero itself starts with a zero. -/
structure IsWhole (cs : List Char) : Prop where
  nonempty : cs ≠ []
  digits : ∀ c ∈ cs, c.isDigit = true
  noLeadingZero : hasLeadingZero cs = false

structure IsFraction (cs : List Char) : Prop where
  nonempty : cs ≠ []
  digits : ∀ c ∈ cs, c.isDigit = true

/-- What stands between the quotes of a string literal. -/
inductive IsStringBody : List Char → Prop where
  | nil : IsStringBody []
  | plain {c : Char} {cs : List Char} :
      c ≠ '"' → c ≠ '\\' → isLineBreak c = false →
      IsStringBody cs → IsStringBody (c :: cs)
  | escape {c : Char} {cs : List Char} :
      Quoted.isEscape c = true →
      IsStringBody cs → IsStringBody ('\\' :: c :: cs)

/-- What stands between the quotes of a character literal. -/
inductive IsCharacterBody : List Char → Prop where
  | plain {c : Char} :
      c ≠ '\'' → c ≠ '\\' → isLineBreak c = false → IsCharacterBody [c]
  | escape {c : Char} : Quoted.isEscape c = true → IsCharacterBody ['\\', c]

/-- A character that starts no token of another class. -/
structure IsSymbol (c : Char) : Prop where
  notBlank : isBlank c = false
  notIdentifier : startsIdentifier c = false
  notDigit : c.isDigit = false
  notQuote : c ≠ '\'' ∧ c ≠ '"'

/-- The characters that tokens of a class are written with. -/
inductive Lexeme : TokenKind → List Char → Prop where
  | identifier {c : Char} {cs : List Char} :
      startsIdentifier c = true → (∀ c ∈ cs, continuesIdentifier c = true) →
      Lexeme .identifier (c :: cs)
  | integer {sign whole : List Char} :
      IsSign sign → IsWhole whole → Lexeme .integer (sign ++ whole)
  | decimal {sign whole fraction : List Char} :
      IsSign sign → IsWhole whole → IsFraction fraction →
      Lexeme .decimal (sign ++ (whole ++ '.' :: fraction))
  | character {body : List Char} :
      IsCharacterBody body → Lexeme .character ('\'' :: (body ++ ['\'']))
  | string {body : List Char} :
      IsStringBody body → Lexeme .string ('"' :: (body ++ ['"']))
  | pair {first second : Char} :
      isPair first second = true → Lexeme .operator [first, second]
  | single {c : Char} : IsSymbol c → Lexeme .operator [c]

/-- Nothing, or a character that ends identifiers and numbers. -/
def AtTerminator (rest : List Char) : Prop :=
  ∀ c, rest.head? = some c → isTerminator c = true

/-- Nothing, or white space. -/
def AtBlank (rest : List Char) : Prop :=
  ∀ c, rest.head? = some c → isBlank c = true

/-- What stands behind a token does not belong to it. -/
def Delimited (lexeme rest : List Char) : TokenKind → Prop
  | .identifier | .integer | .decimal => AtTerminator rest
  | .character | .string => True
  | .operator =>
      ∀ c, rest.head? = some c → ∀ symbol, lexeme = [symbol] →
        isPair symbol c = false ∧ (symbol = '-' → c.isDigit = false)

theorem AtBlank.atTerminator {rest : List Char} (blank : AtBlank rest) :
    AtTerminator rest := by
  intro c head
  simp [isTerminator, blank c head]

/-- White space delimits every token. -/
theorem AtBlank.delimited {rest : List Char} (blank : AtBlank rest)
    (lexeme : List Char) (kind : TokenKind) : Delimited lexeme rest kind := by
  cases kind with
  | identifier => exact blank.atTerminator
  | integer => exact blank.atTerminator
  | decimal => exact blank.atTerminator
  | character => trivial
  | string => trivial
  | operator =>
      intro c head symbol _
      have isBlank := blank c head
      simp only [Scan.isBlank, Bool.or_eq_true, beq_iff_eq] at isBlank
      rcases isBlank with (((rfl | rfl) | rfl) | rfl) | rfl <;>
        refine ⟨?_, fun _ => by decide⟩ <;> unfold isPair <;> split <;> simp_all

theorem takeWhile_stops {p : Char → Bool} {taken rest : List Char}
    (all : ∀ c ∈ taken, p c = true)
    (stops : ∀ c, rest.head? = some c → p c = false) :
    (taken ++ rest).takeWhile p = taken ∧ (taken ++ rest).dropWhile p = rest := by
  rw [List.takeWhile_append_of_pos all, List.dropWhile_append_of_pos all]
  cases rest with
  | nil => simp
  | cons c rest =>
      have fails := stops c rfl
      simp [fails]

/-- A terminator continues neither identifiers nor numbers. -/
theorem continues_of_isTerminator {c : Char} (terminator : isTerminator c = true) :
    continuesIdentifier c = false ∧ c.isDigit = false ∧ c ≠ '.' := by
  simp only [isTerminator, isBlank, Bool.or_eq_true, beq_iff_eq] at terminator
  rcases terminator with ((((rfl | rfl) | rfl) | rfl) | rfl) | rfl <;> decide

theorem word_of_atTerminator {rest : List Char} (terminated : AtTerminator rest)
    (kind : TokenKind) (wordKind : WordKind) (lexeme : List Char) :
    word kind wordKind lexeme rest = .token kind lexeme rest := by
  cases rest with
  | nil => rfl
  | cons c rest => simp [word, terminated c rfl]

theorem identifier_of_atTerminator {c : Char} {cs rest : List Char}
    (continues : ∀ d ∈ cs, continuesIdentifier d = true)
    (terminated : AtTerminator rest) :
    identifier c (cs ++ rest) = .token .identifier (c :: cs) rest := by
  have split := takeWhile_stops continues fun d head =>
    (continues_of_isTerminator (terminated d head)).1
  unfold identifier
  rw [split.1, split.2]
  exact word_of_atTerminator terminated .identifier .identifier (c :: cs)

theorem hasLeadingZero_append {whole rest : List Char} (isWhole : IsWhole whole)
    (stops : ∀ c, rest.head? = some c → c.isDigit = false) :
    hasLeadingZero (whole ++ rest) = false := by
  have noLeadingZero := isWhole.noLeadingZero
  match whole, isWhole.nonempty with
  | first :: second :: whole, _ =>
      by_cases zero : first = '0'
      · subst zero
        simpa [hasLeadingZero] using noLeadingZero
      · unfold hasLeadingZero
        split <;> simp_all
  | [first], _ =>
      cases rest with
      | nil => unfold hasLeadingZero; split <;> simp_all
      | cons c rest =>
          have fails := stops c rfl
          unfold hasLeadingZero
          split <;> simp_all

theorem number_integer {whole rest : List Char} (isWhole : IsWhole whole)
    (terminated : AtTerminator rest) :
    number (whole ++ rest) = .token .integer whole rest := by
  have stops : ∀ c, rest.head? = some c → c.isDigit = false := fun c head =>
    (continues_of_isTerminator (terminated c head)).2.1
  have split := takeWhile_stops isWhole.digits stops
  unfold number
  rw [hasLeadingZero_append isWhole stops, split.1, split.2]
  cases rest with
  | nil => rfl
  | cons c rest =>
      have notPoint := (continues_of_isTerminator (terminated c rfl)).2.2
      simp only [Bool.false_eq_true, if_false]
      split
      · simp_all
      · exact word_of_atTerminator terminated .integer .number whole

theorem number_decimal {whole fraction rest : List Char} (isWhole : IsWhole whole)
    (isFraction : IsFraction fraction) (terminated : AtTerminator rest) :
    number (whole ++ '.' :: (fraction ++ rest)) =
      .token .decimal (whole ++ '.' :: fraction) rest := by
  have pointStops : ∀ c, ('.' :: (fraction ++ rest)).head? = some c →
      c.isDigit = false := by
    intro c head
    cases head
    decide
  have split := takeWhile_stops isWhole.digits pointStops
  have stops : ∀ c, rest.head? = some c → c.isDigit = false := fun c head =>
    (continues_of_isTerminator (terminated c head)).2.1
  have splitFraction := takeWhile_stops isFraction.digits stops
  unfold number
  rw [hasLeadingZero_append isWhole pointStops, split.1, split.2]
  simp only [Bool.false_eq_true, if_false, Scan.fraction]
  rw [splitFraction.1, splitFraction.2]
  have nonempty : fraction.isEmpty = false := by
    cases fraction with
    | nil => exact absurd rfl isFraction.nonempty
    | cons digit digits => rfl
  rw [nonempty]
  exact word_of_atTerminator terminated .decimal .number _

theorem closeCharacter_quote (taken rest : List Char) :
    closeCharacter taken ('\'' :: rest) = .token .character (taken ++ ['\'']) rest := by
  simp [closeCharacter]

theorem character_of_isCharacterBody {body : List Char} (isBody : IsCharacterBody body)
    (rest : List Char) :
    character (body ++ '\'' :: rest) = .token .character (body ++ ['\'']) rest := by
  cases isBody with
  | @plain c notQuote notBackslash notBreak =>
      simp [character, notQuote, notBackslash, notBreak, closeCharacter_quote]
  | escape isEscape =>
      simp [character, isEscape, closeCharacter_quote]

theorem string_of_isStringBody {body : List Char} (isBody : IsStringBody body)
    (rest : List Char) :
    string (body ++ '"' :: rest) = .token .string (body ++ ['"']) rest := by
  induction isBody with
  | nil => simp [string]
  | @plain c cs notQuote notBackslash notBreak _ induction =>
      simp [string, notQuote, notBackslash, notBreak, induction, after]
  | escape isEscape _ induction =>
      simp [string, isEscape, induction, after]

theorem startsIdentifier_of_isDigit {c : Char} (digit : c.isDigit = true) :
    startsIdentifier c = false := by
  have notAt : c ≠ '@' := by
    rintro rfl
    revert digit
    decide
  simp only [Char.isDigit, Bool.and_eq_true, decide_eq_true_eq, ge_iff_le,
    UInt32.le_iff_toNat_le] at digit
  have ranges : startsIdentifier c =
      (decide ('A'.val ≤ c.val ∧ c.val ≤ 'Z'.val) ||
        decide ('a'.val ≤ c.val) && decide (c.val ≤ 'z'.val) || c == '@') :=
    rfl
  simp only [ranges, Bool.or_eq_false_iff, Bool.and_eq_false_iff, decide_eq_false_iff_not,
    beq_eq_false_iff_ne, UInt32.le_iff_toNat_le]
  have nineBelowUpper : '9'.val.toNat < 'A'.val.toNat := by decide
  have nineBelowLower : '9'.val.toNat < 'a'.val.toNat := by decide
  refine ⟨⟨?_, ?_⟩, notAt⟩ <;> omega

theorem IsWhole.cons {whole : List Char} (isWhole : IsWhole whole) :
    ∃ c cs, whole = c :: cs ∧ c.isDigit = true := by
  match whole, isWhole.nonempty with
  | c :: cs, _ => exact ⟨c, cs, rfl, isWhole.digits c (by simp)⟩

theorem first_digit {c : Char} {cs : List Char} (digit : c.isDigit = true) :
    first c cs = number (c :: cs) := by
  simp [first, startsIdentifier_of_isDigit digit, digit]

theorem first_minus {c : Char} {cs : List Char} (digit : c.isDigit = true) :
    first '-' (c :: cs) = (number (c :: cs)).after ['-'] := by
  simp [first, startsIdentifier, startsWithDigit, digit]

/-- A sign goes with the number that follows it. -/
theorem first_signed {sign whole cs : List Char} (isSign : IsSign sign)
    (isWhole : IsWhole whole) {kind : TokenKind} {lexeme rest : List Char}
    (scanned : number (whole ++ cs) = .token kind lexeme rest) :
    ∃ c tail, sign ++ (whole ++ cs) = c :: tail ∧
      first c tail = .token kind (sign ++ lexeme) rest := by
  obtain ⟨digit, digits, rfl, isDigit⟩ := isWhole.cons
  cases isSign with
  | absent =>
      refine ⟨digit, digits ++ cs, rfl, ?_⟩
      rw [first_digit isDigit]
      exact scanned
  | minus =>
      refine ⟨'-', digit :: digits ++ cs, rfl, ?_⟩
      rw [List.cons_append, first_minus isDigit, ← List.cons_append, scanned]
      rfl

theorem operator_single {c : Char} {rest : List Char}
    (alone : ∀ d, rest.head? = some d → isPair c d = false) :
    operator c rest = .token .operator [c] rest := by
  cases rest with
  | nil => rfl
  | cons d rest => simp [operator, alone d rfl]

theorem first_operator {c : Char} {rest : List Char} (isSymbol : IsSymbol c)
    (noNumber : c = '-' → ∀ d, rest.head? = some d → d.isDigit = false) :
    first c rest = operator c rest := by
  have notNumber : ¬(c = '-' ∧ startsWithDigit rest = true) := by
    rintro ⟨minus, digit⟩
    cases rest with
    | nil => simp [startsWithDigit] at digit
    | cons d rest =>
        have notDigit := noNumber minus d rfl
        simp [startsWithDigit, notDigit] at digit
  simp [first, isSymbol.notIdentifier, isSymbol.notDigit, notNumber, isSymbol.notQuote.1,
    isSymbol.notQuote.2]

theorem isSymbol_of_isPair {first second : Char} (isPair : isPair first second = true) :
    IsSymbol first ∧ first ≠ '-' := by
  unfold Scan.isPair at isPair
  split at isPair <;> first | exact ⟨⟨by decide, by decide, by decide, by decide⟩, by decide⟩ |
    simp at isPair

/-- A delimited token is scanned, and nothing behind it is looked at. -/
theorem first_of_lexeme {kind : TokenKind} {lexeme rest : List Char}
    (isLexeme : Lexeme kind lexeme) (delimited : Delimited lexeme rest kind) :
    ∃ c cs, lexeme ++ rest = c :: cs ∧ first c cs = .token kind lexeme rest := by
  cases isLexeme with
  | @identifier c cs starts continues =>
      refine ⟨c, cs ++ rest, rfl, ?_⟩
      simp only [first, starts, if_true]
      exact identifier_of_atTerminator continues delimited
  | @integer sign whole isSign isWhole =>
      rw [List.append_assoc]
      exact first_signed isSign isWhole (number_integer isWhole delimited)
  | @decimal sign whole fraction isSign isWhole isFraction =>
      have scanned := number_decimal isWhole isFraction delimited
      simpa using first_signed isSign isWhole scanned
  | @character body isBody =>
      refine ⟨'\'', body ++ '\'' :: rest, by simp, ?_⟩
      have scanned := character_of_isCharacterBody isBody rest
      simp [first, startsIdentifier, scanned, after]
  | @string body isBody =>
      refine ⟨'"', body ++ '"' :: rest, by simp, ?_⟩
      have scanned := string_of_isStringBody isBody rest
      simp [first, startsIdentifier, scanned, after]
  | @pair symbol second isPair =>
      refine ⟨symbol, second :: rest, rfl, ?_⟩
      obtain ⟨isSymbol, notMinus⟩ := isSymbol_of_isPair isPair
      rw [first_operator isSymbol fun minus => absurd minus notMinus]
      simp [operator, isPair]
  | @single c isSymbol =>
      refine ⟨c, rest, rfl, ?_⟩
      rw [first_operator isSymbol fun minus d head => (delimited d head c rfl).2 minus]
      exact operator_single fun d head => (delimited d head c rfl).1

theorem all_takeWhile {p : Char → Bool} (cs : List Char) :
    ∀ c ∈ cs.takeWhile p, p c = true := by
  intro c member
  exact List.all_eq_true.mp List.all_takeWhile c member

theorem atTerminator_of_word {kind kind' : TokenKind} {wordKind : WordKind}
    {lexeme lexeme' cs rest : List Char}
    (scanned : word kind wordKind lexeme cs = .token kind' lexeme' rest) :
    kind' = kind ∧ lexeme' = lexeme ∧ rest = cs ∧ AtTerminator rest := by
  cases cs with
  | nil =>
      cases scanned
      exact ⟨rfl, rfl, rfl, by intro c head; cases head⟩
  | cons c cs =>
      simp only [word] at scanned
      split at scanned
      · cases scanned
        refine ⟨rfl, rfl, rfl, ?_⟩
        intro d head
        cases head
        assumption
      · cases scanned

/-- The first character that a run of digits leaves is no digit. -/
theorem isWhole_takeWhile {cs : List Char} (starts : startsWithDigit cs = true)
    (noLeadingZero : hasLeadingZero cs = false) :
    IsWhole (cs.takeWhile Char.isDigit) := by
  cases cs with
  | nil => simp [startsWithDigit] at starts
  | cons first cs =>
      have digit : first.isDigit = true := starts
      refine ⟨by simp [digit], all_takeWhile _, ?_⟩
      rw [List.takeWhile_cons_of_pos digit]
      cases cs with
      | nil => unfold hasLeadingZero; split <;> simp_all
      | cons second cs =>
          by_cases zero : first = '0'
          · subst zero
            have notDigit : second.isDigit = false := by
              simpa [hasLeadingZero] using noLeadingZero
            simp [hasLeadingZero, notDigit]
          · unfold hasLeadingZero
            split <;> simp_all

theorem isFraction_takeWhile {cs : List Char}
    (some : (cs.takeWhile Char.isDigit).isEmpty = false) :
    IsFraction (cs.takeWhile Char.isDigit) := by
  refine ⟨?_, all_takeWhile _⟩
  intro none
  rw [none] at some
  simp at some

/-- A number is an integer or a decimal number, with or without the sign before it. -/
theorem takes_number {sign cs : List Char} (isSign : IsSign sign)
    (starts : startsWithDigit cs = true) {kind : TokenKind} {lexeme rest : List Char}
    (scanned : number cs = .token kind lexeme rest) :
    (sign ++ lexeme) ++ rest = sign ++ cs ∧ Lexeme kind (sign ++ lexeme) ∧
      Delimited (sign ++ lexeme) rest kind := by
  unfold number at scanned
  split at scanned
  · cases scanned
  next noLeadingZero =>
    have isWhole := isWhole_takeWhile starts (by simpa using noLeadingZero)
    have whole := List.takeWhile_append_dropWhile (p := Char.isDigit) (l := cs)
    simp only at scanned
    split at scanned
    next tail point =>
      rw [point] at whole
      unfold fraction at scanned
      simp only at scanned
      split at scanned
      · cases scanned
      next some =>
        obtain ⟨rfl, rfl, rfl, terminated⟩ := atTerminator_of_word scanned
        have isFraction := isFraction_takeWhile (by simpa using some)
        have digits := List.takeWhile_append_dropWhile (p := Char.isDigit) (l := tail)
        refine ⟨?_, .decimal isSign isWhole isFraction, terminated⟩
        simp only [List.append_assoc, List.cons_append, digits, whole]
    next =>
      obtain ⟨rfl, rfl, rfl, terminated⟩ := atTerminator_of_word scanned
      refine ⟨?_, .integer isSign isWhole, terminated⟩
      rw [List.append_assoc, whole]

theorem after_eq_token {before : List Char} {scan : Scan} {kind : TokenKind}
    {lexeme rest : List Char} (extended : scan.after before = .token kind lexeme rest) :
    ∃ later, scan = .token kind later rest ∧ lexeme = before ++ later := by
  cases scan with
  | token kind' later rest' =>
      cases extended
      exact ⟨later, rfl, rfl⟩
  | fault why taken rest' => cases extended

theorem takes_character {cs lexeme rest : List Char} {kind : TokenKind}
    (scanned : character cs = .token kind lexeme rest) :
    ∃ body, IsCharacterBody body ∧ kind = .character ∧ lexeme = body ++ ['\''] ∧
      body ++ '\'' :: rest = cs := by
  have closed : ∀ body rest', closeCharacter body rest' = .token kind lexeme rest →
      kind = .character ∧ lexeme = body ++ ['\''] ∧ '\'' :: rest = rest' := by
    intro body rest' closing
    cases rest' with
    | nil => cases closing
    | cons c rest' =>
        simp only [closeCharacter] at closing
        split at closing
        · cases closing
          simp_all
        · cases closing
  unfold character at scanned
  split at scanned
  · cases scanned
  next c tail =>
    split at scanned
    next isEscape =>
      obtain ⟨isCharacter, isLexeme, split⟩ := closed _ _ scanned
      exact ⟨['\\', c], .escape isEscape, isCharacter, isLexeme, by simp [split]⟩
    · cases scanned
  · cases scanned
  next c tail escaped ended =>
    split at scanned
    · cases scanned
    next notQuote =>
      split at scanned
      · cases scanned
      next notBreak =>
        obtain ⟨isCharacter, isLexeme, split⟩ := closed _ _ scanned
        have notBackslash : c ≠ '\\' := by
          rintro rfl
          cases tail with
          | nil => exact ended rfl rfl
          | cons d tail => exact escaped d tail rfl rfl
        exact ⟨[c], .plain notQuote notBackslash (by simpa using notBreak), isCharacter,
          isLexeme, by simp [split]⟩

theorem takes_string {cs lexeme rest : List Char} {kind : TokenKind}
    (scanned : string cs = .token kind lexeme rest) :
    ∃ body, IsStringBody body ∧ kind = .string ∧ lexeme = body ++ ['"'] ∧
      body ++ '"' :: rest = cs := by
  fun_induction string cs generalizing lexeme with
  | case1 => cases scanned
  | case2 c tail isEscape induction =>
      obtain ⟨later, scannedLater, rfl⟩ := after_eq_token scanned
      obtain ⟨body, isBody, isString, rfl, split⟩ := induction scannedLater
      exact ⟨'\\' :: c :: body, .escape isEscape isBody, isString, rfl, by simp [split]⟩
  | case3 => cases scanned
  | case4 => cases scanned
  | case5 tail =>
      cases scanned
      exact ⟨[], .nil, rfl, rfl, rfl⟩
  | case6 => cases scanned
  | case7 c tail escaped ended notQuote notBreak induction =>
      obtain ⟨later, scannedLater, rfl⟩ := after_eq_token scanned
      obtain ⟨body, isBody, isString, rfl, split⟩ := induction scannedLater
      have notBackslash : c ≠ '\\' := by
        rintro rfl
        cases tail with
        | nil => exact ended rfl rfl
        | cons d tail => exact escaped d tail rfl rfl
      exact ⟨c :: body, .plain notQuote notBackslash (by simpa using notBreak) isBody,
        isString, rfl, by simp [split]⟩

theorem takes_operator {c : Char} {cs lexeme rest : List Char} {kind : TokenKind}
    (isSymbol : IsSymbol c) (noNumber : c = '-' → startsWithDigit cs = false)
    (scanned : operator c cs = .token kind lexeme rest) :
    lexeme ++ rest = c :: cs ∧ Lexeme kind lexeme ∧ Delimited lexeme rest kind := by
  cases cs with
  | nil =>
      cases scanned
      exact ⟨rfl, .single isSymbol, by intro d head; cases head⟩
  | cons second tail =>
      simp only [operator] at scanned
      split at scanned
      next isPair =>
        cases scanned
        refine ⟨rfl, .pair isPair, ?_⟩
        intro d head symbol alone
        cases alone
      next notPair =>
        cases scanned
        refine ⟨rfl, .single isSymbol, ?_⟩
        intro d head symbol alone
        cases head
        cases alone
        exact ⟨by simpa using notPair, noNumber⟩

/-- A scanned token is in the language of its class, and what follows does not belong to it. -/
theorem lexeme_of_first {c : Char} {cs lexeme rest : List Char} {kind : TokenKind}
    (notBlank : isBlank c = false) (scanned : first c cs = .token kind lexeme rest) :
    lexeme ++ rest = c :: cs ∧ Lexeme kind lexeme ∧ Delimited lexeme rest kind := by
  unfold first at scanned
  split at scanned
  next starts =>
    obtain ⟨rfl, rfl, rfl, terminated⟩ := atTerminator_of_word scanned
    refine ⟨?_, .identifier starts (all_takeWhile _), terminated⟩
    rw [List.cons_append, List.takeWhile_append_dropWhile]
  next notIdentifier =>
    split at scanned
    next digit =>
      have starts : startsWithDigit (c :: cs) = true := digit
      exact takes_number .absent starts scanned
    next notDigit =>
      split at scanned
      next minus =>
        obtain ⟨rfl, digit⟩ := minus
        obtain ⟨later, scannedLater, rfl⟩ := after_eq_token scanned
        exact takes_number .minus digit scannedLater
      next noNumber =>
        split at scanned
        next quote =>
          subst quote
          obtain ⟨later, scannedLater, rfl⟩ := after_eq_token scanned
          obtain ⟨body, isBody, rfl, rfl, split⟩ := takes_character scannedLater
          exact ⟨by simp [split], .character isBody, trivial⟩
        next notQuote =>
          split at scanned
          next quote =>
            subst quote
            obtain ⟨later, scannedLater, rfl⟩ := after_eq_token scanned
            obtain ⟨body, isBody, rfl, rfl, split⟩ := takes_string scannedLater
            exact ⟨by simp [split], .string isBody, trivial⟩
          next notDoubleQuote =>
            have isSymbol : IsSymbol c :=
              ⟨notBlank, by simpa using notIdentifier, by simpa using notDigit,
                notQuote, notDoubleQuote⟩
            refine takes_operator isSymbol ?_ scanned
            intro minus
            cases digit : startsWithDigit cs with
            | false => rfl
            | true => exact absurd ⟨minus, digit⟩ noNumber

end Procedural.Scan
