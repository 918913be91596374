import Procedural.Proofs.Token.Lexeme

/-!
# Tokens are longest matches

Among all tokens that a text starts with, scanning takes the longest one.  What may
stand behind a token says the same in other words: nothing longer is a token, and
identifiers and numbers have a terminator behind them.
-/

namespace Procedural

/-- Tokens of the class need a terminator behind them. -/
def TokenKind.isWord : TokenKind → Bool
  | .identifier | .integer | .decimal => true
  | .character | .string | .operator => false

namespace Scan

/-- No token that the text starts with is longer. -/
def IsLongest (lexeme rest : List Char) : Prop :=
  ∀ kind other later, other ++ later = lexeme ++ rest → Lexeme kind other →
    other.length ≤ lexeme.length

/-- The first characters of tokens of a class. -/
def Starts (c : Char) : TokenKind → Prop
  | .identifier => startsIdentifier c = true
  | .integer | .decimal => c.isDigit = true ∨ c = '-'
  | .character => c = '\''
  | .string => c = '"'
  | .operator => IsSymbol c

theorem starts_number {sign whole : List Char} (isSign : IsSign sign)
    (isWhole : IsWhole whole) (tail : List Char) :
    ∃ c cs, sign ++ (whole ++ tail) = c :: cs ∧ (c.isDigit = true ∨ c = '-') := by
  obtain ⟨digit, digits, rfl, isDigit⟩ := isWhole.cons
  cases isSign with
  | absent => exact ⟨digit, digits ++ tail, rfl, .inl isDigit⟩
  | minus => exact ⟨'-', digit :: digits ++ tail, rfl, .inr rfl⟩

theorem Lexeme.starts {kind : TokenKind} {lexeme : List Char} (isLexeme : Lexeme kind lexeme) :
    ∃ c cs, lexeme = c :: cs ∧ Starts c kind := by
  cases isLexeme with
  | identifier starts _ => exact ⟨_, _, rfl, starts⟩
  | integer isSign isWhole => simpa [Starts] using starts_number isSign isWhole []
  | decimal isSign isWhole _ => exact starts_number isSign isWhole _
  | character _ => exact ⟨_, _, rfl, rfl⟩
  | string _ => exact ⟨_, _, rfl, rfl⟩
  | pair isPair => exact ⟨_, _, rfl, (isSymbol_of_isPair isPair).1⟩
  | single isSymbol => exact ⟨_, _, rfl, isSymbol⟩

/-- No token starts with white space. -/
theorem Starts.notBlank {c : Char} {kind : TokenKind} (starts : Starts c kind) :
    isBlank c = false := by
  have visible : isBlank c = true →
      startsIdentifier c = false ∧ c.isDigit = false ∧ c ≠ '-' ∧ c ≠ '\'' ∧ c ≠ '"' := by
    intro blank
    simp only [isBlank, Bool.or_eq_true, beq_iff_eq] at blank
    rcases blank with (((rfl | rfl) | rfl) | rfl) | rfl <;> decide
  cases blank : isBlank c with
  | false => rfl
  | true =>
      obtain ⟨notIdentifier, notDigit, notMinus, notQuote, notDoubleQuote⟩ := visible blank
      cases kind with
      | identifier => simp [Starts, notIdentifier] at starts
      | integer | decimal => simp [Starts, notDigit, notMinus] at starts
      | character => exact absurd starts notQuote
      | string => exact absurd starts notDoubleQuote
      | operator => rw [← blank, IsSymbol.notBlank starts]

theorem Lexeme.notBlank {kind : TokenKind} {lexeme : List Char} (isLexeme : Lexeme kind lexeme) :
    ∀ c, lexeme.head? = some c → isBlank c = false := by
  obtain ⟨first, cs, rfl, starts⟩ := isLexeme.starts
  rintro c head
  cases head
  exact starts.notBlank

theorem Lexeme.nonempty {kind : TokenKind} {lexeme : List Char}
    (isLexeme : Lexeme kind lexeme) : lexeme ≠ [] := by
  obtain ⟨c, cs, rfl, _⟩ := isLexeme.starts
  exact List.cons_ne_nil c cs

/-- A token has one class only. -/
theorem Lexeme.unique {kind kind' : TokenKind} {lexeme : List Char}
    (isLexeme : Lexeme kind lexeme) (isLexeme' : Lexeme kind' lexeme) : kind = kind' := by
  have atEnd : AtBlank [] := by
    intro c head
    cases head
  obtain ⟨c, cs, split, scanned⟩ := first_of_lexeme isLexeme (atEnd.delimited lexeme kind)
  obtain ⟨d, ds, split', scanned'⟩ := first_of_lexeme isLexeme' (atEnd.delimited lexeme kind')
  rw [split] at split'
  cases split'
  rw [scanned] at scanned'
  cases scanned'
  rfl

theorem Starts.eq_character {kind : TokenKind} (starts : Starts '\'' kind) :
    kind = .character := by
  cases kind with
  | character => rfl
  | operator => exact absurd rfl starts.notQuote.1
  | identifier | integer | decimal | string => simp [Starts, startsIdentifier] at starts

theorem Starts.eq_string {kind : TokenKind} (starts : Starts '"' kind) : kind = .string := by
  cases kind with
  | string => rfl
  | operator => exact absurd rfl starts.notQuote.2
  | identifier | integer | decimal | character => simp [Starts, startsIdentifier] at starts

/-- Only the sign of a number also starts an operator. -/
theorem Starts.isWord {c : Char} {kind kind' : TokenKind} (word : kind.isWord = true)
    (starts : Starts c kind) (starts' : Starts c kind') :
    kind'.isWord = true ∨ c = '-' ∧ kind' = .operator := by
  cases kind' with
  | identifier | integer | decimal => exact .inl rfl
  | character =>
      obtain rfl : c = '\'' := starts'
      rw [starts.eq_character] at word
      cases word
  | string =>
      obtain rfl : c = '"' := starts'
      rw [starts.eq_string] at word
      cases word
  | operator =>
      have isSymbol : IsSymbol c := starts'
      cases kind with
      | identifier =>
          have notIdentifier := isSymbol.notIdentifier
          rw [show startsIdentifier c = true from starts] at notIdentifier
          cases notIdentifier
      | integer | decimal =>
          rcases starts with digit | minus
          · have notDigit := isSymbol.notDigit
            rw [digit] at notDigit
            cases notDigit
          · exact .inr ⟨minus, rfl⟩
      | character | string | operator => cases word

/-- Words contain no character that ends them. -/
theorem Lexeme.not_isTerminator {kind : TokenKind} {lexeme : List Char}
    (isLexeme : Lexeme kind lexeme) (word : kind.isWord = true) :
    ∀ c ∈ lexeme, isTerminator c = false := by
  have continuing : ∀ c, continuesIdentifier c = true ∨ c.isDigit = true ∨ c = '.' →
      isTerminator c = false := by
    intro c continues
    cases terminator : isTerminator c with
    | false => rfl
    | true =>
        obtain ⟨notContinues, notDigit, notPoint⟩ := continues_of_isTerminator terminator
        simp [notContinues, notDigit, notPoint] at continues
  have signs : ∀ {sign}, IsSign sign → ∀ c ∈ sign, isTerminator c = false := by
    intro sign isSign c member
    cases isSign with
    | absent => cases member
    | minus =>
        obtain rfl := List.mem_singleton.mp member
        decide
  cases isLexeme with
  | @identifier c cs starts continues =>
      rw [List.forall_mem_cons]
      refine ⟨?_, fun d member => continuing d (.inl (continues d member))⟩
      simp only [startsIdentifier, Bool.or_eq_true, beq_iff_eq] at starts
      rcases starts with alpha | rfl
      · exact continuing c (.inl (by simp [continuesIdentifier, Char.isAlphanum, alpha]))
      · decide
  | integer isSign isWhole =>
      rw [List.forall_mem_append]
      exact ⟨signs isSign, fun c member => continuing c (.inr (.inl (isWhole.digits c member)))⟩
  | decimal isSign isWhole isFraction =>
      rw [List.forall_mem_append, List.forall_mem_append, List.forall_mem_cons]
      exact ⟨signs isSign, fun c member => continuing c (.inr (.inl (isWhole.digits c member))),
        by decide, fun c member => continuing c (.inr (.inl (isFraction.digits c member)))⟩
  | character | string | pair | single => cases word

theorem isLongest_of_isWord {kind : TokenKind} {lexeme rest : List Char}
    (isLexeme : Lexeme kind lexeme) (word : kind.isWord = true) (terminated : AtTerminator rest) :
    IsLongest lexeme rest := by
  intro kind' other later split isOther
  obtain ⟨c, cs, rfl, starts⟩ := isLexeme.starts
  obtain ⟨d, ds, rfl, starts'⟩ := isOther.starts
  obtain ⟨rfl, same⟩ : d = c ∧ ds ++ later = cs ++ rest := by simpa using split
  rcases starts.isWord word starts' with word' | ⟨rfl, rfl⟩
  · -- A longer word would contain the terminator.
    rcases List.append_eq_append_iff.mp same with ⟨more, rfl, _⟩ | ⟨more, rfl, rfl⟩
    · simp
    · cases more with
      | nil => simp
      | cons e more =>
          have ends := terminated e rfl
          rw [isOther.not_isTerminator word' e (by simp)] at ends
          cases ends
  · cases isOther with
    | pair isPair => exact absurd rfl (isSymbol_of_isPair isPair).2
    | single => simp

/-- Quotes delimit a literal by themselves. -/
theorem isLongest_of_literal {kind : TokenKind} {lexeme rest : List Char}
    (isLexeme : Lexeme kind lexeme) (literal : kind = .character ∨ kind = .string) :
    IsLongest lexeme rest := by
  intro kind' other later split isOther
  obtain ⟨c, cs, whole, starts⟩ := isLexeme.starts
  obtain ⟨d, ds, whole', starts'⟩ := isOther.starts
  obtain rfl : d = c := by
    rw [whole, whole'] at split
    exact (List.cons.inj split).1
  obtain rfl : kind' = kind := by
    rcases literal with rfl | rfl
    · obtain rfl : d = '\'' := starts
      exact starts'.eq_character
    · obtain rfl : d = '"' := starts
      exact starts'.eq_string
  have delimited : ∀ lexeme rest, Delimited lexeme rest kind' := by
    rcases literal with rfl | rfl <;> exact fun _ _ => trivial
  obtain ⟨e, es, taken, scanned⟩ := first_of_lexeme isLexeme (delimited lexeme rest)
  obtain ⟨e', es', taken', scanned'⟩ := first_of_lexeme isOther (delimited other later)
  rw [split, taken] at taken'
  cases taken'
  rw [scanned] at scanned'
  cases scanned'
  exact Nat.le_refl _

/-- A word that starts with a sign goes on with a digit. -/
theorem Lexeme.digit_of_minus {kind : TokenKind} {lexeme cs : List Char}
    (isLexeme : Lexeme kind lexeme) (word : kind.isWord = true) (minus : lexeme = '-' :: cs) :
    ∃ digit digits, cs = digit :: digits ∧ digit.isDigit = true := by
  have signed : ∀ {sign whole} tail, IsSign sign → IsWhole whole →
      sign ++ (whole ++ tail) = '-' :: cs →
      ∃ digit digits, cs = digit :: digits ∧ digit.isDigit = true := by
    intro sign whole tail isSign isWhole same
    obtain ⟨digit, digits, rfl, isDigit⟩ := isWhole.cons
    cases isSign with
    | absent =>
        cases same
        exact absurd isDigit (by decide)
    | minus =>
        cases same
        exact ⟨digit, digits ++ tail, rfl, isDigit⟩
  cases isLexeme with
  | identifier starts _ =>
      cases minus
      exact absurd starts (by decide)
  | integer isSign isWhole => exact signed [] isSign isWhole (by simpa using minus)
  | decimal isSign isWhole _ => exact signed _ isSign isWhole minus
  | character | string | pair | single => cases word

theorem isLongest_of_operator {lexeme rest : List Char} (isLexeme : Lexeme .operator lexeme)
    (delimited : Delimited lexeme rest .operator) : IsLongest lexeme rest := by
  intro kind other later split isOther
  obtain ⟨c, cs, rfl, starts⟩ := isLexeme.starts
  obtain ⟨d, ds, rfl, starts'⟩ := isOther.starts
  obtain ⟨rfl, same⟩ : d = c ∧ ds ++ later = cs ++ rest := by simpa using split
  have isSymbol : IsSymbol d := starts
  cases kind with
  | identifier | integer | decimal =>
      -- Only a sign is both an operator and the start of a number.
      rcases starts'.isWord rfl starts with word | ⟨rfl, _⟩
      · cases word
      obtain ⟨digit, digits, rfl, isDigit⟩ := isOther.digit_of_minus rfl rfl
      cases isLexeme with
      | pair isPair => exact absurd rfl (isSymbol_of_isPair isPair).2
      | single =>
          obtain rfl : digit :: (digits ++ later) = rest := by simpa using same
          have notDigit := (delimited digit rfl '-' rfl).2 rfl
          rw [isDigit] at notDigit
          cases notDigit
  | character => exact absurd starts' isSymbol.notQuote.1
  | string => exact absurd starts' isSymbol.notQuote.2
  | operator =>
      cases isOther with
      | single => simp
      | @pair _ second isPair =>
          cases isLexeme with
          | pair => simp
          | single =>
              obtain rfl : second :: later = rest := by simpa using same
              have notPair := (delimited second rfl d rfl).1
              rw [isPair] at notPair
              cases notPair

/-- A token is delimited exactly if it is the longest one, with a terminator behind a word. -/
theorem delimited_iff {kind : TokenKind} {lexeme rest : List Char}
    (isLexeme : Lexeme kind lexeme) :
    Delimited lexeme rest kind ↔
      IsLongest lexeme rest ∧ (kind.isWord = true → AtTerminator rest) := by
  constructor
  · intro delimited
    cases kind with
    | identifier | integer | decimal =>
        exact ⟨isLongest_of_isWord isLexeme rfl delimited, fun _ => delimited⟩
    | character => exact ⟨isLongest_of_literal isLexeme (.inl rfl), fun word => by cases word⟩
    | string => exact ⟨isLongest_of_literal isLexeme (.inr rfl), fun word => by cases word⟩
    | operator => exact ⟨isLongest_of_operator isLexeme delimited, fun word => by cases word⟩
  · rintro ⟨longest, terminated⟩
    cases kind with
    | identifier | integer | decimal => exact terminated rfl
    | character | string => trivial
    | operator =>
        rintro c head symbol rfl
        obtain ⟨later, rfl⟩ := List.head?_eq_some_iff.mp head
        have notLonger : ∀ kind, ¬Lexeme kind [symbol, c] := by
          intro kind isOther
          have longer := longest kind [symbol, c] later rfl isOther
          simp at longer
        constructor
        · cases isPair : isPair symbol c with
          | false => rfl
          | true => exact absurd (.pair isPair) (notLonger .operator)
        · rintro rfl
          cases digit : c.isDigit with
          | false => rfl
          | true =>
              have isWhole : IsWhole [c] := ⟨by simp, by simpa using digit, by
                unfold hasLeadingZero
                split <;> simp_all⟩
              exact absurd (.integer .minus isWhole) (notLonger .integer)

end Scan

end Procedural
