import Procedural.Proofs.Decimal.PlainText
import Procedural.Proofs.Layout.JavaReading
import Procedural.Proofs.Reader.Exactness

/-!
# The Java text of an expression

The groups that an expression has in its program make a term of Java.  The text of the
expression has the lexemes of that term if every name in it is a name of Java, and not otherwise:
a name with a `-` falls apart, and a word that Java reserves is no name.
-/

namespace Procedural

/-- What the expression itself adds to the text is what Java takes it for: its name is a name of
Java, and a character literal holds sixteen bits. -/
def Expr.HasJavaWord : Expr → Prop
  | .literal _ (.character c) => Java.isUnit c = true
  | .access _ name => Java.isName name.toList = true
  | .element _ name _ => Java.isName name.toList = true
  | .call note name _ => Java.isName (Java.callee note name).toList = true
  | _ => True

instance : DecidablePred Expr.HasJavaWord
  | .literal _ (.character c) => inferInstanceAs (Decidable (Java.isUnit c = true))
  | .access _ name => inferInstanceAs (Decidable (Java.isName name.toList = true))
  | .element _ name _ => inferInstanceAs (Decidable (Java.isName name.toList = true))
  | .call note name _ =>
      inferInstanceAs (Decidable (Java.isName (Java.callee note name).toList = true))
  | .literal _ .nil | .literal _ (.boolean _) | .literal _ (.integer _)
  | .literal _ (.decimal _) | .literal _ (.string _) => isTrue trivial
  | .group .. | .binary .. | .list .. => isTrue trivial

namespace Java

theorem isWordCharacter_of_starts {c : Char} (starts : Scan.startsIdentifier c = true) :
    isWordCharacter c = true ↔ c ≠ '@' := by
  constructor
  · rintro inWord rfl
    cases inWord
  · intro notAt
    simp_all [Scan.startsIdentifier, isWordCharacter, Char.isAlphanum]

theorem isWordCharacter_of_continues {c : Char} (continues : Scan.continuesIdentifier c = true) :
    isWordCharacter c = true ↔ c ≠ '-' := by
  constructor
  · rintro inWord rfl
    cases inWord
  · intro notMinus
    simp_all [Scan.continuesIdentifier, isWordCharacter]

/-- Of the identifiers of programs, those with an `@` or a `-` and the words that Java keeps for
itself or for values are no names of Java, and the others are. -/
theorem isName_iff_of_identifier {c : Char} {cs : List Char}
    (starts : Scan.startsIdentifier c = true)
    (continues : ∀ d ∈ cs, Scan.continuesIdentifier d = true) :
    isName (c :: cs) = true ↔
      (c ≠ '@' ∧ '-' ∉ cs) ∧ String.ofList (c :: cs) ∉ reserved ++ constants := by
  have noPoint : '.' ∉ c :: cs := by
    rw [List.mem_cons, not_or]
    constructor
    · rintro rfl
      cases starts
    · intro member
      cases continues _ member
  have notDigit : c.isDigit = false := by
    by_contra digit
    rw [Bool.not_eq_false] at digit
    rw [Scan.startsIdentifier_of_isDigit digit] at starts
    cases starts
  have inWord : (∀ d ∈ cs, isWordCharacter d = true) ↔ '-' ∉ cs := by
    constructor
    · intro all member
      cases all _ member
    · intro absent d member
      apply (isWordCharacter_of_continues (continues d member)).mpr
      rintro rfl
      exact absent member
  rw [isName_iff, List.splitOn_eq_singleton noPoint, List.forall_mem_cons,
    List.forall_mem_singleton, isWordCharacter_of_starts starts, inWord]
  simp [isIdentifier, notDigit]

/-- A value as it is written, where a minus before it is a sign. -/
def valueTerm : List Char → Term
  | '-' :: cs => .leaf [.minus] (.value (String.ofList cs))
  | cs => .leaf [] (.value (String.ofList cs))

theorem layered_valueTerm {bound : Nat} (cs : List Char) : (valueTerm cs).Layered bound := by
  unfold valueTerm
  split <;> exact .leaf

theorem operator?_valueTerm (cs : List Char) : (valueTerm cs).operator? = none := by
  unfold valueTerm
  split <;> rfl

mutual

/-- The groups that an expression has in its program, around the words that Java has for it. -/
def term : Expr → Term
  | .literal _ value => valueTerm (literal value).toList
  | .group _ inner => .brackets [] none .round [term inner]
  | .binary _ .power left right =>
      .brackets [] (some "Math.pow") .round [term left, term right]
  | .binary _ op left right => .operator op (term left) (term right)
  | .access _ name => .leaf [] (.name name)
  | .element _ name index => .brackets [] (some name) .square [term index]
  | .call note name arguments =>
      .brackets [] (some (callee note name)) .round (termsOfItems arguments)
  | .list _ elements => .brackets [] none .curly (termsOfItems elements)

def termsOfItems : List Expr → List Term
  | [] => []
  | first :: rest => term first :: termsOfItems rest

end

theorem term_binary {note : Note} {op : BinaryOp} {left right : Expr} (notPower : op ≠ .power) :
    term (.binary note op left right) = .operator op (term left) (term right) := by
  cases op <;> first | rfl | exact absurd rfl notPower

theorem pieces_binary {note : Note} {op : BinaryOp} {left right : Expr} (notPower : op ≠ .power) :
    pieces (.binary note op left right) =
      pieces left ++ s!" {op.symbol} " :: pieces right := by
  cases op <;> first | rfl | exact absurd rfl notPower

/-- The text has the lexemes wherever what follows it is delimited. -/
def Yields (text : List Char) (lexemes : List Lexeme) : Prop :=
  ∀ ⦃rest : List Char⦄ ⦃further : List Lexeme⦄, Delimited rest → Lexes rest further →
    Lexes (text ++ rest) (lexemes ++ further)

theorem yields_nil : Yields [] [] :=
  fun _ _ _ lexes => lexes

theorem Scans.yields {cs : List Char} {lexeme : Lexeme} (scans : Scans cs lexeme) :
    Yields cs [lexeme] :=
  fun _ _ delimited lexes => .lexeme (scans delimited) lexes

/-- No leaf begins with a minus. -/
theorem Scans.ne_minus {c : Char} {cs : List Char} {leaf : Leaf}
    (scans : Scans (c :: cs) (.leaf leaf)) : c ≠ '-' := by
  rintro rfl
  have scanned := scans delimited_nil
  rw [List.append_nil] at scanned
  exact sign_ne_leaf '-' cs (congrArg Prod.fst (Option.some.inj scanned))

theorem yields_value {cs : List Char} (scans : Scans cs (.leaf (.value (String.ofList cs)))) :
    Yields cs (valueTerm cs).lexemes := by
  have unsigned : valueTerm cs = .leaf [] (.value (String.ofList cs)) := by
    unfold valueTerm
    split
    next => exact absurd rfl scans.ne_minus
    next => rfl
  rw [unsigned]
  exact scans.yields

theorem yields_negative {c : Char} {cs : List Char} (digit : c.isDigit = true)
    (scans : Scans (c :: cs) (.leaf (.value (String.ofList (c :: cs))))) :
    Yields ('-' :: c :: cs) (valueTerm ('-' :: c :: cs)).lexemes := by
  intro rest further delimited lexes
  exact .lexeme (scan_minus (isWordCharacter_of_isDigit digit)) (scans.yields delimited lexes)

/-- A number has the lexemes of its sign and its digits. -/
theorem yields_number {sign : List Char} {c : Char} {cs : List Char} (isSign : Scan.IsSign sign)
    (digit : c.isDigit = true) (inWord : ∀ d ∈ cs, isWordCharacter d = true)
    (number : isNumber (c :: cs) = true) :
    Yields (sign ++ c :: cs) (valueTerm (sign ++ c :: cs)).lexemes := by
  have scans := scans_number number digit inWord
  cases isSign with
  | absent => exact yields_value scans
  | minus => exact yields_negative digit scans

theorem yields_integer (number : Int) :
    Yields (Numeral.text number).toList (valueTerm (Numeral.text number).toList).lexemes := by
  obtain ⟨sign, isSign, written, -⟩ := Numeral.text_eq number
  obtain ⟨isWhole, -⟩ := Numeral.digitChars_spec number.natAbs
  have isNumber := isNumber_of_whole isWhole
  have digits := isWhole.digits
  obtain ⟨c, cs, same, digit⟩ := isWhole.cons
  rw [same] at written isNumber digits
  rw [written]
  refine yields_number isSign digit (fun d member => ?_) isNumber
  exact isWordCharacter_of_isDigit (digits d (List.mem_cons_of_mem c member))

/-- Digits on both sides of a point are a number. -/
theorem yields_fraction {sign whole fraction : List Char} (isSign : Scan.IsSign sign)
    (nonempty : whole ≠ []) (digits : ∀ c ∈ whole, c.isDigit = true)
    (isFraction : Scan.IsFraction fraction) :
    Yields (sign ++ (whole ++ '.' :: fraction))
      (valueTerm (sign ++ (whole ++ '.' :: fraction))).lexemes := by
  have number := isNumber_of_fraction nonempty digits isFraction
  obtain ⟨c, cs, rfl⟩ := List.exists_cons_of_ne_nil nonempty
  obtain ⟨digit, further⟩ := List.forall_mem_cons.mp digits
  refine yields_number isSign digit ?_ number
  intro d member
  rcases List.mem_append.mp member with before | behind
  · exact isWordCharacter_of_isDigit (further d before)
  · rcases List.mem_cons.mp behind with rfl | behind
    · rfl
    · exact isWordCharacter_of_isDigit (isFraction.digits d behind)

theorem yields_decimal (number : Decimal) :
    Yields number.plain.toList (valueTerm number.plain.toList).lexemes := by
  by_cases coarse : number.scale ≤ 0
  · obtain ⟨sign, isSign, -, written⟩ := Decimal.plain_eq_of_coarse coarse
    obtain ⟨isWhole, -⟩ := Numeral.digitChars_spec number.digits.natAbs
    rw [written]
    refine yields_fraction isSign (by simp [isWhole.nonempty]) ?_ ⟨by simp, by simp⟩
    exact List.forall_mem_append.mpr
      ⟨isWhole.digits, fun c => Decimal.isDigit_of_mem_zeros⟩
  · have fractional : 1 ≤ number.scale := by omega
    obtain ⟨sign, whole, fraction, isSign, isWhole, isFraction, written, -⟩ :=
      Decimal.plain_eq fractional
    rw [written]
    exact yields_fraction isSign isWhole.nonempty isWhole.digits isFraction

/-- What a character is quoted with has sixteen bits if the character has. -/
theorem isUnit_of_mem_encodeChar {c d : Char} (unit : isUnit c = true)
    (member : d ∈ Quoted.encodeChar c) : isUnit d = true := by
  unfold Quoted.encodeChar at member
  split at member
  all_goals first
    | rw [List.mem_singleton.mp member]
      exact unit
    | rcases List.mem_cons.mp member with rfl | escaped
      · rfl
      · rw [List.mem_singleton.mp escaped]
        rfl

theorem yields_literal {value : Scalar} (units : ∀ c, value = .character c → isUnit c = true) :
    Yields (literal value).toList (valueTerm (literal value).toList).lexemes := by
  cases value with
  | nil => exact yields_value (@scans_constant "null" (by decide))
  | boolean value => cases value <;> exact yields_value (scans_constant (by decide))
  | integer number => exact yields_integer number
  | decimal number => exact yields_decimal number
  | character c =>
      have unit := units c rfl
      have scans := scans_character (Quoted.isCharacterBody_encodeChar c)
        fun d => isUnit_of_mem_encodeChar unit
      have written : (literal (.character c)).toList =
          '\'' :: Quoted.encodeChar c ++ ['\''] := by
        simp [literal, Scalar.literalText, Quoted.quote, Quoted.encode]
      rw [written]
      exact yields_value scans
  | string text =>
      have written : (literal (.string text)).toList =
          '"' :: Quoted.encode text.toList ++ ['"'] := by
        simp [literal, Scalar.literalText, Quoted.quote]
      rw [written]
      exact yields_value (scans_string (Quoted.isStringBody_encode text.toList))

def Bracket.opens : Bracket → Char
  | round => '('
  | square => '['
  | curly => '\x7b'

def Bracket.closes : Bracket → Char
  | round => ')'
  | square => ']'
  | curly => '\x7d'

theorem lexes_opening {rest : List Char} {lexemes : List Lexeme} (kind : Bracket)
    (lexes : Lexes rest lexemes) : Lexes (kind.opens :: rest) (.opening kind :: lexemes) :=
  have scanned : scan (kind.opens :: rest) = some (.opening kind, rest) := by cases kind <;> rfl
  .lexeme scanned lexes

theorem lexes_closing {rest : List Char} {lexemes : List Lexeme} (kind : Bracket)
    (lexes : Lexes rest lexemes) : Lexes (kind.closes :: rest) (.closing kind :: lexemes) :=
  have scanned : scan (kind.closes :: rest) = some (.closing kind, rest) := by cases kind <;> rfl
  .lexeme scanned lexes

theorem delimited_opening (kind : Bracket) (rest : List Char) :
    Delimited (kind.opens :: rest) := by
  cases kind <;> exact delimited_cons rfl (by decide)

theorem delimited_closing (kind : Bracket) (rest : List Char) :
    Delimited (kind.closes :: rest) := by
  cases kind <;> exact delimited_cons rfl (by decide)

theorem yields_bracketed {text : List Char} {items : List Term} (kind : Bracket)
    (inside : Yields text (Term.joined items)) :
    Yields (kind.opens :: text ++ [kind.closes]) (Term.brackets [] none kind items).lexemes := by
  intro rest further delimited lexes
  have closed := lexes_closing kind lexes
  have inner := inside (delimited_closing kind rest) closed
  simpa [Term.lexemes, signed, headed] using lexes_opening kind inner

theorem yields_headed {text : List Char} {items : List Term} {name : String} (kind : Bracket)
    (isName : isName name.toList = true) (inside : Yields text (Term.joined items)) :
    Yields (name.toList ++ kind.opens :: text ++ [kind.closes])
      (Term.brackets [] (some name) kind items).lexemes := by
  intro rest further delimited lexes
  have bracketed := yields_bracketed kind inside delimited lexes
  have named := (scans_name isName).yields (delimited_opening kind _) bracketed
  rw [String.ofList_toList] at named
  simpa [Term.lexemes, signed, headed] using named

theorem yields_infixed {text text' : List Char} {left right : Term} {op : BinaryOp}
    (yieldsLeft : Yields text left.lexemes) (yieldsRight : Yields text' right.lexemes) :
    Yields (text ++ (' ' :: op.symbol.toList ++ [' ']) ++ text')
      (Term.operator op left right).lexemes := by
  intro rest further delimited lexes
  have infixed := Lexes.infixed op (yieldsRight delimited lexes)
  have whole := yieldsLeft (delimited_cons rfl (by decide)) infixed
  simpa [Term.lexemes] using whole

theorem yields_comma {text : List Char} {lexemes : List Lexeme} (yields : Yields text lexemes) :
    Yields (',' :: ' ' :: text) (.comma :: lexemes) :=
  fun _ _ delimited lexes => .lexeme rfl (.space rfl (yields delimited lexes))

theorem Yields.append {text text' : List Char} {lexemes lexemes' : List Lexeme}
    (yields : Yields text lexemes) (yields' : Yields text' lexemes')
    (delimited : ∀ {rest}, Delimited rest → Delimited (text' ++ rest)) :
    Yields (text ++ text') (lexemes ++ lexemes') := by
  intro rest further delimitedRest lexes
  rw [List.append_assoc, List.append_assoc]
  exact yields (delimited delimitedRest) (yields' delimitedRest lexes)

def chars (pieces : List String) : List Char :=
  pieces.flatMap String.toList

@[simp] theorem chars_nil : chars [] = [] :=
  rfl

@[simp] theorem chars_cons (piece : String) (pieces : List String) :
    chars (piece :: pieces) = piece.toList ++ chars pieces :=
  List.flatMap_cons

@[simp] theorem chars_append (pieces pieces' : List String) :
    chars (pieces ++ pieces') = chars pieces ++ chars pieces' :=
  List.flatMap_append

theorem delimited_furtherItems (items : List Expr) {rest : List Char}
    (delimited : Delimited rest) :
    Delimited (chars (piecesOfFurtherItems items) ++ rest) := by
  cases items with
  | nil => exact delimited
  | cons first further => exact delimited_cons rfl (by decide)

mutual

/-- The text of an expression has the lexemes of its groups. -/
theorem yields_term : ∀ {expr : Expr}, (∀ node ∈ expr.nodes, node.HasJavaWord) →
    Yields (chars (pieces expr)) (term expr).lexemes
  | .literal note value, words => by
      have units : ∀ c, value = .character c → isUnit c = true := by
        rintro c rfl
        exact words _ (List.mem_singleton_self _)
      simpa [pieces, term] using yields_literal units
  | .group _ inner, words => by
      have yieldsInner := yields_term (List.forall_mem_cons.mp words).2
      have alone : Yields (chars (pieces inner)) (Term.joined [term inner]) := by
        simpa [Term.joined, Term.joinedFurther] using yieldsInner
      simpa [pieces, term, Bracket.opens, Bracket.closes] using yields_bracketed .round alone
  | .binary _ op left right, words => by
      obtain ⟨leftWords, rightWords⟩ :=
        List.forall_mem_append.mp (List.forall_mem_cons.mp words).2
      have yieldsLeft := yields_term leftWords
      have yieldsRight := yields_term rightWords
      by_cases power : op = .power
      · subst power
        have both : Yields (chars (pieces left) ++ ',' :: ' ' :: chars (pieces right))
            (Term.joined [term left, term right]) := by
          have delimits : ∀ {rest}, Delimited rest →
              Delimited (',' :: ' ' :: chars (pieces right) ++ rest) :=
            fun _ => delimited_cons rfl (by decide)
          simpa [Term.joined, Term.joinedFurther] using
            yieldsLeft.append (yields_comma yieldsRight) delimits
        have named : isName "Math.pow".toList = true := by decide +kernel
        simpa [pieces, term, Bracket.opens, Bracket.closes] using yields_headed .round named both
      · rw [term_binary power, pieces_binary power]
        simpa [toString] using yields_infixed yieldsLeft yieldsRight
  | .access _ name, words => by
      have named : isName name.toList = true := words _ (List.mem_singleton_self _)
      simpa [pieces, term, Term.lexemes, signed] using (scans_name named).yields
  | .element _ name index, words => by
      obtain ⟨named, indexWords⟩ := List.forall_mem_cons.mp words
      have alone : Yields (chars (pieces index)) (Term.joined [term index]) := by
        simpa [Term.joined, Term.joinedFurther] using yields_term indexWords
      simpa [pieces, term, Bracket.opens, Bracket.closes] using yields_headed .square named alone
  | .call note name arguments, words => by
      obtain ⟨named, argumentWords⟩ := List.forall_mem_cons.mp words
      simpa [pieces, term, Bracket.opens, Bracket.closes] using
        yields_headed .round named (yields_items argumentWords)
  | .list _ elements, words => by
      have yieldsElements := yields_items (List.forall_mem_cons.mp words).2
      simpa [pieces, term, Bracket.opens, Bracket.closes] using
        yields_bracketed .curly yieldsElements

theorem yields_items : ∀ {items : List Expr},
    (∀ node ∈ Expr.nodesOfList items, node.HasJavaWord) →
    Yields (chars (piecesOfItems items)) (Term.joined (termsOfItems items))
  | [], _ => yields_nil
  | first :: rest, words => by
      obtain ⟨firstWords, restWords⟩ := List.forall_mem_append.mp words
      simpa [piecesOfItems, termsOfItems, Term.joined] using
        (yields_term firstWords).append (yields_furtherItems restWords)
          (delimited_furtherItems rest)

theorem yields_furtherItems : ∀ {items : List Expr},
    (∀ node ∈ Expr.nodesOfList items, node.HasJavaWord) →
    Yields (chars (piecesOfFurtherItems items)) (Term.joinedFurther (termsOfItems items))
  | [], _ => yields_nil
  | first :: rest, words => by
      obtain ⟨firstWords, restWords⟩ := List.forall_mem_append.mp words
      have joined := (yields_term firstWords).append (yields_furtherItems restWords)
        (delimited_furtherItems rest)
      simpa [piecesOfFurtherItems, termsOfItems, Term.joinedFurther] using yields_comma joined

end

/-- The text of an expression is divided into the lexemes of its groups. -/
theorem lexes_expression {expr : Expr} (words : ∀ node ∈ expr.nodes, node.HasJavaWord) :
    Lexes (expression expr).toList (term expr).lexemes := by
  have lexes := yields_term words delimited_nil .nil
  rwa [List.append_nil, List.append_nil, chars, ← String.toList_join] at lexes

/-- What is found in brackets is found in the whole. -/
theorem isFound_of_brackets {head : Option String} {kind : Bracket} {items : List Term}
    (found : ∀ lexeme ∈ (Term.brackets [] head kind items).lexemes, lexeme.IsFound) :
    (∀ name, head = some name → isName name.toList = true) ∧
      ∀ lexeme ∈ Term.joined items, lexeme.IsFound := by
  obtain ⟨named, bracketed⟩ := List.forall_mem_append.mp found
  obtain ⟨-, inside⟩ := List.forall_mem_cons.mp bracketed
  refine ⟨?_, (List.forall_mem_append.mp inside).1⟩
  rintro name rfl
  exact named (.leaf (.name name)) (List.mem_singleton_self _)

mutual

/-- Where the text is divided into these lexemes, every name in it is a name of Java. -/
theorem hasJavaWord_of_isFound : ∀ {expr : Expr},
    (∀ lexeme ∈ (term expr).lexemes, lexeme.IsFound) → ∀ node ∈ expr.nodes, node.HasJavaWord
  | .literal note value, found => by
      refine List.forall_mem_singleton.mpr ?_
      cases value with
      | character c =>
          have written : (literal (.character c)).toList = Quoted.quote '\'' [c] :=
            String.toList_ofList
          rw [term, written] at found
          exact found _ (List.mem_singleton_self _) c rfl
      | _ => trivial
  | .group _ inner, found => by
      have innerFound : ∀ lexeme ∈ (term inner).lexemes, lexeme.IsFound := by
        simpa [Term.joined, Term.joinedFurther] using (isFound_of_brackets found).2
      exact List.forall_mem_cons.mpr ⟨trivial, hasJavaWord_of_isFound innerFound⟩
  | .binary _ op left right, found => by
      have sides : (∀ lexeme ∈ (term left).lexemes, lexeme.IsFound) ∧
          ∀ lexeme ∈ (term right).lexemes, lexeme.IsFound := by
        by_cases power : op = .power
        · subst power
          have inside := (isFound_of_brackets found).2
          simp only [Term.joined, Term.joinedFurther, List.append_nil] at inside
          obtain ⟨leftFound, further⟩ := List.forall_mem_append.mp inside
          exact ⟨leftFound, (List.forall_mem_cons.mp further).2⟩
        · rw [term_binary power] at found
          obtain ⟨leftFound, further⟩ := List.forall_mem_append.mp found
          exact ⟨leftFound, (List.forall_mem_cons.mp further).2⟩
      exact List.forall_mem_cons.mpr ⟨trivial, List.forall_mem_append.mpr
        ⟨hasJavaWord_of_isFound sides.1, hasJavaWord_of_isFound sides.2⟩⟩
  | .access _ name, found => by
      have named := found (.leaf (.name name)) (List.mem_singleton_self _)
      exact List.forall_mem_singleton.mpr named
  | .element _ name index, found => by
      obtain ⟨named, inside⟩ := isFound_of_brackets found
      have indexFound : ∀ lexeme ∈ (term index).lexemes, lexeme.IsFound := by
        simpa [Term.joined, Term.joinedFurther] using inside
      exact List.forall_mem_cons.mpr ⟨named name rfl, hasJavaWord_of_isFound indexFound⟩
  | .call _ _ arguments, found => by
      obtain ⟨named, inside⟩ := isFound_of_brackets found
      exact List.forall_mem_cons.mpr ⟨named _ rfl, hasJavaWord_of_items inside⟩
  | .list _ elements, found => by
      obtain ⟨-, inside⟩ := isFound_of_brackets found
      exact List.forall_mem_cons.mpr ⟨trivial, hasJavaWord_of_items inside⟩

theorem hasJavaWord_of_items : ∀ {items : List Expr},
    (∀ lexeme ∈ Term.joined (termsOfItems items), lexeme.IsFound) →
    ∀ node ∈ Expr.nodesOfList items, node.HasJavaWord
  | [], _ => List.forall_mem_nil _
  | first :: rest, found => by
      obtain ⟨firstFound, restFound⟩ := List.forall_mem_append.mp found
      exact List.forall_mem_append.mpr
        ⟨hasJavaWord_of_isFound firstFound, hasJavaWord_of_furtherItems restFound⟩

theorem hasJavaWord_of_furtherItems : ∀ {items : List Expr},
    (∀ lexeme ∈ Term.joinedFurther (termsOfItems items), lexeme.IsFound) →
    ∀ node ∈ Expr.nodesOfList items, node.HasJavaWord
  | [], _ => List.forall_mem_nil _
  | first :: rest, found => by
      obtain ⟨-, further⟩ := List.forall_mem_cons.mp found
      obtain ⟨firstFound, restFound⟩ := List.forall_mem_append.mp further
      exact List.forall_mem_append.mpr
        ⟨hasJavaWord_of_isFound firstFound, hasJavaWord_of_furtherItems restFound⟩

end

/-- The text of an expression has the lexemes of its groups only if its names are names of
Java. -/
theorem hasJavaWord_of_lexes {expr : Expr}
    (lexes : Lexes (expression expr).toList (term expr).lexemes) :
    ∀ node ∈ expr.nodes, node.HasJavaWord :=
  hasJavaWord_of_isFound lexes.isFound

end Java

end Procedural
